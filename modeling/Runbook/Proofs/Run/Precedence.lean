import Runbook.Proofs.Run.History

/-!
# Nodes and their predecessors

No node runs before a predecessor, or in its place. When a node begins, each node
that it comes from is completed or no open path leads to it; and since branches
only close, the latter will never run. Main statement:
`visited_follow_their_predecessors`.
-/

namespace Runbook.Run.Tracker

variable {t u before : Tracker} {id source : String} {calls : List Call}

/-- Two joined nodes are those of an edge that enters the second one in the plan. -/
theorem joins_iff_incoming {w : Workflow} {u v : String} :
    Graph.Joins w.nodes w.edges u v ↔ ∃ e ∈ (Plan.ofWorkflow w).incoming v, e.source = u := by
  simp only [Graph.joins_iff, Plan.mem_incoming_iff]
  exact exists_congr fun e => by tauto

/-- A node off all open paths is not visited, now or later. -/
theorem Coherent.not_visited_of_not_open (hu : u.Coherent) (hfollows : before.Follows u)
    (hclosed : ¬ before.plan.Open before.record source) : source ∉ u.record.visited := by
  intro hvisited
  have hopen := hu.grounded.opened hu.sound ((hu.grounded.visited source).mp hvisited)
  rw [hfollows.plan_eq] at hopen
  exact hclosed (hopen.anti hfollows.keeps)

/-- A source of a node that may begin is completed, or no open path leads to it. -/
theorem completed_or_not_open (hfree : before.plan.Free before.record id) {e : Edge}
    (he : e ∈ before.plan.incoming id) :
    (before.record.slot e.source).status = .completed ∨
      ¬ before.plan.Open before.record e.source := by
  by_cases hclosed : before.plan.Closed before.record e
  · exact .inl hclosed.2.1
  · rw [or_iff_not_imp_right, not_not]
    exact hfree.settled e he hclosed

/-- A node that may begin, and that edges enter, is entered along one of them: from a
completed node, and from a decision by the branch that it took. -/
theorem exists_entered (hdecided : before.plan.Decided before.record)
    (hfree : before.plan.Free before.record id) (hin : before.plan.incoming id ≠ []) :
    ∃ e ∈ before.plan.incoming id, (before.record.slot e.source).status = .completed ∧
      (before.plan.kind? e.source = some .decision → ∃ b,
        e.sourceHandle = some (branchHandle b) ∧
        (before.record.slot e.source).selectedHandle = some (branchHandle b)) := by
  obtain ⟨e, he, hcompleted, hopen⟩ := hfree.ready.entered.resolve_left hin
  exact ⟨e, he, hcompleted, fun hdecision => hdecided.branch hdecision hcompleted hopen⟩

/-- What was visited before a node began stands before it. -/
theorem idxOf_lt_of_firstBegins (ht : t.Coherent) (hfirst : t.FirstBegins calls id before)
    (hsource : source ∈ before.record.visited) :
    (t.afterAll calls).record.visited.idxOf source <
      (t.afterAll calls).record.visited.idxOf id := by
  obtain ⟨-, -, -, hbegun, hafter⟩ := ht.of_firstBegins hfirst
  obtain ⟨-, -, -, -, hold, -⟩ := hfirst
  have hgrown := (hbegun.trans hafter).visited
  have hlt := (hgrown.mem_iff_idxOf_lt_length source).mp hsource
  have hge := mt (hgrown.mem_iff_idxOf_lt_length id).mpr hold
  omega

/-- **A source of a visited node** was completed when the node began, and stands before
it, or is not visited by these calls or any that follow. -/
theorem Coherent.completed_or_never_visited (ht : t.Coherent)
    (hfirst : t.FirstBegins calls id before) {e : Edge} (he : e ∈ t.plan.incoming id) :
    (before.record.slot e.source).status = .completed ∧
        (t.afterAll calls).record.visited.idxOf e.source <
          (t.afterAll calls).record.visited.idxOf id ∨
      ∀ more, e.source ∉ (t.afterAll (calls ++ more)).record.visited := by
  obtain ⟨hbefore, hplan, hfree, hbegun, hafter⟩ := ht.of_firstBegins hfirst
  rw [← hplan] at he
  rcases completed_or_not_open hfree he with hcompleted | hclosed
  · have hvisited := (hbefore.grounded.visited e.source).mpr (.inl (by rw [hcompleted]; decide))
    exact .inl ⟨hcompleted, idxOf_lt_of_firstBegins ht hfirst hvisited⟩
  · refine .inr fun more => ?_
    have hsplit : t.afterAll (calls ++ more) = (t.afterAll calls).afterAll more := List.foldl_append
    obtain ⟨hlater, hmore⟩ := (ht.afterAll calls).1.afterAll more
    rw [hsplit]
    exact hlater.not_visited_of_not_open ((hbegun.trans hafter).trans hmore) hclosed

/-- **No node runs before a predecessor, or in its place**, whatever is called in
whatever order. Each visited node began some time; each node that an edge leads
from to it was completed by then, and so stands before it, or is never visited,
whatever is called next. If there are such edges, the node was entered along one
of them, from a completed node, and from a decision by the branch taken. What a
cycle keeps out of the sequence is never visited. -/
theorem visited_follow_their_predecessors (w : Workflow) (clock : Clock) (calls : List Call) :
    let t := (ofWorkflow w clock).afterAll calls
    (∀ v ∈ t.record.visited, ∃ before, (ofWorkflow w clock).FirstBegins calls v before ∧
      (∀ u, Graph.Joins w.nodes w.edges u v →
        (before.record.slot u).status = .completed ∧
          t.record.visited.idxOf u < t.record.visited.idxOf v ∨
        ∀ more, u ∉ ((ofWorkflow w clock).afterAll (calls ++ more)).record.visited) ∧
      ((∃ u, Graph.Joins w.nodes w.edges u v) →
        ∃ e ∈ w.edges, e.target = v ∧ (before.record.slot e.source).status = .completed ∧
          ((Plan.ofWorkflow w).kind? e.source = some .decision → ∃ b,
            e.sourceHandle = some (branchHandle b) ∧
            (before.record.slot e.source).selectedHandle = some (branchHandle b)))) ∧
    ∀ id ∈ w.linearize.excludedIds, id ∉ t.record.visited := by
  intro t
  have hstart := coherent_ofWorkflow w clock
  obtain ⟨ht, hplan⟩ := coherent_afterAll w clock calls
  refine ⟨fun v hv => ?_, fun id hid hvisited => ?_⟩
  · obtain ⟨before, hfirst⟩ := exists_firstBegins calls hstart (by simp [ofWorkflow, Record.initial]) hv
    refine ⟨before, hfirst, fun u hjoins => ?_, fun hsome => ?_⟩
    · obtain ⟨e, he, rfl⟩ := joins_iff_incoming.mp hjoins
      exact hstart.completed_or_never_visited hfirst he
    · obtain ⟨u, hjoins⟩ := hsome
      obtain ⟨-, hsame, hfree, -, -⟩ := hstart.of_firstBegins hfirst
      have hplan' : before.plan = Plan.ofWorkflow w := hsame
      have hdecided : (Plan.ofWorkflow w).Decided before.record := by
        obtain ⟨done, -, -, rfl, -⟩ := hfirst
        exact decided_afterAll w clock done
      obtain ⟨e, he, -⟩ := joins_iff_incoming.mp hjoins
      rw [← hplan'] at he hdecided ⊢
      obtain ⟨e', he', hentered⟩ := exists_entered hdecided hfree (List.ne_nil_of_mem he)
      rw [hplan'] at he'
      obtain ⟨hlink, htarget⟩ := Plan.mem_incoming_iff.mp he'
      exact ⟨e', (Graph.mem_links_iff.mp hlink).1, htarget, hentered⟩
  · have hout := (Graph.mem_excludedIds_iff.mp hid).2
    have hmem := ht.grounded.mem_order id ((ht.grounded.visited id).mp hvisited)
    rw [hplan] at hmem
    exact hout hmem

end Runbook.Run.Tracker
