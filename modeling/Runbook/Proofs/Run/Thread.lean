import Runbook.Proofs.Check.Errors
import Runbook.Proofs.Run.History

/-!
# One thread for each entry

On a graph without errors at most one edge out of a completed node can be
followed. So each node that runs, or may begin, stands at the end of a path of its
own from a node that no edge enters, and there are no more of them than of those.
With a single entry, the visited nodes are one such path. Main statement:
`single_thread_per_entry`.
-/

namespace Runbook.Run

open Relation

namespace Plan

variable {p : Plan} {r r' : Record} {id u v : String}

/-- A completed node hands over along an edge that it has not closed. -/
def HandsOver (p : Plan) (r : Record) (u v : String) : Prop :=
  ∃ e ∈ p.links, e.source = u ∧ e.target = v ∧
    (r.slot e.source).status = .completed ∧ ¬ p.Closed r e

theorem HandsOver.mono (hkeeps : Keeps r r') (h : p.HandsOver r u v) : p.HandsOver r' u v := by
  obtain ⟨e, he, rfl, rfl, hcompleted, hopen⟩ := h
  refine ⟨e, he, rfl, rfl, ?_, ?_⟩
  · rw [hkeeps e.source hcompleted]
    exact hcompleted
  · rwa [hkeeps.closed_iff hcompleted]

/-- Of the edges that leave a node one can be followed at most. -/
def Narrow (p : Plan) : Prop :=
  ∀ e ∈ p.links, ∀ e' ∈ p.links, e.source = e'.source →
    (p.kind? e.source = some .decision → e.sourceHandle = e'.sourceHandle) → e = e'

theorem Narrow.rightUnique (h : p.Narrow) (r : Record) : Relator.RightUnique (p.HandsOver r) := by
  rintro u v v' ⟨e, he, rfl, rfl, hcompleted, hopen⟩ ⟨e', he', hsource, rfl, -, hopen'⟩
  rw [h e he e' he' hsource.symm fun hdecision => ?_]
  -- both edges carry the branch that the decision took
  have hhandle := handle_of_not_closed hdecision hcompleted hopen
  rw [← hsource] at hdecision hcompleted hhandle
  rw [hhandle, handle_of_not_closed hdecision hcompleted hopen']

/-! ## Paths from the entries -/

/-- The ids of a plan that no edge enters. -/
def entries (p : Plan) : List String := p.ids.filter fun id => (p.incoming id).isEmpty

theorem mem_entries_iff : id ∈ p.entries ↔ id ∈ p.ids ∧ p.incoming id = [] := by
  simp [entries]

/-- A node that is ready was handed over to, from entry to entry's successor and so on. -/
theorem Grounded.exists_entry (hsound : p.Sound) (h : p.Grounded r) : ∀ id ∈ p.order,
    p.Ready r id → ∃ entry ∈ p.entries, ReflTransGen (p.HandsOver r) entry id := by
  refine hsound.induction fun id hid ih hready => ?_
  rcases hready.entered with hnone | ⟨e, he, hcompleted, hopen⟩
  · exact ⟨id, mem_entries_iff.mpr ⟨hsound.sequenced.subset id hid, hnone⟩, .refl⟩
  · obtain ⟨hlink, htarget⟩ := mem_incoming_iff.mp he
    have hbegun : (r.slot e.source).Begun := .inl (by rw [hcompleted]; decide)
    obtain ⟨entry, hentry, hpath⟩ := ih e he (h.ready e.source hbegun)
    exact ⟨entry, hentry, hpath.tail ⟨e, hlink, rfl, htarget, hcompleted, hopen⟩⟩

/-- Where a relation leads on to one thing at most, there are no more ends of paths
than starts. -/
theorem length_le_of_paths {R : String → String → Prop} (hunique : Relator.RightUnique R)
    {ends starts : List String} (hnodup : ends.Nodup) (hend : ∀ v ∈ ends, ∀ next, ¬ R v next)
    (hpath : ∀ v ∈ ends, ∃ start ∈ starts, ReflTransGen R start v) :
    ends.length ≤ starts.length := by
  choose! start hstart hreach using hpath
  have hstop : ∀ v ∈ ends, ∀ v', ReflTransGen R v v' → v = v' := by
    intro v hv v' hon
    rcases hon.cases_head with heq | ⟨next, hnext, -⟩
    · exact heq
    · exact absurd hnext (hend v hv next)
  -- two paths from one start follow each other to their ends
  have hinj : ∀ v ∈ ends, ∀ v' ∈ ends, start v = start v' → v = v' := by
    intro v hv v' hv' heq
    have hreach' := hreach v' hv'
    rw [← heq] at hreach'
    rcases ReflTransGen.total_of_right_unique hunique (hreach v hv) hreach' with hon | hon
    · exact hstop v hv v' hon
    · exact (hstop v' hv' v hon).symm
  have hsub : ends.map start ⊆ starts := by
    intro x hx
    obtain ⟨v, hv, rfl⟩ := List.mem_map.mp hx
    exact hstart v hv
  rw [← List.length_map start]
  exact (hnodup.map_on hinj).length_le_of_subset hsub

/-! ## Active nodes -/

theorem eligible_nodup (h : p.Sound) (r : Record) : (p.eligible r).Nodup := by
  have hfree : (p.free r).Nodup := h.sequenced.nodup.filter _
  rw [eligible_eq]
  split
  · exact List.nodup_nil
  · refine List.nodup_append.mpr ⟨hfree.filter _, hfree.filter _, fun a ha b hb heq => ?_⟩
    subst heq
    have hout := (List.mem_filter.mp hb).2
    simp only [Bool.not_eq_true', List.contains_eq_mem, decide_eq_false_iff_not] at hout
    exact hout ha

/-- The nodes that may begin, and those that run. -/
def active (p : Plan) (r : Record) : List String :=
  p.eligible r ++ (r.slots.filter (·.2.status == .running)).map Prod.fst

theorem length_active (p : Plan) (r : Record) :
    (p.active r).length = (p.eligible r).length + r.countOf .running := by
  rw [active, List.length_append, List.length_map, Record.countOf]

theorem status_of_mem_running (hnodup : r.ids.Nodup)
    (h : id ∈ (r.slots.filter (·.2.status == .running)).map Prod.fst) :
    (r.slot id).status = .running := by
  obtain ⟨entry, hentry, rfl⟩ := List.mem_map.mp h
  obtain ⟨hmem, hrunning⟩ := List.mem_filter.mp hentry
  rw [Record.slot_eq_of_mem hnodup hmem]
  simpa using hrunning

theorem active_nodup (hsound : p.Sound) (h : p.Grounded r) : (p.active r).Nodup := by
  have hids : r.ids.Nodup := h.ids_eq ▸ hsound.ids_nodup
  have hrunning : ((r.slots.filter (·.2.status == .running)).map Prod.fst).Nodup :=
    hids.sublist (List.filter_sublist.map Prod.fst)
  refine List.nodup_append.mpr ⟨eligible_nodup hsound r, hrunning, fun a ha b hb heq => ?_⟩
  have hpending := ((mem_eligible_iff hsound).mp ha).2.2.pending
  rw [heq, status_of_mem_running hids hb] at hpending
  cases hpending

/-- An active node is ready, and not completed. -/
theorem Grounded.of_mem_active (hsound : p.Sound) (h : p.Grounded r) (hid : id ∈ p.active r) :
    id ∈ p.order ∧ p.Ready r id ∧ (r.slot id).status ≠ .completed := by
  rcases List.mem_append.mp hid with helig | hmem
  · obtain ⟨-, -, hfree⟩ := (mem_eligible_iff hsound).mp helig
    exact ⟨hfree.mem, hfree.ready, by rw [hfree.pending]; decide⟩
  · have hrunning := status_of_mem_running (h.ids_eq ▸ hsound.ids_nodup) hmem
    have hbegun : (r.slot id).Begun := .inl (by rw [hrunning]; decide)
    exact ⟨h.mem_order id hbegun, h.ready id hbegun, by rw [hrunning]; decide⟩

/-- **No more nodes are active than entries.** -/
theorem Grounded.length_active_le (hsound : p.Sound) (hnarrow : p.Narrow) (h : p.Grounded r) :
    (p.active r).length ≤ p.entries.length := by
  refine length_le_of_paths (hnarrow.rightUnique r) (active_nodup hsound h) ?_ ?_
  · rintro id hid next ⟨e, -, rfl, -, hcompleted, -⟩
    exact (h.of_mem_active hsound hid).2.2 hcompleted
  · intro id hid
    obtain ⟨horder, hready, -⟩ := h.of_mem_active hsound hid
    exact h.exists_entry hsound id horder hready

/-! ## The visited nodes of a single thread -/

/-- The visited nodes are a path from an entry, along which each hands over to the
next. -/
structure Threaded (p : Plan) (r : Record) (entry : String) : Prop where
  head : ∀ id ∈ r.visited.head?, id = entry
  nodup : r.visited.Nodup
  chain : r.visited.IsChain (p.HandsOver r)

/-- In a path in which each hands over to the next, only the last has not. -/
theorem exists_handsOver_of_ne_last {R : String → String → Prop} {l : List String}
    (hchain : l.IsChain R) (hu : u ∈ l) : l.getLast? = some u ∨ ∃ next ∈ l, R u next := by
  obtain ⟨before, after, rfl⟩ := List.append_of_mem hu
  cases after with
  | nil => exact .inl (by simp)
  | cons next after =>
      have htail := (List.isChain_append.mp hchain).2.1
      exact .inr ⟨next, by simp, (List.isChain_cons_cons.mp htail).1⟩

/-- What begins first in a run is an entry, and only that is. -/
theorem Threaded.visited_eq_nil {entry : String} (hsound : p.Sound)
    (hentries : ∀ id ∈ p.entries, id = entry) (h : p.Threaded r entry) (hid : id ∈ p.order)
    (hnone : p.incoming id = []) (hnew : id ∉ r.visited) : id = entry ∧ r.visited = [] := by
  have heq : id = entry :=
    hentries id (mem_entries_iff.mpr ⟨hsound.sequenced.subset id hid, hnone⟩)
  refine ⟨heq, ?_⟩
  cases hvisited : r.visited with
  | nil => rfl
  | cons first rest =>
      have hfirst : first = entry := h.head first (by simp [hvisited])
      rw [heq, hvisited, hfirst] at hnew
      exact absurd List.mem_cons_self hnew

/-- Any other node is handed over to by the one that was visited last. -/
theorem Threaded.getLast?_visited {entry : String} (hnarrow : p.Narrow) (h : p.Threaded r entry)
    (hgrounded : p.Grounded r) (hu : p.HandsOver r u id) (hnew : id ∉ r.visited) :
    r.visited.getLast? = some u := by
  have hmem : u ∈ r.visited := by
    obtain ⟨e, -, rfl, -, hcompleted, -⟩ := hu
    exact (hgrounded.visited e.source).mpr (.inl (by rw [hcompleted]; decide))
  refine (exists_handsOver_of_ne_last h.chain hmem).resolve_right ?_
  rintro ⟨next, hnext, hhands⟩
  rw [hnarrow.rightUnique r hhands hu] at hnext
  exact hnew hnext

/-- **The step of the path**: a node that begins for the first time continues it. -/
theorem Threaded.snoc {entry : String} (hsound : p.Sound) (hnarrow : p.Narrow)
    (hentries : ∀ id ∈ p.entries, id = entry) (hgrounded : p.Grounded r)
    (h : p.Threaded r entry) (hkeeps : Keeps r r') (hfree : p.Free r id)
    (hnew : id ∉ r.visited) (hvisited : r'.visited = r.visited ++ [id]) :
    p.Threaded r' entry := by
  rcases hfree.ready.entered with hnone | ⟨e, he, hcompleted, hopen⟩
  · obtain ⟨heq, hempty⟩ := h.visited_eq_nil hsound hentries hfree.mem hnone hnew
    rw [hempty, List.nil_append] at hvisited
    refine ⟨?_, ?_, ?_⟩ <;> simp [hvisited, heq]
  · obtain ⟨hlink, htarget⟩ := mem_incoming_iff.mp he
    have hhands : p.HandsOver r e.source id := ⟨e, hlink, rfl, htarget, hcompleted, hopen⟩
    have hlast := h.getLast?_visited hnarrow hgrounded hhands hnew
    have hsome : r.visited ≠ [] := by
      intro hempty
      simp [hempty] at hlast
    refine ⟨?_, ?_, ?_⟩
    · rw [hvisited, List.head?_append_of_ne_nil _ hsome]
      exact h.head
    · rw [hvisited]
      refine List.nodup_append.mpr ⟨h.nodup, List.nodup_singleton id, fun a ha b hb heq => ?_⟩
      rw [heq, List.mem_singleton.mp hb] at ha
      exact hnew ha
    · rw [hvisited, List.isChain_append]
      refine ⟨h.chain.imp fun a b => HandsOver.mono hkeeps, List.isChain_singleton id, ?_⟩
      intro x hx y hy
      rw [hlast] at hx
      obtain rfl : e.source = x := by simpa using hx
      obtain rfl : id = y := by simpa using hy
      exact hhands.mono hkeeps

/-! ## Plans of valid workflows -/

variable {w : Workflow}

/-- Where all edges join nodes, a plan leaves none out. -/
theorem links_ofWorkflow (h : Check.Narrow w) : (ofWorkflow w).links = w.edges := by
  refine List.filter_eq_self.mpr fun e he => ?_
  have hsource := Graph.mem_firsts_ids_iff.mpr (h.source_mem e he)
  have htarget := Graph.mem_firsts_ids_iff.mpr (h.target_mem e he)
  rw [Bool.and_eq_true]
  exact ⟨by simpa using hsource, by simpa using htarget⟩

theorem incoming_ofWorkflow (h : Check.Narrow w) (id : String) :
    (ofWorkflow w).incoming id = w.incoming id := by
  rw [incoming, links_ofWorkflow h, Workflow.incoming]

theorem narrow_ofWorkflow (h : Check.Narrow w) : (ofWorkflow w).Narrow := by
  intro e he e' he' hsource hsame
  rw [links_ofWorkflow h] at he he'
  obtain ⟨n, hfind, hn⟩ := Graph.exists_find? (h.source_mem e he)
  have hkind : (ofWorkflow w).kind? e.source = some n.kind := by
    rw [kind?, node?, ofWorkflow, Graph.find?_firsts, hfind]
    rfl
  rw [hkind] at hsame
  refine h.unique n (List.mem_of_find?_eq_some hfind) e ?_ e' ?_ fun hdecision =>
    hsame (congrArg some hdecision)
  · exact List.mem_filter.mpr ⟨he, by simp [hn]⟩
  · exact List.mem_filter.mpr ⟨he', by simp [hn, hsource]⟩

theorem length_entries_le (h : Check.Narrow w) :
    (ofWorkflow w).entries.length ≤
      (w.nodes.filter fun n => (w.incoming n.id).isEmpty).length := by
  have hentries : (ofWorkflow w).entries =
      ((Graph.firsts w.nodes).filter fun n => (w.incoming n.id).isEmpty).map (·.id) := by
    simp only [entries, incoming_ofWorkflow h]
    exact List.filter_map
  rw [hentries, List.length_map]
  exact ((Graph.firstsFrom_sublist w.nodes []).filter _).length_le

/-- With one trigger that no edge enters, and from which edges lead to every node,
there is one entry. -/
theorem entries_eq_of_trigger (h : Check.Narrow w) {start : String}
    (hreach : ∀ id ∈ w.nodeIds, ReflTransGen (Graph.Connects w.edges) start id) :
    ∀ id ∈ (ofWorkflow w).entries, id = start := by
  intro id hid
  obtain ⟨hmem, hnone⟩ := mem_entries_iff.mp hid
  rw [incoming_ofWorkflow h] at hnone
  rcases (hreach id (Graph.mem_firsts_ids_iff.mp hmem)).cases_tail with heq | ⟨u, -, e, he, -, ht⟩
  · exact heq
  · have hin : e ∈ w.incoming id := List.mem_filter.mpr ⟨he, by simpa using ht⟩
    rw [hnone] at hin
    exact absurd hin List.not_mem_nil

end Plan

namespace Tracker

variable {t t' : Tracker} {entry : String}

theorem Coherent.call_threaded (h : t.Coherent) (hnarrow : t.plan.Narrow)
    (hentries : ∀ id ∈ t.plan.entries, id = entry) (c : Call) (hcall : t.call c = .ok t')
    (hthreaded : t.plan.Threaded t.record entry) : t.plan.Threaded t'.record entry := by
  have hkeeps := h.call_keeps c hcall
  rcases h.call_visited c hcall with hsame | ⟨id, -, hfree, hnew, hvisited⟩
  · refine ⟨?_, ?_, ?_⟩ <;> rw [hsame]
    · exact hthreaded.head
    · exact hthreaded.nodup
    · exact hthreaded.chain.imp fun a b => Plan.HandsOver.mono hkeeps
  · exact hthreaded.snoc h.sound hnarrow hentries h.grounded hkeeps hfree hnew hvisited

theorem threaded_afterAll (w : Workflow) (clock : Clock) (calls : List Call)
    (hnarrow : (Plan.ofWorkflow w).Narrow)
    (hentries : ∀ id ∈ (Plan.ofWorkflow w).entries, id = entry) :
    (Plan.ofWorkflow w).Threaded ((ofWorkflow w clock).afterAll calls).record entry := by
  have hrun := afterAll_induction (P := fun u => u.Coherent ∧ u.plan = Plan.ofWorkflow w ∧
    (Plan.ofWorkflow w).Threaded u.record entry) ?_ calls _
    ⟨coherent_ofWorkflow w clock, rfl, ?_⟩
  · exact hrun.2.2
  · rintro u u' c ⟨hu, hplan, hthreaded⟩ hcall
    have hplan' := (hu.call_plan c hcall).trans hplan
    rw [← hplan] at hnarrow hentries hthreaded ⊢
    exact ⟨hu.call c hcall, hplan'.trans hplan.symm,
      hu.call_threaded hnarrow hentries c hcall hthreaded⟩
  · refine ⟨?_, ?_, ?_⟩ <;> simp [ofWorkflow, Record.initial]

/-- **One thread for each entry.** On a workflow without errors, whatever is called
in whatever order, no more nodes run or may begin than there are nodes that no edge
enters. If there is nothing to say about its triggers either, that is one node at
most, and the visited nodes are a path of the graph that starts at the trigger and
leaves each decision by the branch that it took. -/
theorem single_thread_per_entry (w : Workflow) (hvalid : w.check.valid = true) (clock : Clock)
    (calls : List Call) :
    let t := (ofWorkflow w clock).afterAll calls
    t.eligible.length + t.record.countOf .running ≤
        (w.nodes.filter fun n => (w.incoming n.id).isEmpty).length ∧
    ((∀ rule ∈ [Check.Rule.noTrigger, .multipleTriggers, .triggerHasInput, .unreachable],
        rule.code ∉ w.check.codes) →
      t.eligible.length + t.record.countOf .running ≤ 1 ∧
      ∃ start ∈ w.nodes, start.kind = .trigger ∧
        (∀ id ∈ t.record.visited.head?, id = start.id) ∧ t.record.visited.Nodup ∧
        t.record.visited.IsChain fun u v => ∃ e ∈ w.edges, e.source = u ∧ e.target = v ∧
          ((Plan.ofWorkflow w).kind? u = some .decision → ∃ b,
            e.sourceHandle = some (branchHandle b) ∧
            (t.record.slot u).selectedHandle = some (branchHandle b))) := by
  intro t
  obtain ⟨ht, hplan⟩ := coherent_afterAll w clock calls
  have hedges := Check.narrow_of_valid hvalid
  have hnarrow := Plan.narrow_ofWorkflow hedges
  have hactive : t.eligible.length + t.record.countOf .running ≤
      (Plan.ofWorkflow w).entries.length := by
    calc t.eligible.length + t.record.countOf .running
        = (t.plan.active t.record).length := (Plan.length_active _ _).symm
      _ ≤ t.plan.entries.length := ht.grounded.length_active_le ht.sound (hplan ▸ hnarrow)
      _ = (Plan.ofWorkflow w).entries.length := by rw [hplan]
  refine ⟨hactive.trans (Plan.length_entries_le hedges), fun hrules => ?_⟩
  obtain ⟨start, hstart, hkind, -, hreach⟩ := Check.exists_single_trigger fun rule hrule =>
    Check.not_mentions_of_codes (hrules rule hrule)
  have hentries := Plan.entries_eq_of_trigger hedges hreach
  have hone : (Plan.ofWorkflow w).entries.length ≤ [start.id].length := by
    refine ((Plan.sound_ofWorkflow w).ids_nodup.filter _).length_le_of_subset fun id hid => ?_
    exact List.mem_singleton.mpr (hentries id hid)
  have hthreaded := threaded_afterAll w clock calls hnarrow hentries
  refine ⟨hactive.trans hone, start, hstart, hkind, hthreaded.head, hthreaded.nodup,
    hthreaded.chain.imp ?_⟩
  rintro u v ⟨e, he, rfl, rfl, hcompleted, hopen⟩
  rw [Plan.links_ofWorkflow hedges] at he
  exact ⟨e, he, rfl, rfl, fun hdecision =>
    (decided_afterAll w clock calls).branch hdecision hcompleted hopen⟩

/-- A workflow with two branches that meet again. -/
def fork : Workflow where
  id := "wf_1"
  name := "Fork"
  description := none
  icon := none
  nodes := [
    ⟨"start", .origin, "Start", none, none, none, .trigger .manual []⟩,
    ⟨"size", .origin, "Size", none, none, none, .decision (some "Is it small?")⟩,
    ⟨"read", .origin, "Read", none, none, none, .prompt (some "Read it.")⟩,
    ⟨"split", .origin, "Split", none, none, none, .prompt (some "Split it.")⟩,
    ⟨"end", .origin, "End", none, none, none, .output⟩]
  edges := [
    ⟨"e1", "start", "size", none, none, none, false, Edge.defaultShape⟩,
    ⟨"e2", "size", "read", some "true", none, none, false, Edge.defaultShape⟩,
    ⟨"e3", "size", "split", some "false", none, none, false, Edge.defaultShape⟩,
    ⟨"e4", "read", "end", none, none, none, false, Edge.defaultShape⟩,
    ⟨"e5", "split", "end", none, none, none, false, Edge.defaultShape⟩]
  createdAt := 0
  updatedAt := 0
  version := Workflow.defaultVersion
  author := none
  exportTarget := none
  exportPath := none

theorem single_thread_of_fork :
    let t := (ofWorkflow fork (.still 0)).afterAll
      [.begin "start", .complete "start" none none, .begin "size",
        .complete "size" none (some true), .begin "read", .complete "read" none none]
    t.record.visited = ["start", "size", "read"] ∧ t.eligible = ["end"] ∧
    t.eligible.length + t.record.countOf .running ≤ 1 ∧
    ∃ start ∈ fork.nodes, start.kind = .trigger ∧
      ∀ id ∈ t.record.visited.head?, id = start.id := by
  intro t
  obtain ⟨hone, start, hstart, hkind, hhead, -⟩ :=
    (single_thread_per_entry fork (by decide +kernel) (.still 0) _).2 (by decide +kernel)
  exact ⟨by decide +kernel, by decide +kernel, hone, start, hstart, hkind, hhead⟩

end Tracker

end Runbook.Run
