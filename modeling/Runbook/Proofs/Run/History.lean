import Runbook.Proofs.Run.Coherence

/-!
# What stays along calls

What no call takes back: a completed node keeps its slot, a completed decision
has taken a branch, and the visited nodes only grow, by one that was on offer.
`Coherent.call_slot` says once what an accepted call does to the slots, and the
rest follows. `exists_firstBegins` finds the call with which a visited node began.
-/

namespace Runbook.Run

namespace Plan

variable {p : Plan} {r r' r'' : Record} {e : Edge}

theorem Keeps.refl (r : Record) : Keeps r r := fun _ _ => rfl

theorem Keeps.trans (h : Keeps r r') (h' : Keeps r' r'') : Keeps r r'' := by
  intro id hcompleted
  have hslot := h id hcompleted
  rw [h' id (by rw [hslot]; exact hcompleted), hslot]

/-- Decisions that are completed have taken a branch. -/
def Decided (p : Plan) (r : Record) : Prop :=
  ∀ id, p.kind? id = some .decision → (r.slot id).status = .completed →
    ∃ b, (r.slot id).selectedHandle = some (branchHandle b)

theorem handle_of_not_closed (hdecision : p.kind? e.source = some .decision)
    (hcompleted : (r.slot e.source).status = .completed) (hopen : ¬ p.Closed r e) :
    e.sourceHandle = (r.slot e.source).selectedHandle := by
  by_contra hother
  exact hopen ⟨hdecision, hcompleted, hother⟩

/-- What leaves a completed decision, and is not closed, is the branch it took. -/
theorem Decided.branch (h : p.Decided r) (hdecision : p.kind? e.source = some .decision)
    (hcompleted : (r.slot e.source).status = .completed) (hopen : ¬ p.Closed r e) :
    ∃ b, e.sourceHandle = some (branchHandle b) ∧
      (r.slot e.source).selectedHandle = some (branchHandle b) := by
  obtain ⟨b, hb⟩ := h e.source hdecision hcompleted
  exact ⟨b, (handle_of_not_closed hdecision hcompleted hopen).trans hb, hb⟩

end Plan

namespace Tracker

variable {t t' : Tracker} {id : String}

/-! ## One call -/

/-- **What a call does to the slots**: it changes one at most, and no completed one;
a decision that it completes takes a branch. -/
theorem Coherent.call_slot (h : t.Coherent) (c : Call) (hcall : t.call c = .ok t') :
    (∀ other, t'.record.slot other = t.record.slot other) ∨
    ∃ id, (t.record.slot id).status ≠ .completed ∧
      (∀ other, other ≠ id → t'.record.slot other = t.record.slot other) ∧
      (t.plan.kind? id = some .decision → (t'.record.slot id).status = .completed →
        ∃ b, (t'.record.slot id).selectedHandle = some (branchHandle b)) := by
  cases c with
  | start =>
      obtain ⟨-, rfl⟩ := start_eq_ok_iff.mp hcall
      exact .inl (Record.slot_congr (checkFinished_slots t.launch))
  | cancel reason =>
      obtain ⟨-, rfl⟩ := cancel_eq_ok_iff.mp hcall
      exact .inl (Record.slot_congr rfl)
  | begin id =>
      obtain ⟨hid, rfl⟩ := (begin_eq_ok_iff h.sound h.grounded.ids_eq).mp hcall
      obtain ⟨-, -, hfree⟩ := (Plan.mem_eligible_iff h.sound).mp hid
      have hslot := enter_slot (h.mem_launched_ids hid)
      have hlaunched := Record.slot_congr (launched_slots t)
      refine .inr ⟨id, by rw [hfree.pending]; decide, fun other hne => ?_, fun _ hcompleted => ?_⟩
      · rw [hslot, if_neg hne, hlaunched]
      · rw [hslot, if_pos rfl] at hcompleted
        cases hcompleted
  | complete id result outcome =>
      obtain ⟨hrunning, -, houtcome, rfl⟩ := complete_eq_ok_iff.mp hcall
      have hslot := completed_slot (h.of_running hrunning).1 result outcome
      refine .inr ⟨id, by rw [hrunning]; decide, fun other hne => ?_, fun hdecision _ => ?_⟩
      · rw [hslot, if_neg hne]
      · obtain ⟨b, rfl⟩ := Option.isSome_iff_exists.mp (houtcome hdecision)
        rw [hslot, if_pos rfl]
        exact ⟨b, if_pos hdecision⟩
  | fail id error =>
      obtain ⟨hrunning, -, rfl⟩ := fail_eq_ok_iff.mp hcall
      have hslot := failed_slot (h.of_running hrunning).1 error
      refine .inr ⟨id, by rw [hrunning]; decide, fun other hne => ?_, fun _ hcompleted => ?_⟩
      · rw [hslot, if_neg hne]
      · rw [hslot, if_pos rfl] at hcompleted
        cases hcompleted

theorem Coherent.call_keeps (h : t.Coherent) (c : Call) (hcall : t.call c = .ok t') :
    Plan.Keeps t.record t'.record := by
  intro other hcompleted
  rcases h.call_slot c hcall with hsame | ⟨id, hbefore, hother, -⟩
  · exact hsame other
  · exact hother other fun heq => hbefore (heq ▸ hcompleted)

theorem Coherent.call_decided (h : t.Coherent) (c : Call) (hcall : t.call c = .ok t')
    (hdecided : t.plan.Decided t.record) : t.plan.Decided t'.record := by
  intro other hdecision hcompleted
  rcases h.call_slot c hcall with hsame | ⟨id, -, hother, hself⟩
  · rw [hsame] at hcompleted ⊢
    exact hdecided other hdecision hcompleted
  · by_cases heq : other = id
    · subst heq
      exact hself hdecision hcompleted
    · rw [hother other heq] at hcompleted ⊢
      exact hdecided other hdecision hcompleted

/-- **What a call does to the visited nodes**: it adds a node that begins for the
first time, and was on offer. -/
theorem Coherent.call_visited (h : t.Coherent) (c : Call) (hcall : t.call c = .ok t') :
    t'.record.visited = t.record.visited ∨
    ∃ id, c = .begin id ∧ t.plan.Free t.record id ∧ id ∉ t.record.visited ∧
      t'.record.visited = t.record.visited ++ [id] := by
  cases c with
  | start =>
      obtain ⟨-, rfl⟩ := start_eq_ok_iff.mp hcall
      exact .inl (checkFinished_visited t.launch)
  | cancel reason =>
      obtain ⟨-, rfl⟩ := cancel_eq_ok_iff.mp hcall
      exact .inl rfl
  | begin id =>
      obtain ⟨hid, rfl⟩ := (begin_eq_ok_iff h.sound h.grounded.ids_eq).mp hcall
      obtain ⟨-, -, hfree⟩ := (Plan.mem_eligible_iff h.sound).mp hid
      have hvisited : (t.launched.enter id).record.visited =
          if t.record.visited.contains id then t.record.visited else t.record.visited ++ [id] := by
        rw [enter_record (h.mem_launched_ids hid), launched_visited]
      rw [hvisited]
      by_cases hold : id ∈ t.record.visited
      · exact .inl (if_pos (by simpa using hold))
      · exact .inr ⟨id, rfl, hfree, hold, if_neg (by simpa using hold)⟩
  | complete id result outcome =>
      obtain ⟨-, -, -, rfl⟩ := complete_eq_ok_iff.mp hcall
      exact .inl (completed_visited t id result outcome)
  | fail id error =>
      obtain ⟨-, -, rfl⟩ := fail_eq_ok_iff.mp hcall
      exact .inl (failed_visited t id error)

/-! ## Calls in a row -/

/-- What a later state of a run has kept of an earlier one. -/
structure Follows (t u : Tracker) : Prop where
  plan_eq : u.plan = t.plan
  keeps : Plan.Keeps t.record u.record
  visited : t.record.visited <+: u.record.visited

theorem Follows.trans {u v : Tracker} (h : t.Follows u) (h' : u.Follows v) : t.Follows v where
  plan_eq := h'.plan_eq.trans h.plan_eq
  keeps := h.keeps.trans h'.keeps
  visited := h.visited.trans h'.visited

theorem Coherent.call_follows (h : t.Coherent) (c : Call) (hcall : t.call c = .ok t') :
    t.Follows t' where
  plan_eq := h.call_plan c hcall
  keeps := h.call_keeps c hcall
  visited := by
    rcases h.call_visited c hcall with hsame | ⟨id, -, -, -, hgrown⟩
    · rw [hsame]
    · rw [hgrown]
      exact List.prefix_append _ _

theorem Coherent.afterAll (h : t.Coherent) (calls : List Call) :
    (t.afterAll calls).Coherent ∧ t.Follows (t.afterAll calls) := by
  refine afterAll_induction (P := fun u => u.Coherent ∧ t.Follows u) ?_ calls t
    ⟨h, rfl, .refl _, List.prefix_rfl⟩
  rintro u u' c ⟨hu, hfollows⟩ hcall
  exact ⟨hu.call c hcall, hfollows.trans (hu.call_follows c hcall)⟩

theorem decided_afterAll (w : Workflow) (clock : Clock) (calls : List Call) :
    (Plan.ofWorkflow w).Decided ((ofWorkflow w clock).afterAll calls).record := by
  have hrun := afterAll_induction (P := fun u => u.Coherent ∧ u.plan = Plan.ofWorkflow w ∧
    (Plan.ofWorkflow w).Decided u.record) ?_ calls _ ⟨coherent_ofWorkflow w clock, rfl, ?_⟩
  · exact hrun.2.2
  · rintro u u' c ⟨hu, hplan, hdecided⟩ hcall
    rw [← hplan] at hdecided ⊢
    exact ⟨hu.call c hcall, hu.call_plan c hcall, hu.call_decided c hcall hdecided⟩
  · intro id _ hcompleted
    rw [slot_ofWorkflow] at hcompleted
    cases hcompleted

/-- Among calls in a row there is one, made in the state `before`, with which a node
begins for the first time. -/
def FirstBegins (t : Tracker) (calls : List Call) (id : String) (before : Tracker) : Prop :=
  ∃ done rest, calls = done ++ .begin id :: rest ∧ before = t.afterAll done ∧
    id ∉ before.record.visited ∧ id ∈ (before.after (.begin id)).record.visited

/-- A call that is not refused, or one that changes nothing. -/
theorem after_eq_or (t : Tracker) (c : Call) : t.after c = t ∨ t.call c = .ok (t.after c) := by
  rw [after]
  cases t.call c with
  | error refusal => exact .inl rfl
  | ok t' => exact .inr rfl

/-- A node that a call adds to the visited ones was free, and the call begins it. -/
theorem Coherent.begins_of_mem_after (h : t.Coherent) {c : Call} (hold : id ∉ t.record.visited)
    (hnew : id ∈ (t.after c).record.visited) : c = .begin id ∧ t.plan.Free t.record id := by
  rcases t.after_eq_or c with hsame | hcall
  · rw [hsame] at hnew
    exact absurd hnew hold
  · rcases h.call_visited c hcall with hsame | ⟨other, hc, hfree, -, hgrown⟩
    · rw [hsame] at hnew
      exact absurd hnew hold
    · rw [hgrown] at hnew
      have heq : id = other := by simpa [hold] using hnew
      subst heq
      exact ⟨hc, hfree⟩

/-- **A visited node began some time**, by induction on the calls up to then. -/
theorem exists_firstBegins (calls : List Call) : ∀ {t : Tracker}, t.Coherent →
    id ∉ t.record.visited → id ∈ (t.afterAll calls).record.visited →
    ∃ before, t.FirstBegins calls id before := by
  induction calls with
  | nil => exact fun _ hold hnew => absurd hnew hold
  | cons c rest ih =>
      intro t h hold hnew
      by_cases hnow : id ∈ (t.after c).record.visited
      · obtain ⟨rfl, -⟩ := h.begins_of_mem_after hold hnow
        exact ⟨t, [], rest, rfl, rfl, hold, hnow⟩
      · obtain ⟨before, done, rest', rfl, hbefore, hfirst⟩ := ih (h.afterAll [c]).1 hnow hnew
        exact ⟨before, c :: done, rest', rfl, hbefore, hfirst⟩

/-- In the state in which a node first begins it is free, and the run goes on from
there. -/
theorem Coherent.of_firstBegins {before : Tracker} {calls : List Call} (h : t.Coherent)
    (hfirst : t.FirstBegins calls id before) :
    before.Coherent ∧ before.plan = t.plan ∧ before.plan.Free before.record id ∧
      before.Follows (before.after (.begin id)) ∧
      (before.after (.begin id)).Follows (t.afterAll calls) := by
  obtain ⟨done, rest, rfl, rfl, hold, hnew⟩ := hfirst
  obtain ⟨hbefore, hfollows⟩ := h.afterAll done
  obtain ⟨hafter, hbegun⟩ := hbefore.afterAll [.begin id]
  refine ⟨hbefore, hfollows.plan_eq, (hbefore.begins_of_mem_after hold hnew).2, hbegun, ?_⟩
  have hsplit : t.afterAll (done ++ .begin id :: rest) =
      ((t.afterAll done).after (.begin id)).afterAll rest := List.foldl_append
  rw [hsplit]
  exact (hafter.afterAll rest).2

end Tracker

end Runbook.Run
