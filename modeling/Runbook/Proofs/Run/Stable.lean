import Runbook.Proofs.Run.History

/-!
# Branch decisions are stable

Which nodes are dead is found anew at each question, from the slots of the moment. Along a
run it only grows, for branches only close. `Since` says what a later state has kept of an
earlier one: a node that has ended keeps its slot, and a node that waits keeps it until it
begins. So a node that was offered is offered again, once it is the turn of the waiting nodes
and if it did not begin in the meantime. Main statement: `Tracker.branches_are_stable`.
-/

namespace Runbook.Run

namespace Plan

variable {p : Plan} {r : Record} {id : String}

theorem mem_order_of_dead (hdead : id ∈ p.deadNodes r) : id ∈ p.order :=
  (Graph.scan_sublist (p.allDead r) p.order).subset (p.deadNodes_eq_scan r ▸ hdead)

/-- What has begun is not dead. -/
theorem Grounded.not_dead (hsound : p.Sound) (h : p.Grounded r) (hbegun : (r.slot id).Begun) :
    id ∉ p.deadNodes r := by
  intro hdead
  exact (mem_deadNodes_iff hsound r id (mem_order_of_dead hdead)).mp hdead (h.opened hsound hbegun)

end Plan

/-- The node has completed or failed, so nothing is reported on it any more. -/
def Slot.Ended (s : Slot) : Prop := s.status = .completed ∨ s.status = .failed

theorem Slot.Ended.not_running {s : Slot} (h : s.Ended) : s.status ≠ .running := by
  rcases h with h | h <;> rw [h] <;> decide

theorem Slot.Ended.not_pending {s : Slot} (h : s.Ended) : s.status ≠ .pending := by
  rcases h with h | h <;> rw [h] <;> decide

namespace Tracker

variable {t t' u u' : Tracker} {id : String} {new : List String}

/-! ## One call -/

/-- **What a call does to the waiting nodes**: it changes the slot of a running node at
most, or one waiting node begins, and nothing else. -/
theorem Coherent.call_begins (h : t.Coherent) (c : Call) (hcall : t.call c = .ok t') :
    (t'.record.begins = t.record.begins ∧
      ∀ other, t'.record.slot other = t.record.slot other ∨ (t.record.slot other).status = .running) ∨
    ∃ id, (t.record.slot id).status = .pending ∧ t'.record.begins = t.record.begins ++ [id] ∧
      ∀ other, other ≠ id → t'.record.slot other = t.record.slot other := by
  cases c with
  | start =>
      obtain ⟨-, rfl⟩ := start_eq_ok_iff.mp hcall
      refine .inl ⟨?_, fun other => .inl (Record.slot_congr (checkFinished_slots t.launch) other)⟩
      rw [checkFinished_begins, launch_begins]
  | cancel reason =>
      obtain ⟨-, rfl⟩ := cancel_eq_ok_iff.mp hcall
      exact .inl ⟨cancelled_begins t reason, fun other => .inl (Record.slot_congr rfl other)⟩
  | begin id =>
      obtain ⟨hid, rfl⟩ := (begin_eq_ok_iff h.sound h.grounded.ids_eq).mp hcall
      obtain ⟨-, -, hfree⟩ := (Plan.mem_eligible_iff h.sound).mp hid
      have hmem := h.mem_launched_ids hid
      refine .inr ⟨id, hfree.pending, ?_, fun other hne => ?_⟩
      · rw [enter_begins hmem, launched_begins]
      · rw [enter_slot hmem, if_neg hne, Record.slot_congr (launched_slots t)]
  | complete id result outcome =>
      obtain ⟨hrunning, -, -, rfl⟩ := complete_eq_ok_iff.mp hcall
      have hmem := (h.of_running hrunning).1
      refine .inl ⟨completed_begins hmem result outcome, fun other => ?_⟩
      by_cases heq : other = id
      · exact .inr (heq ▸ hrunning)
      · exact .inl (by rw [completed_slot hmem, if_neg heq])
  | fail id error =>
      obtain ⟨hrunning, -, rfl⟩ := fail_eq_ok_iff.mp hcall
      have hmem := (h.of_running hrunning).1
      refine .inl ⟨failed_begins hmem error, fun other => ?_⟩
      by_cases heq : other = id
      · exact .inr (heq ▸ hrunning)
      · exact .inl (by rw [failed_slot hmem, if_neg heq])

/-! ## Calls in a row -/

/-- What a later state of a run has kept of the slots of an earlier one, if the nodes `new`
have begun since. -/
structure Since (t u : Tracker) (new : List String) : Prop where
  begins : u.record.begins = t.record.begins ++ new
  ended : ∀ id, (t.record.slot id).Ended → u.record.slot id = t.record.slot id
  waiting : ∀ id, (t.record.slot id).status = .pending → id ∉ new → u.record.slot id = t.record.slot id

theorem Since.refl (t : Tracker) : t.Since t [] where
  begins := (List.append_nil _).symm
  ended := fun _ _ => rfl
  waiting := fun _ _ _ => rfl

theorem Since.call (h : t.Since u new) (hu : u.Coherent) (c : Call) (hcall : u.call c = .ok u') :
    ∃ new, t.Since u' new := by
  rcases hu.call_begins c hcall with ⟨hbegins, hslot⟩ | ⟨id, hpending, hbegins, hslot⟩
  · -- the slot that changes is that of a running node, which neither waits nor has ended
    refine ⟨new, hbegins.trans h.begins, fun other hended => ?_, fun other hwaits hnew => ?_⟩
    · have hsame := h.ended other hended
      refine ((hslot other).resolve_right ?_).trans hsame
      rw [hsame]
      exact hended.not_running
    · have hsame := h.waiting other hwaits hnew
      refine ((hslot other).resolve_right ?_).trans hsame
      rw [hsame, hwaits]
      decide
  · -- the node that begins has waited until now, and waits no more
    refine ⟨new ++ [id], ?_, fun other hended => ?_, fun other hwaits hnew => ?_⟩
    · rw [hbegins, h.begins, List.append_assoc]
    · have hsame := h.ended other hended
      refine (hslot other ?_).trans hsame
      rintro rfl
      rw [hsame] at hpending
      exact hended.not_pending hpending
    · rw [List.mem_append, List.mem_singleton, not_or] at hnew
      exact (hslot other hnew.2).trans (h.waiting other hwaits hnew.1)

theorem Coherent.exists_since (h : t.Coherent) (calls : List Call) : ∃ new, t.Since (t.afterAll calls) new := by
  have hrun := afterAll_induction (P := fun u => u.Coherent ∧ ∃ new, t.Since u new) ?_ calls t
    ⟨h, [], .refl t⟩
  · exact hrun.2
  · rintro u u' c ⟨hu, new, hsince⟩ hcall
    exact ⟨hu.call c hcall, hsince.call hu c hcall⟩

/-! ## Dead nodes and offered nodes -/

/-- A dead node stays dead. -/
theorem Follows.dead (hsound : t.plan.Sound) (h : t.Follows u) (hdead : id ∈ t.plan.deadNodes t.record) :
    id ∈ u.plan.deadNodes u.record := by
  have hid := Plan.mem_order_of_dead hdead
  have hclosed := (Plan.mem_deadNodes_iff hsound t.record id hid).mp hdead
  rw [h.plan_eq]
  exact (Plan.mem_deadNodes_iff hsound u.record id hid).mpr fun hopen => hclosed (hopen.anti h.keeps)

/-- **A node that may begin may still begin** as long as its slot stays: the completed node
that it comes from keeps it open. -/
theorem Follows.free (hu : u.Coherent) (h : t.Follows u) (hfree : t.plan.Free t.record id)
    (hslot : u.record.slot id = t.record.slot id) : u.plan.Free u.record id := by
  have hready : u.plan.Ready u.record id := h.plan_eq ▸ hfree.ready.mono h.keeps
  have hmem : id ∈ u.plan.order := h.plan_eq ▸ hfree.mem
  refine ⟨hmem, hslot ▸ hfree.pending, ?_, hready.settled⟩
  rcases hready.entered with hnone | ⟨e, he, hcompleted, hclosed⟩
  · exact .root (hu.sound.sequenced.subset id hmem) hnone
  · have hsource : (u.record.slot e.source).Begun := .inl (by rw [hcompleted]; decide)
    exact Plan.open_iff.mpr (.inr ⟨e, he, hu.grounded.opened hu.sound hsource, hclosed⟩)

/-- What was offered, and did not begin, is offered between two nodes of a run that goes on. -/
theorem Since.eligible (hsince : t.Since u new) (ht : t.Coherent) (hu : u.Coherent) (h : t.Follows u)
    (hid : id ∈ t.eligible) (hnew : id ∉ new) (hnone : u.record.runningNode = none)
    (hlive : u.record.isFinal = false) : id ∈ u.eligible := by
  obtain ⟨-, -, hfree⟩ := (Plan.mem_eligible_iff ht.sound).mp hid
  have hslot := hsince.waiting id hfree.pending hnew
  exact (Plan.mem_eligible_iff hu.sound).mpr ⟨hlive, hnone, h.free hu hfree hslot⟩

/-- **Branch decisions are stable along a run**, whatever is called in whatever order. What is
dead stays dead. What is visited stays visited, and is dead at no time. A node that has
completed or failed keeps its slot, and so its status and the branch that it took. A node on
offer is later on offer, or it began in between, or a node runs, or the run is over. -/
theorem branches_are_stable (w : Workflow) (clock : Clock) (calls more : List Call) :
    let t := (ofWorkflow w clock).afterAll calls
    let u := (ofWorkflow w clock).afterAll (calls ++ more)
    (∀ id ∈ t.plan.deadNodes t.record, id ∈ u.plan.deadNodes u.record) ∧
    (∀ id ∈ t.record.visited, id ∈ u.record.visited) ∧
    (∀ id ∈ u.record.visited, id ∉ t.plan.deadNodes t.record ∧ id ∉ u.plan.deadNodes u.record) ∧
    (∀ id, (t.record.slot id).Ended → u.record.slot id = t.record.slot id) ∧
    ∃ new, u.record.begins = t.record.begins ++ new ∧
      ∀ id ∈ t.eligible, id ∈ u.eligible ∨ id ∈ new ∨ u.record.runningNode ≠ none ∨ u.record.isFinal = true := by
  intro t u
  obtain ⟨ht, -⟩ := coherent_afterAll w clock calls
  have hsplit : u = t.afterAll more := List.foldl_append
  obtain ⟨hu, hfollows⟩ := ht.afterAll more
  obtain ⟨new, hsince⟩ := ht.exists_since more
  rw [← hsplit] at hu hfollows hsince
  refine ⟨fun id => hfollows.dead ht.sound, fun id hid => hfollows.visited.subset hid, fun id hid => ?_,
    hsince.ended, new, hsince.begins, fun id hid => ?_⟩
  · have hlater := hu.grounded.not_dead hu.sound ((hu.grounded.visited id).mp hid)
    exact ⟨fun hdead => hlater (hfollows.dead ht.sound hdead), hlater⟩
  · by_cases hnew : id ∈ new
    · exact .inr (.inl hnew)
    · by_cases hnone : u.record.runningNode = none
      · cases hlive : u.record.isFinal with
        | true => exact .inr (.inr (.inr rfl))
        | false => exact .inl (hsince.eligible ht hu hfollows hid hnew hnone hlive)
      · exact .inr (.inr (.inl hnone))

end Tracker

end Runbook.Run
