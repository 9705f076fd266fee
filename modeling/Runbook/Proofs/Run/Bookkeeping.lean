import Runbook.Proofs.Run.Coherence

/-!
# Bookkeeping

A record keeps several accounts of the same run, and the calls write them one by
one: the status of each node beside its counts and times, the node that runs, the
nodes that were visited, the status of the run beside its error and its times.
Here they agree in every state that calls can reach. `Plan.Fits` is about one slot
and `Plan.Booked` about the record; a call moves the run or one node, and
`Booked.moveRun` and `Booked.moveNode` say what each takes. Main statement:
`Tracker.record_is_consistent`.
-/

namespace Runbook.Run

/-- Whether a node runs, or has failed. -/
def Slot.Held (s : Slot) : Prop := s.status = .running ∨ s.status = .failed

namespace Plan

variable {p : Plan} {r r' : Record} {id : String} {s : Slot}

/-! ## One slot -/

/-- What the fields of a slot tell about each other. A loop has run all its rounds
when it is completed and not before, and nothing else counts rounds; a decision has
selected a handle when it is completed and not before, and nothing else selects
one; a slot has its first time once its node has begun, and its second one once the
node is completed or has failed. -/
structure Fits (p : Plan) (id : String) (s : Slot) : Prop where
  iterations_le : p.kind? id = some .loop → s.iterations ≤ p.rounds id
  completed_iff : p.kind? id = some .loop → (s.status = .completed ↔ s.iterations = p.rounds id)
  iterations_eq_zero : p.kind? id ≠ some .loop → s.iterations = 0
  selected_iff : s.selectedHandle.isSome ↔ p.kind? id = some .decision ∧ s.status = .completed
  started_iff : s.startedAt.isSome ↔ s.Begun
  ended_iff : s.completedAt.isSome ↔ s.status = .completed ∨ s.status = .failed

theorem fits_initial (p : Plan) (id : String) : p.Fits id .initial where
  iterations_le := fun _ => Nat.zero_le _
  completed_iff := fun _ => by simp [Slot.initial, (p.rounds_pos id).ne]
  iterations_eq_zero := fun _ => rfl
  selected_iff := by simp [Slot.initial]
  started_iff := iff_of_false (by simp [Slot.initial]) Slot.not_begun_initial
  ended_iff := by simp [Slot.initial]

theorem Fits.iterations_lt (h : p.Fits id s) (hopen : s.status ≠ .completed)
    (hloop : p.kind? id = some .loop) : s.iterations < p.rounds id :=
  lt_of_le_of_ne (h.iterations_le hloop) (mt (h.completed_iff hloop).mpr hopen)

theorem Fits.unselected (h : p.Fits id s) (hopen : s.status ≠ .completed) :
    s.selectedHandle = none := by
  rw [← Option.not_isSome_iff_eq_none, h.selected_iff]
  exact fun hboth => hopen hboth.2

theorem Fits.unended (h : p.Fits id s) (hcompleted : s.status ≠ .completed)
    (hfailed : s.status ≠ .failed) : s.completedAt = none := by
  rw [← Option.not_isSome_iff_eq_none, h.ended_iff]
  exact not_or.mpr ⟨hcompleted, hfailed⟩

/-! ## One record -/

/-- **What the fields of a record tell about each other.** -/
structure Consistent (p : Plan) (r : Record) : Prop where
  /-- The nodes have slots, one each. -/
  ids_eq : r.ids = p.ids
  fits : ∀ id, p.Fits id (r.slot id)
  /-- The current node is the one that runs, and there is none if none runs. -/
  current_iff : ∀ id, r.current = some id ↔ (r.slot id).status = .running
  stopped : r.status = .completed ∨ r.status = .failed → ∀ id, (r.slot id).status ≠ .running
  error_iff : r.error.isSome ↔ r.status = .failed
  exists_failed : r.status = .failed → ∃ id, (r.slot id).status = .failed
  failed_unique : ∀ id other, (r.slot id).status = .failed → (r.slot other).status = .failed →
    id = other
  unfailed : r.status ≠ .failed → r.status ≠ .cancelled → ∀ id, (r.slot id).status ≠ .failed
  visited_nodup : r.visited.Nodup
  visited_iff : ∀ id, id ∈ r.visited ↔ (r.slot id).Begun
  finished_iff : r.finishedAt.isSome ↔ r.isFinal

/-- The part of `Consistent` that `Grounded` and `Lively` do not give, and that the calls
keep: at most one node runs or has failed. -/
structure Booked (p : Plan) (r : Record) : Prop where
  fits : ∀ id, p.Fits id (r.slot id)
  current_iff : ∀ id, r.current = some id ↔ (r.slot id).status = .running
  held_unique : ∀ id other, (r.slot id).Held → (r.slot other).Held → id = other
  visited_nodup : r.visited.Nodup
  error_iff : r.error.isSome ↔ r.status = .failed
  exists_failed : r.status = .failed → ∃ id, (r.slot id).status = .failed
  finished_eq : r.finishedAt.isSome = r.isFinal

/-- **The run moves**, unless to fail, and no node does. -/
theorem Booked.moveRun (h : p.Booked r) (hslots : r'.slots = r.slots)
    (hcurrent : r'.current = r.current) (hvisited : r'.visited = r.visited)
    (herror : r'.error = r.error) (hbefore : r.status ≠ .failed) (hafter : r'.status ≠ .failed)
    (hfinished : r'.finishedAt.isSome = r'.isFinal) : p.Booked r' := by
  have hslot : ∀ id, r'.slot id = r.slot id := Record.slot_congr hslots
  refine ⟨fun id => ?_, fun id => ?_, fun id other => ?_, ?_, ?_, fun hfailed => ?_, hfinished⟩
  · rw [hslot]
    exact h.fits id
  · rw [hslot, hcurrent]
    exact h.current_iff id
  · rw [hslot, hslot]
    exact h.held_unique id other
  · rw [hvisited]
    exact h.visited_nodup
  · rw [herror, h.error_iff]
    exact iff_of_false hbefore hafter
  · exact absurd hfailed hafter

/-- **A node moves**, while no other one runs, and the run fails with it if it fails. -/
theorem Booked.moveNode (h : p.Booked r)
    (hslot : ∀ other, r'.slot other = if other = id then s else r.slot other)
    (hfits : p.Fits id s) (hquiet : ∀ other, other ≠ id → (r.slot other).status ≠ .running)
    (hheld : s.Held → ∀ other, other ≠ id → ¬ (r.slot other).Held)
    (hcurrent : r'.current = if s.status = .running then some id else none)
    (hvisited : r'.visited.Nodup) (herror : r'.error.isSome ↔ r'.status = .failed)
    (hfailed : r'.status = .failed → s.status = .failed)
    (hfinished : r'.finishedAt.isSome = r'.isFinal) : p.Booked r' := by
  have hself : r'.slot id = s := by rw [hslot, if_pos rfl]
  refine ⟨?fits, ?current_iff, ?held_unique, hvisited, herror,
    fun hover => ⟨id, hself ▸ hfailed hover⟩, hfinished⟩
  case fits => exact Record.forall_slot_of_update (P := p.Fits) hslot hfits (fun other _ => h.fits other)
  case current_iff =>
    rw [hcurrent]
    refine Record.forall_slot_of_update
      (P := fun other slot => (if s.status = .running then some id else none) = some other ↔ slot.status = .running)
      hslot ?_ (fun other hne => ?_)
    · simp
    · simp [Ne.symm hne, hquiet other hne]
  case held_unique => exact Record.slot_unique_of_update hslot hheld h.held_unique

end Plan

namespace Tracker

variable {p : Plan} {t t' : Tracker} {id : String}

/-! ## What the calls make of one slot -/

theorem fits_entered (h : p.Fits id (t.record.slot id))
    (hpending : (t.record.slot id).status = .pending) :
    p.Fits id (t.entered id (t.record.slot id)) where
  iterations_le := h.iterations_le
  completed_iff := fun hloop => by
    have hlt := h.iterations_lt (by rw [hpending]; decide) hloop
    simp [entered, hlt.ne]
  iterations_eq_zero := h.iterations_eq_zero
  selected_iff := by simp [entered, h.unselected (by rw [hpending]; decide)]
  started_iff := by
    refine iff_of_true ?_ (.inl (by simp [entered]))
    cases hstarted : (t.record.slot id).startedAt <;> simp [entered, hstarted]
  ended_iff := by
    simp [entered, h.unended (by rw [hpending]; decide) (by rw [hpending]; decide)]

/-- A report of completion leaves a slot in which a loop has one more round, and the
branch of a decision is selected. -/
theorem fits_completed (hid : id ∈ t.record.ids) (h : t.plan.Fits id (t.record.slot id))
    (hrunning : (t.record.slot id).status = .running) {outcome : Option Bool}
    (houtcome : t.plan.kind? id = some .decision → outcome.isSome) (result : Option String) :
    t.plan.Fits id ((t.completed id result outcome).record.slot id) := by
  have hopen : (t.record.slot id).status ≠ .completed := by rw [hrunning]; decide
  have hended := h.unended hopen (by rw [hrunning]; decide)
  rw [completed_slot hid, if_pos rfl]
  refine ⟨fun hloop => ?_, fun hloop => ?_, fun hplain => ?_, ?_, ?_, ?_⟩
  · have hlt := h.iterations_lt hopen hloop
    simpa [report, hloop] using Nat.succ_le_of_lt hlt
  · have hlt := h.iterations_lt hopen hloop
    by_cases hagain : t.Again id
    · simp [report, hloop, hagain, hagain.2.ne]
    · have hlast : ¬ (t.record.slot id).iterations + 1 < t.plan.rounds id :=
        fun hmore => hagain ⟨hloop, hmore⟩
      have heq : (t.record.slot id).iterations + 1 = t.plan.rounds id := by omega
      simp [report, hloop, hagain, heq]
  · simpa [report, hplain] using h.iterations_eq_zero hplain
  · by_cases hdecision : t.plan.kind? id = some .decision
    · have hlast : ¬ t.Again id := fun hagain => by simp [hagain.1] at hdecision
      simpa [report, handleAfter, hdecision, hlast] using houtcome hdecision
    · simp [report, handleAfter, hdecision, h.unselected hopen]
  · have hstarted : (t.record.slot id).startedAt.isSome = true :=
      h.started_iff.mpr (.inl (by rw [hrunning]; decide))
    refine iff_of_true hstarted ?_
    by_cases hagain : t.Again id
    · exact .inr (by simp [report, hagain.1])
    · exact .inl (by simp [hagain])
  · by_cases hagain : t.Again id <;> simp [hagain, hended]

theorem fits_failure (h : p.Fits id (t.record.slot id))
    (hrunning : (t.record.slot id).status = .running) (error : String) :
    p.Fits id (t.failure error (t.record.slot id)) where
  iterations_le := h.iterations_le
  completed_iff := fun hloop => by
    have hlt := h.iterations_lt (by rw [hrunning]; decide) hloop
    simp [failure, hlt.ne]
  iterations_eq_zero := h.iterations_eq_zero
  selected_iff := by simp [failure, h.unselected (by rw [hrunning]; decide)]
  started_iff := iff_of_true (h.started_iff.mpr (.inl (by rw [hrunning]; decide)))
    (.inl (by simp [failure]))
  ended_iff := by simp [failure]

/-! ## Every call keeps the books -/

theorem booked_launch (h : p.Booked t.record) (hpending : t.record.status = .pending) :
    p.Booked t.launch.record := by
  have hlive : t.record.isFinal = false := by rw [Record.isFinal, hpending]; rfl
  rw [launch_record]
  exact h.moveRun rfl rfl rfl rfl (by rw [hpending]; decide) (by simp) (h.finished_eq.trans hlive)

theorem booked_launched (h : p.Booked t.record) : p.Booked t.launched.record := by
  rw [launched]
  split
  · rename_i hpending
    exact booked_launch h hpending
  · exact h

theorem booked_checkFinished (h : p.Booked t.record) (hrunning : t.record.status = .running) :
    p.Booked t.checkFinished.record := by
  by_cases hfinished : t.Finished
  · rw [checkFinished_of_finished hfinished]
    exact h.moveRun rfl rfl rfl rfl (by rw [hrunning]; decide) (by simp) rfl
  · rw [checkFinished_of_not_finished hfinished]
    exact h

theorem booked_cancelled (h : p.Booked t.record) (hlive : t.record.isFinal = false)
    (reason : Option String) : p.Booked (t.cancelled reason).record := by
  rw [cancelled_record]
  exact h.moveRun rfl rfl rfl rfl (Record.status_ne_of_live hlive rfl) (by simp) rfl

/-- A run that is not over has no failed node. -/
theorem Coherent.not_held (h : t.Coherent) (hlive : t.record.isFinal = false)
    (hnone : t.record.runningNode = none) (id : String) : ¬ (t.record.slot id).Held := by
  rintro (hrunning | hfailed)
  · exact (Record.runningNode_eq_none_iff h.ids_nodup).mp hnone id hrunning
  · exact h.lively.unfailed (Record.status_ne_of_live hlive rfl)
      (Record.status_ne_of_live hlive rfl) id hfailed

theorem nodup_enter_visited (hid : id ∈ t.record.ids) (h : t.record.visited.Nodup) :
    (t.enter id).record.visited.Nodup := by
  rw [enter_record hid]
  by_cases hold : id ∈ t.record.visited
  · simpa [hold] using h
  · simpa [hold] using h.append (List.nodup_singleton id) (by simpa using hold)

theorem booked_enter (h : p.Booked t.record) (hid : id ∈ t.record.ids)
    (hgoes : t.record.status = .running) (hpending : (t.record.slot id).status = .pending)
    (hfree : ∀ other, ¬ (t.record.slot other).Held) : p.Booked (t.enter id).record := by
  have hfrom := enter_record hid
  refine h.moveNode (enter_slot hid) (fits_entered (h.fits id) hpending)
    (fun other _ hrunning => hfree other (.inl hrunning)) (fun _ other _ => hfree other)
    (congrArg Record.current hfrom) (nodup_enter_visited hid h.visited_nodup) ?_
    (fun hfailed => ?_) ?_
  · rw [hfrom]
    exact h.error_iff
  · rw [enter_status hid, hgoes] at hfailed
    cases hfailed
  · rw [hfrom]
    exact h.finished_eq

theorem Coherent.booked_begin (h : t.Coherent) (hb : t.plan.Booked t.record)
    (hcall : t.begin id = .ok t') : t.plan.Booked t'.record := by
  obtain ⟨hid, rfl⟩ := (begin_eq_ok_iff h.sound h.grounded.ids_eq).mp hcall
  obtain ⟨hlive, hnone, hfree⟩ := (Plan.mem_eligible_iff h.sound).mp hid
  have hslot : ∀ other, t.launched.record.slot other = t.record.slot other :=
    Record.slot_congr (launched_slots t)
  refine booked_enter (booked_launched hb) (h.mem_launched_ids hid) (launched_status hlive) ?_ ?_
  · rw [hslot]
    exact hfree.pending
  · intro other
    rw [hslot]
    exact h.not_held hlive hnone other

/-- A record in which a node is reported complete, and nothing else has moved. -/
theorem booked_reported {r : Record} (h : t.Coherent) (hb : t.plan.Booked t.record)
    (hrunning : (t.record.slot id).status = .running) (hunfailed : t.record.status ≠ .failed)
    {result : Option String} {outcome : Option Bool}
    (houtcome : t.plan.kind? id = some .decision → outcome.isSome)
    (hslots : r.slots = (t.completed id result outcome).record.slots) (hcurrent : r.current = none)
    (hvisited : r.visited = t.record.visited) (herror : r.error = t.record.error)
    (hstatus : r.status = t.record.status) (hfinished : r.finishedAt = t.record.finishedAt) :
    t.plan.Booked r := by
  obtain ⟨hid, -, -, -, hquiet⟩ := h.of_running hrunning
  have hleft : ((t.completed id result outcome).record.slot id).status = .pending ∨
      ((t.completed id result outcome).record.slot id).status = .completed := by
    rw [completed_slot hid, if_pos rfl]
    by_cases hagain : t.Again id <;> simp [hagain]
  refine hb.moveNode (s := (t.completed id result outcome).record.slot id) (fun other => ?_)
    (fits_completed hid (hb.fits id) hrunning houtcome result) hquiet (fun hheld => ?_) ?_ ?_ ?_
    (fun hfailed => ?_) ?_
  · rw [Record.slot_congr hslots]
    by_cases heq : other = id
    · rw [if_pos heq, heq]
    · rw [if_neg heq, completed_slot hid, if_neg heq]
  · rcases hleft with hleft | hleft <;> simp [Slot.Held, hleft] at hheld
  · rcases hleft with hleft | hleft <;> simp [hleft, hcurrent]
  · rw [hvisited]
    exact hb.visited_nodup
  · rw [herror, hstatus]
    exact hb.error_iff
  · exact absurd (hstatus ▸ hfailed) hunfailed
  · rw [hfinished, hb.finished_eq, Record.isFinal, Record.isFinal, hstatus]

theorem Coherent.booked_complete {result : Option String} {outcome : Option Bool} (h : t.Coherent)
    (hb : t.plan.Booked t.record) (hcall : t.complete id result outcome = .ok t') :
    t.plan.Booked t'.record := by
  obtain ⟨hrunning, hunfailed, houtcome, rfl⟩ := complete_eq_ok_iff.mp hcall
  have hid := (h.of_running hrunning).1
  by_cases hagain : t.Again id
  · have hfrom := completed_record_again hid hagain result outcome
    refine booked_reported h hb hrunning hunfailed houtcome rfl ?_ ?_ ?_ ?_ ?_
    all_goals simp only [hfrom, Record.updateSlot]
  · -- the node is closed before the run is checked
    have hfrom := ended_reported_record hid result outcome
    have hended : t.plan.Booked ((t.reported id result outcome).ended id result).record := by
      refine booked_reported h hb hrunning hunfailed houtcome
        (completed_slots_of_last hagain result outcome).symm ?_ ?_ ?_ ?_ ?_
      all_goals simp only [hfrom, Record.updateSlot]
    rw [completed_of_last hagain]
    split
    · rename_i hgoes
      exact booked_checkFinished hended ((congrArg Record.status hfrom).trans hgoes)
    · exact hended

theorem Coherent.booked_fail {error : String} (h : t.Coherent) (hb : t.plan.Booked t.record)
    (hcall : t.fail id error = .ok t') : t.plan.Booked t'.record := by
  obtain ⟨hrunning, hunfailed, rfl⟩ := fail_eq_ok_iff.mp hcall
  obtain ⟨hid, -, -, -, hquiet⟩ := h.of_running hrunning
  have hheld : ∀ other, other ≠ id → ¬ (t.record.slot other).Held :=
    fun other hne hother => hne (hb.held_unique other id hother (.inl hrunning))
  by_cases hgoes : t.record.status = .running
  · have hfrom := failed_record_of_running hid hgoes error
    refine hb.moveNode (failed_slot hid error) (fits_failure (hb.fits id) hrunning error) hquiet
      (fun _ => hheld) (congrArg Record.current hfrom) ?_ ?_ (fun _ => rfl) ?_
    all_goals rw [hfrom]
    · exact hb.visited_nodup
    · exact iff_of_true rfl rfl
    · rfl
  · have hslot := failed_slot hid error
    have hfrom := nodeFailed_record hid error
    rw [failed_of_stopped hgoes] at hslot ⊢
    refine hb.moveNode hslot (fits_failure (hb.fits id) hrunning error) hquiet (fun _ => hheld)
      (congrArg Record.current hfrom) ?_ ?_ (fun _ => rfl) ?_
    all_goals rw [hfrom]
    · exact hb.visited_nodup
    · exact hb.error_iff
    · exact hb.finished_eq

theorem Coherent.booked_call (h : t.Coherent) (hb : t.plan.Booked t.record) (c : Call)
    (hcall : t.call c = .ok t') : t.plan.Booked t'.record := by
  cases c with
  | start =>
      obtain ⟨hpending, rfl⟩ := start_eq_ok_iff.mp hcall
      exact booked_checkFinished (t := t.launch) (booked_launch hb hpending) rfl
  | cancel reason =>
      obtain ⟨hlive, rfl⟩ := cancel_eq_ok_iff.mp hcall
      exact booked_cancelled hb hlive reason
  | begin id => exact h.booked_begin hb hcall
  | complete id result outcome => exact h.booked_complete hb hcall
  | fail id error => exact h.booked_fail hb hcall

theorem booked_ofWorkflow (w : Workflow) (clock : Clock) :
    (Plan.ofWorkflow w).Booked (ofWorkflow w clock).record where
  fits := fun id => by
    rw [slot_ofWorkflow]
    exact Plan.fits_initial _ id
  current_iff := fun id => by
    rw [slot_ofWorkflow]
    exact iff_of_false nofun nofun
  held_unique := fun id _ hheld => by
    rw [slot_ofWorkflow] at hheld
    exact absurd hheld (by simp [Slot.Held, Slot.initial])
  visited_nodup := List.nodup_nil
  error_iff := iff_of_false nofun nofun
  exists_failed := nofun
  finished_eq := rfl

/-! ## The final result -/

/-- The result with which a call completes a node, if it does. -/
def given (t : Tracker) (c : Call) : List (Option String) :=
  match c with
  | .complete id result _ =>
    if (t.record.slot id).status ≠ .completed ∧
        ((t.after c).record.slot id).status = .completed then [result]
    else []
  | _ => []

/-- The results with which calls in a row complete nodes, in order. -/
def completions (t : Tracker) : List Call → List (Option String)
  | [] => []
  | c :: rest => t.given c ++ (t.after c).completions rest

theorem checkFinished_lastResult (t : Tracker) : t.checkFinished.lastResult = t.lastResult := by
  rw [checkFinished]
  split <;> rfl

theorem completed_lastResult (t : Tracker) (id : String) (result : Option String)
    (outcome : Option Bool) :
    (t.completed id result outcome).lastResult = if t.Again id then t.lastResult else result := by
  simp only [completed]
  split
  · rfl
  · split
    · exact checkFinished_lastResult _
    · rfl

theorem failed_lastResult (t : Tracker) (id error : String) :
    (t.failed id error).lastResult = t.lastResult := by
  have hnode : (t.nodeFailed id error).lastResult = t.lastResult := rfl
  rw [failed]
  split
  · exact hnode
  · exact hnode

/-- **What a call does to the last result**: a completion replaces it. -/
theorem Coherent.call_lastResult (h : t.Coherent) (c : Call) (hcall : t.call c = .ok t') :
    t'.lastResult = (t.given c).getLast?.getD t.lastResult := by
  have hafter : t.after c = t' := by rw [after, hcall]
  cases c with
  | start =>
      obtain ⟨-, rfl⟩ := start_eq_ok_iff.mp hcall
      exact checkFinished_lastResult t.launch
  | cancel reason =>
      obtain ⟨-, rfl⟩ := cancel_eq_ok_iff.mp hcall
      rfl
  | begin id =>
      obtain ⟨-, rfl⟩ := (begin_eq_ok_iff h.sound h.grounded.ids_eq).mp hcall
      rw [launched, enter]
      split <;> split <;> rfl
  | complete id result outcome =>
      obtain ⟨hrunning, -, -, rfl⟩ := complete_eq_ok_iff.mp hcall
      have hslot := completed_slot (h.of_running hrunning).1 result outcome id
      rw [if_pos rfl] at hslot
      rw [given, hafter, hslot, hrunning, completed_lastResult]
      by_cases hagain : t.Again id <;> simp [hagain]
  | fail id error =>
      obtain ⟨-, -, rfl⟩ := fail_eq_ok_iff.mp hcall
      exact failed_lastResult t id error

theorem given_of_refused {c : Call} (hrefused : t.after c = t) : t.given c = [] := by
  cases c with
  | complete id result outcome =>
      rw [given, hrefused, if_neg]
      exact fun hboth => hboth.1 hboth.2
  | _ => rfl

/-- The last result is that of the last completion. -/
theorem Coherent.lastResult_afterAll (calls : List Call) : ∀ {t : Tracker}, t.Coherent →
    (t.afterAll calls).lastResult = (t.completions calls).getLast?.getD t.lastResult := by
  induction calls with
  | nil => exact fun _ => rfl
  | cons c rest ih =>
      intro t h
      rw [completions, List.getLast?_append]
      cases hcall : t.call c with
      | error refusal =>
          have hsame : t.after c = t := by rw [after, hcall]
          rw [afterAll, List.foldl_cons, ← afterAll, hsame, given_of_refused hsame]
          simpa using ih h
      | ok t' =>
          have hafter : t.after c = t' := by rw [after, hcall]
          rw [afterAll, List.foldl_cons, ← afterAll, hafter, ih (h.call c hcall),
            h.call_lastResult c hcall]
          cases ((t'.completions rest).getLast?) <;> rfl

/-- The last result is the final one of a complete run, and no other run has one. -/
def Delivered (t : Tracker) : Prop :=
  t.record.finalResult = if t.record.status = .completed then t.lastResult else none

theorem Delivered.eq_none (h : t.Delivered) (hopen : t.record.status ≠ .completed) :
    t.record.finalResult = none := h.trans (if_neg hopen)

theorem delivered_of_none (hnone : t.record.finalResult = none)
    (hopen : t.record.status ≠ .completed) : t.Delivered := hnone.trans (if_neg hopen).symm

theorem delivered_checkFinished (hnone : t.record.finalResult = none)
    (hrunning : t.record.status = .running) : t.checkFinished.Delivered := by
  by_cases hfinished : t.Finished
  · rw [Delivered, checkFinished_lastResult, checkFinished_of_finished hfinished]
    exact (if_pos rfl).symm
  · rw [checkFinished_of_not_finished hfinished]
    exact delivered_of_none hnone (by rw [hrunning]; decide)

theorem Coherent.delivered_enter (h : t.Coherent) (hd : t.Delivered) (hid : id ∈ t.plan.eligible t.record) :
    (t.launched.enter id).Delivered := by
  obtain ⟨hlive, -, -⟩ := (Plan.mem_eligible_iff h.sound).mp hid
  have hmem := h.mem_launched_ids hid
  have hsame : t.launched.record.finalResult = t.record.finalResult := by
    rw [launched]
    split <;> rfl
  refine delivered_of_none ?_ ?_
  · rw [enter_record hmem]
    exact hsame.trans (hd.eq_none (Record.status_ne_of_live hlive rfl))
  · rw [enter_status hmem, launched_status hlive]
    decide

/-- Only the last activation of a node can end the run, and then it leaves a result. -/
theorem Coherent.delivered_completed (h : t.Coherent) (hd : t.Delivered)
    (hrunning : (t.record.slot id).status = .running) (result : Option String) (outcome : Option Bool) :
    (t.completed id result outcome).Delivered := by
  have hid := (h.of_running hrunning).1
  have hopen := (h.status_of_running hrunning).2
  by_cases hagain : t.Again id
  · have hfrom := completed_record_again hid hagain result outcome
    refine delivered_of_none ((congrArg Record.finalResult hfrom).trans (hd.eq_none hopen)) ?_
    rw [hfrom]
    exact hopen
  · have hfrom := ended_reported_record hid result outcome
    have hnone := (congrArg Record.finalResult hfrom).trans (hd.eq_none hopen)
    have hstatus := congrArg Record.status hfrom
    rw [completed_of_last hagain]
    split
    · rename_i hgoes
      exact delivered_checkFinished hnone (hstatus.trans hgoes)
    · exact delivered_of_none hnone (hstatus ▸ hopen)

theorem Coherent.delivered_failed (h : t.Coherent) (hd : t.Delivered)
    (hrunning : (t.record.slot id).status = .running) (error : String) : (t.failed id error).Delivered := by
  have hid := (h.of_running hrunning).1
  have hopen := (h.status_of_running hrunning).2
  refine delivered_of_none ?_ ?_
  · by_cases hgoes : t.record.status = .running
    · rw [failed_record_of_running hid hgoes]
      exact hd.eq_none hopen
    · rw [failed_of_stopped hgoes, nodeFailed_record hid]
      exact hd.eq_none hopen
  · rw [failed_status]
    split
    · decide
    · exact hopen

theorem Coherent.call_delivered (h : t.Coherent) (hd : t.Delivered) (c : Call)
    (hcall : t.call c = .ok t') : t'.Delivered := by
  cases c with
  | start =>
      obtain ⟨hpending, rfl⟩ := start_eq_ok_iff.mp hcall
      exact delivered_checkFinished (t := t.launch) (hd.eq_none (by rw [hpending]; decide)) rfl
  | cancel reason =>
      obtain ⟨hlive, rfl⟩ := cancel_eq_ok_iff.mp hcall
      exact delivered_of_none (hd.eq_none (Record.status_ne_of_live hlive rfl))
        (by simp [cancelled_record])
  | begin id =>
      obtain ⟨hid, rfl⟩ := (begin_eq_ok_iff h.sound h.grounded.ids_eq).mp hcall
      exact h.delivered_enter hd hid
  | complete id result outcome =>
      obtain ⟨hrunning, -, -, rfl⟩ := complete_eq_ok_iff.mp hcall
      exact h.delivered_completed hd hrunning result outcome
  | fail id error =>
      obtain ⟨hrunning, -, rfl⟩ := fail_eq_ok_iff.mp hcall
      exact h.delivered_failed hd hrunning error

/-! ## Every state -/

theorem booked_afterAll (w : Workflow) (clock : Clock) (calls : List Call) :
    (Plan.ofWorkflow w).Booked ((ofWorkflow w clock).afterAll calls).record ∧
      ((ofWorkflow w clock).afterAll calls).Delivered := by
  have hrun := afterAll_induction (P := fun u => u.Coherent ∧ u.plan = Plan.ofWorkflow w ∧
    (Plan.ofWorkflow w).Booked u.record ∧ u.Delivered) ?_ calls (ofWorkflow w clock)
    ⟨coherent_ofWorkflow w clock, rfl, booked_ofWorkflow w clock, rfl⟩
  · exact hrun.2.2
  · rintro u u' c ⟨hu, hplan, hb, hd⟩ hcall
    rw [← hplan] at hb ⊢
    exact ⟨hu.call c hcall, hu.call_plan c hcall, hu.booked_call hb c hcall,
      hu.call_delivered hd c hcall⟩

theorem Coherent.consistent (h : t.Coherent) (hb : t.plan.Booked t.record) :
    t.plan.Consistent t.record where
  ids_eq := h.grounded.ids_eq
  fits := hb.fits
  current_iff := hb.current_iff
  stopped := by
    rintro (hcompleted | hfailed) id hrunning
    · exact (h.lively.idle hcompleted).1 id hrunning
    · obtain ⟨other, hother⟩ := hb.exists_failed hfailed
      obtain rfl := hb.held_unique id other (.inl hrunning) (.inr hother)
      rw [hrunning] at hother
      cases hother
  error_iff := hb.error_iff
  exists_failed := hb.exists_failed
  failed_unique := fun id other hid hother => hb.held_unique id other (.inr hid) (.inr hother)
  unfailed := h.lively.unfailed
  visited_nodup := hb.visited_nodup
  visited_iff := h.grounded.visited
  finished_iff := by rw [hb.finished_eq]

/-- **The accounts of a run agree**, whatever is called in whatever order, and a
complete run ends with the result of the node that was completed last. -/
theorem record_is_consistent (w : Workflow) (clock : Clock) (calls : List Call) :
    let t := (ofWorkflow w clock).afterAll calls
    (Plan.ofWorkflow w).Consistent t.record ∧
      t.record.finalResult =
        if t.record.status = .completed then
          ((ofWorkflow w clock).completions calls).getLast?.join
        else none := by
  intro t
  obtain ⟨h, hplan⟩ := coherent_afterAll w clock calls
  obtain ⟨hb, hd⟩ := booked_afterAll w clock calls
  have hlast := (coherent_ofWorkflow w clock).lastResult_afterAll calls
  refine ⟨hplan ▸ h.consistent (hplan ▸ hb), hd.trans ?_⟩
  rw [hlast]
  cases ((ofWorkflow w clock).completions calls).getLast? <;> rfl

end Tracker

end Runbook.Run
