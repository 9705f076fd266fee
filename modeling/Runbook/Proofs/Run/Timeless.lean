import Runbook.Proofs.Run.Coherence

/-!
# The clock decides nothing

The readings of the clock go into a record and into nothing else: no call is accepted or
refused for them, and no node is offered for them. `Record.untimed` takes them out, and
`Tracker.Alike` relates two trackers that differ in them alone. What reads a record finds
the same in both, and what writes to it keeps them alike. Main statement:
`Tracker.Alike.after`.
-/

namespace Runbook.Run

/-! ## Records without times -/

/-- A slot whose times are all the same. -/
def Slot.untimed (s : Slot) : Slot :=
  { s with
    startedAt := s.startedAt.map fun _ => 0
    completedAt := s.completedAt.map fun _ => 0 }

def Event.untimed (e : Event) : Event := { e with time := 0 }

namespace Record

variable {r : Record} {id : String}

/-- A record whose times are all the same. -/
def untimed (r : Record) : Record :=
  { r with
    startedAt := r.startedAt.map fun _ => 0
    finishedAt := r.finishedAt.map fun _ => 0
    slots := r.slots.map fun (id, s) => (id, s.untimed)
    events := r.events.map Event.untimed }

theorem slot_untimed (r : Record) (id : String) : r.untimed.slot id = (r.slot id).untimed := by
  have hfind : r.untimed.slots.find? (·.1 == id) =
      (r.slots.find? (·.1 == id)).map fun (id, s) => (id, s.untimed) := List.find?_map
  rw [slot, slot?, hfind, slot, slot?]
  cases r.slots.find? (·.1 == id) <;> rfl

@[simp] theorem slot_untimed_status : (r.untimed.slot id).status = (r.slot id).status := by
  rw [slot_untimed]
  rfl

@[simp] theorem slot_untimed_iterations : (r.untimed.slot id).iterations = (r.slot id).iterations := by
  rw [slot_untimed]
  rfl

@[simp] theorem slot_untimed_selectedHandle :
    (r.untimed.slot id).selectedHandle = (r.slot id).selectedHandle := by
  rw [slot_untimed]
  rfl

theorem runningNode_untimed (r : Record) : r.untimed.runningNode = r.runningNode := by
  simp only [runningNode, untimed, List.find?_map, Option.map_map]
  rfl

/-- A change of a slot that carries times along, or sets them. -/
theorem updateSlot_untimed {f g : Slot → Slot} (h : ∀ s, (f s).untimed = g s.untimed) (r : Record) (id : String) :
    (r.updateSlot id f).untimed = r.untimed.updateSlot id g := by
  have hslots : (r.updateSlot id f).untimed.slots = (r.untimed.updateSlot id g).slots := by
    simp only [updateSlot, untimed, List.map_map]
    refine List.map_congr_left fun e _ => ?_
    obtain ⟨key, s⟩ := e
    by_cases hkey : key = id <;> simp [hkey, h]
  exact Record.ext rfl rfl rfl rfl rfl rfl hslots rfl rfl rfl

end Record

/-! ## What is offered -/

namespace Plan

variable {p : Plan} {r : Record}

theorem isDeadEdge_untimed (p : Plan) (r : Record) : p.isDeadEdge r.untimed = p.isDeadEdge r := by
  funext dead e
  simp [isDeadEdge]

theorem deadNodes_untimed (p : Plan) (r : Record) : p.deadNodes r.untimed = p.deadNodes r := by
  rw [deadNodes, deadNodes, isDeadEdge_untimed]

theorem isReady_untimed (p : Plan) (r : Record) : p.isReady r.untimed = p.isReady r := by
  funext dead id
  simp only [isReady, isDeadEdge_untimed, Record.slot_untimed_status]

/-- **No node is offered for the time.** -/
theorem eligible_untimed (p : Plan) (r : Record) : p.eligible r.untimed = p.eligible r := by
  simp only [eligible, Record.runningNode_untimed, deadNodes_untimed, isReady_untimed,
    Record.slot_untimed_status, Record.slot_untimed_iterations]
  rfl

end Plan

namespace Tracker

/-! ## Trackers that differ in times -/

/-- The trackers differ in the times that they noted and in their clocks, at most. -/
structure Alike (t u : Tracker) : Prop where
  plan : t.plan = u.plan
  record : t.record.untimed = u.record.untimed
  lastResult : t.lastResult = u.lastResult

/-- The change writes the time that it is given, and reads none. -/
def Timeless (f : Int → Record → Record) : Prop := ∀ time r, (f time r).untimed = f 0 r.untimed

variable {t u : Tracker} {id : String}

namespace Alike

theorem timed (h : t.Alike u) {f : Int → Record → Record} (hf : Timeless f) : (t.timed f).Alike (u.timed f) where
  plan := h.plan
  record := (hf t.now t.record).trans (h.record ▸ (hf u.now u.record).symm)
  lastResult := h.lastResult

theorem mapRecord (h : t.Alike u) {f : Record → Record} (hf : Timeless fun _ => f) :
    (t.mapRecord f).Alike (u.mapRecord f) where
  plan := h.plan
  record := (hf 0 t.record).trans (h.record ▸ (hf 0 u.record).symm)
  lastResult := h.lastResult

theorem status_eq (h : t.Alike u) : t.record.status = u.record.status := by
  have hstatus := congrArg Record.status h.record
  exact hstatus

theorem slot_untimed (h : t.Alike u) (id : String) : (t.record.slot id).untimed = (u.record.slot id).untimed := by
  rw [← Record.slot_untimed, h.record, Record.slot_untimed]

theorem slot_status (h : t.Alike u) (id : String) : (t.record.slot id).status = (u.record.slot id).status := by
  have hstatus := congrArg Slot.status (h.slot_untimed id)
  exact hstatus

theorem slot_iterations (h : t.Alike u) (id : String) :
    (t.record.slot id).iterations = (u.record.slot id).iterations := by
  have hiterations := congrArg Slot.iterations (h.slot_untimed id)
  exact hiterations

theorem slot_selectedHandle (h : t.Alike u) (id : String) :
    (t.record.slot id).selectedHandle = (u.record.slot id).selectedHandle := by
  have hselected := congrArg Slot.selectedHandle (h.slot_untimed id)
  exact hselected

theorem eligible_eq (h : t.Alike u) : t.eligible = u.eligible := by
  rw [eligible, eligible, ← Plan.eligible_untimed, h.plan, h.record, Plan.eligible_untimed]

theorem finished_iff (h : t.Alike u) : t.Finished ↔ u.Finished := by
  rw [Finished, Finished, h.eligible_eq, ← Record.runningNode_untimed, h.record, Record.runningNode_untimed]

theorem again_iff (h : t.Alike u) : t.Again id ↔ u.Again id := by
  rw [Again, Again, h.plan, h.slot_iterations]

/-! ### What each step keeps -/

theorem setRun (h : t.Alike u) (status : RunStatus) (detail : Option String) :
    (t.setRun status detail).Alike (u.setRun status detail) :=
  h.timed fun _ _ => Record.ext rfl rfl rfl rfl rfl rfl rfl rfl rfl List.map_append

theorem setNode (h : t.Alike u) (id : String) (status : NodeStatus) (detail : Option String) :
    (t.setNode id status detail).Alike (u.setNode id status detail) := by
  refine h.timed fun time r => ?_
  have hslots := congrArg Record.slots
    (Record.updateSlot_untimed (f := fun s => { s with status := status })
      (g := fun s => { s with status := status }) (fun _ => rfl) r id)
  have hevents : (r.events ++ [(⟨time, .node id (r.slot id).status status, detail⟩ : Event)]).map Event.untimed =
      r.untimed.events ++ [⟨0, .node id (r.untimed.slot id).status status, detail⟩] := by
    rw [List.map_append, Record.slot_untimed_status]
    rfl
  exact Record.ext rfl rfl rfl rfl rfl rfl hslots rfl rfl hevents

/-- A time goes into one slot. -/
theorem timeSlot (h : t.Alike u) (id : String) {f : Int → Slot → Slot}
    (hf : ∀ time s, (f time s).untimed = f 0 s.untimed) :
    (t.timed fun time r => r.updateSlot id (f time)).Alike (u.timed fun time r => r.updateSlot id (f time)) :=
  h.timed fun time r => Record.updateSlot_untimed (hf time) r id

/-- A slot is written, and the run has no current node. -/
theorem release (h : t.Alike u) (id : String) {f : Slot → Slot} (hf : ∀ s, (f s).untimed = f s.untimed) :
    (t.mapRecord fun r => { r.updateSlot id f with current := none }).Alike
      (u.mapRecord fun r => { r.updateSlot id f with current := none }) :=
  h.mapRecord fun _ r => congrArg (fun r : Record => { r with current := none }) (Record.updateSlot_untimed hf r id)

theorem launch (h : t.Alike u) : t.launch.Alike u.launch :=
  (h.setRun .running none).timed fun _ _ => rfl

theorem launched (h : t.Alike u) : t.launched.Alike u.launched := by
  rw [Tracker.launched, Tracker.launched, h.status_eq]
  split
  · exact h.launch
  · exact h

theorem checkFinished (h : t.Alike u) : t.checkFinished.Alike u.checkFinished := by
  rw [Tracker.checkFinished, Tracker.checkFinished, h.eligible_eq, ← Record.runningNode_untimed, h.record,
    Record.runningNode_untimed, h.lastResult]
  have htimed := h.timed (f := fun time r => { r with finalResult := u.lastResult, finishedAt := some time })
    fun _ _ => rfl
  split
  · exact htimed.setRun .completed none
  · exact h

theorem cancelled (h : t.Alike u) (reason : Option String) : (t.cancelled reason).Alike (u.cancelled reason) :=
  (h.setRun .cancelled reason).timed fun _ _ => rfl

theorem enter (h : t.Alike u) (id : String) : (t.enter id).Alike (u.enter id) := by
  have hdetail : t.roundDetail id = u.roundDetail id := by
    rw [roundDetail, roundDetail, h.plan, h.slot_iterations]
  have hset := h.setNode id .running (u.roundDetail id)
  have hstarted := congrArg (fun s : Slot => s.startedAt.isNone) (hset.slot_untimed id)
  simp only [Slot.untimed, Option.isNone_map] at hstarted
  simp only [Tracker.enter, hdetail, hstarted]
  refine mapRecord ?_ fun _ _ => rfl
  split
  · exact hset.timeSlot id fun _ _ => rfl
  · exact hset

theorem reported (h : t.Alike u) (id : String) (result : Option String) (outcome : Option Bool) :
    (t.reported id result outcome).Alike (u.reported id result outcome) := by
  have hreport : t.report id result outcome = u.report id result outcome := by
    funext s
    simp only [report, handleAfter, h.plan, h.slot_selectedHandle]
  rw [Tracker.reported, Tracker.reported, hreport]
  exact h.release id fun _ => rfl

theorem ended (h : t.Alike u) (id : String) (result : Option String) :
    (t.ended id result).Alike (u.ended id result) := by
  have hset := (h.setNode id .completed (u.record.slot id).selectedHandle).timeSlot id
    (f := fun time s => { s with completedAt := some time }) fun _ _ => rfl
  rw [Tracker.ended, h.slot_selectedHandle]
  exact ⟨hset.plan, hset.record, rfl⟩

theorem completed (h : t.Alike u) (id : String) (result : Option String) (outcome : Option Bool) :
    (t.completed id result outcome).Alike (u.completed id result outcome) := by
  have hreported := h.reported id result outcome
  by_cases hagain : t.Again id
  · rw [completed_of_again hagain, completed_of_again (h.again_iff.mp hagain), h.slot_iterations, h.plan]
    exact hreported.setNode id .pending _
  · rw [completed_of_last hagain, completed_of_last (mt h.again_iff.mpr hagain), h.status_eq]
    split
    · exact (hreported.ended id result).checkFinished
    · exact hreported.ended id result

theorem nodeFailed (h : t.Alike u) (id error : String) : (t.nodeFailed id error).Alike (u.nodeFailed id error) := by
  refine setNode (h.timed fun time r => ?_) id .failed (some error)
  exact congrArg (fun r : Record => { r with current := none })
    (Record.updateSlot_untimed (f := fun s => { s with error := some error, completedAt := some time })
      (g := fun s => { s with error := some error, completedAt := some 0 }) (fun _ => rfl) r id)

theorem failed (h : t.Alike u) (id error : String) : (t.failed id error).Alike (u.failed id error) := by
  have hnode := h.nodeFailed id error
  have herror := hnode.mapRecord (f := fun r => { r with error := some s!"Node '{id}' failed: {error}" })
    fun _ _ => rfl
  have hover := (herror.setRun .failed (some error)).timed (f := fun time r => { r with finishedAt := some time })
    fun _ _ => rfl
  rw [Tracker.failed, Tracker.failed, h.status_eq]
  split
  · exact hover
  · exact hnode

end Alike

/-! ## Calls -/

/-- A call that is accepted in the same cases, with outcomes that are alike. -/
theorem Alike.after_of_iff (h : t.Alike u) {c : Call} {v w : Tracker} {P Q : Prop} (hsame : P ↔ Q)
    (ht : ∀ t', t.call c = .ok t' ↔ P ∧ t' = v) (hu : ∀ u', u.call c = .ok u' ↔ Q ∧ u' = w) (halike : v.Alike w) :
    (t.after c).Alike (u.after c) := by
  by_cases hP : P
  · rw [after, after, (ht v).mpr ⟨hP, rfl⟩, (hu w).mpr ⟨hsame.mp hP, rfl⟩]
    exact halike
  · have hrefused : t.after c = t ∧ u.after c = u := by
      rw [after, after]
      cases htc : t.call c with
      | ok t' => exact absurd ((ht t').mp htc).1 hP
      | error refusal =>
          cases huc : u.call c with
          | ok u' => exact absurd (hsame.mpr ((hu u').mp huc).1) hP
          | error refusal => exact ⟨rfl, rfl⟩
    rw [hrefused.1, hrefused.2]
    exact h

/-- **Calls keep trackers alike**: what a call does, and whether it is accepted, is the same
whatever the time. -/
theorem Alike.after (h : t.Alike u) (ht : t.Coherent) (hu : u.Coherent) (c : Call) :
    (t.after c).Alike (u.after c) := by
  cases c with
  | start =>
      refine h.after_of_iff (P := t.record.status = .pending) ?_ (fun _ => start_eq_ok_iff)
        (fun _ => start_eq_ok_iff) h.launch.checkFinished
      rw [h.status_eq]
  | cancel reason =>
      refine h.after_of_iff (P := t.record.isFinal = false) ?_ (fun _ => cancel_eq_ok_iff)
        (fun _ => cancel_eq_ok_iff) (h.cancelled reason)
      rw [Record.isFinal, Record.isFinal, h.status_eq]
  | begin id =>
      refine h.after_of_iff (P := id ∈ t.eligible) ?_ (fun _ => begin_eq_ok_iff ht.sound ht.grounded.ids_eq)
        (fun _ => begin_eq_ok_iff hu.sound hu.grounded.ids_eq) (h.launched.enter id)
      rw [h.eligible_eq]
  | complete id result outcome =>
      refine h.after_of_iff (P := (t.record.slot id).status = .running ∧ t.record.status ≠ .failed ∧
        (t.plan.kind? id = some .decision → outcome.isSome)) (Q := (u.record.slot id).status = .running ∧
        u.record.status ≠ .failed ∧ (u.plan.kind? id = some .decision → outcome.isSome)) ?_ (fun _ => ?_)
        (fun _ => ?_) (h.completed id result outcome)
      · rw [h.slot_status, h.status_eq, h.plan]
      · rw [Tracker.call, complete_eq_ok_iff, and_assoc, and_assoc]
      · rw [Tracker.call, complete_eq_ok_iff, and_assoc, and_assoc]
  | fail id error =>
      refine h.after_of_iff (P := (t.record.slot id).status = .running ∧ t.record.status ≠ .failed)
        (Q := (u.record.slot id).status = .running ∧ u.record.status ≠ .failed) ?_ (fun _ => ?_) (fun _ => ?_)
        (h.failed id error)
      · rw [h.slot_status, h.status_eq]
      · rw [Tracker.call, fail_eq_ok_iff, and_assoc]
      · rw [Tracker.call, fail_eq_ok_iff, and_assoc]

end Tracker

end Runbook.Run
