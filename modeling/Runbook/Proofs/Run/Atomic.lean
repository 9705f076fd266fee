import Runbook.Proofs.Run.Bookkeeping

/-!
# Calls are all or nothing

`Tracker.call` gives a new tracker or a refusal. `Call.perform` is the same call as a program
that writes to one tracker step by step, so that what is written before a refusal stays
written. The two agree (`run_perform`): no call is refused behind its first write. When a call
is refused is said by `Tracker.Allows`, without the checks that the calls make; a report need
not ask whether the run has failed, for then no node runs. Main statement:
`Tracker.calls_are_all_or_nothing`.
-/

namespace Runbook.Run.Tracker

variable {t t' : Tracker} {id : String}

/-! ## Calls in place -/

/-- A program that works on one tracker, and may be refused. -/
abbrev Program := EStateM Refusal Tracker Unit

/-- A write to the slot of a node. -/
def writeSlot (id : String) (f : Slot → Slot) : Program :=
  modify fun t => t.mapRecord fun r => r.updateSlot id f

/-- A write to the record. -/
def writeRecord (f : Record → Record) : Program := modify fun t => t.mapRecord f

/-- A write to the record, with the next reading of the clock. -/
def writeTimed (f : Int → Record → Record) : Program := modify fun t => t.timed f

/-- The check of a report: the node is there, it runs, and the run has not failed. -/
def checkRunning (id : String) : Program := do
  let t ← get
  match t.record.slot? id with
  | none => throw (.unknownNode id)
  | some s =>
    if s.status ≠ .running then throw (.notRunning id s.status)
    else if t.record.status = .failed then throw (.runHasFailed id)
    else pure ()

/-- The branch of a decision, which is written as soon as it is known. -/
def selectBranch (id : String) (outcome : Option Bool) : Program := do
  let t ← get
  if t.plan.kind? id = some .decision then
    match outcome with
    | none => throw (.outcomeMissing id)
    | some b => writeSlot id fun s => { s with selectedHandle := some (branchHandle b) }
  else pure ()

/-- The end of a run whose node has failed, if the run goes on. -/
def failRun (id error : String) : Program := do
  let t ← get
  if t.record.status = .running then do
    writeRecord fun r => { r with error := some s!"Node '{id}' failed: {error}" }
    modify fun t => t.setRun .failed (some error)
    writeTimed fun time r => { r with finishedAt := some time }
  else pure ()

/-- A call, check by check and write by write. -/
def Call.perform : Call → Program
  | .start => do
    let t ← get
    if t.record.status ≠ .pending then throw (.cannotStart t.record.status)
    else do
      modify launch
      modify checkFinished
  | .cancel reason => do
    let t ← get
    if t.record.isFinal then throw (.cannotCancel t.record.status)
    else do
      modify fun t => t.setRun .cancelled reason
      writeTimed fun time r => { r with finishedAt := some time }
  | .begin id => do
    let t ← get
    if (t.record.slot? id).isNone then throw (.unknownNode id)
    else if t.record.isFinal then throw (.runIsOver id t.record.status)
    else if !t.eligible.contains id then throw (.notEligible id)
    else do
      modify launched
      modify fun t => t.enter id
  | .complete id result outcome => do
    checkRunning id
    selectBranch id outcome
    writeSlot id fun s => { s with result := result }
    writeRecord fun r => { r with current := none }
    modify fun t => t.leave id result
  | .fail id error => do
    checkRunning id
    writeSlot id fun s => { s with error := some error }
    writeTimed fun time r => r.updateSlot id fun s => { s with completedAt := some time }
    writeRecord fun r => { r with current := none }
    modify fun t => t.setNode id .failed (some error)
    failRun id error

/-- How a program ends that makes no write before it is refused. -/
def allOrNothing (t : Tracker) : Except Refusal Tracker → EStateM.Result Refusal Tracker Unit
  | .ok t' => .ok () t'
  | .error refusal => .error refusal t

section Programs

variable {p q : Program} {refusal : Refusal}

theorem run_get_bind (f : Tracker → Program) (t : Tracker) : (get >>= f).run t = (f t).run t := rfl

theorem run_bind_of_ok (h : p.run t = .ok () t') : (p >>= fun _ => q).run t = q.run t' := by
  change EStateM.bind p (fun _ => q) t = q t'
  change p t = _ at h
  rw [EStateM.bind, h]

theorem run_bind_of_error (h : p.run t = .error refusal t') : (p >>= fun _ => q).run t = .error refusal t' := by
  change EStateM.bind p (fun _ => q) t = _
  change p t = _ at h
  rw [EStateM.bind, h]

end Programs

/-! ## The two agree -/

theorem run_start (t : Tracker) : (Call.perform .start).run t = t.allOrNothing t.start := by
  rw [Call.perform, run_get_bind, start]
  by_cases h : t.record.status = .pending
  · rw [if_neg (not_not.mpr h), if_pos h]
    rfl
  · rw [if_pos h, if_neg h]
    rfl

theorem run_cancel (t : Tracker) (reason : Option String) :
    (Call.perform (.cancel reason)).run t = t.allOrNothing (t.cancel reason) := by
  rw [Call.perform, run_get_bind, cancel]
  split <;> rfl

theorem run_begin (t : Tracker) (id : String) :
    (Call.perform (.begin id)).run t = t.allOrNothing (t.begin id) := by
  rw [Call.perform, run_get_bind, begin]
  split
  · rfl
  · split
    · rfl
    · split <;> rfl

theorem run_checkRunning (t : Tracker) (id : String) :
    (checkRunning id).run t = t.allOrNothing ((t.requireRunning id).map fun _ => t) := by
  rw [checkRunning, run_get_bind, requireRunning]
  cases t.record.slot? id with
  | none => rfl
  | some s =>
      dsimp only
      split
      · rfl
      · split <;> rfl

/-- A report that is refused by its check is refused as a whole. -/
theorem run_checkRunning_bind {p : Program} {report : Except Refusal Tracker}
    (h : p.run t = t.allOrNothing report) :
    (checkRunning id >>= fun _ => p).run t = t.allOrNothing (t.requireRunning id >>= fun _ => report) := by
  have hcheck := run_checkRunning t id
  cases hrequire : t.requireRunning id with
  | error refusal =>
      rw [hrequire] at hcheck
      rw [run_bind_of_error hcheck]
      rfl
  | ok _ =>
      rw [hrequire] at hcheck
      rw [run_bind_of_ok hcheck, h]
      rfl

/-- Among distinct ids, a slot is changed by what is done to the one slot of its id. -/
theorem updateSlot_congr {r : Record} (hnodup : r.ids.Nodup) {f g : Slot → Slot}
    (h : f (r.slot id) = g (r.slot id)) : r.updateSlot id f = r.updateSlot id g := by
  have hslots : (r.updateSlot id f).slots = (r.updateSlot id g).slots := by
    refine List.map_congr_left fun entry hentry => ?_
    by_cases hkey : entry.1 = id
    · have hslot := Record.slot_eq_of_mem hnodup hentry
      rw [hkey] at hslot
      simp [hkey, ← hslot, h]
    · simp [hkey]
  exact Record.ext rfl rfl rfl rfl rfl rfl hslots rfl rfl rfl

/-- The first writes of a report of completion, taken together. -/
theorem written_eq (t : Tracker) (id : String) (result selected : Option String) :
    ((t.mapRecord fun r => r.updateSlot id fun s => { s with selectedHandle := selected }).mapRecord fun r =>
      r.updateSlot id fun s => { s with result := result }).mapRecord (fun r => { r with current := none }) =
        t.written id result selected := by
  have htwice := Record.updateSlot_updateSlot t.record id (fun s => { s with selectedHandle := selected })
    (fun s => { s with result := result })
  exact congrArg (fun r : Record => t.mapRecord fun _ => { r with current := none }) htwice

/-- The first writes of a report of failure, taken together. -/
theorem marked_eq (t : Tracker) (id error : String) :
    ((t.mapRecord fun r => r.updateSlot id fun s => { s with error := some error }).timed fun time r =>
      r.updateSlot id fun s => { s with completedAt := some time }).mapRecord (fun r => { r with current := none }) =
        t.timed fun time r =>
          { r.updateSlot id fun s => { s with error := some error, completedAt := some time } with
            current := none } := by
  have htwice := Record.updateSlot_updateSlot t.record id (fun s => { s with error := some error })
    (fun s => { s with completedAt := some t.now })
  exact congrArg (fun r : Record => t.timed fun _ _ => { r with current := none }) htwice

/-- The branch, the result and the end of the round are written behind the last check. -/
theorem run_complete (hnodup : t.record.ids.Nodup) (id : String) (result : Option String) (outcome : Option Bool) :
    (Call.perform (.complete id result outcome)).run t = t.allOrNothing (t.complete id result outcome) := by
  rw [Call.perform, complete]
  refine run_checkRunning_bind ?_
  by_cases hdecision : t.plan.kind? id = some .decision
  · rw [if_pos hdecision]
    cases outcome with
    | none =>
        have hbranch : (selectBranch id none).run t = .error (.outcomeMissing id) t := by
          rw [selectBranch.eq_def, run_get_bind, if_pos hdecision]
          rfl
        exact run_bind_of_error hbranch
    | some b =>
        have hbranch : (selectBranch id (some b)).run t =
            .ok () (t.mapRecord fun r =>
              r.updateSlot id fun s => { s with selectedHandle := some (branchHandle b) }) := by
          rw [selectBranch.eq_def, run_get_bind, if_pos hdecision]
          rfl
        rw [run_bind_of_ok hbranch]
        exact congrArg (fun u : Tracker => EStateM.Result.ok () (u.leave id result)) (written_eq t id result _)
  · have hbranch : (selectBranch id outcome).run t = .ok () t := by
      rw [selectBranch.eq_def, run_get_bind, if_neg hdecision]
      rfl
    -- a node that is no decision keeps its handle, which is written again
    have hsame : t.record.updateSlot id (fun s => { s with result := result }) =
        t.record.updateSlot id fun s =>
          { s with selectedHandle := (t.record.slot id).selectedHandle, result := result } :=
      updateSlot_congr hnodup rfl
    rw [run_bind_of_ok hbranch, if_neg hdecision]
    exact congrArg (fun r : Record => EStateM.Result.ok ()
      ((t.mapRecord fun _ => { r with current := none }).leave id result)) hsame

theorem run_failRun (t : Tracker) (id error : String) :
    (failRun id error).run t = .ok () (if t.record.status = .running then
      ((t.mapRecord fun r => { r with error := some s!"Node '{id}' failed: {error}" }).setRun .failed
        (some error)).timed fun time r => { r with finishedAt := some time } else t) := by
  rw [failRun, run_get_bind]
  split <;> rfl

theorem run_fail (t : Tracker) (id error : String) :
    (Call.perform (.fail id error)).run t = t.allOrNothing (t.fail id error) := by
  rw [Call.perform, fail]
  refine run_checkRunning_bind ?_
  have hmarked := congrArg (fun u : Tracker => (failRun id error).run (u.setNode id .failed (some error)))
    (marked_eq t id error)
  refine hmarked.trans ?_
  dsimp only
  rw [run_failRun]
  split <;> rfl

/-- **No call is refused behind its first write.** -/
theorem run_perform (hnodup : t.record.ids.Nodup) (c : Call) : c.perform.run t = t.allOrNothing (t.call c) := by
  cases c with
  | start => exact run_start t
  | cancel reason => exact run_cancel t reason
  | begin id => exact run_begin t id
  | complete id result outcome => exact run_complete hnodup id result outcome
  | fail id error => exact run_fail t id error

/-! ## When a call is accepted -/

/-- What a call asks of the state. -/
def Allows (t : Tracker) : Call → Prop
  | .start => t.record.status = .pending
  | .cancel _ => t.record.isFinal = false
  | .begin id => id ∈ t.eligible
  | .complete id _ outcome =>
    (t.record.slot id).status = .running ∧ (t.plan.kind? id = some .decision → outcome.isSome)
  | .fail id _ => (t.record.slot id).status = .running

/-- In a run that has failed no node runs, so a report on one that does is not too late. -/
theorem unfailed_of_running (hstopped : t.record.status = .failed → ∀ id, (t.record.slot id).status ≠ .running)
    (hrunning : (t.record.slot id).status = .running) : t.record.status ≠ .failed :=
  fun hfailed => hstopped hfailed id hrunning

theorem Coherent.exists_call_eq_ok_iff (h : t.Coherent)
    (hstopped : t.record.status = .failed → ∀ id, (t.record.slot id).status ≠ .running) (c : Call) :
    (∃ t', t.call c = .ok t') ↔ t.Allows c := by
  cases c with
  | start =>
      exact ⟨fun ⟨_, hcall⟩ => (start_eq_ok_iff.mp hcall).1, fun hpending => ⟨_, start_eq_ok_iff.mpr ⟨hpending, rfl⟩⟩⟩
  | cancel reason =>
      exact ⟨fun ⟨_, hcall⟩ => (cancel_eq_ok_iff.mp hcall).1, fun hlive => ⟨_, cancel_eq_ok_iff.mpr ⟨hlive, rfl⟩⟩⟩
  | begin id =>
      have hbegin := fun t' => @begin_eq_ok_iff t t' id h.sound h.grounded.ids_eq
      exact ⟨fun ⟨t', hcall⟩ => ((hbegin t').mp hcall).1, fun hid => ⟨_, (hbegin _).mpr ⟨hid, rfl⟩⟩⟩
  | complete id result outcome =>
      constructor
      · rintro ⟨t', hcall⟩
        obtain ⟨hrunning, -, hgiven, -⟩ := complete_eq_ok_iff.mp hcall
        exact ⟨hrunning, hgiven⟩
      · rintro ⟨hrunning, hgiven⟩
        exact ⟨_, complete_eq_ok_iff.mpr ⟨hrunning, unfailed_of_running hstopped hrunning, hgiven, rfl⟩⟩
  | fail id error =>
      constructor
      · rintro ⟨t', hcall⟩
        exact (fail_eq_ok_iff.mp hcall).1
      · intro hrunning
        exact ⟨_, fail_eq_ok_iff.mpr ⟨hrunning, unfailed_of_running hstopped hrunning, rfl⟩⟩

end Runbook.Run.Tracker
