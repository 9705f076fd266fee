import Runbook.Proofs.Run.Branches

/-!
# What a call does

For each call on the tracker, when it is accepted and what it then makes of the
record, as one equation each. Later modules argue from these equations and
open no operation again. `Tracker.afterAll_induction` carries what every accepted
call keeps to every state that calls can reach.
-/

namespace Runbook.Run

namespace Tracker

variable {t t' : Tracker} {id : String}

/-- A later reading of the clock. -/
def time (t : Tracker) (later : Nat) : Int := t.clock.reading (t.clock.taken + later)

/-! ## The run -/

theorem launch_record (t : Tracker) :
    t.launch.record = { t.record with
      status := .running
      startedAt := some (t.time 1)
      events := t.record.events ++ [⟨t.time 0, .run t.record.status .running, none⟩] } := rfl

@[simp] theorem launch_begins (t : Tracker) : t.launch.record.begins = t.record.begins := by
  rw [Record.begins_append (congrArg Record.events t.launch_record)]
  exact List.append_nil _

/-- The run is over once nothing runs and nothing may begin. -/
def Finished (t : Tracker) : Prop := t.record.runningNode = none ∧ t.eligible = []

instance (t : Tracker) : Decidable t.Finished := inferInstanceAs (Decidable (_ ∧ _))

theorem checkFinished_of_finished (h : t.Finished) :
    t.checkFinished.record = { t.record with
      finalResult := t.lastResult
      finishedAt := some (t.time 0)
      status := .completed
      events := t.record.events ++ [⟨t.time 1, .run t.record.status .completed, none⟩] } := by
  have hcond : (t.record.runningNode.isNone && t.eligible.isEmpty) = true := by simp [h.1, h.2]
  rw [checkFinished, if_pos hcond]
  rfl

theorem checkFinished_of_not_finished (h : ¬ t.Finished) : t.checkFinished = t := by
  have hcond : ¬ (t.record.runningNode.isNone && t.eligible.isEmpty) = true := by
    simpa [Finished] using h
  rw [checkFinished, if_neg hcond]

@[simp] theorem checkFinished_plan (t : Tracker) : t.checkFinished.plan = t.plan := by
  rw [checkFinished]
  split <;> rfl

/-- The check changes no slot. -/
@[simp] theorem checkFinished_slots (t : Tracker) :
    t.checkFinished.record.slots = t.record.slots := by
  rw [checkFinished]
  split <;> rfl

@[simp] theorem checkFinished_visited (t : Tracker) :
    t.checkFinished.record.visited = t.record.visited := by
  rw [checkFinished]
  split <;> rfl

theorem checkFinished_status (t : Tracker) :
    t.checkFinished.record.status = if t.Finished then .completed else t.record.status := by
  split
  · rename_i h
    rw [checkFinished_of_finished h]
  · rename_i h
    rw [checkFinished_of_not_finished h]

@[simp] theorem checkFinished_begins (t : Tracker) :
    t.checkFinished.record.begins = t.record.begins := by
  by_cases h : t.Finished
  · rw [Record.begins_append (congrArg Record.events (checkFinished_of_finished h))]
    exact List.append_nil _
  · rw [checkFinished_of_not_finished h]

theorem start_eq_ok_iff :
    t.start = .ok t' ↔ t.record.status = .pending ∧ t' = t.launch.checkFinished := by
  rw [start]
  split
  · rename_i h
    simp only [h, true_and, Except.ok.injEq]
    exact eq_comm
  · rename_i h
    simp [h]

/-- The tracker whose run is cancelled. -/
def cancelled (t : Tracker) (reason : Option String) : Tracker :=
  (t.setRun .cancelled reason).timed fun time r => { r with finishedAt := some time }

theorem cancelled_record (t : Tracker) (reason : Option String) :
    (t.cancelled reason).record = { t.record with
      status := .cancelled
      finishedAt := some (t.time 1)
      events := t.record.events ++ [⟨t.time 0, .run t.record.status .cancelled, reason⟩] } := rfl

@[simp] theorem cancelled_begins (t : Tracker) (reason : Option String) :
    (t.cancelled reason).record.begins = t.record.begins := by
  rw [Record.begins_append (congrArg Record.events (t.cancelled_record reason))]
  exact List.append_nil _

theorem cancel_eq_ok_iff {reason : Option String} :
    t.cancel reason = .ok t' ↔ t.record.isFinal = false ∧ t' = t.cancelled reason := by
  rw [cancel]
  split
  · rename_i h
    simp [h]
  · rename_i h
    have hlive : t.record.isFinal = false := by simpa using h
    simp only [hlive, true_and, Except.ok.injEq]
    exact eq_comm

/-! ## Beginning a node -/

theorem setNode_slot (hid : id ∈ t.record.ids) (status : NodeStatus) (detail : Option String)
    (other : String) :
    (t.setNode id status detail).record.slot other =
      if other = id then { t.record.slot id with status := status } else t.record.slot other := by
  have hslot := Record.slot_updateSlot hid (fun s => { s with status := status }) other
  exact (Record.slot_congr rfl other).trans hslot

/-- The tracker that begins a node: its run has started. -/
def launched (t : Tracker) : Tracker := if t.record.status = .pending then t.launch else t

@[simp] theorem launched_plan (t : Tracker) : t.launched.plan = t.plan := by
  rw [launched]
  split <;> rfl

@[simp] theorem launched_slots (t : Tracker) : t.launched.record.slots = t.record.slots := by
  rw [launched]
  split <;> rfl

@[simp] theorem launched_visited (t : Tracker) : t.launched.record.visited = t.record.visited := by
  rw [launched]
  split <;> rfl

@[simp] theorem launched_begins (t : Tracker) : t.launched.record.begins = t.record.begins := by
  rw [launched]
  split
  · exact launch_begins t
  · rfl

theorem launched_status (h : t.record.isFinal = false) : t.launched.record.status = .running := by
  rw [launched]
  split
  · rfl
  · rename_i hpending
    cases hstatus : t.record.status <;> simp_all [Record.isFinal, RunStatus.isFinal]

/-- What beginning a node makes of its slot. -/
def entered (t : Tracker) (id : String) (s : Slot) : Slot :=
  { s with
    status := .running
    startedAt := if (t.record.slot id).startedAt.isNone then some (t.time 1) else s.startedAt }

theorem enter_record (hid : id ∈ t.record.ids) :
    (t.enter id).record =
      { t.record.updateSlot id (t.entered id) with
        visited :=
          if t.record.visited.contains id then t.record.visited else t.record.visited ++ [id]
        current := some id
        events := t.record.events ++
          [⟨t.time 0, .node id (t.record.slot id).status .running, t.roundDetail id⟩] } := by
  have hstarted : ((t.setNode id .running (t.roundDetail id)).record.slot id).startedAt =
      (t.record.slot id).startedAt := by
    rw [setNode_slot hid, if_pos rfl]
  -- a second clock reading is taken for the first round only
  by_cases hnone : (t.record.slot id).startedAt.isNone = true
  · have hslots := congrArg Record.slots (Record.updateSlot_updateSlot t.record id
      (fun s => { s with status := .running }) (fun s => { s with startedAt := some (t.time 1) }))
    have hentered : t.entered id =
        fun s => { s with status := .running, startedAt := some (t.time 1) } := by
      funext s
      simp only [entered, hnone, if_true]
    rw [hentered]
    simp only [enter, hstarted, hnone, if_true]
    exact Record.ext rfl rfl rfl rfl rfl rfl hslots rfl rfl rfl
  · have hentered : t.entered id = fun s => { s with status := .running } := by
      funext s
      simp only [entered, hnone]
      rfl
    rw [hentered]
    simp only [enter, hstarted, hnone]
    rfl

/-- **What beginning does to the slots.** -/
theorem enter_slot (hid : id ∈ t.record.ids) (other : String) :
    (t.enter id).record.slot other =
      if other = id then t.entered id (t.record.slot id) else t.record.slot other := by
  have hslot := Record.slot_updateSlot hid (t.entered id) other
  rw [enter_record hid]
  exact (Record.slot_congr rfl other).trans hslot

theorem enter_ids (hid : id ∈ t.record.ids) : (t.enter id).record.ids = t.record.ids := by
  have hids := Record.ids_updateSlot t.record id (t.entered id)
  rw [enter_record hid]
  exact (Record.ids_congr rfl).trans hids

theorem mem_enter_visited (hid : id ∈ t.record.ids) {other : String} :
    other ∈ (t.enter id).record.visited ↔ other = id ∨ other ∈ t.record.visited := by
  rw [enter_record hid]
  by_cases h : id ∈ t.record.visited
  · simp only [List.contains_eq_mem, h, decide_true, if_true]
    exact ⟨.inr, fun hor => hor.elim (fun heq => heq ▸ h) (fun hmem => hmem)⟩
  · simp [List.contains_eq_mem, h, or_comm]

theorem enter_status (hid : id ∈ t.record.ids) :
    (t.enter id).record.status = t.record.status := by
  rw [enter_record hid]
  rfl

theorem enter_begins (hid : id ∈ t.record.ids) :
    (t.enter id).record.begins = t.record.begins ++ [id] := by
  rw [Record.begins_append (congrArg Record.events (enter_record hid))]
  rfl

theorem enter_plan (t : Tracker) (id : String) : (t.enter id).plan = t.plan := by
  rw [enter]
  split <;> rfl

/-- A node begins iff it is offered. -/
theorem begin_eq_ok_iff (hsound : t.plan.Sound) (hids : t.record.ids = t.plan.ids) :
    t.begin id = .ok t' ↔ id ∈ t.eligible ∧ t' = t.launched.enter id := by
  have hknown : id ∈ t.eligible → (t.record.slot? id).isNone = false ∧ t.record.isFinal = false := by
    intro h
    obtain ⟨hfinal, -, hfree⟩ := (Plan.mem_eligible_iff hsound).mp h
    have hmem : id ∈ t.record.ids := hids ▸ hsound.sequenced.subset id hfree.mem
    exact ⟨by rw [Record.slot?_of_mem hmem]; rfl, hfinal⟩
  by_cases helig : id ∈ t.eligible
  · obtain ⟨hslot, hfinal⟩ := hknown helig
    simp only [begin, hslot, hfinal, helig, List.contains_eq_mem, decide_true, launched,
      Bool.false_eq_true, Bool.not_true, if_false, true_and, Except.ok.injEq]
    exact eq_comm
  · have hcontains : t.eligible.contains id = false := by simpa using helig
    simp only [begin, hcontains, Bool.not_false, if_true, helig, false_and, iff_false]
    split
    · simp
    · split <;> simp

/-! ## Completing a node -/

theorem requireRunning_eq_ok_iff :
    t.requireRunning id = .ok () ↔
      (t.record.slot id).status = .running ∧ t.record.status ≠ .failed := by
  rw [requireRunning]
  by_cases hid : id ∈ t.record.ids
  · rw [Record.slot?_of_mem hid]
    by_cases hrunning : (t.record.slot id).status = .running
    · by_cases hfailed : t.record.status = .failed
      · simp [hrunning, hfailed]
      · simp [hrunning, hfailed]
    · simp [hrunning]
  · rw [Record.slot?_eq_none_iff.mpr hid, Record.slot_of_not_mem hid]
    simp [Slot.initial]

/-- **A report opens with the guard**: what follows is carried out iff the node
runs, in a run that has not failed. -/
theorem bind_requireRunning_eq_ok_iff {report : Except Refusal Tracker} :
    (t.requireRunning id >>= fun _ => report) = .ok t' ↔
      (t.record.slot id).status = .running ∧ t.record.status ≠ .failed ∧ report = .ok t' := by
  rw [← and_assoc, ← requireRunning_eq_ok_iff]
  cases t.requireRunning id with
  | error refusal =>
      constructor
      · intro h
        cases h
      · rintro ⟨h, -⟩
        cases h
  | ok _ => exact (and_iff_right rfl).symm

/-- The handle that a node has selected once it is reported complete. -/
def handleAfter (t : Tracker) (id : String) (outcome : Option Bool) : Option String :=
  if t.plan.kind? id = some .decision then outcome.map branchHandle
  else (t.record.slot id).selectedHandle

/-- What a report of completion makes of a slot before the node changes its
state: a loop counts the round. -/
def report (t : Tracker) (id : String) (result : Option String) (outcome : Option Bool)
    (s : Slot) : Slot :=
  { s with
    selectedHandle := t.handleAfter id outcome
    result := result
    iterations := if t.plan.kind? id = some .loop then s.iterations + 1 else s.iterations }

def reported (t : Tracker) (id : String) (result : Option String) (outcome : Option Bool) :
    Tracker :=
  t.mapRecord fun r =>
    { r.updateSlot id (t.report id result outcome) with current := none }

@[simp] theorem reported_plan (t : Tracker) (id : String) (result : Option String)
    (outcome : Option Bool) : (t.reported id result outcome).plan = t.plan := rfl

/-- The node is a loop that has more rounds to run after this one. -/
def Again (t : Tracker) (id : String) : Prop :=
  t.plan.kind? id = some .loop ∧ (t.record.slot id).iterations + 1 < t.plan.rounds id

instance (t : Tracker) (id : String) : Decidable (t.Again id) :=
  inferInstanceAs (Decidable (_ ∧ _))

/-- The tracker with a node closed, before the run is checked. -/
def ended (t : Tracker) (id : String) (result : Option String) : Tracker :=
  { (t.setNode id .completed (t.record.slot id).selectedHandle).timed fun time r =>
      r.updateSlot id fun s => { s with completedAt := some time } with
    lastResult := result }

@[simp] theorem ended_plan (t : Tracker) (id : String) (result : Option String) :
    (t.ended id result).plan = t.plan := rfl

/-- The tracker after an accepted report of completion. -/
def completed (t : Tracker) (id : String) (result : Option String) (outcome : Option Bool) :
    Tracker :=
  let u := t.reported id result outcome
  if t.Again id then
    u.setNode id .pending
      (some s!"iteration {(t.record.slot id).iterations + 1}/{t.plan.rounds id} done")
  else if t.record.status = .running then (u.ended id result).checkFinished
  else u.ended id result

theorem reported_slot (hid : id ∈ t.record.ids) (result : Option String) (outcome : Option Bool)
    (other : String) :
    (t.reported id result outcome).record.slot other =
      if other = id then t.report id result outcome (t.record.slot id)
      else t.record.slot other := by
  have hslot := Record.slot_updateSlot hid (t.report id result outcome) other
  exact (Record.slot_congr rfl other).trans hslot

/-- The first writes of a report: its result, and the branch of a decision. -/
def written (t : Tracker) (id : String) (result selected : Option String) : Tracker :=
  t.mapRecord fun r =>
    { r.updateSlot id fun s => { s with selectedHandle := selected, result := result } with
      current := none }

/-- The tracker with one more round of a loop counted. -/
def counted (t : Tracker) (id : String) : Tracker :=
  t.mapRecord fun r => r.updateSlot id fun s => { s with iterations := s.iterations + 1 }

theorem counted_written (hloop : t.plan.kind? id = some .loop) (result : Option String)
    (outcome : Option Bool) :
    (t.written id result (t.handleAfter id outcome)).counted id = t.reported id result outcome := by
  have hslots := congrArg Record.slots (Record.updateSlot_updateSlot t.record id
    (fun s => { s with selectedHandle := t.handleAfter id outcome, result := result })
    (fun s => { s with iterations := s.iterations + 1 }))
  have hrecord : ((t.written id result (t.handleAfter id outcome)).counted id).record =
      (t.reported id result outcome).record := by
    have hreport : t.report id result outcome = fun s => { s with
        selectedHandle := t.handleAfter id outcome
        result := result
        iterations := s.iterations + 1 } := by
      funext s
      simp only [report, hloop, if_true]
    rw [reported, hreport]
    exact Record.ext rfl rfl rfl rfl rfl rfl hslots rfl rfl rfl
  exact congrArg (fun r => { t with record := r }) hrecord

/-- The two steps of a report, writing its result and leaving the node, taken
together. -/
theorem leave_written (hid : id ∈ t.record.ids) (result : Option String)
    (outcome : Option Bool) :
    (t.written id result (t.handleAfter id outcome)).leave id result =
      t.completed id result outcome := by
  -- a loop looks at its count after it has counted the round
  by_cases hloop : t.plan.kind? id = some .loop
  · have hdone : ((t.reported id result outcome).record.slot id).iterations =
        (t.record.slot id).iterations + 1 := by
      rw [reported_slot hid, if_pos rfl]
      simp [report, hloop]
    have hleave : (t.written id result (t.handleAfter id outcome)).leave id result =
        let u := (t.written id result (t.handleAfter id outcome)).counted id
        if (u.record.slot id).iterations < t.plan.rounds id then
          u.setNode id .pending
            (some s!"iteration {(u.record.slot id).iterations}/{t.plan.rounds id} done")
        else u.close id result := if_pos hloop
    rw [hleave, counted_written hloop]
    simp only [hdone, completed]
    by_cases hlt : (t.record.slot id).iterations + 1 < t.plan.rounds id
    · rw [if_pos hlt, if_pos (show t.Again id from ⟨hloop, hlt⟩)]
    · rw [if_neg hlt, if_neg (fun h : t.Again id => hlt h.2)]
      rfl
  · have hreported : t.written id result (t.handleAfter id outcome) =
        t.reported id result outcome := by
      have hreport : t.report id result outcome = fun s => { s with
          selectedHandle := t.handleAfter id outcome
          result := result } := by
        funext s
        simp only [report, hloop, if_false]
      rw [reported, hreport]
      rfl
    have hleave : (t.written id result (t.handleAfter id outcome)).leave id result =
        (t.written id result (t.handleAfter id outcome)).close id result := if_neg hloop
    rw [hleave, hreported]
    simp only [completed]
    rw [if_neg (fun h : t.Again id => hloop h.1)]
    rfl

/-- A report of completion is accepted iff the node runs and a decision says
which branch it takes. -/
theorem complete_eq_ok_iff {result : Option String} {outcome : Option Bool} :
    t.complete id result outcome = .ok t' ↔
      (t.record.slot id).status = .running ∧ t.record.status ≠ .failed ∧
      (t.plan.kind? id = some .decision → outcome.isSome) ∧
      t' = t.completed id result outcome := by
  rw [complete, bind_requireRunning_eq_ok_iff]
  refine and_congr_right fun hrunning => and_congr_right fun _ => ?_
  have hid : id ∈ t.record.ids := Record.mem_ids_of_status (by rw [hrunning]; decide)
  have hleave := leave_written hid result outcome
  rw [handleAfter] at hleave
  by_cases hdecision : t.plan.kind? id = some .decision
  · cases outcome with
    | none =>
        simp only [hdecision, if_true]
        constructor
        · intro h
          cases h
        · rintro ⟨hsome, -⟩
          exact absurd (hsome trivial) (by simp)
    | some b =>
        rw [if_pos hdecision, Option.map_some] at hleave
        simp only [hdecision, if_true]
        show Except.ok ((t.written id result (some (branchHandle b))).leave id result) = .ok t' ↔ _
        rw [hleave, Except.ok.injEq]
        exact ⟨fun h => ⟨fun _ => rfl, h.symm⟩, fun h => h.2.symm⟩
  · rw [if_neg hdecision] at hleave
    simp only [hdecision, if_false]
    show Except.ok ((t.written id result (t.record.slot id).selectedHandle).leave id result) =
      .ok t' ↔ _
    rw [hleave, Except.ok.injEq]
    exact ⟨fun h => ⟨fun h => h.elim, h.symm⟩, fun h => h.2.symm⟩

theorem completed_of_again (h : t.Again id) (result : Option String) (outcome : Option Bool) :
    t.completed id result outcome = (t.reported id result outcome).setNode id .pending
      (some s!"iteration {(t.record.slot id).iterations + 1}/{t.plan.rounds id} done") := by
  simp only [completed]
  rw [if_pos h]

theorem completed_of_last (h : ¬ t.Again id) (result : Option String) (outcome : Option Bool) :
    t.completed id result outcome =
      if t.record.status = .running then
        ((t.reported id result outcome).ended id result).checkFinished
      else (t.reported id result outcome).ended id result := by
  simp only [completed]
  rw [if_neg h]

theorem completed_slots_of_last (h : ¬ t.Again id) (result : Option String)
    (outcome : Option Bool) :
    (t.completed id result outcome).record.slots =
      ((t.reported id result outcome).ended id result).record.slots := by
  rw [completed_of_last h]
  split
  · exact checkFinished_slots _
  · rfl

/-- Where a run does not go on, a report leaves its status. -/
theorem completed_status_of_stopped (h : t.record.status ≠ .running) (result : Option String)
    (outcome : Option Bool) :
    (t.completed id result outcome).record.status = t.record.status := by
  simp only [completed, if_neg h]
  split <;> rfl

/-- **A round that is not the last** sends the node back. -/
theorem completed_record_again (hid : id ∈ t.record.ids) (h : t.Again id) (result : Option String)
    (outcome : Option Bool) :
    (t.completed id result outcome).record =
      { t.record.updateSlot id fun s => { t.report id result outcome s with status := .pending } with
        current := none
        events := t.record.events ++ [⟨t.time 0, .node id (t.record.slot id).status .pending,
          some s!"iteration {(t.record.slot id).iterations + 1}/{t.plan.rounds id} done"⟩] } := by
  have hslots := congrArg Record.slots (Record.updateSlot_updateSlot t.record id
    (t.report id result outcome) (fun s => { s with status := .pending }))
  have hbefore : ((t.reported id result outcome).record.slot id).status =
      (t.record.slot id).status := by
    rw [reported_slot hid, if_pos rfl]
    rfl
  rw [completed_of_again h, ← hbefore]
  exact Record.ext rfl rfl rfl rfl rfl rfl hslots rfl rfl rfl

/-- **The last round** closes the node. -/
theorem ended_reported_record (hid : id ∈ t.record.ids) (result : Option String)
    (outcome : Option Bool) :
    ((t.reported id result outcome).ended id result).record =
      { t.record.updateSlot id fun s => { t.report id result outcome s with
          status := .completed
          completedAt := some (t.time 1) } with
        current := none
        events := t.record.events ++ [⟨t.time 0, .node id (t.record.slot id).status .completed,
          t.handleAfter id outcome⟩] } := by
  have hslots := (congrArg Record.slots (congrArg (Record.updateSlot · id fun s =>
      { s with completedAt := some (t.time 1) }) (Record.updateSlot_updateSlot t.record id
    (t.report id result outcome) (fun s => { s with status := .completed })))).trans
      (congrArg Record.slots (Record.updateSlot_updateSlot t.record id _ _))
  have hbefore : ((t.reported id result outcome).record.slot id).status =
      (t.record.slot id).status := by
    rw [reported_slot hid, if_pos rfl]
    rfl
  have hhandle : ((t.reported id result outcome).record.slot id).selectedHandle =
      t.handleAfter id outcome := by
    rw [reported_slot hid, if_pos rfl]
    rfl
  rw [← hbefore]
  refine Record.ext rfl rfl rfl rfl rfl rfl hslots rfl rfl ?_
  rw [← hhandle]
  rfl

/-- **What completing does to the slots**: a loop that has more rounds to run is
pending again, any other node is completed. -/
theorem completed_slot (hid : id ∈ t.record.ids) (result : Option String) (outcome : Option Bool)
    (other : String) :
    (t.completed id result outcome).record.slot other =
      if other = id then { t.report id result outcome (t.record.slot id) with
        status := if t.Again id then .pending else .completed
        completedAt := if t.Again id then (t.record.slot id).completedAt else some (t.time 1) }
      else t.record.slot other := by
  by_cases h : t.Again id
  · have hslot := Record.slot_updateSlot hid
      (fun s => { t.report id result outcome s with status := .pending }) other
    rw [if_pos h, if_pos h, completed_record_again hid h result outcome]
    exact (Record.slot_congr rfl other).trans hslot
  · have hslot := Record.slot_updateSlot hid (fun s => { t.report id result outcome s with
      status := .completed
      completedAt := some (t.time 1) }) other
    rw [if_neg h, if_neg h, Record.slot_congr (completed_slots_of_last h result outcome) other,
      ended_reported_record hid]
    exact (Record.slot_congr rfl other).trans hslot

theorem completed_plan (t : Tracker) (id : String) (result : Option String)
    (outcome : Option Bool) : (t.completed id result outcome).plan = t.plan := by
  simp only [completed]
  split
  · rfl
  · split
    · exact checkFinished_plan _
    · rfl

theorem completed_visited (t : Tracker) (id : String) (result : Option String)
    (outcome : Option Bool) :
    (t.completed id result outcome).record.visited = t.record.visited := by
  simp only [completed]
  split
  · rfl
  · split
    · exact checkFinished_visited _
    · rfl

theorem completed_ids (hid : id ∈ t.record.ids) (result : Option String)
    (outcome : Option Bool) : (t.completed id result outcome).record.ids = t.record.ids := by
  by_cases h : t.Again id
  · have hids := Record.ids_updateSlot t.record id
      (fun s => { t.report id result outcome s with status := .pending })
    rw [completed_record_again hid h]
    exact (Record.ids_congr rfl).trans hids
  · have hids := Record.ids_updateSlot t.record id (fun s => { t.report id result outcome s with
      status := .completed
      completedAt := some (t.time 1) })
    rw [Record.ids_congr (completed_slots_of_last h result outcome), ended_reported_record hid]
    exact (Record.ids_congr rfl).trans hids

theorem completed_begins (hid : id ∈ t.record.ids) (result : Option String)
    (outcome : Option Bool) :
    (t.completed id result outcome).record.begins = t.record.begins := by
  by_cases h : t.Again id
  · rw [Record.begins_append (congrArg Record.events (completed_record_again hid h result outcome))]
    exact List.append_nil _
  · have hended : ((t.reported id result outcome).ended id result).record.begins =
        t.record.begins := by
      rw [Record.begins_append (congrArg Record.events (ended_reported_record hid result outcome))]
      exact List.append_nil _
    rw [completed_of_last h]
    split
    · rw [checkFinished_begins, hended]
    · exact hended

/-! ## Failing a node -/

/-- What failing a node makes of its slot. -/
def failure (t : Tracker) (error : String) (s : Slot) : Slot :=
  { s with
    status := .failed
    error := some error
    completedAt := some (t.time 0) }

/-- The tracker with a node failed, before the run fails with it. -/
def nodeFailed (t : Tracker) (id : String) (error : String) : Tracker :=
  (t.timed fun time r => { r.updateSlot id fun s => { s with
      error := some error, completedAt := some time } with
    current := none }).setNode id .failed (some error)

theorem nodeFailed_record (hid : id ∈ t.record.ids) (error : String) :
    (t.nodeFailed id error).record =
      { t.record.updateSlot id (t.failure error) with
        current := none
        events := t.record.events ++
          [⟨t.time 1, .node id (t.record.slot id).status .failed, some error⟩] } := by
  have hslots := congrArg Record.slots (Record.updateSlot_updateSlot t.record id
    (fun s => { s with error := some error, completedAt := some (t.time 0) })
    (fun s => { s with status := .failed }))
  have hslot := Record.slot_updateSlot hid
    (fun s => { s with error := some error, completedAt := some (t.time 0) }) id
  rw [if_pos rfl] at hslot
  have hbefore := congrArg Slot.status hslot
  refine Record.ext rfl rfl rfl rfl rfl rfl hslots rfl rfl ?_
  show _ = t.record.events ++
    [⟨t.time 1, .node id ({ t.record.slot id with error := some error } : Slot).status .failed,
      some error⟩]
  rw [← hbefore]
  rfl

/-- The tracker after an accepted report of failure. -/
def failed (t : Tracker) (id : String) (error : String) : Tracker :=
  if t.record.status = .running then
    ((((t.nodeFailed id error).mapRecord fun r =>
      { r with error := some s!"Node '{id}' failed: {error}" }).setRun .failed (some error)).timed
        fun time r => { r with finishedAt := some time })
  else t.nodeFailed id error

theorem failed_of_stopped (h : t.record.status ≠ .running) (id error : String) :
    t.failed id error = t.nodeFailed id error := if_neg h

/-- **A run that goes on** fails with its node. -/
theorem failed_record_of_running (hid : id ∈ t.record.ids) (h : t.record.status = .running)
    (error : String) :
    (t.failed id error).record =
      { t.record.updateSlot id (t.failure error) with
        current := none
        error := some s!"Node '{id}' failed: {error}"
        status := .failed
        finishedAt := some (t.time 3)
        events := t.record.events ++
          [⟨t.time 1, .node id (t.record.slot id).status .failed, some error⟩,
            ⟨t.time 2, .run .running .failed, some error⟩] } := by
  have hfrom : (t.failed id error).record = { (t.nodeFailed id error).record with
      error := some s!"Node '{id}' failed: {error}"
      status := .failed
      finishedAt := some (t.time 3)
      events := (t.nodeFailed id error).record.events ++
        [⟨t.time 2, .run .running .failed, some error⟩] } := by
    rw [failed, if_pos h, ← h]
    rfl
  rw [hfrom, nodeFailed_record hid error]
  simp only [List.append_assoc]
  rfl

theorem fail_eq_ok_iff {error : String} :
    t.fail id error = .ok t' ↔
      (t.record.slot id).status = .running ∧ t.record.status ≠ .failed ∧
        t' = t.failed id error := by
  have hfail : t.fail id error = t.requireRunning id >>= fun _ => .ok (t.failed id error) := by
    simp only [fail, failed]
    congr 1
    funext _
    show (if t.record.status = .running then _ else _) = _
    split <;> rfl
  rw [hfail, bind_requireRunning_eq_ok_iff, Except.ok.injEq]
  exact and_congr_right fun _ => and_congr_right fun _ => eq_comm

theorem failed_plan (t : Tracker) (id error : String) : (t.failed id error).plan = t.plan := by
  have hnode : (t.nodeFailed id error).plan = t.plan := rfl
  rw [failed]
  split
  · exact hnode
  · exact hnode

theorem failed_slots (t : Tracker) (id error : String) :
    (t.failed id error).record.slots = (t.nodeFailed id error).record.slots := by
  rw [failed]
  split <;> rfl

theorem failed_visited (t : Tracker) (id error : String) :
    (t.failed id error).record.visited = t.record.visited := by
  have hnode : (t.nodeFailed id error).record.visited = t.record.visited := rfl
  rw [failed]
  split
  · exact hnode
  · exact hnode

theorem failed_status (t : Tracker) (id error : String) :
    (t.failed id error).record.status =
      if t.record.status = .running then .failed else t.record.status := by
  rw [failed]
  split <;> rfl

theorem failed_ids (hid : id ∈ t.record.ids) (error : String) :
    (t.failed id error).record.ids = t.record.ids := by
  have hids := Record.ids_updateSlot t.record id (t.failure error)
  rw [Record.ids_congr (failed_slots t id error), nodeFailed_record hid]
  exact (Record.ids_congr rfl).trans hids

/-- **What failing does to the slots.** -/
theorem failed_slot (hid : id ∈ t.record.ids) (error : String) (other : String) :
    (t.failed id error).record.slot other =
      if other = id then t.failure error (t.record.slot id) else t.record.slot other := by
  have hslot := Record.slot_updateSlot hid (t.failure error) other
  rw [Record.slot_congr (failed_slots t id error) other, nodeFailed_record hid]
  exact (Record.slot_congr rfl other).trans hslot

theorem failed_begins (hid : id ∈ t.record.ids) (error : String) :
    (t.failed id error).record.begins = t.record.begins := by
  have hnode : (t.nodeFailed id error).record.begins = t.record.begins := by
    rw [Record.begins_append (congrArg Record.events (nodeFailed_record hid error))]
    exact List.append_nil _
  rw [← hnode, failed]
  split
  · exact (Record.begins_append rfl).trans (List.append_nil _)
  · rfl

/-! ## Calls in a row -/

/-- The tracker after calls in a row, of which those that are refused change nothing. -/
def afterAll (t : Tracker) (calls : List Call) : Tracker := calls.foldl after t

/-- **Induction along calls**: what holds at first and what every accepted call
keeps holds in every state that calls can reach. -/
theorem afterAll_induction {P : Tracker → Prop}
    (step : ∀ t t' c, P t → t.call c = .ok t' → P t') (calls : List Call) :
    ∀ t, P t → P (t.afterAll calls) := by
  induction calls with
  | nil => exact fun t h => h
  | cons c rest ih =>
      intro t h
      refine ih _ ?_
      rw [after]
      split
      · rename_i t' hcall
        exact step t t' c h hcall
      · exact h

end Tracker

end Runbook.Run
