import Runbook.Proofs.Run.Coherence

/-!
# Over is over

A run that is over refuses every call, but for a report on the node that was running
when it was cancelled. `Coherent.call_of_isFinal` says what that report can do: it
moves the node and leaves the run as it ended. After it nothing runs, and a run that
is over and in which nothing runs refuses everything (`Coherent.call_ne_ok_of_quiet`).
Main statement: `Tracker.over_is_final`.
-/

namespace Runbook.Run

/-- How a run ended, and what it came to until then. -/
structure Record.SameEnd (r r' : Record) : Prop where
  status : r'.status = r.status
  startedAt : r'.startedAt = r.startedAt
  finishedAt : r'.finishedAt = r.finishedAt
  finalResult : r'.finalResult = r.finalResult
  error : r'.error = r.error
  visited : r'.visited = r.visited

theorem Record.SameEnd.refl (r : Record) : r.SameEnd r := ⟨rfl, rfl, rfl, rfl, rfl, rfl⟩

namespace Tracker

variable {t t' : Tracker} {id : String}

/-- The states that a node may move to when its run is over: an unfinished loop is
pending again. -/
def Outlasts (t : Tracker) (id : String) (after : NodeStatus) : Prop :=
  after = .completed ∨ after = .failed ∨ after = .pending ∧ t.Again id

/-- The node that ran when the run was cancelled is reported, which is noted, and
the run stays as it ended. -/
structure LastReport (t t' : Tracker) : Prop where
  cancelled : t.record.status = .cancelled
  same : t.record.SameEnd t'.record
  quiet : ∀ id, (t'.record.slot id).status ≠ .running
  noted : ∃ id time detail after, (t.record.slot id).status = .running ∧ t.Outlasts id after ∧
    t'.record.events = t.record.events ++ [⟨time, .node id .running after, detail⟩]

/-- Only a cancelled run can be over while a node runs. -/
theorem Coherent.cancelled_of_running (h : t.Coherent) (hfinal : t.record.isFinal = true)
    (hrunning : (t.record.slot id).status = .running) (hunfailed : t.record.status ≠ .failed) :
    t.record.status = .cancelled := by
  obtain ⟨hpending, hcompleted⟩ := h.status_of_running hrunning
  cases hstatus : t.record.status with
  | cancelled => rfl
  | running =>
      rw [Record.isFinal, hstatus] at hfinal
      cases hfinal
  | pending => exact absurd hstatus hpending
  | completed => exact absurd hstatus hcompleted
  | failed => exact absurd hstatus hunfailed

theorem Coherent.lastReport_completed (h : t.Coherent)
    (hcancelled : t.record.status = .cancelled) (hrunning : (t.record.slot id).status = .running)
    (result : Option String) (outcome : Option Bool) :
    t.LastReport (t.completed id result outcome) := by
  have hid := (h.of_running hrunning).1
  have hstopped : t.record.status ≠ .running := by rw [hcancelled]; decide
  by_cases hagain : t.Again id
  · have hfrom := completed_record_again hid hagain result outcome
    have hevents := congrArg Record.events hfrom
    rw [hrunning] at hevents
    refine ⟨hcancelled, ?_, h.completed_quiet hrunning result outcome,
      ⟨id, _, _, .pending, hrunning, .inr (.inr ⟨rfl, hagain⟩), hevents⟩⟩
    rw [hfrom]
    exact ⟨rfl, rfl, rfl, rfl, rfl, rfl⟩
  · -- no check follows, for the run does not go on
    have hclosed := (completed_of_last hagain result outcome).trans (if_neg hstopped)
    have hfrom := (congrArg record hclosed).trans (ended_reported_record hid result outcome)
    have hevents := congrArg Record.events hfrom
    rw [hrunning] at hevents
    refine ⟨hcancelled, ?_, h.completed_quiet hrunning result outcome,
      ⟨id, _, _, .completed, hrunning, .inl rfl, hevents⟩⟩
    rw [hfrom]
    exact ⟨rfl, rfl, rfl, rfl, rfl, rfl⟩

theorem Coherent.lastReport_failed (h : t.Coherent) (hcancelled : t.record.status = .cancelled)
    (hrunning : (t.record.slot id).status = .running) (error : String) :
    t.LastReport (t.failed id error) := by
  have hid := (h.of_running hrunning).1
  have hstopped : t.record.status ≠ .running := by rw [hcancelled]; decide
  have hfrom := (congrArg record (failed_of_stopped hstopped id error)).trans
    (nodeFailed_record hid error)
  have hevents := congrArg Record.events hfrom
  rw [hrunning] at hevents
  refine ⟨hcancelled, ?_, h.failed_quiet hrunning error,
    ⟨id, _, _, .failed, hrunning, .inr (.inl rfl), hevents⟩⟩
  rw [hfrom]
  exact ⟨rfl, rfl, rfl, rfl, rfl, rfl⟩

/-- **A call on a run that is over**, if it is accepted, reports the node that ran when
the run was cancelled. -/
theorem Coherent.call_of_isFinal (h : t.Coherent) (hfinal : t.record.isFinal = true) (c : Call)
    (hcall : t.call c = .ok t') : t.LastReport t' := by
  cases c with
  | start =>
      obtain ⟨hpending, -⟩ := start_eq_ok_iff.mp hcall
      rw [Record.isFinal, hpending] at hfinal
      cases hfinal
  | cancel reason =>
      obtain ⟨hlive, -⟩ := cancel_eq_ok_iff.mp hcall
      rw [hfinal] at hlive
      cases hlive
  | begin id =>
      obtain ⟨hid, -⟩ := (begin_eq_ok_iff h.sound h.grounded.ids_eq).mp hcall
      obtain ⟨hlive, -⟩ := (Plan.mem_eligible_iff h.sound).mp hid
      rw [hfinal] at hlive
      cases hlive
  | complete id result outcome =>
      obtain ⟨hrunning, hunfailed, -, rfl⟩ := complete_eq_ok_iff.mp hcall
      have hcancelled := h.cancelled_of_running hfinal hrunning hunfailed
      exact h.lastReport_completed hcancelled hrunning result outcome
  | fail id error =>
      obtain ⟨hrunning, hunfailed, rfl⟩ := fail_eq_ok_iff.mp hcall
      have hcancelled := h.cancelled_of_running hfinal hrunning hunfailed
      exact h.lastReport_failed hcancelled hrunning error

theorem Coherent.call_ne_ok_of_quiet (h : t.Coherent) (hfinal : t.record.isFinal = true)
    (hquiet : ∀ id, (t.record.slot id).status ≠ .running) (c : Call) : t.call c ≠ .ok t' := by
  intro hcall
  obtain ⟨id, -, -, -, hrunning, -⟩ := (h.call_of_isFinal hfinal c hcall).noted
  exact hquiet id hrunning

/-- **At most one call is accepted** once a run is over, by induction on the calls. -/
theorem Coherent.afterAll_of_isFinal (h : t.Coherent) (hfinal : t.record.isFinal = true)
    (calls : List Call) : t.afterAll calls = t ∨ t.LastReport (t.afterAll calls) := by
  have hrun := afterAll_induction (P := fun u => u.Coherent ∧ (u = t ∨ t.LastReport u)) ?_ calls t
    ⟨h, .inl rfl⟩
  · exact hrun.2
  · rintro u u' c ⟨hu, rfl | hlast⟩ hcall
    · exact ⟨hu.call c hcall, .inr (hu.call_of_isFinal hfinal c hcall)⟩
    · -- after the last report nothing runs
      have hover : u.record.isFinal = true := by
        rw [Record.isFinal, hlast.same.status]
        exact hfinal
      exact absurd hcall (hu.call_ne_ok_of_quiet hover hlast.quiet c)

theorem eligible_of_isFinal (hfinal : t.record.isFinal = true) : t.eligible = [] := by
  rw [eligible, Plan.eligible_eq, hfinal]
  rfl

/-- **Over is over**: once a run is complete, failed or cancelled, whatever is called
next, it stays as it ended and no node may begin. At most one event is added, and only
if the run was cancelled while a node was running: that node moves, to completed, to
failed, or back to pending if it is a loop with rounds to go. -/
theorem over_is_final (w : Workflow) (clock : Clock) (calls more : List Call)
    (hfinal : ((ofWorkflow w clock).afterAll calls).record.isFinal = true) :
    let t := (ofWorkflow w clock).afterAll calls
    let u := (ofWorkflow w clock).afterAll (calls ++ more)
    t.record.SameEnd u.record ∧ u.eligible = [] ∧
      (u.record.events = t.record.events ∨
        t.record.status = .cancelled ∧ ∃ id time detail after,
          (t.record.slot id).status = .running ∧ t.Outlasts id after ∧
          u.record.events = t.record.events ++ [⟨time, .node id .running after, detail⟩]) := by
  intro t u
  obtain ⟨h, -⟩ := coherent_afterAll w clock calls
  have hu : u = t.afterAll more := List.foldl_append
  rw [hu]
  rcases h.afterAll_of_isFinal hfinal more with hsame | hlast
  · rw [hsame]
    exact ⟨.refl _, eligible_of_isFinal hfinal, .inl rfl⟩
  · refine ⟨hlast.same, eligible_of_isFinal ?_, .inr ⟨hlast.cancelled, hlast.noted⟩⟩
    rw [Record.isFinal, hlast.same.status]
    exact hfinal

/-- A workflow with a loop of two rounds. -/
def twice : Workflow where
  id := "wf_1"
  name := "Twice"
  description := none
  icon := none
  nodes := [⟨"poll", .origin, "Poll", none, none, none, .loop ⟨2, Nat.succ_pos 1⟩⟩]
  edges := []
  createdAt := 0
  updatedAt := 0
  version := Workflow.defaultVersion
  author := none
  exportTarget := none
  exportPath := none

/-- A run that is cancelled in the first round of a loop: the round ends, and the second
one does not begin. -/
theorem over_is_final_of_twice :
    let calls : List Call := [.begin "poll", .cancel none]
    let more : List Call := [.complete "poll" none none, .begin "poll"]
    let t := (ofWorkflow twice (.still 0)).afterAll calls
    let u := (ofWorkflow twice (.still 0)).afterAll (calls ++ more)
    t.record.isFinal = true ∧ t.record.SameEnd u.record ∧ u.eligible = [] ∧
      u.record.events ≠ t.record.events ∧
      ∃ id time detail after, (t.record.slot id).status = .running ∧ t.Outlasts id after ∧
        u.record.events = t.record.events ++ [⟨time, .node id .running after, detail⟩] := by
  intro calls more t u
  have hfinal : t.record.isFinal = true := by decide +kernel
  have hgrown : u.record.events ≠ t.record.events := by decide +kernel
  obtain ⟨hsame, hnone, hevents⟩ := over_is_final twice (.still 0) calls more hfinal
  exact ⟨hfinal, hsame, hnone, hgrown, (hevents.resolve_left hgrown).2⟩

end Tracker

end Runbook.Run
