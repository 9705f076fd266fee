import Runbook.Proofs.Run.Coherence

/-!
# The log of a run

A record notes every change of state as an event, and the events alone tell the
states: each one starts where those before it lead to, and moves the run or a node
in a way in which it may move. `Plan.Noted` says what a change with one event does
to a record; each call is one or two of those (`Coherent.call_unfolds`), and the log
stays faithful over each (`Logged.step`). Main statement:
`Tracker.events_tell_the_run`.
-/

namespace Runbook.Run

/-- The moves of a run. -/
inductive RunStatus.Moves : RunStatus → RunStatus → Prop
  | start : Moves .pending .running
  | drop : Moves .pending .cancelled
  | complete : Moves .running .completed
  | fail : Moves .running .failed
  | cancel : Moves .running .cancelled

/-- The moves of a node. Only a loop is sent back. -/
inductive NodeStatus.Moves (isLoop : Prop) : NodeStatus → NodeStatus → Prop
  | begin : Moves isLoop .pending .running
  | complete : Moves isLoop .running .completed
  | fail : Moves isLoop .running .failed
  | sendBack : isLoop → Moves isLoop .running .pending

/-! ## States -/

/-- The states of a run and of its nodes. -/
structure States where
  run : RunStatus
  node : String → NodeStatus

namespace States

def initial : States := ⟨.pending, fun _ => .pending⟩

def apply (s : States) : Change → States
  | .run _ after => { s with run := after }
  | .node id _ after => { s with node := Function.update s.node id after }

/-- The states that events lead to, from those in which nothing has begun. -/
def replay (events : List Event) : States := events.foldl (fun s e => s.apply e.change) initial

theorem replay_concat (events : List Event) (e : Event) :
    replay (events ++ [e]) = (replay events).apply e.change := by
  rw [replay, List.foldl_append]
  rfl

end States

def Record.states (r : Record) : States := ⟨r.status, fun id => (r.slot id).status⟩

/-- Whether the event ends a round of a node. -/
def Event.endsRound (id : String) (e : Event) : Bool :=
  e.change = .node id .running .pending || e.change = .node id .running .completed

namespace Plan

variable {p : Plan} {r r' : Record} {id : String} {e : Event}

/-- Whether a change may be noted where a run and its nodes are in given states: it
starts from them, it is a move, and a node begins only while the run goes on. -/
def Allows (p : Plan) (s : States) : Change → Prop
  | .run before after => s.run = before ∧ before.Moves after
  | .node id before after =>
    id ∈ p.ids ∧ s.node id = before ∧ before.Moves (p.kind? id = some .loop) after ∧
      (after = .running → s.run = .running)

/-! ## One event -/

/-- What a change that is noted by one event makes of a record. -/
structure Noted (p : Plan) (r r' : Record) (e : Event) : Prop where
  events : r'.events = r.events ++ [e]
  allowed : p.Allows r.states e.change
  states : r'.states = r.states.apply e.change
  visited : r'.visited = match e.begins? with
    | some id => if r.visited.contains id then r.visited else r.visited ++ [id]
    | none => r.visited
  iterations : ∀ id, p.kind? id = some .loop →
    (r'.slot id).iterations = (r.slot id).iterations + [e].countP (Event.endsRound id)

/-- The run moves. -/
theorem noted_run {time : Int} {detail : Option String} (hslots : r'.slots = r.slots)
    (hvisited : r'.visited = r.visited)
    (hevents : r'.events = r.events ++ [⟨time, .run r.status r'.status, detail⟩])
    (hmoves : r.status.Moves r'.status) : p.Noted r r' ⟨time, .run r.status r'.status, detail⟩ where
  events := hevents
  allowed := ⟨rfl, hmoves⟩
  states := by
    have hnode : (fun id => (r'.slot id).status) = fun id => (r.slot id).status := by
      funext id
      rw [Record.slot_congr hslots]
    simp only [Record.states, States.apply, hnode]
  visited := hvisited
  iterations := fun id _ => by
    rw [Record.slot_congr hslots]
    simp [Event.endsRound]

/-- A node moves. A loop that stops running has one more round behind it. -/
theorem noted_node {time : Int} {detail : Option String} {after : NodeStatus} (hid : id ∈ p.ids)
    (hother : ∀ other, other ≠ id → r'.slot other = r.slot other)
    (hself : (r'.slot id).status = after) (hstatus : r'.status = r.status)
    (hevents : r'.events = r.events ++ [⟨time, .node id (r.slot id).status after, detail⟩])
    (hmoves : (r.slot id).status.Moves (p.kind? id = some .loop) after)
    (hgoes : after = .running → r.status = .running)
    (hvisited : r'.visited =
      if after = .running ∧ id ∉ r.visited then r.visited ++ [id] else r.visited)
    (hiterations : p.kind? id = some .loop → (r'.slot id).iterations = (r.slot id).iterations +
      if after = .pending ∨ after = .completed then 1 else 0) :
    p.Noted r r' ⟨time, .node id (r.slot id).status after, detail⟩ where
  events := hevents
  allowed := ⟨hid, rfl, hmoves, hgoes⟩
  states := by
    have hnode : (fun other => (r'.slot other).status) =
        Function.update (fun other => (r.slot other).status) id after := by
      funext other
      rw [Function.update_apply]
      split
      · rename_i heq
        rw [heq, hself]
      · rename_i hne
        rw [hother other hne]
    simp only [Record.states, States.apply, hstatus, hnode]
  visited := by
    rw [hvisited]
    cases after with
    | running => by_cases hold : id ∈ r.visited <;> simp [Event.begins?, hold]
    | _ => simp [Event.begins?]
  iterations := fun other hloop => by
    by_cases heq : other = id
    · subst heq
      rw [hiterations hloop]
      generalize (r.slot other).status = before at hmoves ⊢
      cases hmoves <;> simp [Event.endsRound]
    · rw [hother other heq]
      simp [Event.endsRound, Ne.symm heq]

/-! ## The whole log -/

/-- The log of a record tells its states, the order in which nodes first began, and how
often loops ran, and each of its events may follow those before it. -/
structure Logged (p : Plan) (r : Record) : Prop where
  allowed : ∀ done e rest, r.events = done ++ e :: rest → p.Allows (.replay done) e.change
  replay_eq : States.replay r.events = r.states
  visited_eq : r.visited = r.begins.eraseDups
  iterations_eq : ∀ id, p.kind? id = some .loop →
    (r.slot id).iterations = r.events.countP (Event.endsRound id)

/-- A further item stands at the end of a list without repetitions, unless it is there. -/
theorem eraseDups_concat (l : List String) (a : String) :
    (l ++ [a]).eraseDups = if l.contains a then l.eraseDups else l.eraseDups ++ [a] := by
  rw [List.eraseDups_append]
  by_cases h : a ∈ l <;> simp [List.removeAll, List.eraseDups_cons, h]

/-- **A noted change keeps the log faithful.** -/
theorem Logged.step (h : p.Logged r) (hnoted : p.Noted r r' e) : p.Logged r' where
  allowed := by
    intro done e' rest hsplit
    rw [hnoted.events] at hsplit
    -- the event in question is the new one, or stands among the old ones
    rcases List.eq_nil_or_concat rest with rfl | ⟨init, last, rfl⟩
    · obtain ⟨rfl, heq⟩ := List.append_inj' hsplit rfl
      obtain rfl : e = e' := by simpa using heq
      rw [h.replay_eq]
      exact hnoted.allowed
    · have hlast : r.events ++ [e] = (done ++ e' :: init) ++ [last] := by simpa using hsplit
      exact h.allowed done e' init (List.append_inj' hlast rfl).1
  replay_eq := by rw [hnoted.events, States.replay_concat, h.replay_eq, hnoted.states]
  visited_eq := by
    have hbegins := Record.begins_append hnoted.events
    rw [hnoted.visited, hbegins, h.visited_eq]
    cases he : e.begins? with
    | none => simp [he]
    | some id =>
        rw [List.filterMap_cons_some he, List.filterMap_nil, eraseDups_concat]
        simp
  iterations_eq := by
    intro id hloop
    rw [hnoted.iterations id hloop, h.iterations_eq id hloop, hnoted.events, List.countP_append]

/-- A record comes from another one by noted changes. -/
def Unfolds (p : Plan) : Record → Record → Prop :=
  Relation.ReflTransGen fun r r' => ∃ e, p.Noted r r' e

theorem Logged.unfold (h : p.Logged r) (hunfolds : p.Unfolds r r') : p.Logged r' := by
  induction hunfolds with
  | refl => exact h
  | tail _ hstep ih =>
      obtain ⟨e, hnoted⟩ := hstep
      exact ih.step hnoted

/-- The log only grows. -/
theorem Unfolds.grows (h : p.Unfolds r r') : r.events <+: r'.events := by
  induction h with
  | refl => exact List.prefix_rfl
  | tail _ hstep ih =>
      obtain ⟨e, hnoted⟩ := hstep
      rw [hnoted.events]
      exact ih.trans (List.prefix_append _ _)

end Plan

namespace Tracker

variable {p : Plan} {t t' : Tracker} {id : String}

/-! ## Every call is noted -/

theorem noted_launch (hpending : t.record.status = .pending) :
    p.Unfolds t.record t.launch.record := by
  refine .single ⟨_, Plan.noted_run rfl rfl (congrArg Record.events t.launch_record) ?_⟩
  rw [hpending]
  exact .start

theorem noted_launched (t : Tracker) : p.Unfolds t.record t.launched.record := by
  rw [launched]
  split
  · rename_i hpending
    exact noted_launch hpending
  · exact .refl

theorem noted_checkFinished (hrunning : t.record.status = .running) :
    p.Unfolds t.record t.checkFinished.record := by
  by_cases hfinished : t.Finished
  · refine .single ⟨⟨t.time 1, .run t.record.status t.checkFinished.record.status, none⟩,
      Plan.noted_run (checkFinished_slots t) (checkFinished_visited t) ?_ ?_⟩
    · rw [checkFinished_of_finished hfinished]
    · rw [checkFinished_of_finished hfinished, hrunning]
      exact .complete
  · rw [checkFinished_of_not_finished hfinished]
    exact .refl

theorem noted_cancelled (hlive : t.record.isFinal = false) (reason : Option String) :
    p.Unfolds t.record (t.cancelled reason).record := by
  refine .single ⟨_, Plan.noted_run rfl rfl
    (congrArg Record.events (t.cancelled_record reason)) ?_⟩
  rw [cancelled_record]
  cases hstatus : t.record.status with
  | pending => exact .drop
  | running => exact .cancel
  | _ => exact absurd hstatus (Record.status_ne_of_live hlive rfl)

theorem noted_enter (hids : t.record.ids = p.ids) (hid : id ∈ t.record.ids)
    (hgoes : t.record.status = .running) (hpending : (t.record.slot id).status = .pending) :
    p.Unfolds t.record (t.enter id).record := by
  have hfrom := enter_record hid
  have hself := enter_slot hid id
  rw [if_pos rfl] at hself
  refine .single ⟨_, Plan.noted_node (hids ▸ hid)
    (fun other hne => (enter_slot hid other).trans (if_neg hne)) (congrArg Slot.status hself)
    (enter_status hid) (congrArg Record.events hfrom) ?_ (fun _ => hgoes) ?_ (fun _ => ?_)⟩
  · rw [hpending]
    exact .begin
  · rw [hfrom]
    by_cases hold : id ∈ t.record.visited <;> simp [entered, hold]
  · rw [hself]
    rfl

/-- A report of completion sends a loop back, or closes the node. -/
theorem noted_completed (hids : t.record.ids = t.plan.ids) (hid : id ∈ t.record.ids)
    (hrunning : (t.record.slot id).status = .running) (result : Option String)
    (outcome : Option Bool) :
    t.plan.Unfolds t.record (t.completed id result outcome).record := by
  have hslot := completed_slot hid result outcome
  have hself := hslot id
  rw [if_pos rfl] at hself
  by_cases hagain : t.Again id
  · have hfrom := completed_record_again hid hagain result outcome
    refine .single ⟨_, Plan.noted_node (hids ▸ hid)
      (fun other hne => (hslot other).trans (if_neg hne)) ?_ ?_ (congrArg Record.events hfrom) ?_
      (absurd · (by decide)) (completed_visited t id result outcome) (fun hloop => ?_)⟩
    · simp only [hself, if_pos hagain]
    · rw [hfrom]
      rfl
    · rw [hrunning]
      exact .sendBack hagain.1
    · rw [hself]
      simp [report, hloop]
  · have hfrom := ended_reported_record hid result outcome
    have hsame := Record.slot_congr (completed_slots_of_last hagain result outcome)
    have hended : t.plan.Unfolds t.record
        ((t.reported id result outcome).ended id result).record := by
      refine .single ⟨_, Plan.noted_node (hids ▸ hid)
        (fun other hne => (hsame other).symm.trans ((hslot other).trans (if_neg hne))) ?_ rfl
        (congrArg Record.events hfrom) ?_ (absurd · (by decide)) rfl (fun hloop => ?_)⟩
      · simp only [← hsame, hself, if_neg hagain]
      · rw [hrunning]
        exact .complete
      · rw [← hsame, hself]
        simp [report, hloop]
    rw [completed_of_last hagain]
    split
    · rename_i hgoes
      exact hended.trans (noted_checkFinished ((congrArg Record.status hfrom).trans hgoes))
    · exact hended

theorem noted_failed (hids : t.record.ids = p.ids) (hid : id ∈ t.record.ids)
    (hrunning : (t.record.slot id).status = .running) (error : String) :
    p.Unfolds t.record (t.failed id error).record := by
  have hslot := failed_slot hid error
  have hself := hslot id
  rw [if_pos rfl] at hself
  have hsame := Record.slot_congr (failed_slots t id error)
  have hnode : p.Unfolds t.record (t.nodeFailed id error).record := by
    refine .single ⟨_, Plan.noted_node (hids ▸ hid)
      (fun other hne => (hsame other).symm.trans ((hslot other).trans (if_neg hne)))
      (congrArg Slot.status ((hsame id).symm.trans hself)) rfl
      (congrArg Record.events (nodeFailed_record hid error)) ?_
      (fun hbegin => by cases hbegin) rfl (fun _ => ?_)⟩
    · rw [hrunning]
      exact .fail
    · rw [← hsame, hself]
      rfl
  -- a run that goes on fails with its node
  rw [failed]
  split
  · rename_i hgoes
    refine hnode.tail ⟨⟨_, .run t.record.status .failed, some error⟩,
      Plan.noted_run rfl rfl rfl ?_⟩
    rw [show (t.nodeFailed id error).record.status = .running from hgoes]
    exact .fail
  · exact hnode

/-- **What a call does to a record** is noted, change by change. -/
theorem Coherent.call_unfolds (h : t.Coherent) (c : Call) (hcall : t.call c = .ok t') :
    t.plan.Unfolds t.record t'.record := by
  cases c with
  | start =>
      obtain ⟨hpending, rfl⟩ := start_eq_ok_iff.mp hcall
      exact (noted_launch hpending).trans (noted_checkFinished rfl)
  | cancel reason =>
      obtain ⟨hlive, rfl⟩ := cancel_eq_ok_iff.mp hcall
      exact noted_cancelled hlive reason
  | begin id =>
      obtain ⟨hid, rfl⟩ := (begin_eq_ok_iff h.sound h.grounded.ids_eq).mp hcall
      obtain ⟨hlive, -, hfree⟩ := (Plan.mem_eligible_iff h.sound).mp hid
      have hids : t.launched.record.ids = t.plan.ids := by
        rw [Record.ids_congr (launched_slots t), h.grounded.ids_eq]
      have hpending : (t.launched.record.slot id).status = .pending := by
        rw [Record.slot_congr (launched_slots t)]
        exact hfree.pending
      exact (noted_launched t).trans
        (noted_enter hids (h.mem_launched_ids hid) (launched_status hlive) hpending)
  | complete id result outcome =>
      obtain ⟨hrunning, -, -, rfl⟩ := complete_eq_ok_iff.mp hcall
      exact noted_completed h.grounded.ids_eq (h.of_running hrunning).1 hrunning result outcome
  | fail id error =>
      obtain ⟨hrunning, -, rfl⟩ := fail_eq_ok_iff.mp hcall
      exact noted_failed h.grounded.ids_eq (h.of_running hrunning).1 hrunning error

theorem logged_ofWorkflow (w : Workflow) (clock : Clock) :
    (Plan.ofWorkflow w).Logged (ofWorkflow w clock).record where
  allowed := fun done e rest hsplit => absurd hsplit (by simp [ofWorkflow, Record.initial])
  replay_eq := by
    have hnode : (fun id => ((ofWorkflow w clock).record.slot id).status) = fun _ => .pending := by
      funext id
      rw [slot_ofWorkflow]
      rfl
    rw [Record.states, hnode]
    rfl
  visited_eq := rfl
  iterations_eq := fun id _ => by
    rw [slot_ofWorkflow]
    rfl

theorem logged_afterAll (w : Workflow) (clock : Clock) (calls : List Call) :
    (Plan.ofWorkflow w).Logged ((ofWorkflow w clock).afterAll calls).record := by
  have hrun := afterAll_induction (P := fun u => u.Coherent ∧ u.plan = Plan.ofWorkflow w ∧
    (Plan.ofWorkflow w).Logged u.record) ?_ calls (ofWorkflow w clock)
    ⟨coherent_ofWorkflow w clock, rfl, logged_ofWorkflow w clock⟩
  · exact hrun.2.2
  · rintro u u' c ⟨hu, hplan, hlogged⟩ hcall
    exact ⟨hu.call c hcall, (hu.call_plan c hcall).trans hplan,
      hlogged.unfold (hplan ▸ hu.call_unfolds c hcall)⟩

/-- **The events tell the run**, whatever is called in whatever order. A call only adds
events. Each event starts from the states that those before it lead to and is a move of
the run or of the node that it names, and nodes begin only while the run goes on.
Together the events lead to the states of the record; the visited nodes are those that
they let begin, in the order of the first times; and a loop has counted the events that
end a round of it. -/
theorem events_tell_the_run (w : Workflow) (clock : Clock) (calls : List Call) :
    let t := (ofWorkflow w clock).afterAll calls
    (∀ c, t.record.events <+: (t.after c).record.events) ∧
    (∀ done e rest, t.record.events = done ++ e :: rest →
      (Plan.ofWorkflow w).Allows (.replay done) e.change) ∧
    States.replay t.record.events = t.record.states ∧
    t.record.visited = t.record.begins.eraseDups ∧
    ∀ id, (Plan.ofWorkflow w).kind? id = some .loop →
      (t.record.slot id).iterations = t.record.events.countP (Event.endsRound id) := by
  intro t
  obtain ⟨h, -⟩ := coherent_afterAll w clock calls
  have hlogged := logged_afterAll w clock calls
  refine ⟨fun c => ?_, hlogged.allowed, hlogged.replay_eq, hlogged.visited_eq,
    hlogged.iterations_eq⟩
  rw [after]
  cases hcall : t.call c with
  | error refusal => exact List.prefix_rfl
  | ok t' => exact (h.call_unfolds c hcall).grows

end Tracker

end Runbook.Run
