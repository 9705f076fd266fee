import Runbook.Proofs.Run.Bookkeeping
import Runbook.Proofs.Run.Finality

/-!
# Times in order

A call takes several readings of the clock and sets several times with them, not always in the order in
which they stand in the record. If the clock never goes back the times are in order all the same, and none
is set twice. A call is made of a few steps that note one event each. `Record.Passes` says what such a step
may do to the times between two moments, and `Dated.pass` that it keeps them in order. `Coherent.call_elapses`
takes every call apart into such steps. Main statement: `Tracker.times_are_in_order`.
-/

namespace Runbook.Run

/-! ## Times that are set once -/

/-- If both times are set, the first is not after the second. -/
def NotAfter (a b : Option Int) : Prop := ∀ x ∈ a, ∀ y ∈ b, x ≤ y

/-- A time that stays as it is, or is set for the first time, between two moments. -/
inductive Stamped (lo hi : Int) : Option Int → Option Int → Prop
  | kept (a : Option Int) : Stamped lo hi a a
  | set {x : Int} : lo ≤ x → x ≤ hi → Stamped lo hi none (some x)

section Stamped

variable {lo hi : Int} {a a' b b' : Option Int}

theorem Stamped.of_eq (h : a' = a) : Stamped lo hi a a' := by
  rw [h]
  exact .kept a

theorem Stamped.mem (h : Stamped lo hi a a') {x : Int} (hx : x ∈ a) : x ∈ a' := by
  cases h with
  | kept => exact hx
  | set => cases hx

theorem Stamped.le (h : Stamped lo hi a a') (hpast : ∀ x ∈ a, x ≤ lo) (hlt : lo ≤ hi) :
    ∀ x ∈ a', x ≤ hi := by
  intro x hx
  cases h with
  | kept => exact le_trans (hpast x hx) hlt
  | set _ hhi =>
      obtain rfl := Option.some.inj hx
      exact hhi

/-- Two times stay in order, unless the first is set where the second already is. -/
theorem NotAfter.stamped (h : NotAfter a b) (hpast : ∀ x ∈ a, x ≤ lo) (hb : Stamped lo hi b b')
    (hfirst : a' = a ∨ b' = none) : NotAfter a' b' := by
  intro x hx y hy
  rcases hfirst with rfl | rfl
  · cases hb with
    | kept => exact h x hx y hy
    | set hlo _ =>
        obtain rfl := Option.some.inj hy
        exact le_trans (hpast x hx) hlo
  · cases hy

end Stamped

namespace Record

variable {r r' r'' : Record} {id : String} {s : Slot} {lo hi : Int}

/-! ## The times of a record -/

/-- The times of a record are in order, as far as they are set. -/
structure InOrder (r : Record) : Prop where
  events : r.events.Pairwise fun e f => e.time ≤ f.time
  started_begun : ∀ id, NotAfter r.startedAt (r.slot id).startedAt
  begun_ended : ∀ id, NotAfter (r.slot id).startedAt (r.slot id).completedAt
  started_finished : NotAfter r.startedAt r.finishedAt
  /-- A node that was running when its run was cancelled may end after it. -/
  ended_finished : r.status ≠ .cancelled → ∀ id, NotAfter (r.slot id).completedAt r.finishedAt

/-- And none of those that come first is in the future. -/
structure Dated (r : Record) (now : Int) : Prop extends r.InOrder where
  events_le : ∀ e ∈ r.events, e.time ≤ now
  started_le : ∀ x ∈ r.startedAt, x ≤ now
  begun_le : ∀ id, ∀ x ∈ (r.slot id).startedAt, x ≤ now
  ended_le : ∀ id, ∀ x ∈ (r.slot id).completedAt, x ≤ now

/-- The times of a record stay once they are set. -/
structure KeepsTimes (r r' : Record) : Prop where
  started : ∀ x ∈ r.startedAt, x ∈ r'.startedAt
  finished : ∀ x ∈ r.finishedAt, x ∈ r'.finishedAt
  begun : ∀ id, ∀ x ∈ (r.slot id).startedAt, x ∈ (r'.slot id).startedAt
  ended : ∀ id, ∀ x ∈ (r.slot id).completedAt, x ∈ (r'.slot id).completedAt

theorem KeepsTimes.refl (r : Record) : r.KeepsTimes r :=
  ⟨fun _ => id, fun _ => id, fun _ _ => id, fun _ _ => id⟩

theorem KeepsTimes.trans (h : r.KeepsTimes r') (h' : r'.KeepsTimes r'') : r.KeepsTimes r'' where
  started x hx := h'.started x (h.started x hx)
  finished x hx := h'.finished x (h.finished x hx)
  begun id x hx := h'.begun id x (h.begun id x hx)
  ended id x hx := h'.ended id x (h.ended id x hx)

/-! ## One step -/

/-- What a step with one event does to the times, between two moments: it sets each for the first time or
not at all, and sets none while a time that comes after it is set. -/
structure Passes (lo hi : Int) (r r' : Record) : Prop where
  event : ∃ e : Event, r'.events = r.events ++ [e] ∧ lo ≤ e.time ∧ e.time ≤ hi
  started : Stamped lo hi r.startedAt r'.startedAt
  finished : Stamped lo hi r.finishedAt r'.finishedAt
  begun : ∀ id, Stamped lo hi (r.slot id).startedAt (r'.slot id).startedAt
  ended : ∀ id, Stamped lo hi (r.slot id).completedAt (r'.slot id).completedAt
  started_first : r'.startedAt = r.startedAt ∨
    (∀ id, (r'.slot id).startedAt = none) ∧ r'.finishedAt = none
  begun_first : ∀ id, (r'.slot id).startedAt = (r.slot id).startedAt ∨ (r'.slot id).completedAt = none
  ended_first : r'.status ≠ .cancelled → r.status ≠ .cancelled ∧
    ∀ id, (r'.slot id).completedAt = (r.slot id).completedAt ∨ r'.finishedAt = none

theorem Passes.keepsTimes (h : Passes lo hi r r') : r.KeepsTimes r' where
  started _ := h.started.mem
  finished _ := h.finished.mem
  begun id _ := (h.begun id).mem
  ended id _ := (h.ended id).mem

/-- **A step keeps the times in order.** -/
theorem Dated.pass (h : r.Dated lo) (hpasses : Passes lo hi r r') : r'.Dated hi := by
  obtain ⟨e, hevents, hlo, hhi⟩ := hpasses.event
  have hlt : lo ≤ hi := le_trans hlo hhi
  refine ⟨⟨?_, fun id => ?_, fun id => ?_, ?_, fun hstatus id => ?_⟩, ?_, ?_, fun id => ?_, fun id => ?_⟩
  · rw [hevents, List.pairwise_append]
    refine ⟨h.events, List.pairwise_singleton _ _, fun f hf e' he' => ?_⟩
    rw [List.mem_singleton.mp he']
    exact le_trans (h.events_le f hf) hlo
  · exact (h.started_begun id).stamped h.started_le (hpasses.begun id)
      (hpasses.started_first.imp_right fun hnone => hnone.1 id)
  · exact (h.begun_ended id).stamped (h.begun_le id) (hpasses.ended id) (hpasses.begun_first id)
  · exact h.started_finished.stamped h.started_le hpasses.finished
      (hpasses.started_first.imp_right And.right)
  · obtain ⟨hbefore, hfirst⟩ := hpasses.ended_first hstatus
    exact (h.ended_finished hbefore id).stamped (h.ended_le id) hpasses.finished (hfirst id)
  · rw [hevents]
    intro f hf
    rcases List.mem_append.mp hf with hf | hf
    · exact le_trans (h.events_le f hf) hlt
    · rw [List.mem_singleton.mp hf]
      exact hhi
  · exact hpasses.started.le h.started_le hlt
  · exact (hpasses.begun id).le (h.begun_le id) hlt
  · exact (hpasses.ended id).le (h.ended_le id) hlt

/-- **The run moves**, and no node does: it starts before any node has begun, or it ends. -/
theorem passes_run {e : Event} (hslots : r'.slots = r.slots) (hevents : r'.events = r.events ++ [e])
    (hlo : lo ≤ e.time) (hhi : e.time ≤ hi) (hstarted : Stamped lo hi r.startedAt r'.startedAt)
    (hfinished : Stamped lo hi r.finishedAt r'.finishedAt) (hlive : r.status ≠ .cancelled)
    (hfirst : r'.startedAt = r.startedAt ∨ (∀ id, (r.slot id).startedAt = none) ∧ r'.finishedAt = none) :
    Passes lo hi r r' := by
  have hslot : ∀ id, r'.slot id = r.slot id := Record.slot_congr hslots
  refine ⟨⟨e, hevents, hlo, hhi⟩, hstarted, hfinished, fun id => ?_, fun id => ?_,
    hfirst.imp_right fun hboth => ⟨fun id => ?_, hboth.2⟩, fun id => .inl ?_, fun _ => ⟨hlive, fun id => .inl ?_⟩⟩
  · rw [hslot]
    exact .kept _
  · rw [hslot]
    exact .kept _
  · rw [hslot]
    exact hboth.1 id
  · rw [hslot]
  · rw [hslot]

/-- **A node moves**, and the run does not: it begins before it ends, and ends before the run does if that
is not cancelled. -/
theorem passes_node {e : Event} (hslot : ∀ other, r'.slot other = if other = id then s else r.slot other)
    (hevents : r'.events = r.events ++ [e]) (hlo : lo ≤ e.time) (hhi : e.time ≤ hi)
    (hstarted : r'.startedAt = r.startedAt) (hfinished : r'.finishedAt = r.finishedAt)
    (hstatus : r'.status = r.status) (hlive : r.status ≠ .cancelled → r.finishedAt = none)
    (hbegun : Stamped lo hi (r.slot id).startedAt s.startedAt)
    (hended : Stamped lo hi (r.slot id).completedAt s.completedAt)
    (hfirst : s.startedAt = (r.slot id).startedAt ∨ s.completedAt = none) : Passes lo hi r r' := by
  refine ⟨⟨e, hevents, hlo, hhi⟩, .of_eq hstarted, .of_eq hfinished, ?began, ?ended, .inl hstarted, ?first,
    fun hlive' => ⟨hstatus ▸ hlive', fun _ => .inr ?_⟩⟩
  case began =>
    exact forall_slot_of_update (P := fun other s => Stamped lo hi (r.slot other).startedAt s.startedAt) hslot
      hbegun (fun _ _ => .kept _)
  case ended =>
    exact forall_slot_of_update (P := fun other s => Stamped lo hi (r.slot other).completedAt s.completedAt) hslot
      hended (fun _ _ => .kept _)
  case first =>
    exact forall_slot_of_update
      (P := fun other s => s.startedAt = (r.slot other).startedAt ∨ s.completedAt = none) hslot
      hfirst (fun _ _ => .inl rfl)
  · rw [hfinished]
    exact hlive (hstatus ▸ hlive')

end Record

theorem Plan.Booked.unfinished {p : Plan} {r : Record} (h : p.Booked r) (hlive : r.isFinal = false) :
    r.finishedAt = none := by
  rw [← Option.not_isSome_iff_eq_none, h.finished_eq, hlive]
  exact Bool.false_ne_true

/-- A clock that never goes back. -/
def Clock.Steady (c : Clock) : Prop := ∀ i j, i ≤ j → c.reading i ≤ c.reading j

namespace Tracker

variable {t t' u : Tracker} {id : String}

/-! ## Steps by the clock -/

theorem time_le (hclock : t.clock.Steady) {i j : Nat} (hij : i ≤ j) : t.time i ≤ t.time j :=
  hclock _ _ (Nat.add_le_add_left hij _)

/-- A step with one event, during some readings of the clock. -/
structure Ticks (t u : Tracker) : Prop where
  reading : u.clock.reading = t.clock.reading
  passes : Record.Passes t.now u.now t.record u.record

theorem Ticks.steady (h : t.Ticks u) (hclock : t.clock.Steady) : u.clock.Steady := by
  rw [Clock.Steady, h.reading]
  exact hclock

theorem ticks_of_clock {n : Nat} (hclock : u.clock = ⟨t.clock.reading, t.clock.taken + n⟩)
    (hpasses : Record.Passes (t.time 0) (t.time n) t.record u.record) : t.Ticks u := by
  refine ⟨by rw [hclock], ?_⟩
  have hnow : u.now = t.time n := by rw [now, hclock, time]
  rw [hnow]
  exact hpasses

/-- Such steps in a row. -/
def Elapses : Tracker → Tracker → Prop := Relation.ReflTransGen Ticks

theorem Elapses.steady (h : t.Elapses u) (hclock : t.clock.Steady) : u.clock.Steady := by
  induction h with
  | refl => exact hclock
  | tail _ hstep ih => exact hstep.steady ih

theorem Elapses.keepsTimes (h : t.Elapses u) : t.record.KeepsTimes u.record := by
  induction h with
  | refl => exact .refl _
  | tail _ hstep ih => exact ih.trans hstep.passes.keepsTimes

theorem Elapses.dated (h : t.Elapses u) (hdated : t.record.Dated t.now) : u.record.Dated u.now := by
  induction h with
  | refl => exact hdated
  | tail _ hstep ih => exact ih.pass hstep.passes

/-! ## The steps of each call -/

/-- A run that has not started has no first time. -/
def Unlaunched (t : Tracker) : Prop := t.record.status = .pending → t.record.startedAt = none

theorem ticks_launch (h : t.Coherent) (hb : t.plan.Booked t.record) (hu : t.Unlaunched)
    (hclock : t.clock.Steady) (hpending : t.record.status = .pending) : t.Ticks t.launch := by
  have hunbegun : ∀ id, (t.record.slot id).startedAt = none := fun id =>
    Option.not_isSome_iff_eq_none.mp (mt (hb.fits id).started_iff.mp (h.lively.waiting hpending id))
  have hunfinished := hb.unfinished (by rw [Record.isFinal, hpending]; rfl)
  refine ticks_of_clock (n := 2) rfl (Record.passes_run rfl (congrArg Record.events t.launch_record) le_rfl
    (time_le hclock (by omega)) ?_ (.of_eq rfl) (by rw [hpending]; decide) (.inr ⟨hunbegun, hunfinished⟩))
  rw [launch_record, hu hpending]
  exact .set (time_le hclock (by omega)) (time_le hclock (by omega))

theorem elapses_launched (h : t.Coherent) (hb : t.plan.Booked t.record) (hu : t.Unlaunched)
    (hclock : t.clock.Steady) : t.Elapses t.launched := by
  rw [launched]
  split
  case isTrue hpending => exact .single (ticks_launch h hb hu hclock hpending)
  case isFalse => exact .refl

theorem checkFinished_clock (h : t.Finished) :
    t.checkFinished.clock = ⟨t.clock.reading, t.clock.taken + 2⟩ := by
  have hcond : (t.record.runningNode.isNone && t.eligible.isEmpty) = true := by simp [h.1, h.2]
  rw [checkFinished, if_pos hcond]
  rfl

/-- The run ends with a reading that comes before the one of its event. -/
theorem elapses_checkFinished (hclock : t.clock.Steady) (hrunning : t.record.status = .running)
    (hunfinished : t.record.finishedAt = none) : t.Elapses t.checkFinished := by
  by_cases hfinished : t.Finished
  · have hfrom := checkFinished_of_finished hfinished
    have hstarted : t.checkFinished.record.startedAt = t.record.startedAt := by rw [hfrom]
    refine .single (ticks_of_clock (n := 2) (checkFinished_clock hfinished)
      (Record.passes_run (checkFinished_slots t) (congrArg Record.events hfrom)
        (time_le hclock (by omega)) (time_le hclock (by omega)) (.of_eq hstarted) ?_
        (by rw [hrunning]; decide) (.inl hstarted)))
    rw [hfrom, hunfinished]
    exact .set le_rfl (time_le hclock (by omega))
  · rw [checkFinished_of_not_finished hfinished]
    exact .refl

theorem ticks_cancelled (hb : t.plan.Booked t.record) (hclock : t.clock.Steady)
    (hlive : t.record.isFinal = false) (reason : Option String) : t.Ticks (t.cancelled reason) := by
  have hfrom := t.cancelled_record reason
  refine ticks_of_clock (n := 2) rfl (Record.passes_run rfl (congrArg Record.events hfrom) le_rfl
    (time_le hclock (by omega)) (.of_eq rfl) ?_ (Record.status_ne_of_live hlive rfl) (.inl rfl))
  rw [hfrom]
  simp only [hb.unfinished hlive]
  exact .set (time_le hclock (by omega)) (time_le hclock (by omega))

/-- A second reading is taken for the first round only. -/
theorem enter_clock (hid : id ∈ t.record.ids) :
    (t.enter id).clock = ⟨t.clock.reading,
      t.clock.taken + if (t.record.slot id).startedAt.isNone then 2 else 1⟩ := by
  have hstarted : ((t.setNode id .running (t.roundDetail id)).record.slot id).startedAt =
      (t.record.slot id).startedAt := by
    rw [setNode_slot hid, if_pos rfl]
  simp only [enter, hstarted]
  split <;> rfl

theorem ticks_enter (hid : id ∈ t.record.ids) (hclock : t.clock.Steady)
    (hunfinished : t.record.finishedAt = none) (hunended : (t.record.slot id).completedAt = none) :
    t.Ticks (t.enter id) := by
  have hfrom := enter_record hid
  refine ticks_of_clock (enter_clock hid) (Record.passes_node (enter_slot hid)
    (congrArg Record.events hfrom) le_rfl (time_le hclock (Nat.zero_le _)) ?_ ?_ (enter_status hid)
    (fun _ => hunfinished) ?_ (.of_eq rfl) (.inr hunended))
  · rw [hfrom]
    rfl
  · rw [hfrom]
    rfl
  cases hstarted : (t.record.slot id).startedAt with
  | none =>
      simp only [entered, hstarted]
      exact .set (time_le hclock (by omega)) (time_le hclock (by decide))
  | some x =>
      simp only [entered, hstarted]
      exact .kept _

/-- The run of a running node has not ended, unless it was cancelled. -/
theorem Coherent.unfinished_of_running (h : t.Coherent) (hb : t.plan.Booked t.record)
    (hrunning : (t.record.slot id).status = .running) (hunfailed : t.record.status ≠ .failed)
    (huncancelled : t.record.status ≠ .cancelled) : t.record.finishedAt = none := by
  obtain ⟨hpending, hcompleted⟩ := h.status_of_running hrunning
  refine hb.unfinished ?_
  cases hstatus : t.record.status with
  | running => rw [Record.isFinal, hstatus]; rfl
  | pending => exact absurd hstatus hpending
  | completed => exact absurd hstatus hcompleted
  | failed => exact absurd hstatus hunfailed
  | cancelled => exact absurd hstatus huncancelled

theorem unended_of_running (hb : t.plan.Booked t.record) (hrunning : (t.record.slot id).status = .running) :
    (t.record.slot id).completedAt = none :=
  (hb.fits id).unended (by rw [hrunning]; decide) (by rw [hrunning]; decide)

/-- A loop that is sent back keeps its times, and any other node ends. -/
theorem Coherent.elapses_completed (h : t.Coherent) (hb : t.plan.Booked t.record)
    (hclock : t.clock.Steady) (hrunning : (t.record.slot id).status = .running)
    (hunfailed : t.record.status ≠ .failed) (result : Option String) (outcome : Option Bool) :
    t.Elapses (t.completed id result outcome) := by
  have hid := (h.of_running hrunning).1
  have hlive := h.unfinished_of_running hb hrunning hunfailed
  have hslot := completed_slot hid result outcome
  by_cases hagain : t.Again id
  · have hfrom := completed_record_again hid hagain result outcome
    refine .single (ticks_of_clock (n := 1) (by rw [completed_of_again hagain]; rfl)
      (Record.passes_node hslot (congrArg Record.events hfrom) le_rfl (time_le hclock (by omega))
        ?_ ?_ ?_ hlive (.of_eq rfl) (.of_eq (if_pos hagain)) (.inl rfl)))
    all_goals
      rw [hfrom]
      rfl
  · have hfrom := ended_reported_record hid result outcome
    have hsame := Record.slot_congr (completed_slots_of_last hagain result outcome)
    have hended : t.Ticks ((t.reported id result outcome).ended id result) := by
      refine ticks_of_clock (n := 2) rfl (Record.passes_node
        (fun other => (hsame other).symm.trans (hslot other)) (congrArg Record.events hfrom) le_rfl
        (time_le hclock (by omega)) rfl rfl rfl hlive (.of_eq rfl) ?_ (.inl rfl))
      simp only [if_neg hagain, unended_of_running hb hrunning]
      exact .set (time_le hclock (by omega)) (time_le hclock (by omega))
    rw [completed_of_last hagain]
    split
    case isTrue hgoes =>
      have hunfinished : t.record.finishedAt = none := hlive (by rw [hgoes]; decide)
      exact (Relation.ReflTransGen.single hended).trans
        (elapses_checkFinished (hended.steady hclock) hgoes hunfinished)
    case isFalse => exact .single hended

/-- A node ends with a reading that comes before the one of its event, and a run that goes on ends after it. -/
theorem Coherent.elapses_failed (h : t.Coherent) (hb : t.plan.Booked t.record)
    (hclock : t.clock.Steady) (hrunning : (t.record.slot id).status = .running)
    (hunfailed : t.record.status ≠ .failed) (error : String) : t.Elapses (t.failed id error) := by
  have hid := (h.of_running hrunning).1
  have hlive := h.unfinished_of_running hb hrunning hunfailed
  have hsame := Record.slot_congr (failed_slots t id error)
  have hnode : t.Ticks (t.nodeFailed id error) := by
    refine ticks_of_clock (n := 2) rfl (Record.passes_node
      (fun other => (hsame other).symm.trans (failed_slot hid error other))
      (congrArg Record.events (nodeFailed_record hid error)) (time_le hclock (by omega))
      (time_le hclock (by omega)) rfl rfl rfl hlive (.of_eq rfl) ?_ (.inl rfl))
    rw [unended_of_running hb hrunning]
    exact .set le_rfl (time_le hclock (by omega))
  rw [failed]
  split
  case isTrue hgoes =>
    have huncancelled : t.record.status ≠ .cancelled := by rw [hgoes]; decide
    have hlater : (t.nodeFailed id error).clock.Steady := hnode.steady hclock
    refine .tail (.single hnode) (ticks_of_clock (n := 2) rfl (Record.passes_run rfl rfl le_rfl
      (time_le hlater (show 0 ≤ 2 by omega)) (.of_eq rfl) ?_ huncancelled (.inl rfl)))
    rw [show (t.nodeFailed id error).record.finishedAt = none from hlive huncancelled]
    exact .set (time_le hlater (by omega)) (time_le hlater (by omega))
  case isFalse => exact .single hnode

/-! ## Every call -/

/-- **What a call does to the times**: it goes by steps of one event each. -/
theorem Coherent.call_elapses (h : t.Coherent) (hb : t.plan.Booked t.record) (hu : t.Unlaunched)
    (hclock : t.clock.Steady) (c : Call) (hcall : t.call c = .ok t') : t.Elapses t' := by
  cases c with
  | start =>
      obtain ⟨hpending, rfl⟩ := start_eq_ok_iff.mp hcall
      have hlaunch := ticks_launch h hb hu hclock hpending
      have hlive : t.record.isFinal = false := by rw [Record.isFinal, hpending]; rfl
      exact (Relation.ReflTransGen.single hlaunch).trans
        (elapses_checkFinished (hlaunch.steady hclock) rfl (hb.unfinished hlive))
  | cancel reason =>
      obtain ⟨hlive, rfl⟩ := cancel_eq_ok_iff.mp hcall
      exact .single (ticks_cancelled hb hclock hlive reason)
  | begin id =>
      obtain ⟨hid, rfl⟩ := (begin_eq_ok_iff h.sound h.grounded.ids_eq).mp hcall
      obtain ⟨hlive, -, hfree⟩ := (Plan.mem_eligible_iff h.sound).mp hid
      have hlaunched := elapses_launched h hb hu hclock
      have hslot := Record.slot_congr (launched_slots t) id
      refine hlaunched.tail (ticks_enter (h.mem_launched_ids hid) (hlaunched.steady hclock) ?_ ?_)
      · refine (booked_launched hb).unfinished ?_
        rw [Record.isFinal, launched_status hlive]
        rfl
      · rw [hslot]
        exact (hb.fits id).unended (by rw [hfree.pending]; decide) (by rw [hfree.pending]; decide)
  | complete id result outcome =>
      obtain ⟨hrunning, hunfailed, -, rfl⟩ := complete_eq_ok_iff.mp hcall
      exact h.elapses_completed hb hclock hrunning hunfailed result outcome
  | fail id error =>
      obtain ⟨hrunning, hunfailed, rfl⟩ := fail_eq_ok_iff.mp hcall
      exact h.elapses_failed hb hclock hrunning hunfailed error

/-- No call leaves a run that has not started. -/
theorem Coherent.call_unlaunched (h : t.Coherent) (c : Call) (hcall : t.call c = .ok t') :
    t'.Unlaunched := by
  refine fun hpending => absurd hpending ?_
  cases c with
  | start =>
      obtain ⟨-, rfl⟩ := start_eq_ok_iff.mp hcall
      rw [checkFinished_status]
      split
      · decide
      · exact nofun
  | cancel reason =>
      obtain ⟨-, rfl⟩ := cancel_eq_ok_iff.mp hcall
      exact nofun
  | begin id =>
      obtain ⟨hid, rfl⟩ := (begin_eq_ok_iff h.sound h.grounded.ids_eq).mp hcall
      obtain ⟨hlive, -, -⟩ := (Plan.mem_eligible_iff h.sound).mp hid
      rw [enter_status (h.mem_launched_ids hid), launched_status hlive]
      decide
  | complete id result outcome =>
      obtain ⟨hrunning, -, -, rfl⟩ := complete_eq_ok_iff.mp hcall
      have hbefore := (h.status_of_running hrunning).1
      by_cases hagain : t.Again id
      · rw [completed_record_again (h.of_running hrunning).1 hagain]
        exact hbefore
      · rw [completed_of_last hagain]
        split
        · rw [checkFinished_status]
          split
          · decide
          · exact hbefore
        · exact hbefore
  | fail id error =>
      obtain ⟨hrunning, -, rfl⟩ := fail_eq_ok_iff.mp hcall
      rw [failed_status]
      split
      · decide
      · exact (h.status_of_running hrunning).1

/-! ## Every state -/

theorem dated_ofWorkflow (w : Workflow) (clock : Clock) :
    (ofWorkflow w clock).record.Dated (ofWorkflow w clock).now := by
  refine ⟨⟨.nil, fun id => ?_, fun id => ?_, ?_, fun _ id => ?_⟩, ?_, ?_, fun id => ?_, fun id => ?_⟩
  all_goals try rw [slot_ofWorkflow]
  all_goals exact nofun

/-- What holds in every state while the clock does not go back. -/
structure Timely (w : Workflow) (t : Tracker) : Prop where
  coherent : t.Coherent
  plan_eq : t.plan = Plan.ofWorkflow w
  booked : t.plan.Booked t.record
  unlaunched : t.Unlaunched
  steady : t.clock.Steady
  dated : t.record.Dated t.now

theorem timely_ofWorkflow (w : Workflow) {clock : Clock} (hclock : clock.Steady) :
    (ofWorkflow w clock).Timely w where
  coherent := coherent_ofWorkflow w clock
  plan_eq := rfl
  booked := booked_ofWorkflow w clock
  unlaunched := fun _ => rfl
  steady := hclock
  dated := dated_ofWorkflow w clock

variable {w : Workflow}

theorem Timely.elapses (h : t.Timely w) (c : Call) (hcall : t.call c = .ok t') : t.Elapses t' :=
  h.coherent.call_elapses h.booked h.unlaunched h.steady c hcall

theorem Timely.call (h : t.Timely w) (c : Call) (hcall : t.call c = .ok t') : t'.Timely w := by
  have hplan := h.coherent.call_plan c hcall
  have helapses := h.elapses c hcall
  refine ⟨h.coherent.call c hcall, hplan.trans h.plan_eq, ?_, h.coherent.call_unlaunched c hcall,
    helapses.steady h.steady, helapses.dated h.dated⟩
  rw [hplan]
  exact h.coherent.booked_call h.booked c hcall

theorem Timely.afterAll (h : t.Timely w) (calls : List Call) :
    (t.afterAll calls).Timely w ∧ t.Elapses (t.afterAll calls) := by
  refine afterAll_induction (P := fun u => u.Timely w ∧ t.Elapses u) ?_ calls t ⟨h, .refl⟩
  rintro u u' c ⟨hu, helapses⟩ hcall
  exact ⟨hu.call c hcall, helapses.trans (hu.elapses c hcall)⟩

/-- **Times are in order**, whatever is called in whatever order, if the clock never goes back: those of the
events along the log; the start of the run before that of each node, and before its own end; the start of a
node before its end; and the end of each node before that of the run, unless this was cancelled. Whatever is
called next, no time that is set changes. -/
theorem times_are_in_order (w : Workflow) (clock : Clock) (hclock : clock.Steady)
    (calls more : List Call) :
    let t := (ofWorkflow w clock).afterAll calls
    let u := (ofWorkflow w clock).afterAll (calls ++ more)
    t.record.InOrder ∧ t.record.KeepsTimes u.record := by
  intro t u
  have htimely : t.Timely w := ((timely_ofWorkflow w hclock).afterAll calls).1
  have hu : u = t.afterAll more := List.foldl_append
  refine ⟨htimely.dated.toInOrder, ?_⟩
  rw [hu]
  exact (htimely.afterAll more).2.keepsTimes

/-- A loop of two rounds by a clock that counts its readings: the second round changes no time, and the run
ends before the event that says so. -/
theorem times_are_in_order_of_twice :
    let clock : Clock := ⟨fun n => n, 0⟩
    let calls : List Call := [.begin "poll", .complete "poll" none none]
    let more : List Call := [.begin "poll", .complete "poll" none none]
    let t := (ofWorkflow twice clock).afterAll calls
    let u := (ofWorkflow twice clock).afterAll (calls ++ more)
    t.record.InOrder ∧ t.record.KeepsTimes u.record ∧
      t.record.startedAt = some 1 ∧ (t.record.slot "poll").startedAt = some 3 ∧
      (u.record.slot "poll").completedAt = some 7 ∧ u.record.finishedAt = some 8 ∧
      u.record.events.map Event.time = [0, 2, 4, 5, 6, 9] := by
  intro clock calls more t u
  have hclock : clock.Steady := fun _ _ => Int.ofNat_le.mpr
  obtain ⟨horder, hkeeps⟩ := times_are_in_order twice clock hclock calls more
  exact ⟨horder, hkeeps, by decide +kernel, by decide +kernel, by decide +kernel, by decide +kernel,
    by decide +kernel⟩

end Tracker

end Runbook.Run
