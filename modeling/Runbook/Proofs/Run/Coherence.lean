import Runbook.Proofs.Run.Calls

/-!
# Coherent records

The invariant of every state that calls can reach, in two parts. `Grounded` is
about the slots: each node that has begun was free when it did, and what it
waited for has not changed since. `Lively` is about the status of the run: while
it runs there is something to do, and when it is complete there is nothing left.
`Coherent.call` says that every accepted call keeps both.
-/

namespace Runbook.Run

namespace Plan

variable {p : Plan} {r r' : Record} {id : String}

/-- What the slots of a record tell about each other under a plan. -/
structure Grounded (p : Plan) (r : Record) : Prop where
  ids_eq : r.ids = p.ids
  single : ∀ id other, (r.slot id).status = .running → (r.slot other).status = .running →
    id = other
  mem_order : ∀ id, (r.slot id).Begun → id ∈ p.order
  ready : ∀ id, (r.slot id).Begun → p.Ready r id
  fresh : ∀ id, ¬ (r.slot id).Begun → r.slot id = .initial
  visited : ∀ id, id ∈ r.visited ↔ (r.slot id).Begun

/-- What the status of a run tells about its slots. -/
structure Lively (p : Plan) (r : Record) : Prop where
  waiting : r.status = .pending → ∀ id, ¬ (r.slot id).Begun
  unfailed : r.status ≠ .failed → r.status ≠ .cancelled → ∀ id, (r.slot id).status ≠ .failed
  busy : r.status = .running → (∃ id, (r.slot id).status = .running) ∨ ∃ id, p.Free r id
  idle : r.status = .completed → (∀ id, (r.slot id).status ≠ .running) ∧ ∀ id, ¬ p.Free r id

/-- Of a run that failed or was cancelled, its status tells nothing more. -/
theorem Lively.of_stopped (h : r.status = .failed ∨ r.status = .cancelled) : p.Lively r := by
  refine ⟨fun hstatus => ?_, fun hfailed hcancelled => ?_, fun hstatus => ?_, fun hstatus => ?_⟩
  · simp [hstatus] at h
  · exact absurd h (not_or.mpr ⟨hfailed, hcancelled⟩)
  · simp [hstatus] at h
  · simp [hstatus] at h

/-! ## Records with the same slots -/

theorem Closed.congr (hslots : r'.slots = r.slots) {e : Edge} : p.Closed r' e ↔ p.Closed r e := by
  rw [Closed, Closed, Record.slot_congr hslots]

theorem Open.congr (hslots : r'.slots = r.slots) : p.Open r' id ↔ p.Open r id := by
  have hkeeps : ∀ {r r' : Record}, r'.slots = r.slots → Keeps r r' :=
    fun h other _ => Record.slot_congr h other
  exact ⟨.anti (hkeeps hslots), .anti (hkeeps hslots.symm)⟩

theorem Free.congr (hslots : r'.slots = r.slots) (h : p.Free r id) : p.Free r' id where
  mem := h.mem
  pending := Record.slot_congr hslots id ▸ h.pending
  opened := (Open.congr hslots).mpr h.opened
  settled := by
    intro e he hclosed hopen
    rw [Record.slot_congr hslots]
    exact h.settled e he (fun hc => hclosed ((Closed.congr hslots).mpr hc))
      ((Open.congr hslots).mp hopen)

theorem Grounded.congr (hslots : r'.slots = r.slots) (hvisited : r'.visited = r.visited)
    (h : p.Grounded r) : p.Grounded r' := by
  have hslot : ∀ id, r'.slot id = r.slot id := Record.slot_congr hslots
  have hkeeps : Keeps r r' := fun id _ => hslot id
  refine ⟨(Record.ids_congr hslots).trans h.ids_eq, ?_, ?_, ?_, ?_, ?_⟩
  · intro id other
    rw [hslot, hslot]
    exact h.single id other
  · intro id
    rw [hslot]
    exact h.mem_order id
  · intro id
    rw [hslot]
    exact fun hbegun => (h.ready id hbegun).mono hkeeps
  · intro id
    rw [hslot]
    exact h.fresh id
  · intro id
    rw [hslot, hvisited]
    exact h.visited id

/-! ## One slot changes -/

/-- **The step of the invariant**: a node that was ready, and not completed, takes
up another slot. -/
theorem Grounded.update {s : Slot} (h : p.Grounded r) (hids : r'.ids = r.ids)
    (hslot : ∀ other, r'.slot other = if other = id then s else r.slot other)
    (hvisited : ∀ other, other ∈ r'.visited ↔ other = id ∨ other ∈ r.visited)
    (hmem : id ∈ p.order) (hready : p.Ready r id) (hbefore : (r.slot id).status ≠ .completed)
    (hbegun : s.Begun)
    (hsingle : s.status = .running → ∀ other, (r.slot other).status ≠ .running) :
    p.Grounded r' := by
  have hkeeps : Keeps r r' := by
    intro other hcompleted
    have hne : other ≠ id := fun heq => hbefore (heq ▸ hcompleted)
    rw [hslot, if_neg hne]
  refine ⟨hids.trans h.ids_eq, ?single, ?mem_order, ?ready, ?fresh, ?visited⟩
  case single =>
    exact Record.slot_unique_of_update (P := fun s => s.status = .running) hslot
      (fun hrunning other _ => hsingle hrunning other) h.single
  case mem_order =>
    exact Record.forall_slot_of_update (P := fun other s => s.Begun → other ∈ p.order) hslot
      (fun _ => hmem) (fun other _ => h.mem_order other)
  case ready =>
    exact Record.forall_slot_of_update (P := fun other s => s.Begun → p.Ready r' other) hslot
      (fun _ => hready.mono hkeeps) (fun other _ hother => (h.ready other hother).mono hkeeps)
  case fresh =>
    exact Record.forall_slot_of_update (P := fun _ s => ¬ s.Begun → s = .initial) hslot
      (fun hfresh => absurd hbegun hfresh) (fun other _ => h.fresh other)
  case visited =>
    refine Record.forall_slot_of_update (P := fun other s => other ∈ r'.visited ↔ s.Begun) hslot
      ?_ (fun other hne => ?_)
    · exact iff_of_true ((hvisited id).mpr (.inl rfl)) hbegun
    · rw [hvisited, h.visited other]
      exact or_iff_right hne

/-! ## What has begun is open -/

/-- A node that has begun is still reached by an open path. -/
theorem Grounded.opened (hsound : p.Sound) (h : p.Grounded r) (hbegun : (r.slot id).Begun) :
    p.Open r id := by
  refine hsound.induction (P := fun id => (r.slot id).Begun → p.Open r id) ?_ id
    (h.mem_order id hbegun) hbegun
  intro id hid ih hbegun
  rcases (h.ready id hbegun).entered with hnone | ⟨e, he, hcompleted, hclosed⟩
  · exact .root (hsound.sequenced.subset id hid) hnone
  · have hsource : (r.slot e.source).Begun := .inl (by rw [hcompleted]; decide)
    exact open_iff.mpr (.inr ⟨e, he, ih e he hsource, hclosed⟩)

/-- A node that has begun may begin again once it is pending. -/
theorem Grounded.free (hsound : p.Sound) (h : p.Grounded r) (hbegun : (r.slot id).Begun)
    (hpending : (r.slot id).status = .pending) : p.Free r id where
  mem := h.mem_order id hbegun
  pending := hpending
  opened := h.opened hsound hbegun
  settled := (h.ready id hbegun).settled

end Plan

namespace Tracker

variable {t t' : Tracker} {id : String}

/-- What holds of every tracker that calls can reach. -/
structure Coherent (t : Tracker) : Prop where
  sound : t.plan.Sound
  grounded : t.plan.Grounded t.record
  lively : t.plan.Lively t.record

theorem Coherent.ids_nodup (h : t.Coherent) : t.record.ids.Nodup :=
  h.grounded.ids_eq ▸ h.sound.ids_nodup

theorem slot_ofWorkflow (w : Workflow) (clock : Clock) (id : String) :
    (ofWorkflow w clock).record.slot id = .initial := by
  by_cases hid : id ∈ (ofWorkflow w clock).record.ids
  · have hfound := Record.slot?_of_mem hid
    simp only [ofWorkflow, Record.initial, Record.slot?, Option.map_eq_some_iff] at hfound
    obtain ⟨entry, hentry, heq⟩ := hfound
    obtain ⟨key, -, rfl⟩ := List.mem_map.mp (List.mem_of_find?_eq_some hentry)
    exact heq.symm
  · exact Record.slot_of_not_mem hid

/-- A run that has not started is coherent. -/
theorem coherent_ofWorkflow (w : Workflow) (clock : Clock) : (ofWorkflow w clock).Coherent where
  sound := Plan.sound_ofWorkflow w
  grounded := by
    have hids : (ofWorkflow w clock).record.ids = (ofWorkflow w clock).plan.ids := by
      simp only [ofWorkflow, Record.initial, Record.ids, List.map_map]
      exact List.map_id _
    refine ⟨hids, ?_, ?_, ?_, ?_, ?_⟩
    all_goals simp [slot_ofWorkflow]
    · simp [Slot.initial]
    · exact fun id hid => by simp [ofWorkflow, Record.initial] at hid
  lively := by
    refine ⟨?_, ?_, ?_, ?_⟩
    · intro _ id
      rw [slot_ofWorkflow]
      exact Slot.not_begun_initial
    · intro _ _ id
      rw [slot_ofWorkflow]
      decide
    · intro h
      cases h
    · intro h
      cases h

/-! ## The check -/

theorem finished_iff (hsound : t.plan.Sound) (hnodup : t.record.ids.Nodup)
    (hlive : t.record.isFinal = false) :
    t.Finished ↔ (∀ id, (t.record.slot id).status ≠ .running) ∧ ∀ id, ¬ t.plan.Free t.record id := by
  rw [Finished, ← Record.runningNode_eq_none_iff hnodup, eligible, List.eq_nil_iff_forall_not_mem]
  refine and_congr_right fun hnone => forall_congr' fun id => ?_
  rw [Plan.mem_eligible_iff hsound]
  simp [hlive, hnone]

/-- **The check leaves a run lively**: it goes on only if there is something to do. -/
theorem lively_checkFinished (hsound : t.plan.Sound) (hnodup : t.record.ids.Nodup)
    (hrunning : t.record.status = .running)
    (hunfailed : ∀ id, (t.record.slot id).status ≠ .failed) :
    t.plan.Lively t.checkFinished.record := by
  have hlive : t.record.isFinal = false := by simp [Record.isFinal, hrunning, RunStatus.isFinal]
  have hslots := checkFinished_slots t
  have hiff := finished_iff hsound hnodup hlive
  refine ⟨fun hstatus => ?_, fun _ _ id => ?_, fun hstatus => ?_, fun hstatus => ?_⟩
  · rw [checkFinished_status, hrunning] at hstatus
    split at hstatus <;> cases hstatus
  · rw [Record.slot_congr hslots]
    exact hunfailed id
  · have hnot : ¬ t.Finished := by
      intro hfinished
      rw [checkFinished_status, if_pos hfinished] at hstatus
      cases hstatus
    rw [checkFinished_of_not_finished hnot]
    by_contra hidle
    push Not at hidle
    exact hnot (hiff.mpr hidle)
  · have hfinished : t.Finished := by
      by_contra hnot
      rw [checkFinished_status, if_neg hnot, hrunning] at hstatus
      cases hstatus
    obtain ⟨hnone, hfree⟩ := hiff.mp hfinished
    refine ⟨fun id => ?_, fun id h => hfree id (h.congr hslots.symm)⟩
    rw [Record.slot_congr hslots]
    exact hnone id

/-! ## Every call keeps the invariant -/

theorem Coherent.start (h : t.Coherent) (hcall : t.start = .ok t') : t'.Coherent := by
  obtain ⟨hpending, rfl⟩ := start_eq_ok_iff.mp hcall
  have hslots : t.launch.checkFinished.record.slots = t.record.slots := checkFinished_slots t.launch
  have hvisited : t.launch.checkFinished.record.visited = t.record.visited :=
    checkFinished_visited t.launch
  have hplan : t.launch.checkFinished.plan = t.plan := checkFinished_plan t.launch
  refine ⟨hplan ▸ h.sound, hplan ▸ h.grounded.congr hslots hvisited, ?_⟩
  rw [hplan]
  refine lively_checkFinished (t := t.launch) h.sound h.ids_nodup rfl ?_
  exact h.lively.unfailed (by rw [hpending]; decide) (by rw [hpending]; decide)

theorem Coherent.cancel {reason : Option String} (h : t.Coherent)
    (hcall : t.cancel reason = .ok t') : t'.Coherent := by
  obtain ⟨-, rfl⟩ := cancel_eq_ok_iff.mp hcall
  exact ⟨h.sound, Plan.Grounded.congr (r := t.record) rfl rfl h.grounded,
    .of_stopped (.inr rfl)⟩

/-- A node that is offered has a slot. -/
theorem Coherent.mem_launched_ids (h : t.Coherent) (hid : id ∈ t.eligible) :
    id ∈ t.launched.record.ids := by
  obtain ⟨-, -, hfree⟩ := (Plan.mem_eligible_iff h.sound).mp hid
  rw [Record.ids_congr (launched_slots t), h.grounded.ids_eq]
  exact h.sound.sequenced.subset id hfree.mem

theorem Coherent.begin (h : t.Coherent) (hcall : t.begin id = .ok t') : t'.Coherent := by
  obtain ⟨hid, rfl⟩ := (begin_eq_ok_iff h.sound h.grounded.ids_eq).mp hcall
  obtain ⟨hlive, hnone, hfree⟩ := (Plan.mem_eligible_iff h.sound).mp hid
  have hslots := launched_slots t
  have hgrounded : t.plan.Grounded t.launched.record :=
    h.grounded.congr hslots (launched_visited t)
  have hmem := h.mem_launched_ids hid
  have hplan : (t.launched.enter id).plan = t.plan := (enter_plan _ _).trans (launched_plan t)
  have hself : ((t.launched.enter id).record.slot id).status = .running := by
    rw [enter_slot hmem, if_pos rfl]
    rfl
  have hstatus : (t.launched.enter id).record.status = .running :=
    (enter_status hmem).trans (launched_status hlive)
  have hbefore : (t.launched.record.slot id).status = .pending := by
    rw [Record.slot_congr hslots]
    exact hfree.pending
  refine ⟨hplan ▸ h.sound, ?_, ?_⟩
  · rw [hplan]
    refine hgrounded.update (enter_ids hmem) (enter_slot hmem)
      (fun other => mem_enter_visited hmem) hfree.mem (hfree.congr hslots).ready ?_ ?_ ?_
    · rw [hbefore]
      decide
    · exact .inl (by simp [entered])
    · intro _ other
      rw [Record.slot_congr hslots]
      exact (Record.runningNode_eq_none_iff h.ids_nodup).mp hnone other
  · rw [hplan]
    refine ⟨fun hpending => ?_, fun _ _ other => ?_, fun _ => .inl ⟨id, hself⟩,
      fun hcompleted => ?_⟩
    · rw [hstatus] at hpending
      cases hpending
    · by_cases heq : other = id
      · rw [heq, hself]
        decide
      · rw [enter_slot hmem, if_neg heq, Record.slot_congr hslots]
        refine h.lively.unfailed ?_ ?_ other
        all_goals
          intro hover
          simp [Record.isFinal, RunStatus.isFinal, hover] at hlive
    · rw [hstatus] at hcompleted
      cases hcompleted

/-- What a report on a running node may rely on. -/
theorem Coherent.of_running (h : t.Coherent) (hrunning : (t.record.slot id).status = .running) :
    id ∈ t.record.ids ∧ id ∈ t.plan.order ∧ t.plan.Ready t.record id ∧
      (t.record.slot id).status ≠ .completed ∧
      ∀ other, other ≠ id → (t.record.slot other).status ≠ .running := by
  have hbegun : (t.record.slot id).Begun := .inl (by rw [hrunning]; decide)
  refine ⟨Record.mem_ids_of_begun hbegun, h.grounded.mem_order id hbegun,
    h.grounded.ready id hbegun, by rw [hrunning]; decide, ?_⟩
  intro other hne hother
  exact hne (h.grounded.single other id hother hrunning)

/-- A run with a running node goes on, unless it is over for another reason. -/
theorem Coherent.status_of_running (h : t.Coherent)
    (hrunning : (t.record.slot id).status = .running) :
    t.record.status ≠ .pending ∧ t.record.status ≠ .completed := by
  constructor
  · intro hpending
    exact h.lively.waiting hpending id (.inl (by rw [hrunning]; decide))
  · intro hcompleted
    exact (h.lively.idle hcompleted).1 id hrunning

theorem Coherent.fail {error : String} (h : t.Coherent) (hcall : t.fail id error = .ok t') :
    t'.Coherent := by
  obtain ⟨hrunning, -, rfl⟩ := fail_eq_ok_iff.mp hcall
  obtain ⟨hmem, horder, hready, hbefore, -⟩ := h.of_running hrunning
  obtain ⟨hpending, hcompleted⟩ := h.status_of_running hrunning
  have hplan := failed_plan t id error
  have hvisited : id ∈ t.record.visited :=
    (h.grounded.visited id).mpr (.inl (by rw [hrunning]; decide))
  refine ⟨hplan ▸ h.sound, ?_, ?_⟩
  · rw [hplan]
    refine h.grounded.update (failed_ids hmem error) (failed_slot hmem error) ?_ horder hready
      hbefore (.inl (by simp [failure])) (fun hcontra => by cases hcontra)
    intro other
    rw [failed_visited]
    exact ⟨.inr, fun hor => hor.elim (fun heq => heq ▸ hvisited) (fun hin => hin)⟩
  · -- a report is accepted while the run goes on, which then fails, or after it was cancelled
    have hover : (t.failed id error).record.status = .failed ∨
        (t.failed id error).record.status = .cancelled := by
      rw [failed_status]
      cases hstatus : t.record.status with
      | running => exact .inl rfl
      | cancelled => exact .inr rfl
      | pending => exact absurd hstatus hpending
      | completed => exact absurd hstatus hcompleted
      | failed => exact .inl rfl
    exact .of_stopped hover

/-- Nothing runs once the running node is reported complete. -/
theorem Coherent.completed_quiet (h : t.Coherent) (hrunning : (t.record.slot id).status = .running)
    (result : Option String) (outcome : Option Bool) (other : String) :
    ((t.completed id result outcome).record.slot other).status ≠ .running := by
  obtain ⟨hmem, -, -, -, hquiet⟩ := h.of_running hrunning
  refine Record.forall_slot_of_update (P := fun _ s => s.status ≠ .running)
    (completed_slot hmem result outcome) ?_ hquiet other
  by_cases hagain : t.Again id <;> simp [hagain]

/-- Nothing runs once the running node is reported to have failed. -/
theorem Coherent.failed_quiet (h : t.Coherent) (hrunning : (t.record.slot id).status = .running)
    (error other : String) : ((t.failed id error).record.slot other).status ≠ .running := by
  obtain ⟨hmem, -, -, -, hquiet⟩ := h.of_running hrunning
  refine Record.forall_slot_of_update (P := fun _ s => s.status ≠ .running)
    (failed_slot hmem error) ?_ hquiet other
  simp [failure]

theorem Coherent.completed_grounded (h : t.Coherent)
    (hrunning : (t.record.slot id).status = .running) (result : Option String)
    (outcome : Option Bool) : t.plan.Grounded (t.completed id result outcome).record := by
  obtain ⟨hmem, horder, hready, hbefore, -⟩ := h.of_running hrunning
  have hvisited : id ∈ t.record.visited :=
    (h.grounded.visited id).mpr (.inl (by rw [hrunning]; decide))
  refine h.grounded.update (completed_ids hmem result outcome) (completed_slot hmem result outcome)
    ?_ horder hready hbefore ?_ ?_
  · intro other
    rw [completed_visited]
    exact ⟨.inr, fun hor => hor.elim (fun heq => heq ▸ hvisited) (fun hin => hin)⟩
  · by_cases hagain : t.Again id
    · exact .inr (by simp [report, hagain.1])
    · exact .inl (by simp [hagain])
  · intro hcontra
    by_cases hagain : t.Again id <;> simp [hagain] at hcontra

theorem Coherent.completed_unfailed (h : t.Coherent)
    (hrunning : (t.record.slot id).status = .running) (hgoes : t.record.status = .running)
    (result : Option String) (outcome : Option Bool) (other : String) :
    ((t.completed id result outcome).record.slot other).status ≠ .failed := by
  obtain ⟨hmem, -⟩ := h.of_running hrunning
  refine Record.forall_slot_of_update (P := fun _ s => s.status ≠ .failed)
    (completed_slot hmem result outcome) ?_ (fun other _ => ?_) other
  · by_cases hagain : t.Again id <;> simp [hagain]
  · exact h.lively.unfailed (by rw [hgoes]; decide) (by rw [hgoes]; decide) other

/-- A loop with rounds to go may begin again, so there is something to do. -/
theorem Coherent.lively_of_again (h : t.Coherent)
    (hrunning : (t.record.slot id).status = .running) (hgoes : t.record.status = .running)
    (hagain : t.Again id) (result : Option String) (outcome : Option Bool) :
    t.plan.Lively (t.completed id result outcome).record := by
  obtain ⟨hmem, -⟩ := h.of_running hrunning
  have hself := completed_slot hmem result outcome id
  rw [if_pos rfl] at hself
  have hstatus : (t.completed id result outcome).record.status = .running := by
    rw [completed_record_again hmem hagain]
    exact hgoes
  have hfree : t.plan.Free (t.completed id result outcome).record id := by
    refine (h.completed_grounded hrunning result outcome).free h.sound (.inr ?_) ?_
    · rw [hself]
      simp [report, hagain.1]
    · rw [hself]
      simp [hagain]
  refine ⟨fun hcontra => ?_, fun _ _ => ?_, fun _ => .inr ⟨id, hfree⟩, fun hcontra => ?_⟩
  · rw [hstatus] at hcontra
    cases hcontra
  · exact h.completed_unfailed hrunning hgoes result outcome
  · rw [hstatus] at hcontra
    cases hcontra

/-- After any other report the run is checked. -/
theorem Coherent.lively_of_last (h : t.Coherent)
    (hrunning : (t.record.slot id).status = .running) (hgoes : t.record.status = .running)
    (hlast : ¬ t.Again id) (result : Option String) (outcome : Option Bool) :
    t.plan.Lively (t.completed id result outcome).record := by
  obtain ⟨hmem, -⟩ := h.of_running hrunning
  have hslots := completed_slots_of_last hlast result outcome
  have hunfailed := h.completed_unfailed hrunning hgoes result outcome
  have hstatus := congrArg Record.status (ended_reported_record hmem result outcome)
  have hplan : ((t.reported id result outcome).ended id result).plan = t.plan := by
    rw [ended_plan, reported_plan]
  have hsound : ((t.reported id result outcome).ended id result).plan.Sound := by
    rw [hplan]
    exact h.sound
  have hnodup : ((t.reported id result outcome).ended id result).record.ids.Nodup := by
    rw [← Record.ids_congr hslots, completed_ids hmem]
    exact h.ids_nodup
  have hlively := lively_checkFinished hsound hnodup (hstatus.trans hgoes) fun other => by
    rw [← Record.slot_congr hslots]
    exact hunfailed other
  rw [completed_of_last hlast, if_pos hgoes]
  rwa [hplan] at hlively

theorem Coherent.complete {result : Option String} {outcome : Option Bool} (h : t.Coherent)
    (hcall : t.complete id result outcome = .ok t') : t'.Coherent := by
  obtain ⟨hrunning, hfailed, -, rfl⟩ := complete_eq_ok_iff.mp hcall
  obtain ⟨hpending, hcompleted⟩ := h.status_of_running hrunning
  have hplan := completed_plan t id result outcome
  refine ⟨hplan ▸ h.sound, hplan ▸ h.completed_grounded hrunning result outcome, ?_⟩
  rw [hplan]
  by_cases hgoes : t.record.status = .running
  · by_cases hagain : t.Again id
    · exact h.lively_of_again hrunning hgoes hagain result outcome
    · exact h.lively_of_last hrunning hgoes hagain result outcome
  · -- the node outlasts its run, which was cancelled, and no check is made
    have hcancelled : t.record.status = .cancelled := by
      cases hstatus : t.record.status <;> simp_all
    refine .of_stopped (.inr ?_)
    rw [completed_status_of_stopped hgoes]
    exact hcancelled

/-- **Every accepted call keeps a tracker coherent.** -/
theorem Coherent.call (h : t.Coherent) (c : Call) (hcall : t.call c = .ok t') : t'.Coherent := by
  cases c with
  | start => exact h.start hcall
  | cancel reason => exact h.cancel hcall
  | begin id => exact h.begin hcall
  | complete id result outcome => exact h.complete hcall
  | fail id error => exact h.fail hcall

/-- Every accepted call keeps the plan. -/
theorem Coherent.call_plan (h : t.Coherent) (c : Call) (hcall : t.call c = .ok t') :
    t'.plan = t.plan := by
  cases c with
  | start =>
      obtain ⟨-, rfl⟩ := start_eq_ok_iff.mp hcall
      exact checkFinished_plan _
  | cancel reason =>
      obtain ⟨-, rfl⟩ := cancel_eq_ok_iff.mp hcall
      rfl
  | begin id =>
      obtain ⟨-, rfl⟩ := (begin_eq_ok_iff h.sound h.grounded.ids_eq).mp hcall
      exact (enter_plan _ _).trans (launched_plan t)
  | complete id result outcome =>
      obtain ⟨-, -, -, rfl⟩ := complete_eq_ok_iff.mp hcall
      exact completed_plan _ _ _ _
  | fail id error =>
      obtain ⟨-, -, rfl⟩ := fail_eq_ok_iff.mp hcall
      exact failed_plan _ _ _

/-- **Every state that calls reach is coherent.** -/
theorem coherent_afterAll (w : Workflow) (clock : Clock) (calls : List Call) :
    ((ofWorkflow w clock).afterAll calls).Coherent ∧
      ((ofWorkflow w clock).afterAll calls).plan = Plan.ofWorkflow w := by
  refine afterAll_induction (P := fun t => t.Coherent ∧ t.plan = Plan.ofWorkflow w) ?_ calls _
    ⟨coherent_ofWorkflow w clock, rfl⟩
  intro t t' c h hcall
  exact ⟨h.1.call c hcall, (h.1.call_plan c hcall).trans h.2⟩

end Tracker

end Runbook.Run
