import Runbook.Proofs.Run.Coherence

/-!
# Runs get neither stuck nor done too early

A run that goes on has a running node or one that may begin. A run that is
complete has completed what it could reach: the check looks at the nodes one step
away, but along the sequence a first node left out would have been free. Main
statement: `Tracker.running_has_work_and_completed_is_exhausted`.
-/

namespace Runbook.Run.Tracker

variable {t : Tracker} {id : String}

/-! ## A run that goes on -/

theorem Coherent.exists_unique_running (h : t.Coherent)
    (hrunning : (t.record.slot id).status = .running) :
    ∃! id, (t.record.slot id).status = .running :=
  ⟨id, hrunning, fun other hother => h.grounded.single other id hother hrunning⟩

/-- Between two nodes, a run that goes on offers one. -/
theorem Coherent.eligible_ne_nil (h : t.Coherent) (hstatus : t.record.status = .running)
    (hnone : ∀ id, (t.record.slot id).status ≠ .running) : t.eligible ≠ [] := by
  rcases h.lively.busy hstatus with ⟨id, hid⟩ | ⟨id, hid⟩
  · exact absurd hid (hnone id)
  · refine List.ne_nil_of_mem ((Plan.mem_eligible_iff h.sound).mpr ⟨?_, ?_, hid⟩)
    · simp [Record.isFinal, hstatus, RunStatus.isFinal]
    · exact (Record.runningNode_eq_none_iff h.ids_nodup).mpr hnone

/-! ## A run that is complete -/

/-- In a complete run, what has begun is completed. -/
theorem Coherent.completed_of_begun (h : t.Coherent) (hstatus : t.record.status = .completed)
    (hbegun : (t.record.slot id).Begun) : (t.record.slot id).status = .completed := by
  obtain ⟨hnone, hfree⟩ := h.lively.idle hstatus
  cases hslot : (t.record.slot id).status with
  | pending => exact absurd (h.grounded.free h.sound hbegun hslot) (hfree id)
  | running => exact absurd hslot (hnone id)
  | completed => rfl
  | failed =>
      exact absurd hslot (h.lively.unfailed (by rw [hstatus]; decide) (by rw [hstatus]; decide) id)

/-- **Nothing open is left**: in a complete run, a node that an open path reaches
is completed. -/
theorem Coherent.completed_of_open (h : t.Coherent) (hstatus : t.record.status = .completed) :
    ∀ id ∈ t.plan.order, t.plan.Open t.record id → (t.record.slot id).status = .completed := by
  refine h.sound.induction fun id hid ih hopen => ?_
  by_cases hbegun : (t.record.slot id).Begun
  · exact h.completed_of_begun hstatus hbegun
  · -- its sources are completed or closed off, so it would be free
    have hpending : (t.record.slot id).status = .pending := by
      rw [h.grounded.fresh id hbegun]
      rfl
    have hfree : t.plan.Free t.record id := by
      refine ⟨hid, hpending, hopen, ?_⟩
      intro e he _ hsource
      exact ih e he hsource
    exact absurd hfree ((h.lively.idle hstatus).2 id)

theorem Coherent.completed_iff (h : t.Coherent) (hstatus : t.record.status = .completed) :
    (t.record.slot id).status = .completed ↔ id ∈ t.plan.order ∧ t.plan.Open t.record id := by
  constructor
  · intro hcompleted
    have hbegun : (t.record.slot id).Begun := .inl (by rw [hcompleted]; decide)
    exact ⟨h.grounded.mem_order id hbegun, h.grounded.opened h.sound hbegun⟩
  · rintro ⟨hid, hopen⟩
    exact h.completed_of_open hstatus id hid hopen

/-- **Runs get neither stuck nor done too early**, whatever is called in whatever
order: while the run goes on, one node runs or one may begin; once it is
complete, the nodes of the sequence that open paths reach are completed, and the
others are untouched. -/
theorem running_has_work_and_completed_is_exhausted (w : Workflow) (clock : Clock)
    (calls : List Call) :
    let t := (ofWorkflow w clock).afterAll calls
    (t.record.status = .running →
      (∃! id, (t.record.slot id).status = .running) ∨ t.eligible ≠ []) ∧
    (t.record.status = .completed → ∀ id,
      ((t.record.slot id).status = .completed ↔
        id ∈ w.linearize.ids ∧ (Plan.ofWorkflow w).Open t.record id) ∧
      ((t.record.slot id).status ≠ .completed →
        t.record.slot id = .initial ∧ id ∉ t.record.visited)) := by
  intro t
  obtain ⟨h, hplan⟩ := coherent_afterAll w clock calls
  constructor
  · intro hstatus
    by_cases hrunning : ∃ id, (t.record.slot id).status = .running
    · obtain ⟨id, hid⟩ := hrunning
      exact .inl (h.exists_unique_running hid)
    · exact .inr (h.eligible_ne_nil hstatus (not_exists.mp hrunning))
  · intro hstatus id
    have hcompleted : (t.record.slot id).status = .completed ↔
        id ∈ (Plan.ofWorkflow w).order ∧ (Plan.ofWorkflow w).Open t.record id := by
      rw [← hplan]
      exact h.completed_iff hstatus
    refine ⟨hcompleted, fun hnot => ?_⟩
    have hbegun : ¬ (t.record.slot id).Begun := fun hb => hnot (h.completed_of_begun hstatus hb)
    exact ⟨h.grounded.fresh id hbegun, fun hvisited => hbegun ((h.grounded.visited id).mp hvisited)⟩

end Runbook.Run.Tracker
