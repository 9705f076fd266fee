import Mathlib.Data.List.Perm.Subperm
import Runbook.Proofs.Run.Progress

/-!
# Guided runs

Runs in which the outcome of each decision and the result of each node are fixed
beforehand. `Plan.taken` finds by one pass along the sequence which nodes such a
run comes to. `Tracker.Guided` is its invariant, whatever the order in which the
driver takes the nodes: it says of each node how often it began, and of each
completed one what its slot is.
-/

namespace Runbook.Run

namespace Plan

variable {p : Plan} {r : Record} {choose : String → Bool} {text : String → String} {id : String}

/-! ## The nodes that choices lead to -/

/-- Whether an edge from a kept node is followed: any edge of a node that decides
nothing, and those that leave a decision by the branch chosen for it. -/
def leads (p : Plan) (choose : String → Bool) (kept : List String) (e : Edge) : Bool :=
  kept.contains e.source &&
    (p.kind? e.source != some .decision || e.sourceHandle == some (branchHandle (choose e.source)))

/-- The nodes that choices lead to, by one pass along the sequence. -/
def taken (p : Plan) (choose : String → Bool) : List String :=
  Graph.scan (fun kept id =>
    (p.incoming id).isEmpty || (p.incoming id).any (p.leads choose kept)) p.order

theorem leads_iff {kept : List String} {e : Edge} :
    p.leads choose kept e = true ↔ e.source ∈ kept ∧ (p.kind? e.source = some .decision →
      e.sourceHandle = some (branchHandle (choose e.source))) := by
  simp [leads, imp_iff_not_or]

theorem taken_sublist (p : Plan) (choose : String → Bool) : (p.taken choose).Sublist p.order :=
  Graph.scan_sublist _ _

theorem Sound.taken_nodup (h : p.Sound) : (p.taken choose).Nodup :=
  h.sequenced.nodup.sublist (p.taken_sublist choose)

/-- **The nodes that choices lead to**, by an equation: those that wait for
nothing, and those into which an edge from such a node is followed. -/
theorem mem_taken_iff (h : p.Sound) (choose : String → Bool) :
    ∀ id ∈ p.order, (id ∈ p.taken choose ↔
      p.incoming id = [] ∨ ∃ e ∈ p.incoming id, p.leads choose (p.taken choose) e = true) := by
  intro id hid
  have hlocal : ∀ kept kept' id, (∀ e ∈ p.links, e.target = id →
      (e.source ∈ kept ↔ e.source ∈ kept')) →
      ((p.incoming id).isEmpty || (p.incoming id).any (p.leads choose kept)) =
        ((p.incoming id).isEmpty || (p.incoming id).any (p.leads choose kept')) := by
    intro kept kept' id hsame
    have hany : (p.incoming id).any (p.leads choose kept) =
        (p.incoming id).any (p.leads choose kept') := by
      rw [Bool.eq_iff_iff, List.any_eq_true, List.any_eq_true]
      refine exists_congr fun e => and_congr_right fun he => ?_
      obtain ⟨hlink, htarget⟩ := mem_incoming_iff.mp he
      rw [leads_iff, leads_iff, hsame e hlink htarget]
    rw [hany]
  rw [taken, Graph.mem_scan_iff h.sequenced.nodup h.sequenced.forward hlocal id hid, ← taken]
  simp only [Bool.or_eq_true, List.isEmpty_iff, List.any_eq_true]

/-! ## Rounds -/

/-- A node that is no loop runs once. -/
theorem rounds_of_not_loop (h : p.kind? id ≠ some .loop) : p.rounds id = 1 := by
  rw [rounds]
  split
  · rename_i n hn
    have hkind : n.kind ≠ .loop := by simpa [kind?, hn] using h
    rw [Node.rounds]
    split
    · rename_i times hdetail
      exact absurd (by rw [Node.kind, hdetail]; rfl) hkind
    · rfl
  · rfl

/-- The nodes that choices lead to, each as often as it runs. -/
def tour (p : Plan) (choose : String → Bool) : List String :=
  (p.taken choose).flatMap fun id => List.replicate (p.rounds id) id

theorem count_flatMap_replicate (f : String → Nat) (id : String) (l : List String)
    (hnodup : l.Nodup) :
    (l.flatMap fun x => List.replicate (f x) x).count id = if id ∈ l then f id else 0 := by
  induction l with
  | nil => rfl
  | cons x rest ih =>
      obtain ⟨hx, hrest⟩ := List.nodup_cons.mp hnodup
      rw [List.flatMap_cons, List.count_append, ih hrest, List.count_replicate]
      by_cases heq : id = x
      · subst heq
        simp [hx]
      · simp [heq, Ne.symm heq]

theorem Sound.count_tour (h : p.Sound) :
    (p.tour choose).count id = if id ∈ p.taken choose then p.rounds id else 0 :=
  count_flatMap_replicate p.rounds id (p.taken choose) h.taken_nodup

/-! ## Slots of a guided run -/

/-- A slot as a guided run leaves it: short of its rounds until it is completed,
and then with the given result and the chosen branch. -/
structure Reported (p : Plan) (choose : String → Bool) (text : String → String) (id : String)
    (s : Slot) : Prop where
  unfinished : s.status ≠ .completed → s.iterations < p.rounds id
  plain : p.kind? id ≠ some .decision → s.selectedHandle = none
  result : s.status = .completed → s.result = some (text id)
  iterations : s.status = .completed →
    s.iterations = if p.kind? id = some .loop then p.rounds id else 0
  handle : s.status = .completed →
    p.kind? id = some .decision → s.selectedHandle = some (branchHandle (choose id))

theorem reported_initial (p : Plan) (choose : String → Bool) (text : String → String)
    (id : String) : p.Reported choose text id .initial where
  unfinished := fun _ => p.rounds_pos id
  plain := fun _ => rfl
  result := by intro h; cases h
  iterations := by intro h; cases h
  handle := by intro h; cases h

end Plan

/-- How often a node began, read off its slot. -/
def Slot.begins (s : Slot) (rounds : Nat) : Nat :=
  match s.status with
  | .pending => s.iterations
  | .running => s.iterations + 1
  | .completed | .failed => rounds

namespace Tracker

variable {t t' : Tracker} {choose : String → Bool} {text : String → String} {id : String}

/-- **The invariant of a guided run.** -/
structure Guided (choose : String → Bool) (text : String → String) (t : Tracker) : Prop where
  coherent : t.Coherent
  started : t.record.status = .running ∨ t.record.status = .completed
  taken : ∀ id, (t.record.slot id).Begun → id ∈ t.plan.taken choose
  slots : ∀ id, t.plan.Reported choose text id (t.record.slot id)
  count : ∀ id, t.record.begins.count id = (t.record.slot id).begins (t.plan.rounds id)

theorem checkFinished_status_of_running (h : t.record.status = .running) :
    t.checkFinished.record.status = .running ∨ t.checkFinished.record.status = .completed := by
  rw [checkFinished_status, h]
  split
  · exact .inr rfl
  · exact .inl rfl

/-- A run that goes on still does after a report of completion, or is complete. -/
theorem completed_status_of_running (hid : id ∈ t.record.ids) (h : t.record.status = .running)
    (result : Option String) (outcome : Option Bool) :
    (t.completed id result outcome).record.status = .running ∨
      (t.completed id result outcome).record.status = .completed := by
  by_cases hagain : t.Again id
  · rw [completed_record_again hid hagain]
    exact .inl h
  · rw [completed_of_last hagain, if_pos h]
    exact checkFinished_status_of_running h

/-- **The step of the invariant**: one node that the choices lead to takes up
another slot. -/
theorem Guided.update (h : t.Guided choose text) (hcoherent : t'.Coherent)
    (hplan : t'.plan = t.plan)
    (hstarted : t'.record.status = .running ∨ t'.record.status = .completed)
    (htaken : id ∈ t.plan.taken choose)
    (hreported : t.plan.Reported choose text id (t'.record.slot id))
    (hcount : t'.record.begins.count id = (t'.record.slot id).begins (t.plan.rounds id))
    (hother : ∀ other, other ≠ id → t'.record.slot other = t.record.slot other ∧
      t'.record.begins.count other = t.record.begins.count other) :
    t'.Guided choose text := by
  refine ⟨hcoherent, hstarted, ?_, ?_, ?_⟩
  all_goals
    intro other
    rw [hplan]
    by_cases heq : other = id
  · rw [heq]
    exact fun _ => htaken
  · rw [(hother other heq).1]
    exact h.taken other
  · rw [heq]
    exact hreported
  · rw [(hother other heq).1]
    exact h.slots other
  · rw [heq]
    exact hcount
  · rw [(hother other heq).1, (hother other heq).2]
    exact h.count other

/-! ## Each call of a guided run -/

theorem slot_started (w : Workflow) (clock : Clock) (id : String) :
    (ofWorkflow w clock).launch.checkFinished.record.slot id = .initial := by
  rw [Record.slot_congr (checkFinished_slots _)]
  exact slot_ofWorkflow w clock id

theorem begins_started (w : Workflow) (clock : Clock) :
    (ofWorkflow w clock).launch.checkFinished.record.begins = [] := by
  rw [checkFinished_begins, launch_begins]
  rfl

theorem guided_start (w : Workflow) (clock : Clock) (choose : String → Bool)
    (text : String → String) (hcall : (ofWorkflow w clock).start = .ok t) :
    t.Guided choose text := by
  have hcoherent := (coherent_ofWorkflow w clock).start hcall
  obtain ⟨-, rfl⟩ := start_eq_ok_iff.mp hcall
  refine ⟨hcoherent, checkFinished_status_of_running rfl, ?_, ?_, ?_⟩
  · intro id hbegun
    rw [slot_started] at hbegun
    exact absurd hbegun Slot.not_begun_initial
  · intro id
    rw [slot_started]
    exact Plan.reported_initial _ _ _ _
  · intro id
    rw [slot_started, begins_started]
    rfl

/-- An edge that a completed node has not closed is one that the choices follow. -/
theorem Guided.leads_of_completed (h : t.Guided choose text) {e : Edge}
    (hcompleted : (t.record.slot e.source).status = .completed)
    (hclosed : ¬ t.plan.Closed t.record e) :
    t.plan.leads choose (t.plan.taken choose) e = true := by
  rw [Plan.leads_iff]
  refine ⟨h.taken e.source (.inl (by rw [hcompleted]; decide)), fun hdecision => ?_⟩
  have hhandle := (h.slots e.source).handle hcompleted hdecision
  rw [← hhandle]
  by_contra hother
  exact hclosed ⟨hdecision, hcompleted, hother⟩

theorem Guided.not_closed (h : t.Guided choose text) {e : Edge}
    (hcompleted : (t.record.slot e.source).status = .completed)
    (hbranch : t.plan.kind? e.source = some .decision →
      e.sourceHandle = some (branchHandle (choose e.source))) : ¬ t.plan.Closed t.record e := by
  rintro ⟨hdecision, -, hother⟩
  rw [(h.slots e.source).handle hcompleted hdecision] at hother
  exact hother (hbranch hdecision)

/-- A node that is ready is one that the choices lead to. -/
theorem Guided.taken_of_ready (h : t.Guided choose text) (hid : id ∈ t.plan.order)
    (hready : t.plan.Ready t.record id) : id ∈ t.plan.taken choose := by
  rw [Plan.mem_taken_iff h.coherent.sound choose id hid]
  exact hready.entered.imp_right fun ⟨e, he, hcompleted, hclosed⟩ =>
    ⟨e, he, h.leads_of_completed hcompleted hclosed⟩

theorem Guided.begin (h : t.Guided choose text) (hcall : t.begin id = .ok t') :
    t'.Guided choose text := by
  have hcoherent := h.coherent.begin hcall
  have hsound := h.coherent.sound
  obtain ⟨hid, rfl⟩ := (begin_eq_ok_iff hsound h.coherent.grounded.ids_eq).mp hcall
  obtain ⟨hlive, -, hfree⟩ := (Plan.mem_eligible_iff hsound).mp hid
  have hslots := launched_slots t
  have hmem := h.coherent.mem_launched_ids hid
  have hplan : (t.launched.enter id).plan = t.plan := (enter_plan _ _).trans (launched_plan t)
  have hself : (t.launched.enter id).record.slot id = t.launched.entered id (t.record.slot id) := by
    rw [enter_slot hmem, if_pos rfl, Record.slot_congr hslots]
  refine h.update hcoherent hplan (.inl ((enter_status hmem).trans (launched_status hlive)))
    (h.taken_of_ready hfree.mem hfree.ready) ?_ ?_ fun other hne => ⟨?_, ?_⟩
  · rw [hself]
    have hold := h.slots id
    refine ⟨fun _ => hold.unfinished (by rw [hfree.pending]; decide), hold.plain, ?_, ?_, ?_⟩
    all_goals
      intro hcontra
      cases hcontra
  · rw [enter_begins hmem, launched_begins, List.count_append, h.count, hself]
    simp [Slot.begins, entered, hfree.pending]
  · rw [enter_slot hmem, if_neg hne, Record.slot_congr hslots]
  · rw [enter_begins hmem, launched_begins, List.count_append]
    simp [Ne.symm hne]

/-- The slot of a node that a guided run reports complete. -/
theorem Guided.reported_completed (h : t.Guided choose text) {outcome : Option Bool}
    (hrunning : (t.record.slot id).status = .running)
    (houtcome : t.plan.kind? id = some .decision → outcome = some (choose id)) :
    t.plan.Reported choose text id
      ((t.completed id (some (text id)) outcome).record.slot id) := by
  obtain ⟨hmem, -⟩ := h.coherent.of_running hrunning
  have hold := h.slots id
  have hrounds := hold.unfinished (by rw [hrunning]; decide)
  rw [completed_slot hmem, if_pos rfl]
  by_cases hagain : t.Again id
  · have hplain : t.plan.kind? id ≠ some .decision := by
      rw [hagain.1]
      decide
    refine ⟨fun _ => ?_, fun _ => ?_, ?_, ?_, ?_⟩
    · simpa [report, hagain.1] using hagain.2
    · simpa [report, handleAfter, hplain] using hold.plain hplain
    all_goals
      intro hcontra
      simp [hagain] at hcontra
  · refine ⟨?_, fun hplain => ?_, fun _ => rfl, fun _ => ?_, fun _ hdecision => ?_⟩
    · intro hcontra
      simp [hagain] at hcontra
    · simpa [report, handleAfter, hplain] using hold.plain hplain
    · by_cases hloop : t.plan.kind? id = some .loop
      · have hlast : ¬ (t.record.slot id).iterations + 1 < t.plan.rounds id :=
          fun hlt => hagain ⟨hloop, hlt⟩
        simp only [report, hloop, if_true]
        omega
      · rw [Plan.rounds_of_not_loop hloop] at hrounds
        simp only [report, hloop, if_false]
        omega
    · simp [report, handleAfter, hdecision, houtcome hdecision]

/-- A report closes a round that a begin has counted. -/
theorem Guided.begins_completed (h : t.Guided choose text) {outcome : Option Bool}
    (hrunning : (t.record.slot id).status = .running) :
    ((t.completed id (some (text id)) outcome).record.slot id).begins (t.plan.rounds id) =
      (t.record.slot id).begins (t.plan.rounds id) := by
  obtain ⟨hmem, -⟩ := h.coherent.of_running hrunning
  have hrounds := (h.slots id).unfinished (by rw [hrunning]; decide)
  rw [completed_slot hmem, if_pos rfl]
  by_cases hagain : t.Again id
  · simp [Slot.begins, report, hagain, hagain.1, hrunning]
  · simp only [Slot.begins, hagain, if_false, hrunning]
    by_cases hloop : t.plan.kind? id = some .loop
    · have hlast : ¬ (t.record.slot id).iterations + 1 < t.plan.rounds id :=
        fun hlt => hagain ⟨hloop, hlt⟩
      omega
    · rw [Plan.rounds_of_not_loop hloop] at hrounds ⊢
      omega

theorem Guided.complete (h : t.Guided choose text) {outcome : Option Bool}
    (hcall : t.complete id (some (text id)) outcome = .ok t')
    (houtcome : t.plan.kind? id = some .decision → outcome = some (choose id)) :
    t'.Guided choose text := by
  have hcoherent := h.coherent.complete hcall
  obtain ⟨hrunning, -, -, rfl⟩ := complete_eq_ok_iff.mp hcall
  obtain ⟨hmem, -⟩ := h.coherent.of_running hrunning
  have hplan := completed_plan t id (some (text id)) outcome
  have hgoes : t.record.status = .running :=
    h.started.resolve_right (h.coherent.status_of_running hrunning).2
  refine h.update hcoherent hplan (completed_status_of_running hmem hgoes _ _)
    (h.taken id (.inl (by rw [hrunning]; decide))) (h.reported_completed hrunning houtcome) ?_
    fun other hne => ⟨?_, ?_⟩
  · rw [completed_begins hmem, h.count, h.begins_completed hrunning]
  · rw [completed_slot hmem, if_neg hne]
  · rw [completed_begins hmem]

/-! ## What a guided run comes to -/

theorem Guided.unfailed (h : t.Guided choose text) (id : String) :
    (t.record.slot id).status ≠ .failed := by
  refine h.coherent.lively.unfailed ?_ ?_ id
  all_goals
    intro hover
    rcases h.started with hstatus | hstatus <;> rw [hstatus] at hover <;> cases hover

/-- Between two nodes, a node is completed iff it has had all its rounds. -/
theorem Guided.completed_iff_count (h : t.Guided choose text)
    (hrunning : (t.record.slot id).status ≠ .running) :
    (t.record.slot id).status = .completed ↔ t.record.begins.count id = t.plan.rounds id := by
  rw [h.count, Slot.begins]
  cases hslot : (t.record.slot id).status with
  | pending =>
      have hrounds := (h.slots id).unfinished (by rw [hslot]; decide)
      simp only [reduceCtorEq, false_iff]
      omega
  | running => exact absurd hslot hrunning
  | completed => simp
  | failed => exact absurd hslot (h.unfailed id)

/-- A node has begun iff a begin of it is noted. -/
theorem Guided.begun_iff_count (h : t.Guided choose text) :
    (t.record.slot id).Begun ↔ 0 < t.record.begins.count id := by
  have hrounds := t.plan.rounds_pos id
  rw [h.count, Slot.Begun, Slot.begins]
  cases (t.record.slot id).status <;> simp [hrounds]

/-- **What a guided run completes** are the nodes that the choices lead to. -/
theorem Guided.completed_iff_taken (h : t.Guided choose text)
    (hstatus : t.record.status = .completed) :
    (t.record.slot id).status = .completed ↔ id ∈ t.plan.taken choose := by
  have hsound := h.coherent.sound
  constructor
  · intro hcompleted
    exact h.taken id (.inl (by rw [hcompleted]; decide))
  · intro htaken
    have hall : ∀ id ∈ t.plan.order, id ∈ t.plan.taken choose →
        (t.record.slot id).status = .completed := by
      refine hsound.induction fun id hid ih htaken => ?_
      refine h.coherent.completed_of_open hstatus id hid (Plan.open_iff.mpr ?_)
      rcases (Plan.mem_taken_iff hsound choose id hid).mp htaken with hnone | ⟨e, he, hleads⟩
      · exact .inl ⟨hsound.sequenced.subset id hid, hnone⟩
      · obtain ⟨hsource, hbranch⟩ := Plan.leads_iff.mp hleads
        have hcompleted := ih e he hsource
        -- the source is completed, and so open; its branch is the chosen one
        have hopen := h.coherent.grounded.opened hsound (.inl (by rw [hcompleted]; decide))
        exact .inr ⟨e, he, hopen, h.not_closed hcompleted hbranch⟩
    exact hall id ((t.plan.taken_sublist choose).subset htaken) htaken

/-- No node begins more often than it has rounds. -/
theorem Guided.count_le (h : t.Guided choose text) (id : String) :
    t.record.begins.count id ≤ (t.plan.tour choose).count id := by
  rw [h.coherent.sound.count_tour, h.count]
  by_cases hbegun : (t.record.slot id).Begun
  · rw [if_pos (h.taken id hbegun), Slot.begins]
    have hrounds := (h.slots id).unfinished
    cases hslot : (t.record.slot id).status <;> simp [hslot] at hrounds ⊢ <;> omega
  · rw [h.coherent.grounded.fresh id hbegun]
    exact Nat.zero_le _

theorem Guided.begins_subperm (h : t.Guided choose text) :
    t.record.begins.Subperm (t.plan.tour choose) :=
  List.subperm_ext_iff.mpr fun id _ => h.count_le id

/-- **A complete run has gone the whole tour**, in some order. -/
theorem Guided.begins_perm (h : t.Guided choose text) (hstatus : t.record.status = .completed) :
    t.record.begins.Perm (t.plan.tour choose) := by
  refine List.perm_iff_count.mpr fun id => ?_
  rw [h.coherent.sound.count_tour]
  by_cases htaken : id ∈ t.plan.taken choose
  · have hcompleted := (h.completed_iff_taken hstatus).mpr htaken
    rw [if_pos htaken, h.count, Slot.begins, hcompleted]
  · have hbegun : ¬ (t.record.slot id).Begun := fun hb => htaken (h.taken id hb)
    rw [if_neg htaken, h.count, h.coherent.grounded.fresh id hbegun]
    rfl

end Tracker

end Runbook.Run
