import Runbook.Proofs.Run.Guided
import Runbook.Run.Simulate

/-!
# The itinerary of a simulated run

The driver of a simulated run takes the first node on offer, and the offer is
made anew from the whole record before each. The begins it makes are nevertheless
known beforehand, from one pass along the sequence: the tour of the script's
choices, cut behind the first node that fails. The run keeps to the tour because
what is on offer first is always its next stop (`Tracker.Guided.head?_eligible`).
Main statement: `simulate_follows_itinerary`.
-/

namespace Runbook.Run

/-! ## Lists -/

/-- A list up to the first id that stops it, which is kept. -/
def throughFirst (stops : String → Bool) : List String → List String
  | [] => []
  | id :: rest => if stops id then [id] else id :: throughFirst stops rest

theorem length_throughFirst_pos (stops : String → Bool) (id : String) (rest : List String) :
    0 < (throughFirst stops (id :: rest)).length := by
  rw [throughFirst]
  split <;> simp

/-- Stops of a tour in a row: where the tour goes on with an id, the ones before
it are some nodes with all their rounds, and rounds of that id. -/
theorem split_tour (rounds : String → Nat) (id : String) (rest : List String) :
    ∀ taken before : List String,
      before ++ id :: rest = taken.flatMap (fun x => List.replicate (rounds x) x) →
      ∃ done todo k, taken = done ++ id :: todo ∧ k < rounds id ∧
        before = done.flatMap (fun x => List.replicate (rounds x) x) ++ List.replicate k id := by
  intro taken
  induction taken with
  | nil =>
      intro before h
      simp at h
  | cons x taken ih =>
      intro before h
      rw [List.flatMap_cons] at h
      -- the tour goes on within the first block of copies, or behind it
      rcases List.append_eq_append_iff.mp h with ⟨tail, hblock, htail⟩ | ⟨before', hbefore, hrest⟩
      · cases tail with
        | nil =>
            obtain ⟨done, todo, k, htaken, hk, hnil⟩ := ih [] htail
            refine ⟨x :: done, todo, k, by rw [htaken, List.cons_append], hk, ?_⟩
            rw [List.append_nil] at hblock
            rw [List.flatMap_cons, List.append_assoc, ← hnil, List.append_nil, hblock]
        | cons y tail =>
            obtain ⟨rfl, -⟩ := List.cons.inj htail
            have hmem : ∀ z ∈ before ++ id :: tail, z = x := by
              rw [← hblock]
              exact fun z hz => List.eq_of_mem_replicate hz
            have hid : id = x := hmem id (by simp)
            subst hid
            refine ⟨[], taken, before.length, rfl, ?_, ?_⟩
            · have hlength := congrArg List.length hblock
              simp only [List.length_replicate, List.length_append, List.length_cons] at hlength
              omega
            · rw [List.flatMap_nil, List.nil_append]
              exact List.eq_replicate_length.mpr fun z hz => hmem z (List.mem_append_left _ hz)
      · obtain ⟨done, todo, k, htaken, hk, hbefore'⟩ := ih before' hrest.symm
        refine ⟨x :: done, todo, k, by rw [htaken, List.cons_append], hk, ?_⟩
        rw [hbefore, hbefore', List.flatMap_cons, List.append_assoc]

/-- A filter may look at a part of a list that has all it lets through. -/
theorem filter_eq_of_sublist {part l : List String} {keep : String → Bool}
    (hpart : part.Sublist l) (hnodup : l.Nodup) (hkeep : ∀ x ∈ l, keep x = true → x ∈ part) :
    l.filter keep = part.filter keep := by
  induction hpart with
  | slnil => rfl
  | @cons part l x hpart ih =>
      obtain ⟨hx, hl⟩ := List.nodup_cons.mp hnodup
      have hdrop : ¬ keep x = true := fun hin => hx (hpart.subset (hkeep x (by simp) hin))
      rw [List.filter_cons_of_neg hdrop]
      exact ih hl fun y hy => hkeep y (List.mem_cons_of_mem x hy)
  | @cons_cons part l x hpart ih =>
      obtain ⟨hx, hl⟩ := List.nodup_cons.mp hnodup
      have hrest := ih hl fun y hy hin =>
        List.mem_of_ne_of_mem (fun heq : y = x => hx (heq ▸ hy)) (hkeep y (List.mem_cons_of_mem x hy) hin)
      rw [List.filter_cons, List.filter_cons, hrest]

/-- In a part of a sequence, what has a smaller place in the sequence than an id
stands before that id. -/
theorem mem_of_idxOf_lt {done todo l : List String} {id other : String}
    (hpart : (done ++ id :: todo).Sublist l) (hnodup : l.Nodup)
    (hother : other ∈ done ++ id :: todo) (hlt : l.idxOf other < l.idxOf id) : other ∈ done := by
  have hbehind := (List.pairwise_append.mp ((Graph.pairwise_idxOf hnodup).sublist hpart)).2.1
  rcases List.mem_append.mp hother with hmem | hmem
  · exact hmem
  · rcases List.mem_cons.mp hmem with rfl | hmem
    · exact absurd hlt (Nat.lt_irrefl _)
    · exact absurd ((List.pairwise_cons.mp hbehind).1 other hmem) (Nat.lt_asymm hlt)

namespace Tracker

variable {t : Tracker} {choose : String → Bool} {text : String → String} {id : String}
  {done todo : List String}

/-! ## The next stop -/

/-- Whatever stands before the next stop in the sequence, and is open, is done:
the choices have been made that lead there. -/
theorem Guided.completed_before (h : t.Guided choose text)
    (hsplit : t.plan.taken choose = done ++ id :: todo)
    (hdone : ∀ x ∈ done, (t.record.slot x).status = .completed) :
    ∀ x ∈ t.plan.order, t.plan.order.idxOf x < t.plan.order.idxOf id →
      t.plan.Open t.record x → (t.record.slot x).status = .completed := by
  have hsound := h.coherent.sound
  have hpart : (done ++ id :: todo).Sublist t.plan.order := hsplit ▸ t.plan.taken_sublist choose
  refine hsound.induction fun x hx ih hlt hopen =>
    hdone x (mem_of_idxOf_lt hpart hsound.sequenced.nodup ?_ hlt)
  rw [← hsplit, Plan.mem_taken_iff hsound choose x hx]
  refine (Plan.open_iff.mp hopen).imp (fun hroot => hroot.2) ?_
  rintro ⟨e, he, hsource, hclosed⟩
  obtain ⟨hlink, htarget⟩ := Plan.mem_incoming_iff.mp he
  have hforward := hsound.sequenced.forward e hlink (htarget ▸ hx)
  rw [htarget] at hforward
  exact ⟨e, he, h.leads_of_completed (ih e he (Nat.lt_trans hforward hlt) hsource) hclosed⟩

/-- The first node that the choices lead to, and that is not completed, is free. -/
theorem Guided.free_of_next (h : t.Guided choose text)
    (hsplit : t.plan.taken choose = done ++ id :: todo)
    (hdone : ∀ x ∈ done, (t.record.slot x).status = .completed)
    (hpending : (t.record.slot id).status = .pending) : t.plan.Free t.record id := by
  have hsound := h.coherent.sound
  have htaken : id ∈ t.plan.taken choose := by simp [hsplit]
  have hid : id ∈ t.plan.order := (t.plan.taken_sublist choose).subset htaken
  have hforward : ∀ e ∈ t.plan.incoming id,
      t.plan.order.idxOf e.source < t.plan.order.idxOf id := by
    intro e he
    obtain ⟨hlink, htarget⟩ := Plan.mem_incoming_iff.mp he
    have hlt := hsound.sequenced.forward e hlink (htarget ▸ hid)
    rwa [htarget] at hlt
  have hpart : (done ++ id :: todo).Sublist t.plan.order := hsplit ▸ t.plan.taken_sublist choose
  refine ⟨hid, hpending, Plan.open_iff.mpr ?_, ?_⟩
  · rcases (Plan.mem_taken_iff hsound choose id hid).mp htaken with hnone | ⟨e, he, hleads⟩
    · exact .inl ⟨hsound.sequenced.subset id hid, hnone⟩
    · obtain ⟨hsource, hbranch⟩ := Plan.leads_iff.mp hleads
      have hcompleted := hdone e.source
        (mem_of_idxOf_lt hpart hsound.sequenced.nodup (hsplit ▸ hsource) (hforward e he))
      have hopen := h.coherent.grounded.opened hsound (.inl (by rw [hcompleted]; decide))
      exact .inr ⟨e, he, hopen, h.not_closed hcompleted hbranch⟩
  · intro e he _ hopen
    exact h.completed_before hsplit hdone e.source (hsound.source_mem_order hid he)
      (hforward e he) hopen

/-- **The next stop is on offer first**: of the nodes that the choices lead to, the
first that is not completed, be it a loop that has begun or not. -/
theorem Guided.head?_eligible (h : t.Guided choose text) (hlive : t.record.isFinal = false)
    (hquiet : ∀ id, (t.record.slot id).status ≠ .running)
    (hsplit : t.plan.taken choose = done ++ id :: todo)
    (hdone : ∀ x ∈ done, (t.record.slot x).status = .completed)
    (hpending : (t.record.slot id).status = .pending)
    (htodo : ∀ x ∈ todo, ¬ (t.record.slot x).Begun) : t.eligible.head? = some id := by
  have hsound := h.coherent.sound
  have hnone := (Record.runningNode_eq_none_iff h.coherent.ids_nodup).mpr hquiet
  have hid := h.free_of_next hsplit hdone hpending
  -- the free nodes are among those the choices lead to, of which the first are done
  have hcut : t.plan.free t.record = (t.plan.taken choose).filter (t.plan.mayBegin t.record) :=
    filter_eq_of_sublist (t.plan.taken_sublist choose) hsound.sequenced.nodup fun x hx htest =>
      h.taken_of_ready hx ((Plan.mayBegin_iff hsound hx).mp htest).ready
  have hpast : done.filter (t.plan.mayBegin t.record) = [] := by
    refine List.filter_eq_nil_iff.mpr fun x hx htest => ?_
    have hfree := (Plan.mayBegin_iff hsound
      (h.coherent.grounded.mem_order x (.inl (by rw [hdone x hx]; decide)))).mp htest
    have hcompleted := hdone x hx
    rw [hfree.pending] at hcompleted
    cases hcompleted
  have hfree : t.plan.free t.record = id :: todo.filter (t.plan.mayBegin t.record) := by
    rw [hcut, hsplit, List.filter_append, hpast, List.nil_append,
      List.filter_cons_of_pos ((Plan.mayBegin_iff hsound hid.mem).mpr hid)]
  have hfresh : (todo.filter (t.plan.mayBegin t.record)).filter
      (fun x => 0 < (t.record.slot x).iterations) = [] := by
    refine List.filter_eq_nil_iff.mpr fun x hx hbegun => ?_
    exact htodo x (List.mem_filter.mp hx).1 (.inr (by simpa using hbegun))
  rw [eligible, Plan.eligible_eq, hlive, hnone, hfree]
  -- only the next stop can be a loop that has begun, so moving those up changes nothing
  by_cases hbegun : 0 < (t.record.slot id).iterations
  · simp [hbegun]
  · simp [hbegun, hfresh]

/-- **Where a guided run stands**, read off its begins: the rest of the tour starts
with what is on offer first. -/
theorem Guided.head?_of_tour (h : t.Guided choose text)
    (hlive : t.record.isFinal = false) (hquiet : ∀ id, (t.record.slot id).status ≠ .running)
    {rest : List String} (htour : t.record.begins ++ id :: rest = t.plan.tour choose) :
    t.eligible.head? = some id := by
  have hsound := h.coherent.sound
  obtain ⟨done, todo, k, hsplit, hk, hbegins⟩ := split_tour t.plan.rounds id rest _ _ htour
  have hnodup : (done ++ id :: todo).Nodup := hsplit ▸ hsound.taken_nodup
  obtain ⟨hdone, hrest, hdisjoint⟩ := List.nodup_append.mp hnodup
  have hcount : ∀ x, t.record.begins.count x =
      (if x ∈ done then t.plan.rounds x else 0) + if id = x then k else 0 := by
    intro x
    rw [hbegins, List.count_append, Plan.count_flatMap_replicate _ _ _ hdone,
      List.count_replicate]
    simp only [beq_iff_eq]
  have hout : id ∉ done := fun hin => hdisjoint id hin id (by simp) rfl
  refine h.head?_eligible hlive hquiet hsplit ?_ ?_ ?_
  · intro x hx
    have hne : id ≠ x := fun heq => hout (heq ▸ hx)
    rw [h.completed_iff_count (hquiet x), hcount, if_pos hx, if_neg hne, Nat.add_zero]
  · have hnot : (t.record.slot id).status ≠ .completed := by
      rw [ne_eq, h.completed_iff_count (hquiet id), hcount, if_neg hout, if_pos rfl]
      omega
    cases hslot : (t.record.slot id).status with
    | pending => rfl
    | running => exact absurd hslot (hquiet id)
    | completed => exact absurd hslot hnot
    | failed => exact absurd hslot (h.unfailed id)
  · intro x hx
    have hne : id ≠ x := fun heq => (List.nodup_cons.mp hrest).1 (heq ▸ hx)
    have hin : x ∉ done := fun hin => hdisjoint x hin x (List.mem_cons_of_mem id hx) rfl
    rw [h.begun_iff_count, hcount, if_neg hin, if_neg hne]
    exact Nat.lt_irrefl 0

/-- A guided run is complete iff it has gone the whole tour. -/
theorem Guided.completed_iff_tour (h : t.Guided choose text)
    (hquiet : ∀ id, (t.record.slot id).status ≠ .running) {rest : List String}
    (htour : t.record.begins ++ rest = t.plan.tour choose) :
    t.record.status = .completed ↔ rest = [] := by
  constructor
  · intro hstatus
    have hlength := (h.begins_perm hstatus).length_eq
    rw [← htour, List.length_append] at hlength
    exact List.length_eq_zero_iff.mp (by omega)
  · rintro rfl
    refine h.started.resolve_left fun hstatus => ?_
    obtain ⟨id, hid⟩ := List.exists_mem_of_ne_nil _ (h.coherent.eligible_ne_nil hstatus hquiet)
    obtain ⟨-, -, hfree⟩ := (Plan.mem_eligible_iff h.coherent.sound).mp hid
    have htaken := h.taken_of_ready hfree.mem hfree.ready
    have hcompleted : (t.record.slot id).status = .completed := by
      rw [h.completed_iff_count (hquiet id), ← List.append_nil t.record.begins, htour,
        h.coherent.sound.count_tour, if_pos htaken]
    rw [hfree.pending] at hcompleted
    cases hcompleted

/-! ## The driver -/

theorem after_of_ok {c : Call} {t' : Tracker} (h : t.call c = .ok t') : t.after c = t' := by
  rw [after, h]

theorem after_cancel (hlive : t.record.isFinal = false) (reason : Option String) :
    t.after (.cancel reason) = t.cancelled reason := after_of_ok (cancel_eq_ok_iff.mpr ⟨hlive, rfl⟩)

end Tracker

namespace Script

/-- Whether a node fails when it runs. -/
def fails (s : Script) (id : String) : Bool := (s.failures.lookup id).isSome

/-- The outcome that a node is reported with, which a decision alone has. -/
def outcome? (s : Script) (n : Node) : Option Bool :=
  if n.kind = .decision then some (s.outcome n.id) else none

/-- The result of a node of a plan. -/
def text (s : Script) (p : Plan) (id : String) : String :=
  match p.node? id with
  | some n => s.result n
  | none => ""

end Script

/-- **The itinerary** of a simulated run: the nodes that the script's choices lead
to, found by one pass along the sequence, each as often as it runs, up to the
first that fails. -/
def itinerary (w : Workflow) (script : Script) : List String :=
  throughFirst script.fails ((Plan.ofWorkflow w).tour script.outcome)

/-- How a run ends that may begin no more than `budget` nodes. -/
def ending (script : Script) (itinerary : List String) (budget : Nat) : RunStatus :=
  if budget < itinerary.length then .cancelled
  else if itinerary.getLast?.any script.fails then .failed
  else .completed

/-- The limits of a driver that stops by its number of steps alone. -/
def Limits.steps (maxSteps : Int) : Limits := ⟨maxSteps, fun _ _ => false⟩

namespace Tracker

variable {t : Tracker} {script : Script} {choose : String → Bool} {text : String → String}
  {id : String} {n : Node}

/-- A node on offer begins when it is called. -/
theorem Coherent.after_begin (h : t.Coherent) (hid : id ∈ t.eligible) :
    t.call (.begin id) = .ok (t.after (.begin id)) ∧
      (t.after (.begin id)).record.status = .running ∧
      ((t.after (.begin id)).record.slot id).status = .running ∧
      (t.after (.begin id)).record.begins = t.record.begins ++ [id] := by
  have hcall : t.call (.begin id) = .ok (t.launched.enter id) :=
    (begin_eq_ok_iff h.sound h.grounded.ids_eq).mpr ⟨hid, rfl⟩
  have hlive := ((Plan.mem_eligible_iff h.sound).mp hid).1
  have hmem := h.mem_launched_ids hid
  rw [after_of_ok hcall]
  refine ⟨hcall, (enter_status hmem).trans (launched_status hlive), ?_, ?_⟩
  · rw [enter_slot hmem, if_pos rfl]
    rfl
  · rw [enter_begins hmem, launched_begins]

/-- The driver's report of a failure is accepted. -/
theorem Coherent.drive_of_fails {error : String} (h : t.Coherent) (hid : n.id ∈ t.eligible)
    (herror : script.failures.lookup n.id = some error) :
    (t.after (.begin n.id)).call (.fail n.id error) = .ok (t.drive script n) := by
  obtain ⟨-, hstatus, hrunning, -⟩ := h.after_begin hid
  have hfail : (t.after (.begin n.id)).call (.fail n.id error) = .ok ((t.after (.begin n.id)).failed n.id error) :=
    fail_eq_ok_iff.mpr ⟨hrunning, by rw [hstatus]; decide, rfl⟩
  have hdrive : t.drive script n = (t.after (.begin n.id)).after (.fail n.id error) := by
    simp only [drive, herror]
  rw [hdrive, after_of_ok hfail, hfail]

/-- The driver's report of a completion is accepted: it says which branch a decision takes. -/
theorem Coherent.drive_of_not_fails (h : t.Coherent) (hnode : t.plan.node? n.id = some n)
    (hid : n.id ∈ t.eligible) (hnone : script.failures.lookup n.id = none) :
    (t.after (.begin n.id)).call (.complete n.id (some (script.result n)) (script.outcome? n)) =
      .ok (t.drive script n) := by
  obtain ⟨hcall, hstatus, hrunning, -⟩ := h.after_begin hid
  have hkind : (t.after (.begin n.id)).plan.kind? n.id = some n.kind := by
    rw [h.call_plan _ hcall, Plan.kind?, hnode]
    rfl
  have houtcome : (t.after (.begin n.id)).plan.kind? n.id = some .decision →
      (script.outcome? n).isSome := by
    intro hdecision
    rw [hkind] at hdecision
    rw [Script.outcome?, if_pos (Option.some.inj hdecision)]
    rfl
  have hcomplete : (t.after (.begin n.id)).call (.complete n.id (some (script.result n)) (script.outcome? n)) =
      .ok ((t.after (.begin n.id)).completed n.id (some (script.result n)) (script.outcome? n)) :=
    complete_eq_ok_iff.mpr ⟨hrunning, by rw [hstatus]; decide, houtcome, rfl⟩
  have hdrive : t.drive script n =
      (t.after (.begin n.id)).after (.complete n.id (some (script.result n)) (script.outcome? n)) := by
    simp only [drive, hnone]
    rfl
  rw [hdrive, after_of_ok hcomplete, hcomplete]

/-- A step on a node that fails ends the run. -/
theorem Guided.drive_of_fails (h : t.Guided choose text) (hid : n.id ∈ t.eligible)
    (hfails : script.fails n.id = true) :
    (t.drive script n).record.status = .failed ∧
      (t.drive script n).record.begins = t.record.begins ++ [n.id] := by
  obtain ⟨hcall, hstatus, hrunning, hbegins⟩ := h.coherent.after_begin hid
  obtain ⟨error, herror⟩ := Option.isSome_iff_exists.mp hfails
  obtain ⟨hmem, -⟩ := (h.coherent.call _ hcall).of_running hrunning
  rw [(fail_eq_ok_iff.mp (h.coherent.drive_of_fails hid herror)).2.2]
  refine ⟨?_, ?_⟩
  · rw [failed_status, if_pos hstatus]
  · rw [failed_begins hmem, hbegins]

/-- A step on any other node is one more of the guided run. -/
theorem Guided.drive_of_not_fails (h : t.Guided script.outcome (script.text t.plan))
    (hnode : t.plan.node? n.id = some n) (hid : n.id ∈ t.eligible)
    (hfails : ¬ script.fails n.id = true) :
    (t.drive script n).Guided script.outcome (script.text t.plan) ∧
      (t.drive script n).plan = t.plan ∧
      (∀ id, ((t.drive script n).record.slot id).status ≠ .running) ∧
      (t.drive script n).record.begins = t.record.begins ++ [n.id] := by
  obtain ⟨hcall, -, hrunning, hbegins⟩ := h.coherent.after_begin hid
  have hguided := h.begin hcall
  have hplan := h.coherent.call_plan _ hcall
  obtain ⟨hmem, -⟩ := hguided.coherent.of_running hrunning
  have hcomplete := h.coherent.drive_of_not_fails hnode hid (Option.not_isSome_iff_eq_none.mp hfails)
  have htext : script.text t.plan n.id = script.result n := by rw [Script.text, hnode]
  have houtcome : (t.after (.begin n.id)).plan.kind? n.id = some .decision →
      script.outcome? n = some (script.outcome n.id) := by
    intro hdecision
    rw [hplan, Plan.kind?, hnode] at hdecision
    exact if_pos (Option.some.inj hdecision)
  rw [← htext] at hcomplete
  refine ⟨hguided.complete hcomplete houtcome, ?_⟩
  rw [(complete_eq_ok_iff.mp hcomplete).2.2.2]
  refine ⟨(completed_plan _ _ _ _).trans hplan, hguided.coherent.completed_quiet hrunning _ _, ?_⟩
  rw [completed_begins hmem, hbegins]

theorem ending_cons (hfails : ¬ script.fails id = true) (rest : List String) (budget : Nat) :
    ending script (id :: rest) (budget + 1) = ending script rest budget := by
  rw [ending, ending, List.length_cons]
  simp only [Nat.add_lt_add_iff_right]
  cases rest with
  | nil => simp [hfails]
  | cons next rest => rw [List.getLast?_cons_cons]

/-- What is on offer is a node of the plan. -/
theorem Coherent.node?_of_eligible (h : t.Coherent) (hid : id ∈ t.eligible) :
    ∃ n, t.plan.node? id = some n ∧ n.id = id :=
  Graph.exists_find? (h.sound.sequenced.subset id ((Plan.mem_eligible_iff h.sound).mp hid).2.2.mem)

section Driver

variable {limits : Limits} {budget asked : Nat}

theorem driveAll_of_final (hfinal : t.record.isFinal = true) : t.driveAll script limits budget asked = t := by
  rw [Tracker.driveAll, if_pos hfinal]

/-- A driver that may let no more nodes begin cancels the run where there is a next one. -/
theorem driveAll_at_limit (hlive : t.record.isFinal = false) (hgo : limits.stop asked t.record = false)
    (hnext : t.eligible.head?.bind t.plan.node? = some n) : t.driveAll script limits 0 asked =
      t.cancelled (some s!"step limit {limits.maxSteps} reached") := by
  rw [Tracker.driveAll, hlive, hgo, hnext]
  exact after_cancel hlive _

/-- Else it takes a step on the next node, and goes on. -/
theorem driveAll_next (hlive : t.record.isFinal = false) (hgo : limits.stop asked t.record = false)
    (hnext : t.eligible.head?.bind t.plan.node? = some n) : t.driveAll script limits (budget + 1) asked =
      (t.drive script n).driveAll script limits budget (asked + 1) := by
  rw [Tracker.driveAll, hlive, hgo, hnext]
  rfl

end Driver

/-- **The driver keeps to the tour**, by induction on what is left of it. -/
theorem Guided.driveAll_tour (script : Script) (maxSteps : Int) (rest : List String) :
    ∀ (budget asked : Nat) (t : Tracker), t.Guided script.outcome (script.text t.plan) →
      (∀ id, (t.record.slot id).status ≠ .running) →
      t.record.begins ++ rest = t.plan.tour script.outcome →
      (driveAll script (.steps maxSteps) budget asked t).record.begins =
          t.record.begins ++ (throughFirst script.fails rest).take budget ∧
        (driveAll script (.steps maxSteps) budget asked t).record.status =
          ending script (throughFirst script.fails rest) budget := by
  induction rest with
  | nil =>
      intro budget asked t h hquiet htour
      have hstatus := (h.completed_iff_tour hquiet htour).mpr rfl
      have hover : t.record.isFinal = true := by
        simp [Record.isFinal, hstatus, RunStatus.isFinal]
      rw [driveAll_of_final hover]
      exact ⟨by simp [throughFirst], by simp [throughFirst, ending, hstatus]⟩
  | cons id rest ih =>
      intro budget asked t h hquiet htour
      have hnot : t.record.status ≠ .completed := fun hstatus =>
        List.cons_ne_nil id rest ((h.completed_iff_tour hquiet htour).mp hstatus)
      have hstatus : t.record.status = .running := h.started.resolve_right hnot
      have hlive : t.record.isFinal = false := by
        simp [Record.isFinal, hstatus, RunStatus.isFinal]
      have hhead := h.head?_of_tour hlive hquiet htour
      have helig : id ∈ t.eligible := List.mem_of_head? hhead
      obtain ⟨n, hnode, rfl⟩ := h.coherent.node?_of_eligible helig
      have hnext : t.eligible.head?.bind t.plan.node? = some n := by rw [hhead]; exact hnode
      cases budget with
      | zero =>
          rw [driveAll_at_limit hlive rfl hnext]
          refine ⟨by simp, ?_⟩
          rw [ending, if_pos (length_throughFirst_pos _ _ _)]
          rfl
      | succ budget =>
          rw [driveAll_next hlive rfl hnext, throughFirst]
          -- a failing stop ends the run, and the itinerary with it
          by_cases hfails : script.fails n.id = true
          · obtain ⟨hfailed, hbegins⟩ := h.drive_of_fails helig hfails
            have hover : (t.drive script n).record.isFinal = true := by
              simp [Record.isFinal, hfailed, RunStatus.isFinal]
            rw [if_pos hfails, driveAll_of_final hover, hbegins, hfailed]
            exact ⟨by simp, by simp [ending, hfails]⟩
          · obtain ⟨hguided, hplan, hquiet', hbegins⟩ := h.drive_of_not_fails hnode helig hfails
            rw [← hplan] at hguided
            have htour' : (t.drive script n).record.begins ++ rest =
                (t.drive script n).plan.tour script.outcome := by
              rw [hbegins, hplan, List.append_assoc, List.singleton_append, htour]
            obtain ⟨hall, hend⟩ := ih budget (asked + 1) (t.drive script n) hguided hquiet' htour'
            rw [if_neg hfails, ending_cons hfails, hall, hend, hbegins]
            exact ⟨by simp, rfl⟩

end Tracker

end Runbook.Run
