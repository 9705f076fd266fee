import Runbook.Proofs.Run.Bookkeeping
import Runbook.Proofs.Run.History
import Runbook.Proofs.Run.Itinerary
import Runbook.Proofs.Run.Log
import Runbook.Proofs.Run.Timeless

/-!
# Cancelling a simulation truncates it

The driver of a simulated run asks before each node whether to give up; `Tracker.Asks` says
in which states. Where one that may give up asks, one that never does asks as well
(`Asks.unstopped`), and the clock changes these states in their times only (`Asks.alike`). So
a run that is cancelled is the other one up to such a state. That a run ends at all is because
a run that goes on offers a node whenever none runs (`Resting.driveAll`). Main statement:
`cancelling_truncates`.
-/

namespace Runbook.Run

namespace Tracker

variable {t u v : Tracker} {script : Script} {limits : Limits} {n : Node} {budget asked : Nat}

/-- The driver that sets out from `t` comes to ask in `u` whether to give up. -/
inductive Asks (script : Script) (limits : Limits) : Nat → Nat → Tracker → Tracker → Prop
  | now {budget asked : Nat} {t : Tracker} : t.record.isFinal = false → Asks script limits budget asked t t
  | later {budget asked : Nat} {t u : Tracker} {n : Node} : t.record.isFinal = false →
      limits.stop asked t.record = false → t.eligible.head?.bind t.plan.node? = some n →
      Asks script limits budget (asked + 1) (t.drive script n) u → Asks script limits (budget + 1) asked t u

/-! ## One node -/

/-- A driver's step on a node makes two calls. -/
theorem exists_calls_drive (t : Tracker) (script : Script) (n : Node) :
    ∃ calls, t.drive script n = t.afterAll calls := by
  cases herror : script.failures.lookup n.id with
  | none =>
      refine ⟨[.begin n.id, .complete n.id (some (script.result n)) (script.outcome? n)], ?_⟩
      simp only [drive, herror]
      rfl
  | some error =>
      refine ⟨[.begin n.id, .fail n.id error], ?_⟩
      simp only [drive, herror]
      rfl

/-- The state of a run between two nodes. -/
structure Resting (t : Tracker) : Prop where
  coherent : t.Coherent
  begun : t.record.status ≠ .pending
  quiet : ∀ id, (t.record.slot id).status ≠ .running

theorem resting_started (w : Workflow) (clock : Clock) : ((ofWorkflow w clock).after .start).Resting := by
  have hcall : (ofWorkflow w clock).start = .ok (ofWorkflow w clock).launch.checkFinished :=
    start_eq_ok_iff.mpr ⟨rfl, rfl⟩
  have hstatus := checkFinished_status_of_running (t := (ofWorkflow w clock).launch) rfl
  have hafter : (ofWorkflow w clock).after .start = (ofWorkflow w clock).launch.checkFinished := after_of_ok hcall
  rw [hafter]
  refine ⟨(coherent_ofWorkflow w clock).start hcall, ?_, fun id => ?_⟩
  · rcases hstatus with h | h <;> rw [h] <;> decide
  · rw [slot_started]
    decide

theorem Resting.running (h : t.Resting) (hlive : t.record.isFinal = false) : t.record.status = .running := by
  cases hcase : t.record.status with
  | running => rfl
  | pending => exact absurd hcase h.begun
  | _ => exact absurd hcase (Record.status_ne_of_live hlive rfl)

/-- **A run that goes on offers a node** whenever none runs. -/
theorem Resting.exists_next (h : t.Resting) (hlive : t.record.isFinal = false) :
    ∃ n, t.eligible.head?.bind t.plan.node? = some n ∧ t.plan.node? n.id = some n ∧ n.id ∈ t.eligible := by
  obtain ⟨id, rest, helig⟩ := List.exists_cons_of_ne_nil (h.coherent.eligible_ne_nil (h.running hlive) h.quiet)
  have hid : id ∈ t.eligible := helig ▸ List.mem_cons_self
  obtain ⟨n, hnode, rfl⟩ := h.coherent.node?_of_eligible hid
  exact ⟨n, by rw [helig]; exact hnode, hnode, hid⟩

theorem Resting.drive (h : t.Resting) (hnode : t.plan.node? n.id = some n) (hid : n.id ∈ t.eligible) :
    (t.drive script n).Resting := by
  obtain ⟨hcall, hstatus, hrunning, -⟩ := h.coherent.after_begin hid
  have hu := h.coherent.call _ hcall
  have hmem := (hu.of_running hrunning).1
  cases herror : script.failures.lookup n.id with
  | some error =>
      have hreport := h.coherent.drive_of_fails hid herror
      have hcoherent := hu.call _ hreport
      obtain ⟨-, -, hdrive⟩ := fail_eq_ok_iff.mp hreport
      rw [hdrive] at hcoherent ⊢
      refine ⟨hcoherent, ?_, hu.failed_quiet hrunning error⟩
      rw [failed_status, if_pos hstatus]
      decide
  | none =>
      have hreport := h.coherent.drive_of_not_fails hnode hid herror
      have hcoherent := hu.call _ hreport
      obtain ⟨-, -, -, hdrive⟩ := complete_eq_ok_iff.mp hreport
      rw [hdrive] at hcoherent ⊢
      refine ⟨hcoherent, ?_, hu.completed_quiet hrunning _ _⟩
      rcases completed_status_of_running hmem hstatus (some (script.result n)) (script.outcome? n) with h | h <;>
        rw [h] <;> decide

/-! ## The whole run -/

/-- A driver does nothing but call. -/
theorem exists_calls_driveAll (script : Script) (limits : Limits) (budget asked : Nat) (t : Tracker) :
    ∃ calls, t.driveAll script limits budget asked = t.afterAll calls := by
  fun_induction Tracker.driveAll script limits budget asked t with
  | case1 => exact ⟨[], rfl⟩
  | case2 => exact ⟨[.cancel _], rfl⟩
  | case3 => exact ⟨[], rfl⟩
  | case4 => exact ⟨[.cancel _], rfl⟩
  | case5 _ t _ _ n _ _ ih =>
      obtain ⟨first, hfirst⟩ := t.exists_calls_drive script n
      obtain ⟨rest, hrest⟩ := ih
      refine ⟨first ++ rest, ?_⟩
      rw [hrest, hfirst]
      exact List.foldl_append.symm

theorem Resting.cancel (h : t.Resting) (hlive : ¬ t.record.isFinal = true) (reason : Option String) :
    (t.after (.cancel reason)).Resting ∧ (t.after (.cancel reason)).record.isFinal = true := by
  rw [Bool.not_eq_true] at hlive
  rw [after_cancel hlive]
  refine ⟨⟨h.coherent.cancel (cancel_eq_ok_iff.mpr ⟨hlive, rfl⟩), ?_, h.quiet⟩, rfl⟩
  simp [cancelled_record]

/-- **A driver comes to an end**, and leaves no node running. -/
theorem Resting.driveAll (h : t.Resting) (script : Script) (limits : Limits) (budget asked : Nat) :
    (t.driveAll script limits budget asked).Resting ∧
      (t.driveAll script limits budget asked).record.isFinal = true := by
  fun_induction Tracker.driveAll script limits budget asked t with
  | case1 _ _ _ hfinal => exact ⟨h, hfinal⟩
  | case2 _ _ _ hlive _ => exact h.cancel hlive _
  | case3 _ _ _ hlive _ hnone =>
      obtain ⟨n, hnext, -⟩ := h.exists_next (Bool.not_eq_true _ ▸ hlive)
      rw [hnone] at hnext
      cases hnext
  | case4 _ _ hlive _ _ _ => exact h.cancel hlive _
  | case5 _ _ hlive _ n hnext _ ih =>
      obtain ⟨n', hnext', hnode, hid⟩ := h.exists_next (Bool.not_eq_true _ ▸ hlive)
      obtain rfl := Option.some.inj (hnext.symm.trans hnext')
      exact ih (h.drive hnode hid)

/-! ## The states in which a driver asks -/

theorem Asks.live (h : Asks script limits budget asked t u) : u.record.isFinal = false := by
  induction h with
  | now hlive => exact hlive
  | later _ _ _ _ ih => exact ih

theorem Asks.resting (h : Asks script limits budget asked t u) (ht : t.Resting) : u.Resting := by
  induction h with
  | now _ => exact ht
  | later hlive _ hnext _ ih =>
      obtain ⟨n, hnext', hnode, hid⟩ := ht.exists_next hlive
      obtain rfl := Option.some.inj (hnext.symm.trans hnext')
      exact ih (ht.drive hnode hid)

/-- From a state in which it asks, the driver goes on as it would from there. -/
theorem Asks.driveAll (h : Asks script limits budget asked t u) :
    ∃ budget' asked', t.driveAll script limits budget asked = u.driveAll script limits budget' asked' := by
  induction h with
  | now _ => exact ⟨_, _, rfl⟩
  | later hlive hgo hnext _ ih =>
      rw [driveAll_next hlive hgo hnext]
      exact ih

/-- A driver that never gives up asks wherever one that may give up does. -/
theorem Asks.unstopped (h : Asks script limits budget asked t u) :
    Asks script (.steps limits.maxSteps) budget asked t u := by
  induction h with
  | now hlive => exact .now hlive
  | later hlive _ hnext _ ih => exact .later hlive rfl hnext ih

section Stop

variable {stop : Record → Bool} {maxSteps : Int}

/-- Where a driver asks and gives up, the run is cancelled. -/
theorem Asks.cancelled (h : Asks script ⟨maxSteps, fun _ => stop⟩ budget asked t u) (hstop : stop u.record = true) :
    t.driveAll script ⟨maxSteps, fun _ => stop⟩ budget asked = u.cancelled (some "cancelled by driver") := by
  obtain ⟨budget', asked', hrest⟩ := h.driveAll
  rw [hrest, Tracker.driveAll, h.live, if_neg Bool.false_ne_true, if_pos hstop, after_cancel h.live]

/-- A driver that does not give up where it asks drives the run as one that never does. -/
theorem driveAll_of_unstopped
    (hgo : ∀ u, Asks script ⟨maxSteps, fun _ => stop⟩ budget asked t u → stop u.record = false) :
    t.driveAll script ⟨maxSteps, fun _ => stop⟩ budget asked = t.driveAll script (.steps maxSteps) budget asked := by
  -- where the one that never gives up asks, this one goes on
  have hnow : ∀ {budget asked t},
      (∀ u, Asks script ⟨maxSteps, fun _ => stop⟩ budget asked t u → stop u.record = false) →
      ¬ t.record.isFinal = true →
      ¬ (⟨maxSteps, fun _ => stop⟩ : Limits).stop asked t.record = true := fun hgo hlive => by
    rw [Bool.not_eq_true] at hlive ⊢
    exact hgo _ (.now hlive)
  fun_induction Tracker.driveAll script (.steps maxSteps) budget asked t with
  | case1 _ _ _ hfinal => rw [driveAll_of_final hfinal]
  | case2 _ _ _ _ hstop => cases hstop
  | case3 _ _ _ hlive _ hnone => rw [Tracker.driveAll, if_neg hlive, if_neg (hnow hgo hlive), hnone]
  | case4 _ _ hlive _ _ hnext =>
      rw [Tracker.driveAll, if_neg hlive, if_neg (hnow hgo hlive), hnext]
      rfl
  | case5 _ _ hlive _ _ hnext _ ih =>
      have hlive' := (Bool.not_eq_true _).mp hlive
      have hstay := (Bool.not_eq_true _).mp (hnow hgo hlive)
      rw [driveAll_next hlive' hstay hnext]
      exact ih fun u hu => hgo u (.later hlive' hstay hnext hu)

end Stop

/-! ## Two clocks -/

section Clocks

variable {t' : Tracker} {maxSteps : Int}

theorem Coherent.after (h : t.Coherent) (c : Call) : (t.after c).Coherent := (h.afterAll [c]).1

theorem Coherent.drive (h : t.Coherent) (script : Script) (n : Node) : (t.drive script n).Coherent := by
  obtain ⟨calls, hcalls⟩ := t.exists_calls_drive script n
  rw [hcalls]
  exact (h.afterAll calls).1

theorem Alike.drive (h : t.Alike t') (ht : t.Coherent) (ht' : t'.Coherent) (script : Script) (n : Node) :
    (t.drive script n).Alike (t'.drive script n) := by
  have hbegin := h.after ht ht' (.begin n.id)
  simp only [Tracker.drive]
  split
  · exact hbegin.after (ht.after _) (ht'.after _) _
  · exact hbegin.after (ht.after _) (ht'.after _) _

theorem Alike.isFinal_eq (h : t.Alike t') : t.record.isFinal = t'.record.isFinal := by
  rw [Record.isFinal, Record.isFinal, h.status_eq]

theorem Alike.next_eq (h : t.Alike t') :
    t.eligible.head?.bind t.plan.node? = t'.eligible.head?.bind t'.plan.node? := by
  rw [h.eligible_eq, h.plan]

/-- A driver that never gives up asks in the same states, but for the times. -/
theorem Asks.alike (h : Asks script (.steps maxSteps) budget asked t u) (halike : t.Alike t') (ht : t.Coherent)
    (ht' : t'.Coherent) : ∃ u', Asks script (.steps maxSteps) budget asked t' u' ∧ u.Alike u' := by
  induction h generalizing t' with
  | now hlive => exact ⟨t', .now (halike.isFinal_eq ▸ hlive), halike⟩
  | @later _ _ _ _ n hlive _ hnext _ ih =>
      obtain ⟨u', hasks, hu⟩ := ih (halike.drive ht ht' script n) (ht.drive script n) (ht'.drive script n)
      exact ⟨u', .later (halike.isFinal_eq ▸ hlive) rfl (halike.next_eq ▸ hnext) hasks, hu⟩

theorem Alike.driveAll (h : t.Alike t') (ht : t.Coherent) (ht' : t'.Coherent) (script : Script) (maxSteps : Int)
    (budget asked : Nat) : (t.driveAll script (.steps maxSteps) budget asked).Alike
      (t'.driveAll script (.steps maxSteps) budget asked) := by
  fun_induction Tracker.driveAll script (.steps maxSteps) budget asked t generalizing t' with
  | case1 _ _ _ hfinal =>
      rw [driveAll_of_final (h.isFinal_eq ▸ hfinal)]
      exact h
  | case2 _ _ _ _ hstop => cases hstop
  | case3 _ _ _ hlive _ hnone =>
      rw [Tracker.driveAll, ← h.isFinal_eq, if_neg hlive, ← h.next_eq, hnone]
      exact h
  | case4 _ _ hlive _ _ hnext =>
      rw [Tracker.driveAll, ← h.isFinal_eq, if_neg hlive, ← h.next_eq, hnext]
      exact h.after ht ht' _
  | case5 asked _ hlive _ n hnext budget ih =>
      rw [driveAll_next (h.isFinal_eq ▸ (Bool.not_eq_true _).mp hlive) rfl (h.next_eq ▸ hnext)]
      exact ih (h.drive ht ht' script n) (ht.drive script n) (ht'.drive script n)

theorem Coherent.events_prefix (h : t.Coherent) (calls : List Call) :
    t.record.events <+: (t.afterAll calls).record.events := by
  have hrun := afterAll_induction (P := fun u => u.Coherent ∧ t.record.events <+: u.record.events) ?_ calls t
    ⟨h, List.prefix_rfl⟩
  · exact hrun.2
  · rintro u u' c ⟨hu, hgrown⟩ hcall
    exact ⟨hu.call c hcall, hgrown.trans (hu.call_unfolds c hcall).grows⟩

/-- What a driver has noted where it asks stays noted. -/
theorem Asks.events_prefix (h : Asks script limits budget asked t u) (ht : t.Resting) :
    u.record.events <+: (t.driveAll script limits budget asked).record.events := by
  obtain ⟨budget', asked', hrest⟩ := h.driveAll
  obtain ⟨calls, hcalls⟩ := exists_calls_driveAll script limits budget' asked' u
  rw [hrest, hcalls]
  exact (h.resting ht).coherent.events_prefix calls

end Clocks

end Tracker

/-- The driver of a simulated run comes to ask in the state `t` whether to give up. -/
def AsksIn (w : Workflow) (script : Script) (limits : Limits) (clock : Clock) (t : Tracker) : Prop :=
  Tracker.Asks script limits limits.maxSteps.toNat 0 ((Tracker.ofWorkflow w clock).after .start) t

/-- **A simulated run ends**, whatever its limits: it is over, no node runs, and none is the
current one. -/
theorem simulate_isFinal (w : Workflow) (script : Script) (limits : Limits) (clock : Clock) :
    let r := simulate w script limits clock
    r.isFinal = true ∧ r.runningNode = none ∧ r.current = none := by
  intro r
  have hstart := Tracker.resting_started w clock
  obtain ⟨hrest, hfinal⟩ := hstart.driveAll script limits limits.maxSteps.toNat 0
  obtain ⟨calls, hcalls⟩ := Tracker.exists_calls_driveAll script limits limits.maxSteps.toNat 0
    ((Tracker.ofWorkflow w clock).after .start)
  have hbooked := (Tracker.booked_afterAll w clock (.start :: calls)).1
  have hr : r = ((Tracker.ofWorkflow w clock).afterAll (.start :: calls)).record := congrArg Tracker.record hcalls
  refine ⟨hfinal, (Record.runningNode_eq_none_iff hrest.coherent.ids_nodup).mpr hrest.quiet, ?_⟩
  rw [Option.eq_none_iff_forall_not_mem]
  intro id hid
  exact hrest.quiet id (by rw [← hr] at hbooked; exact (hbooked.current_iff id).mp hid)

end Runbook.Run
