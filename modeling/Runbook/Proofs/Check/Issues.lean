import Mathlib.Data.List.Basic
import Runbook.Check.Rules
import Runbook.Proofs.Graph.Reach

/-!
# What a report says of the triggers

A report is made of the rules that are broken, so every rule that it does not
mention holds. One lemma for each rule on triggers reads the check backward, and
`exists_single_trigger` gathers what they say of the entry of a workflow.
-/

namespace Runbook.Check

variable {w : Workflow} {n : Node} {i : Issue}

/-! ## Reports -/

theorem Report.issues_addAll (issues : List Issue) : ∀ r : Report,
    (r.addAll issues).issues = r.issues ++ issues := by
  induction issues with
  | nil => intro r; exact (List.append_nil _).symm
  | cons i rest ih =>
      intro r
      rw [Report.addAll, List.foldl_cons, ← Report.addAll, ih, Report.add, List.append_assoc]
      rfl

theorem Report.valid_addAll (issues : List Issue) : ∀ r : Report,
    (r.addAll issues).valid = (r.valid && issues.all (·.severity != .error)) := by
  induction issues with
  | nil => intro r; exact (Bool.and_true _).symm
  | cons i rest ih =>
      intro r
      rw [Report.addAll, List.foldl_cons, ← Report.addAll, ih, Report.add, List.all_cons,
        Bool.and_assoc]

theorem issues_check (w : Workflow) : w.check.issues = issuesOf w :=
  (Report.issues_addAll _ _).trans (List.nil_append _)

/-- A workflow is valid iff no issue of it is an error. -/
theorem valid_check_iff : w.check.valid = true ↔ ∀ i ∈ issuesOf w, i.severity ≠ .error := by
  rw [Workflow.check, Report.valid_addAll]
  simp [Report.empty]

theorem mem_issuesOf_iff : i ∈ issuesOf w ↔
    i ∈ checkIds w ∨ (∃ e ∈ w.edges, i ∈ checkEdge w.nodeIds e) ∨
      (∃ n ∈ w.nodes, i ∈ checkNode w n) ∨ i ∈ checkTriggers w ∨ i ∈ checkCycles w ∨
      ∃ n ∈ w.nodes, i ∈ checkPrompt n := by
  simp [issuesOf, checkEndpoints, checkOutputs]

/-- Some of the issues say that a rule is broken. -/
def Mentions (issues : List Issue) (r : Rule) : Prop :=
  ∃ message context, r.issue message context ∈ issues

theorem not_mentions_of_codes {r : Rule} (h : r.code ∉ w.check.codes) :
    ¬ Mentions (issuesOf w) r := by
  rintro ⟨message, context, hi⟩
  rw [Report.codes, issues_check] at h
  exact h (List.mem_map.mpr ⟨r.issue message context, hi, rfl⟩)

/-! ## Rules on triggers -/

theorem eq_of_length_le_one {α : Type} {l : List α} (h : ¬ 1 < l.length) {a b : α} (ha : a ∈ l)
    (hb : b ∈ l) : a = b := by
  cases l with
  | nil => exact absurd ha List.not_mem_nil
  | cons x rest =>
      have hrest : rest = [] := List.eq_nil_of_length_eq_zero (by simpa using h)
      subst hrest
      rw [List.mem_singleton.mp ha, List.mem_singleton.mp hb]

theorem triggers_ne_nil (h : ¬ Mentions (checkTriggers w) .noTrigger) : triggers w ≠ [] := by
  intro hnone
  simp only [checkTriggers, hnone] at h
  exact h ⟨_, _, List.mem_cons_self⟩

theorem not_isEmpty_ids_triggers (hsome : triggers w ≠ []) :
    ¬ ((triggers w).map (·.id)).isEmpty = true := by
  simpa using hsome

theorem length_triggers_le_one (hsome : triggers w ≠ [])
    (h : ¬ Mentions (checkTriggers w) .multipleTriggers) : ¬ 1 < (triggers w).length := by
  intro htwo
  have htwo' : 1 < ((triggers w).map (·.id)).length := by rwa [List.length_map]
  simp only [checkTriggers, if_neg (not_isEmpty_ids_triggers hsome), if_pos htwo'] at h
  exact h ⟨_, _, List.mem_append_left _ (List.mem_append_left _ List.mem_cons_self)⟩

theorem incoming_eq_nil_of_checkTriggers (hsome : triggers w ≠ [])
    (h : ¬ Mentions (checkTriggers w) .triggerHasInput) (hn : n ∈ triggers w) :
    w.incoming n.id = [] := by
  by_contra hin
  have hstart : n.id ∈ ((triggers w).map (·.id)).filter fun id => !(w.incoming id).isEmpty :=
    List.mem_filter.mpr ⟨List.mem_map_of_mem hn, by simpa using hin⟩
  simp only [checkTriggers, if_neg (not_isEmpty_ids_triggers hsome)] at h
  exact h ⟨_, _, List.mem_append_left _ (List.mem_append_right _ (List.mem_map_of_mem hstart))⟩

theorem mem_reachable_of_checkTriggers (hsome : triggers w ≠ [])
    (h : ¬ Mentions (checkTriggers w) .unreachable) {id : String} (hid : id ∈ w.nodeIds) :
    id ∈ Graph.reachable w.edges ((triggers w).map (·.id)) := by
  by_contra hout
  have hlost : id ∈ w.nodeIds.filter
      fun id => !(Graph.reachable w.edges ((triggers w).map (·.id))).contains id :=
    List.mem_filter.mpr ⟨hid, by simpa using hout⟩
  simp only [checkTriggers, if_neg (not_isEmpty_ids_triggers hsome)] at h
  exact h ⟨_, _, List.mem_append_right _ (List.mem_map_of_mem hlost)⟩

/-- **One entry**: a workflow about whose triggers there is nothing to say has one,
which no edge enters, and chains of edges lead from it to every node. -/
theorem exists_single_trigger
    (h : ∀ r ∈ [Rule.noTrigger, .multipleTriggers, .triggerHasInput, .unreachable],
      ¬ Mentions (issuesOf w) r) :
    ∃ n ∈ w.nodes, n.kind = .trigger ∧ w.incoming n.id = [] ∧
      ∀ id ∈ w.nodeIds, Relation.ReflTransGen (Graph.Connects w.edges) n.id id := by
  have hclean : ∀ r ∈ [Rule.noTrigger, .multipleTriggers, .triggerHasInput, .unreachable],
      ¬ Mentions (checkTriggers w) r := by
    rintro r hr ⟨message, context, hi⟩
    exact h r hr ⟨message, context, mem_issuesOf_iff.mpr (.inr (.inr (.inr (.inl hi))))⟩
  simp only [List.forall_mem_cons, List.not_mem_nil, false_imp_iff, implies_true, and_true] at hclean
  obtain ⟨hnone, hmany, hinput, hreach⟩ := hclean
  have hsome := triggers_ne_nil hnone
  obtain ⟨n, hn⟩ := List.exists_mem_of_ne_nil _ hsome
  obtain ⟨hmem, hkind⟩ := List.mem_filter.mp hn
  refine ⟨n, hmem, by simpa using hkind, incoming_eq_nil_of_checkTriggers hsome hinput hn,
    fun id hid => ?_⟩
  obtain ⟨start, hstart, hpath⟩ :=
    Graph.exists_path_of_mem_reachable (mem_reachable_of_checkTriggers hsome hreach hid)
  obtain ⟨m, hm, rfl⟩ := List.mem_map.mp hstart
  rwa [eq_of_length_le_one (length_triggers_le_one hsome hmany) hn hm]

end Runbook.Check
