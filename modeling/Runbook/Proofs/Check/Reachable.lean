import Runbook.Proofs.Check.Errors
import Runbook.Proofs.Graph.Cycle
import Runbook.Workflow.Edit

/-!
# Unreachable nodes

Each check has rules of its own, so the code of an issue says which check it comes from
(`About`), and only the check of the triggers reports nodes as unreachable. It reports
those to which no chain of edges leads from a trigger. Such a chain may pass an id that
has no node, as is left behind where a node is removed before its edges are: what lies
beyond is not reported then, although no path through nodes leads there. Main statement:
`unreachable_reported`.
-/

namespace Runbook.Check

open Relation

variable {w : Workflow} {n : Node} {i : Issue} {rule : Rule} {rules : List Rule}
  {issues more : List Issue} {id : String}

/-! ## What the checks are about -/

/-- Every issue has the code of one of the rules. -/
def About (rules : List Rule) (issues : List Issue) : Prop :=
  ∀ i ∈ issues, ∃ rule ∈ rules, i.code = rule.code

theorem About.code_ne (h : About rules issues) (hi : i ∈ issues) (hout : rule ∉ rules) :
    i.code ≠ rule.code := by
  intro hcode
  obtain ⟨rule', hmem, hcode'⟩ := h i hi
  have hsame : rule = rule' := Rule.code_injective (hcode.symm.trans hcode')
  exact hout (hsame ▸ hmem)

theorem about_nil : About rules [] := fun _ hi => absurd hi List.not_mem_nil

theorem about_singleton (hrule : rule ∈ rules) (message : String) (context : Settings) :
    About rules [rule.issue message context] := by
  intro i hi
  rw [List.mem_singleton.mp hi]
  exact ⟨rule, hrule, rfl⟩

theorem about_map {α : Type} {items : List α} (hrule : rule ∈ rules) (message : α → String)
    (context : α → Settings) :
    About rules (items.map fun a => rule.issue (message a) (context a)) := by
  intro i hi
  obtain ⟨a, -, rfl⟩ := List.mem_map.mp hi
  exact ⟨rule, hrule, rfl⟩

theorem About.append (h : About rules issues) (hmore : About rules more) :
    About rules (issues ++ more) := by
  intro i hi
  rcases List.mem_append.mp hi with hi | hi
  · exact h i hi
  · exact hmore i hi

theorem About.ite {p : Prop} [Decidable p] (h : About rules issues) (hmore : About rules more) :
    About rules (if p then issues else more) := by
  split
  · exact h
  · exact hmore

theorem About.flatMap {α : Type} {items : List α} {check : α → List Issue}
    (h : ∀ a, About rules (check a)) : About rules (items.flatMap check) := by
  intro i hi
  obtain ⟨a, -, hi⟩ := List.mem_flatMap.mp hi
  exact h a i hi

theorem about_checkIds : About [.duplicateNodeId, .duplicateEdgeId] (checkIds w) :=
  (about_map (by simp) _ _).append (about_map (by simp) _ _)

theorem about_checkEdge (ids : List String) (e : Edge) :
    About [.danglingSource, .danglingTarget, .selfLoop] (checkEdge ids e) :=
  ((about_nil.ite (about_singleton (by simp) _ _)).append
    (about_nil.ite (about_singleton (by simp) _ _))).append
    ((about_singleton (by simp) _ _).ite about_nil)

theorem about_checkNode (w : Workflow) (n : Node) :
    About [.invalidHandle, .duplicateBranch, .outputHasEdges, .multipleOutputs, .unexpectedHandle]
      (checkNode w n) := by
  unfold checkNode
  split
  · exact (about_map (by simp) _ _).append
      (About.flatMap fun _ => (about_singleton (by simp) _ _).ite about_nil)
  · exact about_nil.ite (about_singleton (by simp) _ _)
  · exact ((about_singleton (by simp) _ _).ite about_nil).append (about_map (by simp) _ _)

theorem about_checkCycles : About [.cycleExcluded] (checkCycles w) := by
  unfold checkCycles
  split
  · exact about_nil
  · exact about_singleton (by simp) _ _

theorem about_checkPrompt (n : Node) : About [.emptyPrompt] (checkPrompt n) := by
  unfold checkPrompt
  split
  · exact about_nil.ite (about_singleton (by simp) _ _)
  · exact about_nil

/-! ## Nodes out of reach -/

/-- Steps of one kind lead from a trigger to an id. -/
def Led (w : Workflow) (leads : String → String → Prop) (id : String) : Prop :=
  ∃ n ∈ triggers w, ReflTransGen leads n.id id

/-- An issue of a report has the code of a rule and is anchored to a node. -/
def Report.Anchors (r : Report) (rule : Rule) (id : String) : Prop :=
  ∃ i ∈ r.issues, i.code = rule.code ∧ i.node = .str id

theorem mem_reachable_triggers_iff :
    id ∈ Graph.reachable w.edges ((triggers w).map (·.id)) ↔ Led w (Graph.Connects w.edges) id := by
  simp [Graph.mem_reachable_iff, Led]

/-- The nodes that the search leaves out are those to which no chain of edges leads. -/
theorem mem_left_out_iff : id ∈ w.nodeIds.filter
      (fun id => !(Graph.reachable w.edges ((triggers w).map (·.id))).contains id) ↔
    id ∈ w.nodeIds ∧ ¬ Led w (Graph.Connects w.edges) id := by
  rw [List.mem_filter, ← mem_reachable_triggers_iff]
  simp

/-- Where there is no trigger, the check of the triggers says only that. -/
theorem about_checkTriggers_of_none (hnone : triggers w = []) :
    About [.noTrigger] (checkTriggers w) := by
  simp only [checkTriggers, hnone]
  exact about_singleton (by simp) _ _

/-- The check of the triggers reports the nodes that it does not reach. -/
theorem mem_checkTriggers_iff (hcode : i.code = Rule.unreachable.code) :
    i ∈ checkTriggers w ↔ triggers w ≠ [] ∧ ∃ id ∈ w.nodeIds,
      ¬ Led w (Graph.Connects w.edges) id ∧
      i = Rule.unreachable.issue s!"Node '{id}' cannot be reached from a trigger" [atNode id] := by
  by_cases hnone : triggers w = []
  · constructor
    · intro hi
      exact absurd hcode ((about_checkTriggers_of_none hnone).code_ne hi (by simp))
    · rintro ⟨hsome, -⟩
      exact absurd hnone hsome
  · simp only [checkTriggers, if_neg (not_isEmpty_ids_triggers hnone)]
    constructor
    · intro hi
      rcases List.mem_append.mp hi with hi | hi
      · have hout : Rule.unreachable ∉ [Rule.multipleTriggers, .triggerHasInput] := by simp
        refine absurd hcode (About.code_ne ?_ hi hout)
        exact ((about_singleton (by simp) _ _).ite about_nil).append (about_map (by simp) _ _)
      · obtain ⟨id, hid, rfl⟩ := List.mem_map.mp hi
        obtain ⟨hnode, hout⟩ := mem_left_out_iff.mp hid
        exact ⟨hnone, id, hnode, hout, rfl⟩
    · rintro ⟨-, id, hnode, hout, rfl⟩
      have hid := mem_left_out_iff.mpr ⟨hnode, hout⟩
      exact List.mem_append_right _ (List.mem_map_of_mem hid)

/-- No other check reports a node as unreachable. -/
theorem mem_issuesOf_iff_of_code (hcode : i.code = Rule.unreachable.code) :
    i ∈ issuesOf w ↔ i ∈ checkTriggers w := by
  constructor
  · intro hi
    obtain hi | ⟨e, -, hi⟩ | ⟨n, -, hi⟩ | hi | hi | ⟨n, -, hi⟩ := mem_issuesOf_iff.mp hi
    · exact absurd hcode (about_checkIds.code_ne hi (by simp))
    · exact absurd hcode ((about_checkEdge _ e).code_ne hi (by simp))
    · exact absurd hcode ((about_checkNode w n).code_ne hi (by simp))
    · exact hi
    · exact absurd hcode (about_checkCycles.code_ne hi (by simp))
    · exact absurd hcode ((about_checkPrompt n).code_ne hi (by simp))
  · intro hi
    exact mem_issuesOf_iff.mpr (.inr (.inr (.inr (.inl hi))))

theorem anchors_unreachable_iff : w.check.Anchors .unreachable id ↔
    triggers w ≠ [] ∧ id ∈ w.nodeIds ∧ ¬ Led w (Graph.Connects w.edges) id := by
  simp only [Report.Anchors, issues_check]
  constructor
  · rintro ⟨i, hi, hcode, hnode⟩
    rw [mem_issuesOf_iff_of_code hcode, mem_checkTriggers_iff hcode] at hi
    obtain ⟨hsome, id', hid, hout, rfl⟩ := hi
    have hsame : id' = id := Value.str.inj hnode
    exact ⟨hsome, hsame ▸ hid, hsame ▸ hout⟩
  · rintro ⟨hsome, hid, hout⟩
    have hi := (mem_checkTriggers_iff rfl).mpr ⟨hsome, id, hid, hout, rfl⟩
    exact ⟨_, (mem_issuesOf_iff_of_code rfl).mpr hi, rfl, rfl⟩

/-! ## Chains through nodes -/

theorem Led.mono {leads leads' : String → String → Prop} (h : Led w leads id)
    (hmono : ∀ a b, leads a b → leads' a b) : Led w leads' id := by
  obtain ⟨n, hn, hpath⟩ := h
  exact ⟨n, hn, ReflTransGen.mono hmono _ _ hpath⟩

theorem not_led_of_no_step {leads : String → String → Prop} (hstep : ∀ a b, ¬ leads a b)
    (hid : id ∉ (triggers w).map (·.id)) : ¬ Led w leads id := by
  rintro ⟨n, hn, hpath⟩
  cases hpath with
  | refl => exact hid (List.mem_map_of_mem hn)
  | tail _ hlast => exact hstep _ _ hlast

theorem connects_of_joins {nodes : List Node} {edges : List Edge} {a b : String}
    (h : Graph.Joins nodes edges a b) : Graph.Connects edges a b := by
  obtain ⟨e, he, hsource, htarget, -⟩ := h
  exact ⟨e, he, hsource, htarget⟩

/-- Where edges start at nodes, a chain of edges that ends at a node passes nodes only. -/
theorem led_joins_of_source_mem (hsource : ∀ e ∈ w.edges, e.source ∈ w.nodeIds)
    (hid : id ∈ w.nodeIds) (h : Led w (Graph.Connects w.edges) id) :
    Led w (Graph.Joins w.nodes w.edges) id := by
  obtain ⟨n, hn, hpath⟩ := h
  refine ⟨n, hn, ?_⟩
  induction hpath with
  | refl => exact .refl
  | tail _ hstep ih =>
      obtain ⟨e, he, rfl, rfl⟩ := hstep
      exact (ih (hsource e he)).tail ⟨e, he, rfl, rfl, hsource e he, hid⟩

/-- **Unreachable is what no chain of edges joins to a trigger**, be there nodes along it
or not. So what is reported has no path of nodes from a trigger; and what has none is
reported if there is a trigger and every edge starts at a node. Without a trigger nothing
is reported. -/
theorem unreachable_reported (w : Workflow) :
    (triggers w = [] → ∀ i ∈ w.check.issues, i.code ≠ Rule.unreachable.code) ∧
    (triggers w ≠ [] → ∀ id ∈ w.nodeIds,
      (w.check.Anchors .unreachable id ↔ ¬ Led w (Graph.Connects w.edges) id) ∧
      (w.check.Anchors .unreachable id → ¬ Led w (Graph.Joins w.nodes w.edges) id) ∧
      ((∀ e ∈ w.edges, e.source ∈ w.nodeIds) → ¬ Led w (Graph.Joins w.nodes w.edges) id →
        w.check.Anchors .unreachable id)) ∧
    ∀ id, w.check.Anchors .unreachable id → id ∈ w.nodeIds := by
  refine ⟨fun hnone i hi hcode => ?_, fun hsome id hid => ⟨?_, ?_, ?_⟩, fun id h => ?_⟩
  · rw [issues_check, mem_issuesOf_iff_of_code hcode, mem_checkTriggers_iff hcode] at hi
    exact hi.1 hnone
  · simp [anchors_unreachable_iff, hsome, hid]
  · intro h hled
    exact (anchors_unreachable_iff.mp h).2.2 (hled.mono fun _ _ => connects_of_joins)
  · intro hsource hout
    exact anchors_unreachable_iff.mpr
      ⟨hsome, hid, fun hled => hout (led_joins_of_source_mem hsource hid hled)⟩
  · exact (anchors_unreachable_iff.mp h).2.1

/-- A trigger, a prompt and an output in a row. -/
def row : Workflow where
  id := "wf_1"
  name := "Row"
  description := none
  icon := none
  nodes := [
    ⟨"start", .origin, "Start", none, none, none, .trigger .manual []⟩,
    ⟨"ask", .origin, "Ask", none, none, none, .prompt (some "Read the change.")⟩,
    ⟨"end", .origin, "End", none, none, none, .output⟩]
  edges := [
    ⟨"e1", "start", "ask", none, none, none, false, Edge.defaultShape⟩,
    ⟨"e2", "ask", "end", none, none, none, false, Edge.defaultShape⟩]
  createdAt := 0
  updatedAt := 0
  version := Workflow.defaultVersion
  author := none
  exportTarget := none
  exportPath := none

/-- The prompt of the row goes, and its edges stay: nothing is reported of the output, to
which no path of nodes leads. When the edges are gone too, it is. -/
theorem unreachable_reported_of_removed :
    ¬ Led (row.removeNode 5 "ask") (Graph.Joins (row.removeNode 5 "ask").nodes row.edges) "end" ∧
    ¬ (row.removeNode 5 "ask").check.Anchors .unreachable "end" ∧
    ((row.removeNode 5 "ask").removeEdgesFor 6 "ask").check.Anchors .unreachable "end" := by
  refine ⟨?_, ?_, ?_⟩
  · refine not_led_of_no_step ?_ (by decide +kernel)
    rintro a b ⟨e, he, rfl, rfl, hsource, htarget⟩
    revert e
    decide +kernel
  · have hstart : row.nodes[0] ∈ triggers (row.removeNode 5 "ask") :=
      List.mem_filter.mpr ⟨List.mem_filter.mpr ⟨List.mem_cons_self, by decide⟩, by decide⟩
    have hpath : Led (row.removeNode 5 "ask") (Graph.Connects row.edges) "end" :=
      ⟨row.nodes[0], hstart, .tail (.single ⟨row.edges[0], by decide, rfl, rfl⟩)
        ⟨row.edges[1], by decide, rfl, rfl⟩⟩
    have hnodes := (unreachable_reported (row.removeNode 5 "ask")).2.1 (by decide +kernel)
    intro h
    exact (hnodes "end" (by decide +kernel)).1.mp h hpath
  · have hnodes := (unreachable_reported ((row.removeNode 5 "ask").removeEdgesFor 6 "ask")).2.1
      (by decide +kernel)
    refine (hnodes "end" (by decide +kernel)).2.2 (by decide +kernel) ?_
    refine not_led_of_no_step ?_ (by decide +kernel)
    rintro a b ⟨e, he, -⟩
    revert e
    decide +kernel

end Runbook.Check
