import Mathlib.Data.List.Count
import Mathlib.Data.List.Nodup
import Runbook.Proofs.Check.Issues

/-!
# The errors of a report

What makes a workflow invalid is said here without the checks: `Lawful` is what a
valid graph is like, `Broken` says of one rule where it is broken. The checks meet
the two from both sides: an error in the report is a broken rule
(`licensed_of_mem_issuesOf`), and a broken rule is in the report (`Broken.cites`).
Main statement: `errors_are_the_broken_rules`. What a run needs of a valid graph is
`Narrow`.
-/

namespace Runbook.Check

variable {w : Workflow} {e e' : Edge} {n : Node} {i : Issue} {rule : Rule} {anchor : Settings}

/-- **A graph that breaks no structural rule**: no id is used twice, edges join nodes
that are there, a decision has an edge for each branch at most and no other, an
output ends the workflow, and any other node has one successor at most. -/
structure Lawful (w : Workflow) : Prop where
  node_ids : w.nodeIds.Nodup
  edge_ids : (w.edges.map (·.id)).Nodup
  source_mem : ∀ e ∈ w.edges, e.source ∈ w.nodeIds
  target_mem : ∀ e ∈ w.edges, e.target ∈ w.nodeIds
  branch : ∀ n ∈ w.nodes, n.kind = .decision → ∀ e ∈ w.outgoing n.id,
    ∃ b, e.sourceHandle = some (branchHandle b)
  branches_nodup : ∀ n ∈ w.nodes, n.kind = .decision →
    ((w.outgoing n.id).map (·.sourceHandle)).Nodup
  output_last : ∀ n ∈ w.nodes, n.kind = .output → w.outgoing n.id = []
  single : ∀ n ∈ w.nodes, n.kind ≠ .decision → n.kind ≠ .output → (w.outgoing n.id).length ≤ 1

/-- **Where a rule is broken**: the rule, and the entries that name the node, the edge
or the branch at fault. -/
inductive Broken (w : Workflow) : Rule → Settings → Prop where
  | duplicateNodeId {id : String} (htwo : 1 < w.nodeIds.count id) :
      Broken w .duplicateNodeId [atNode id]
  | duplicateEdgeId {id : String} (htwo : 1 < (w.edges.map (·.id)).count id) :
      Broken w .duplicateEdgeId [atEdge id]
  | danglingSource {e : Edge} (he : e ∈ w.edges) (hout : e.source ∉ w.nodeIds) :
      Broken w .danglingSource [atEdge e.id]
  | danglingTarget {e : Edge} (he : e ∈ w.edges) (hout : e.target ∉ w.nodeIds) :
      Broken w .danglingTarget [atEdge e.id]
  | invalidHandle {n : Node} {e : Edge} (hn : n ∈ w.nodes) (hkind : n.kind = .decision)
      (he : e ∈ w.outgoing n.id) (hother : ∀ b, e.sourceHandle ≠ some (branchHandle b)) :
      Broken w .invalidHandle [atNode n.id, atEdge e.id]
  | duplicateBranch {n : Node} {b : Bool} (hn : n ∈ w.nodes) (hkind : n.kind = .decision)
      (htwo : 1 < (w.outgoing n.id).countP (·.sourceHandle == some (branchHandle b))) :
      Broken w .duplicateBranch [atNode n.id, ("handle", .str (branchHandle b))]
  | outputHasEdges {n : Node} (hn : n ∈ w.nodes) (hkind : n.kind = .output)
      (hsome : w.outgoing n.id ≠ []) : Broken w .outputHasEdges [atNode n.id]
  | multipleOutputs {n : Node} (hn : n ∈ w.nodes) (hdecision : n.kind ≠ .decision)
      (houtput : n.kind ≠ .output) (htwo : 1 < (w.outgoing n.id).length) :
      Broken w .multipleOutputs [atNode n.id]

/-- An error of a report has the code of a rule, and the anchor for its context. -/
def Report.Flags (r : Report) (rule : Rule) (anchor : Settings) : Prop :=
  ∃ i ∈ r.ofSeverity .error, i.code = rule.code ∧ i.context = anchor

/-- An issue is the code of a rule that is broken at its context. -/
def Licensed (w : Workflow) (i : Issue) : Prop :=
  ∃ rule, i.code = rule.code ∧ Broken w rule i.context

theorem Rule.code_injective : Function.Injective Rule.code := by
  intro r r' h
  cases r <;> cases r' <;> first | rfl | exact absurd h (by decide)

@[simp] theorem Rule.severity_issue (r : Rule) (message : String) (context : Settings) :
    (r.issue message context).severity = r.severity := rfl

theorem Broken.severity (h : Broken w rule anchor) : rule.severity = .error := by
  cases h <;> rfl

/-- A broken rule licenses every issue that is made of it. -/
theorem Broken.licensed (h : Broken w rule anchor) (message : String) :
    Licensed w (rule.issue message anchor) := ⟨rule, rfl, h⟩

/-! ## Lawful graphs -/

theorem count_handles (outgoing : List Edge) (handle : Option String) :
    (outgoing.map (·.sourceHandle)).count handle =
      outgoing.countP (·.sourceHandle == handle) := by
  rw [List.count, List.countP_map]
  rfl

/-- Branches are not doubled if neither of the two is. -/
theorem nodup_handles {outgoing : List Edge}
    (hbranch : ∀ e ∈ outgoing, ∃ b, e.sourceHandle = some (branchHandle b))
    (hone : ∀ b, ¬ 1 < outgoing.countP (·.sourceHandle == some (branchHandle b))) :
    (outgoing.map (·.sourceHandle)).Nodup := by
  rw [List.nodup_iff_count_le_one]
  intro handle
  by_cases hmem : handle ∈ outgoing.map (·.sourceHandle)
  · obtain ⟨e, he, rfl⟩ := List.mem_map.mp hmem
    obtain ⟨b, hb⟩ := hbranch e he
    rw [count_handles, hb]
    exact Nat.le_of_not_lt (hone b)
  · rw [List.count_eq_zero.mpr hmem]
    exact Nat.zero_le 1

theorem Lawful.not_broken (h : Lawful w) : ¬ Broken w rule anchor := by
  intro hbroken
  cases hbroken with
  | duplicateNodeId htwo => exact Nat.not_lt.mpr (List.nodup_iff_count_le_one.mp h.node_ids _) htwo
  | duplicateEdgeId htwo => exact Nat.not_lt.mpr (List.nodup_iff_count_le_one.mp h.edge_ids _) htwo
  | danglingSource he hout => exact hout (h.source_mem _ he)
  | danglingTarget he hout => exact hout (h.target_mem _ he)
  | invalidHandle hn hkind he hother =>
      obtain ⟨b, hb⟩ := h.branch _ hn hkind _ he
      exact hother b hb
  | duplicateBranch hn hkind htwo =>
      rw [← count_handles] at htwo
      exact Nat.not_lt.mpr (List.nodup_iff_count_le_one.mp (h.branches_nodup _ hn hkind) _) htwo
  | outputHasEdges hn hkind hsome => exact hsome (h.output_last _ hn hkind)
  | multipleOutputs hn hdecision houtput htwo =>
      exact Nat.not_lt.mpr (h.single _ hn hdecision houtput) htwo

theorem lawful_of_not_broken (h : ∀ rule anchor, ¬ Broken w rule anchor) : Lawful w := by
  have hbranch : ∀ n ∈ w.nodes, n.kind = .decision → ∀ e ∈ w.outgoing n.id,
      ∃ b, e.sourceHandle = some (branchHandle b) := by
    intro n hn hkind e he
    by_contra hother
    exact h _ _ (.invalidHandle hn hkind he (not_exists.mp hother))
  constructor
  case node_ids =>
    exact List.nodup_iff_count_le_one.mpr fun id =>
      Nat.le_of_not_lt fun htwo => h _ _ (.duplicateNodeId htwo)
  case edge_ids =>
    exact List.nodup_iff_count_le_one.mpr fun id =>
      Nat.le_of_not_lt fun htwo => h _ _ (.duplicateEdgeId htwo)
  case source_mem => exact fun e he => by_contra fun hout => h _ _ (.danglingSource he hout)
  case target_mem => exact fun e he => by_contra fun hout => h _ _ (.danglingTarget he hout)
  case branch => exact hbranch
  case branches_nodup =>
    exact fun n hn hkind => nodup_handles (hbranch n hn hkind) fun b htwo =>
      h _ _ (.duplicateBranch hn hkind htwo)
  case output_last =>
    exact fun n hn hkind => by_contra fun hsome => h _ _ (.outputHasEdges hn hkind hsome)
  case single =>
    exact fun n hn hdecision houtput => Nat.le_of_not_lt fun htwo =>
      h _ _ (.multipleOutputs hn hdecision houtput htwo)

/-! ## Errors are broken rules -/

theorem isBranch_iff {handle : Option String} :
    isBranch handle = true ↔ ∃ b, handle = some (branchHandle b) := by
  cases handle with
  | none => simp [isBranch]
  | some s => simp [isBranch, or_comm]

theorem mem_distinct_iff {items : List String} {s : String} : s ∈ distinct items ↔ s ∈ items := by
  have hfold : ∀ (items seen : List String),
      s ∈ items.foldl (fun seen s => if seen.contains s then seen else seen ++ [s]) seen ↔
        s ∈ seen ∨ s ∈ items := by
    intro items
    induction items with
    | nil => simp
    | cons item rest ih =>
        intro seen
        rw [List.foldl_cons, ih, List.mem_cons]
        by_cases hseen : item ∈ seen
        · have hsame : s = item → s ∈ seen := fun h => h ▸ hseen
          rw [if_pos (List.contains_iff_mem.mpr hseen)]
          tauto
        · rw [if_neg (by simpa using hseen), List.mem_append, List.mem_singleton, or_assoc]
  exact (hfold items []).trans (by simp)

theorem mem_repeated_iff {items : List String} {s : String} {count : Nat} :
    (s, count) ∈ repeated items ↔ items.count s = count ∧ 1 < count := by
  simp only [repeated, List.mem_filter, List.mem_map, mem_distinct_iff, Prod.mk.injEq,
    decide_eq_true_eq]
  constructor
  · rintro ⟨⟨s, -, rfl, hcount⟩, htwo⟩
    exact ⟨hcount, htwo⟩
  · rintro ⟨rfl, htwo⟩
    exact ⟨⟨s, List.count_pos_iff.mp (by omega), rfl, rfl⟩, htwo⟩

theorem licensed_of_mem_checkIds (hi : i ∈ checkIds w) : Licensed w i := by
  rcases List.mem_append.mp hi with hi | hi
  · obtain ⟨⟨id, count⟩, hrepeated, rfl⟩ := List.mem_map.mp hi
    obtain ⟨rfl, htwo⟩ := mem_repeated_iff.mp hrepeated
    exact (Broken.duplicateNodeId htwo).licensed _
  · obtain ⟨⟨id, count⟩, hrepeated, rfl⟩ := List.mem_map.mp hi
    obtain ⟨rfl, htwo⟩ := mem_repeated_iff.mp hrepeated
    exact (Broken.duplicateEdgeId htwo).licensed _

theorem licensed_of_mem_checkEdge (he : e ∈ w.edges) (hi : i ∈ checkEdge w.nodeIds e)
    (herror : i.severity = .error) : Licensed w i := by
  simp only [checkEdge, List.mem_append, List.mem_ite_nil_left, List.mem_ite_nil_right,
    List.mem_singleton, List.contains_iff_mem] at hi
  obtain (⟨hout, rfl⟩ | ⟨hout, rfl⟩) | ⟨-, rfl⟩ := hi
  · exact (Broken.danglingSource he hout).licensed _
  · exact (Broken.danglingTarget he hout).licensed _
  · cases herror

theorem licensed_of_mem_checkDecision (hn : n ∈ w.nodes) (hkind : n.kind = .decision)
    (hi : i ∈ checkDecision n.id (w.outgoing n.id)) : Licensed w i := by
  rcases List.mem_append.mp hi with hi | hi
  · obtain ⟨e, hfilter, rfl⟩ := List.mem_map.mp hi
    obtain ⟨he, hother⟩ := List.mem_filter.mp hfilter
    have hother' : ∀ b, e.sourceHandle ≠ some (branchHandle b) := fun b hb => by
      simp [isBranch_iff.mpr ⟨b, hb⟩] at hother
    exact (Broken.invalidHandle hn hkind he hother').licensed _
  · obtain ⟨handle, hhandle, hi⟩ := List.mem_flatMap.mp hi
    obtain ⟨b, rfl⟩ : ∃ b, handle = branchHandle b := by simpa using hhandle
    obtain ⟨htwo, hi⟩ := List.mem_ite_nil_right.mp hi
    obtain rfl := List.mem_singleton.mp hi
    rw [← List.countP_eq_length_filter] at htwo
    exact (Broken.duplicateBranch hn hkind htwo).licensed _

theorem licensed_of_mem_checkOutput (hn : n ∈ w.nodes) (hkind : n.kind = .output)
    (hi : i ∈ checkOutput n.id (w.outgoing n.id)) : Licensed w i := by
  obtain ⟨hsome, hi⟩ := List.mem_ite_nil_left.mp hi
  obtain rfl := List.mem_singleton.mp hi
  exact (Broken.outputHasEdges hn hkind (by simpa using hsome)).licensed _

theorem licensed_of_mem_checkPlain (hn : n ∈ w.nodes) (hdecision : n.kind ≠ .decision)
    (houtput : n.kind ≠ .output) {kind : NodeKind}
    (hi : i ∈ checkPlain kind n.id (w.outgoing n.id)) (herror : i.severity = .error) :
    Licensed w i := by
  rcases List.mem_append.mp hi with hi | hi
  · obtain ⟨htwo, hi⟩ := List.mem_ite_nil_right.mp hi
    obtain rfl := List.mem_singleton.mp hi
    exact (Broken.multipleOutputs hn hdecision houtput htwo).licensed _
  · obtain ⟨e, -, rfl⟩ := List.mem_map.mp hi
    cases herror

theorem licensed_of_mem_checkNode (hn : n ∈ w.nodes) (hi : i ∈ checkNode w n)
    (herror : i.severity = .error) : Licensed w i := by
  cases hkind : n.kind with
  | decision =>
      simp only [checkNode, hkind] at hi
      exact licensed_of_mem_checkDecision hn hkind hi
  | output =>
      simp only [checkNode, hkind] at hi
      exact licensed_of_mem_checkOutput hn hkind hi
  | _ =>
      simp only [checkNode, hkind] at hi
      exact licensed_of_mem_checkPlain hn (by simp [hkind]) (by simp [hkind]) hi herror

theorem severity_of_mem_checkTriggers (hi : i ∈ checkTriggers w) : i.severity ≠ .error := by
  simp only [checkTriggers] at hi
  split at hi
  · obtain rfl := List.mem_singleton.mp hi
    simp [Rule.severity]
  · simp only [List.mem_append, List.mem_ite_nil_right, List.mem_singleton, List.mem_map] at hi
    obtain (⟨-, rfl⟩ | ⟨id, -, rfl⟩) | ⟨id, -, rfl⟩ := hi <;> simp [Rule.severity]

theorem severity_of_mem_checkCycles (hi : i ∈ checkCycles w) : i.severity ≠ .error := by
  unfold checkCycles at hi
  split at hi
  · exact absurd hi List.not_mem_nil
  · obtain rfl := List.mem_singleton.mp hi
    simp [Rule.severity]

theorem severity_of_mem_checkPrompt (hi : i ∈ checkPrompt n) : i.severity ≠ .error := by
  unfold checkPrompt at hi
  split at hi
  · obtain ⟨-, hi⟩ := List.mem_ite_nil_left.mp hi
    obtain rfl := List.mem_singleton.mp hi
    simp [Rule.severity]
  · exact absurd hi List.not_mem_nil

/-- Every error is a rule that is broken where the error says. -/
theorem licensed_of_mem_issuesOf (hi : i ∈ issuesOf w) (herror : i.severity = .error) :
    Licensed w i := by
  obtain hi | ⟨e, he, hi⟩ | ⟨n, hn, hi⟩ | hi | hi | ⟨n, -, hi⟩ := mem_issuesOf_iff.mp hi
  · exact licensed_of_mem_checkIds hi
  · exact licensed_of_mem_checkEdge he hi herror
  · exact licensed_of_mem_checkNode hn hi herror
  · exact absurd herror (severity_of_mem_checkTriggers hi)
  · exact absurd herror (severity_of_mem_checkCycles hi)
  · exact absurd herror (severity_of_mem_checkPrompt hi)

/-! ## Broken rules are errors -/

/-- Some issue says that a rule is broken at an anchor. -/
def Cites (issues : List Issue) (rule : Rule) (anchor : Settings) : Prop :=
  ∃ message, rule.issue message anchor ∈ issues

theorem Cites.append_left {issues : List Issue} (h : Cites issues rule anchor)
    (more : List Issue) : Cites (issues ++ more) rule anchor := by
  obtain ⟨message, hi⟩ := h
  exact ⟨message, List.mem_append_left _ hi⟩

theorem Cites.append_right {issues : List Issue} (h : Cites issues rule anchor)
    (more : List Issue) : Cites (more ++ issues) rule anchor := by
  obtain ⟨message, hi⟩ := h
  exact ⟨message, List.mem_append_right _ hi⟩

theorem Cites.flatMap {α : Type} {items : List α} {check : α → List Issue} {item : α}
    (hitem : item ∈ items) (h : Cites (check item) rule anchor) :
    Cites (items.flatMap check) rule anchor := by
  obtain ⟨message, hi⟩ := h
  exact ⟨message, List.mem_flatMap.mpr ⟨item, hitem, hi⟩⟩

theorem cites_singleton (message : String) : Cites [rule.issue message anchor] rule anchor :=
  ⟨message, List.mem_cons_self⟩

theorem cites_checkIds_node {id : String} (htwo : 1 < w.nodeIds.count id) :
    Cites (checkIds w) .duplicateNodeId [atNode id] := by
  have hrepeated := mem_repeated_iff.mpr ⟨rfl, htwo⟩
  exact Cites.append_left ⟨_, List.mem_map.mpr ⟨_, hrepeated, rfl⟩⟩ _

theorem cites_checkIds_edge {id : String} (htwo : 1 < (w.edges.map (·.id)).count id) :
    Cites (checkIds w) .duplicateEdgeId [atEdge id] := by
  have hrepeated := mem_repeated_iff.mpr ⟨rfl, htwo⟩
  exact Cites.append_right ⟨_, List.mem_map.mpr ⟨_, hrepeated, rfl⟩⟩ _

theorem cites_checkEdge_source {ids : List String} (hout : e.source ∉ ids) :
    Cites (checkEdge ids e) .danglingSource [atEdge e.id] := by
  rw [checkEdge, if_neg (by simpa using hout)]
  exact ((cites_singleton _).append_left _).append_left _

theorem cites_checkEdge_target {ids : List String} (hout : e.target ∉ ids) :
    Cites (checkEdge ids e) .danglingTarget [atEdge e.id] := by
  have hcontains : ¬ ids.contains e.target = true := by simpa using hout
  rw [checkEdge, if_neg hcontains]
  exact ((cites_singleton _).append_right _).append_left _

theorem cites_checkDecision_handle {id : String} {outgoing : List Edge} (he : e ∈ outgoing)
    (hother : ∀ b, e.sourceHandle ≠ some (branchHandle b)) :
    Cites (checkDecision id outgoing) .invalidHandle [atNode id, atEdge e.id] := by
  have hinvalid : ¬ isBranch e.sourceHandle = true := by
    rw [isBranch_iff]
    exact not_exists.mpr hother
  have hfilter : e ∈ outgoing.filter fun e => !isBranch e.sourceHandle :=
    List.mem_filter.mpr ⟨he, by simpa using hinvalid⟩
  exact Cites.append_left ⟨_, List.mem_map.mpr ⟨e, hfilter, rfl⟩⟩ _

theorem cites_checkDecision_branch {id : String} {outgoing : List Edge} {b : Bool}
    (htwo : 1 < outgoing.countP (·.sourceHandle == some (branchHandle b))) :
    Cites (checkDecision id outgoing) .duplicateBranch
      [atNode id, ("handle", .str (branchHandle b))] := by
  rw [List.countP_eq_length_filter] at htwo
  have hhandle : branchHandle b ∈ [branchHandle false, branchHandle true] := by cases b <;> simp
  refine Cites.append_right (Cites.flatMap hhandle ?_) _
  rw [if_pos htwo]
  exact cites_singleton _

theorem cites_checkOutput {id : String} {outgoing : List Edge} (hsome : outgoing ≠ []) :
    Cites (checkOutput id outgoing) .outputHasEdges [atNode id] := by
  rw [checkOutput, if_neg (by simpa using hsome)]
  exact cites_singleton _

theorem cites_checkPlain {kind : NodeKind} {id : String} {outgoing : List Edge}
    (htwo : 1 < outgoing.length) :
    Cites (checkPlain kind id outgoing) .multipleOutputs [atNode id] := by
  rw [checkPlain, if_pos htwo]
  exact (cites_singleton _).append_left _

theorem Cites.of_checkEdge (he : e ∈ w.edges) (h : Cites (checkEdge w.nodeIds e) rule anchor) :
    Cites (issuesOf w) rule anchor := by
  obtain ⟨message, hi⟩ := h
  exact ⟨message, mem_issuesOf_iff.mpr (.inr (.inl ⟨e, he, hi⟩))⟩

theorem Cites.of_checkNode (hn : n ∈ w.nodes) (h : Cites (checkNode w n) rule anchor) :
    Cites (issuesOf w) rule anchor := by
  obtain ⟨message, hi⟩ := h
  exact ⟨message, mem_issuesOf_iff.mpr (.inr (.inr (.inl ⟨n, hn, hi⟩)))⟩

theorem checkNode_decision (hkind : n.kind = .decision) :
    checkNode w n = checkDecision n.id (w.outgoing n.id) := by
  rw [checkNode, hkind]

theorem checkNode_output (hkind : n.kind = .output) :
    checkNode w n = checkOutput n.id (w.outgoing n.id) := by
  rw [checkNode, hkind]

theorem checkNode_plain (hdecision : n.kind ≠ .decision) (houtput : n.kind ≠ .output) :
    checkNode w n = checkPlain n.kind n.id (w.outgoing n.id) := by
  unfold checkNode
  split
  · exact absurd ‹_› hdecision
  · exact absurd ‹_› houtput
  · rfl

/-- Every broken rule is an issue of the workflow. -/
theorem Broken.cites (h : Broken w rule anchor) : Cites (issuesOf w) rule anchor := by
  cases h with
  | duplicateNodeId htwo =>
      obtain ⟨message, hi⟩ := cites_checkIds_node htwo
      exact ⟨message, mem_issuesOf_iff.mpr (.inl hi)⟩
  | duplicateEdgeId htwo =>
      obtain ⟨message, hi⟩ := cites_checkIds_edge htwo
      exact ⟨message, mem_issuesOf_iff.mpr (.inl hi)⟩
  | danglingSource he hout => exact .of_checkEdge he (cites_checkEdge_source hout)
  | danglingTarget he hout => exact .of_checkEdge he (cites_checkEdge_target hout)
  | invalidHandle hn hkind he hother =>
      refine .of_checkNode hn ?_
      rw [checkNode_decision hkind]
      exact cites_checkDecision_handle he hother
  | duplicateBranch hn hkind htwo =>
      refine .of_checkNode hn ?_
      rw [checkNode_decision hkind]
      exact cites_checkDecision_branch htwo
  | outputHasEdges hn hkind hsome =>
      refine .of_checkNode hn ?_
      rw [checkNode_output hkind]
      exact cites_checkOutput hsome
  | multipleOutputs hn hdecision houtput htwo =>
      refine .of_checkNode hn ?_
      rw [checkNode_plain hdecision houtput]
      exact cites_checkPlain htwo

/-! ## Valid workflows -/

theorem mem_errors_iff : i ∈ w.check.ofSeverity .error ↔ i ∈ issuesOf w ∧ i.severity = .error := by
  rw [Report.ofSeverity, issues_check, List.mem_filter, beq_iff_eq]

theorem flags_iff_broken : w.check.Flags rule anchor ↔ Broken w rule anchor := by
  constructor
  · rintro ⟨i, hi, hcode, rfl⟩
    obtain ⟨hi, herror⟩ := mem_errors_iff.mp hi
    obtain ⟨broken, hcode', hbroken⟩ := licensed_of_mem_issuesOf hi herror
    exact Rule.code_injective (hcode'.symm.trans hcode) ▸ hbroken
  · intro h
    obtain ⟨message, hi⟩ := h.cites
    exact ⟨_, mem_errors_iff.mpr ⟨hi, h.severity⟩, rfl, rfl⟩

theorem valid_iff_lawful : w.check.valid = true ↔ Lawful w := by
  rw [valid_check_iff]
  constructor
  · intro hvalid
    refine lawful_of_not_broken fun rule anchor hbroken => ?_
    obtain ⟨message, hi⟩ := hbroken.cites
    exact hvalid _ hi hbroken.severity
  · intro hlawful i hi herror
    obtain ⟨rule, -, hbroken⟩ := licensed_of_mem_issuesOf hi herror
    exact hlawful.not_broken hbroken

/-- **The errors are the structural rules.** A workflow is valid iff it is lawful. One
of its errors has a rule's code and an anchor iff that rule is broken there, and
there are no other errors. -/
theorem errors_are_the_broken_rules (w : Workflow) :
    (w.check.valid = true ↔ Lawful w) ∧
    (∀ rule anchor, w.check.Flags rule anchor ↔ Broken w rule anchor) ∧
    ∀ i ∈ w.check.ofSeverity .error, ∃ rule, i.code = rule.code ∧ Broken w rule i.context := by
  refine ⟨valid_iff_lawful, fun _ _ => flags_iff_broken, fun i hi => ?_⟩
  obtain ⟨hi, herror⟩ := mem_errors_iff.mp hi
  exact licensed_of_mem_issuesOf hi herror

/-! ## Edges of a valid workflow -/

/-- **What a workflow without errors says of its edges**: their ends have nodes,
those of a decision are branches, and of the edges that leave a node one can be
followed at most, any of a node that is no decision, and the one on a given branch
of a decision. -/
structure Narrow (w : Workflow) : Prop where
  source_mem : ∀ e ∈ w.edges, e.source ∈ w.nodeIds
  target_mem : ∀ e ∈ w.edges, e.target ∈ w.nodeIds
  branch : ∀ n ∈ w.nodes, n.kind = .decision → ∀ e ∈ w.outgoing n.id,
    ∃ b, e.sourceHandle = some (branchHandle b)
  unique : ∀ n ∈ w.nodes, ∀ e ∈ w.outgoing n.id, ∀ e' ∈ w.outgoing n.id,
    (n.kind = .decision → e.sourceHandle = e'.sourceHandle) → e = e'

theorem Lawful.narrow (h : Lawful w) : Narrow w := by
  refine ⟨h.source_mem, h.target_mem, h.branch, fun n hn e he e' he' hsame => ?_⟩
  by_cases hdecision : n.kind = .decision
  · exact List.inj_on_of_nodup_map (h.branches_nodup n hn hdecision) he he' (hsame hdecision)
  · have hone : (w.outgoing n.id).length ≤ 1 := by
      by_cases houtput : n.kind = .output
      · rw [h.output_last n hn houtput]
        exact Nat.zero_le 1
      · exact h.single n hn hdecision houtput
    exact eq_of_length_le_one (Nat.not_lt.mpr hone) he he'

theorem narrow_of_valid (h : w.check.valid = true) : Narrow w := (valid_iff_lawful.mp h).narrow

end Runbook.Check
