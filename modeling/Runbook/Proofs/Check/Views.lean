import Mathlib.Data.List.Induction
import Mathlib.Data.List.Nodup
import Mathlib.Data.List.Perm.Basic
import Mathlib.Data.Option.Basic
import Runbook.Proofs.Check.Issues
import Runbook.Proofs.Workflow.Overrides

/-!
# The views of a report

A report is shown in four ways: as its issues by node, as data, and as text in two forms. They are made of the
same groups. `Report.byNode_eq` says which these are, by induction on the issues: one for the issues of no
node, if there are any, and one for each node, in the order in which the nodes first came. Main statement:
`Report.views_agree`.
-/

namespace Runbook.Check

/-! ## Places -/

namespace Issue

variable {i : Issue}

/-- What names a node names it by a text. -/
def Textual (i : Issue) : Prop := i.node = .null ∨ ∃ id, i.node = .str id

/-- The node that an issue is about, or none. -/
def place (i : Issue) : Option String :=
  match i.node with
  | .str id => some id
  | _ => none

theorem node_eq (h : i.Textual) : i.node = .ofText? i.place := by
  rcases h with hnull | ⟨id, hid⟩
  · rw [place, hnull]
    rfl
  · rw [place, hid]
    rfl

end Issue

@[simp] theorem sameKey_ofText? (a b : Option String) :
    (Value.ofText? a).sameKey (.ofText? b) = (a == b) := by
  cases a <;> cases b <;> rfl

@[simp] theorem equals_ofText? (a b : Option String) :
    (Value.ofText? a).equals (.ofText? b) = (a == b) := by
  rw [← sameKey_ofText?]
  cases a <;> cases b <;> rfl

variable {issues : List Issue} {i : Issue} {id : String}

/-- The nodes that issues are about, in the order in which they first come. -/
def ids (issues : List Issue) : List String := (issues.filterMap Issue.place).eraseDups

/-- What issues are about, with none first. -/
def places (issues : List Issue) : List (Option String) :=
  (if none ∈ issues.map Issue.place then [none] else []) ++ (ids issues).map some

theorem mem_ids : id ∈ ids issues ↔ ∃ i ∈ issues, i.place = some id := by
  rw [ids, List.mem_eraseDups, List.mem_filterMap]

theorem ids_concat_of_none (h : i.place = none) : ids (issues ++ [i]) = ids issues := by
  rw [ids, List.filterMap_append, List.filterMap_cons_none h, List.filterMap_nil, List.append_nil, ids]

theorem ids_concat_of_some (h : i.place = some id) :
    ids (issues ++ [i]) = if id ∈ ids issues then ids issues else ids issues ++ [id] := by
  rw [ids, List.filterMap_append, List.filterMap_cons_some h, List.filterMap_nil, List.eraseDups_append,
    ← ids]
  simp only [List.removeAll, List.filter_singleton, List.elem_eq_mem]
  by_cases hold : id ∈ ids issues
  · have hseen : id ∈ issues.filterMap Issue.place := List.mem_eraseDups.mp hold
    simp [hold, hseen]
  · have hnew : id ∉ issues.filterMap Issue.place := fun hmem => hold (List.mem_eraseDups.mpr hmem)
    simp [hold, hnew, List.eraseDups_cons]

theorem nodup_ids (issues : List Issue) : (ids issues).Nodup := by
  induction issues using List.reverseRecOn with
  | nil => exact List.nodup_nil
  | append_singleton issues i ih =>
      cases hplace : i.place with
      | none => rwa [ids_concat_of_none hplace]
      | some id =>
          rw [ids_concat_of_some hplace]
          split
          case isTrue => exact ih
          case isFalse hnew => exact ih.append (List.nodup_singleton id) (by simpa using hnew)

theorem mem_places {place : Option String} : place ∈ places issues ↔ place ∈ issues.map Issue.place := by
  by_cases hnone : none ∈ issues.map Issue.place
  · rw [places, if_pos hnone]
    cases place with
    | none => exact iff_of_true (by simp) hnone
    | some id => simp [mem_ids]
  · rw [places, if_neg hnone]
    cases place with
    | none => exact iff_of_false (by simp) hnone
    | some id => simp [mem_ids]

theorem nodup_places (issues : List Issue) : (places issues).Nodup := by
  have hsome : ((ids issues).map some).Nodup := (nodup_ids issues).map (Option.some_injective _)
  rw [places]
  split
  · exact List.nodup_cons.mpr ⟨by simp, hsome⟩
  · exact hsome

/-! ## Groups -/

/-- The issues of one place, as a group. -/
def groupAt (issues : List Issue) (place : Option String) : Group :=
  (.ofText? place, issues.filter (·.place == place))

theorem groupAt_concat_self (issues : List Issue) (i : Issue) :
    groupAt (issues ++ [i]) i.place = (.ofText? i.place, issues.filter (·.place == i.place) ++ [i]) := by
  simp [groupAt]

theorem groupAt_concat_ne {place : Option String} (h : i.place ≠ place) :
    groupAt (issues ++ [i]) place = groupAt issues place := by
  simp [groupAt, h]

/-- **One issue more** changes the group of its place, or makes a new one at the end. -/
theorem addToGroup_map (htextual : i.Textual) : ∀ {keys : List (Option String)}, keys.Nodup →
    addToGroup (keys.map (groupAt issues)) i =
      if i.place ∈ keys then keys.map (groupAt (issues ++ [i]))
      else keys.map (groupAt (issues ++ [i])) ++ [(.ofText? i.place, [i])]
  | [], _ => by
    rw [List.map_nil, addToGroup, Issue.node_eq htextual]
    simp
  | key :: rest, hnodup => by
    obtain ⟨hfirst, hrest⟩ := List.nodup_cons.mp hnodup
    have ih := addToGroup_map htextual hrest
    rw [List.map_cons, groupAt, addToGroup, Issue.node_eq htextual, sameKey_ofText?]
    by_cases heq : key = i.place
    · subst heq
      have hsame : rest.map (groupAt issues) = rest.map (groupAt (issues ++ [i])) :=
        List.map_congr_left fun other hother =>
          (groupAt_concat_ne fun heq => hfirst (heq ▸ hother)).symm
      rw [if_pos (beq_self_eq_true _), if_pos List.mem_cons_self, List.map_cons, groupAt_concat_self, hsame]
    · have hkey : groupAt (issues ++ [i]) key = groupAt issues key := groupAt_concat_ne (Ne.symm heq)
      rw [if_neg (by simpa using heq), ih, List.map_cons, hkey]
      by_cases hmem : i.place ∈ rest <;> simp [hmem, Ne.symm heq, groupAt]

/-- **The groups that issues make**, by induction from the last of them: that of no node, and one for each
node. -/
theorem foldl_addToGroup (issues : List Issue) (htextual : ∀ i ∈ issues, i.Textual) :
    issues.foldl addToGroup [(.null, [])] = (none :: (ids issues).map some).map (groupAt issues) := by
  induction issues using List.reverseRecOn with
  | nil => rfl
  | append_singleton issues i ih =>
      have hnodup : (none :: (ids issues).map some).Nodup :=
        List.nodup_cons.mpr ⟨by simp, (nodup_ids issues).map (Option.some_injective _)⟩
      rw [List.foldl_concat, ih fun j hj => htextual j (List.mem_append_left _ hj),
        addToGroup_map (htextual i (by simp)) hnodup]
      cases hplace : i.place with
      | none => rw [if_pos List.mem_cons_self, ids_concat_of_none hplace]
      | some id =>
          rw [ids_concat_of_some hplace]
          by_cases hold : id ∈ ids issues
          · simp [hold]
          · have hlone : groupAt (issues ++ [i]) (some id) = (.str id, [i]) := by
              have hnone : issues.filter (·.place == some id) = [] := by
                rw [List.filter_eq_nil_iff]
                exact fun j hj heq => hold (mem_ids.mpr ⟨j, hj, by simpa using heq⟩)
              simp [groupAt, hnone, hplace, Value.ofText?]
            simp [hold, hlone, Value.ofText?]

namespace Report

variable {r : Report}

theorem forNode_ofText? (htextual : ∀ i ∈ r.issues, i.Textual) (place : Option String) :
    r.forNode (.ofText? place) = r.issues.filter (·.place == place) := by
  refine List.filter_congr fun i hi => ?_
  rw [Issue.node_eq (htextual i hi), equals_ofText?]

/-- **The issues by node**: each place that they are about has a group, which holds the issues of it. -/
theorem byNode_eq (htextual : ∀ i ∈ r.issues, i.Textual) :
    r.byNode = (places r.issues).map fun place => (.ofText? place, r.forNode (.ofText? place)) := by
  have hgroups : (places r.issues).map (fun place => (Value.ofText? place, r.forNode (.ofText? place))) =
      (places r.issues).map (groupAt r.issues) :=
    List.map_congr_left fun place _ => by rw [forNode_ofText? htextual, groupAt]
  have hfilter : r.byNode = (r.issues.foldl addToGroup [(.null, [])]).filter
      fun g => !(g.1.sameKey .null && g.2.isEmpty) := rfl
  -- only the group of no node can be without issues, and is left out then
  have hnodes : ∀ g ∈ ((ids r.issues).map some).map (groupAt r.issues),
      (!(g.1.sameKey .null && g.2.isEmpty)) = true := by
    simp only [List.map_map, List.mem_map]
    rintro g ⟨id, -, rfl⟩
    rfl
  have hgraph : (!((groupAt r.issues none).1.sameKey .null && (groupAt r.issues none).2.isEmpty)) = true ↔
      none ∈ r.issues.map Issue.place := by
    simp [groupAt, Value.ofText?, Value.sameKey]
  rw [hgroups, hfilter, foldl_addToGroup _ htextual, places, List.map_cons, List.map_append, List.filter_cons,
    List.filter_eq_self.mpr hnodes]
  by_cases hnone : none ∈ r.issues.map Issue.place
  · rw [if_pos hnone, if_pos (hgraph.mpr hnone)]
    rfl
  · rw [if_neg hnone, if_neg (mt hgraph.mp hnone)]
    rfl

/-- Lists of what falls to each key, for keys to one of which everything falls, make up the whole. -/
theorem perm_flatMap_filter {keys : List (Option String)} (hnodup : keys.Nodup) : ∀ {issues : List Issue},
    (∀ i ∈ issues, i.place ∈ keys) → (keys.flatMap fun key => issues.filter (·.place == key)).Perm issues := by
  induction keys with
  | nil =>
      intro issues hkeys
      rw [List.eq_nil_iff_forall_not_mem.mpr fun i hi => List.not_mem_nil (hkeys i hi)]
      exact .refl _
  | cons key rest ih =>
      obtain ⟨hfirst, hrest⟩ := List.nodup_cons.mp hnodup
      intro issues hkeys
      have hothers : (rest.flatMap fun other => (issues.filter fun i => !(i.place == key)).filter
          (·.place == other)).Perm (issues.filter fun i => !(i.place == key)) := by
        refine ih hrest fun i hi => ?_
        obtain ⟨hmem, hne⟩ := List.mem_filter.mp hi
        exact (List.mem_cons.mp (hkeys i hmem)).resolve_left (by simpa using hne)
      have hsame : (rest.flatMap fun other => (issues.filter fun i => !(i.place == key)).filter
          (·.place == other)) = rest.flatMap fun other => issues.filter (·.place == other) := by
        refine List.flatMap_congr fun other hother => ?_
        rw [List.filter_filter]
        refine List.filter_congr fun i _ => ?_
        have hne : other ≠ key := fun heq => hfirst (heq ▸ hother)
        by_cases heq : i.place = other <;> simp [heq, hne]
      rw [List.flatMap_cons, ← hsame]
      exact (hothers.append_left _).trans (List.filter_append_perm _ _)

/-- **No issue is lost**, and none is in two groups. -/
theorem byNode_perm (htextual : ∀ i ∈ r.issues, i.Textual) :
    (r.byNode.flatMap Prod.snd).Perm r.issues := by
  have hgroups : r.byNode.flatMap Prod.snd =
      (places r.issues).flatMap fun place => r.issues.filter (·.place == place) := by
    rw [byNode_eq htextual, List.flatMap_map]
    exact List.flatMap_congr fun place _ => forNode_ofText? htextual place
  rw [hgroups]
  exact perm_flatMap_filter (nodup_places _) fun i hi => mem_places.mpr (List.mem_map_of_mem hi)

theorem existsUnique_group (htextual : ∀ i ∈ r.issues, i.Textual) {i : Issue} (hi : i ∈ r.issues) :
    ∃! g, g ∈ r.byNode ∧ i ∈ g.2 := by
  rw [byNode_eq htextual]
  refine ⟨(.ofText? i.place, r.forNode (.ofText? i.place)), ⟨?_, ?_⟩, ?_⟩
  · exact List.mem_map.mpr ⟨i.place, mem_places.mpr (List.mem_map_of_mem hi), rfl⟩
  · rw [forNode_ofText? htextual]
    exact List.mem_filter.mpr ⟨hi, beq_self_eq_true _⟩
  · rintro g ⟨hg, hmem⟩
    obtain ⟨place, -, rfl⟩ := List.mem_map.mp hg
    rw [forNode_ofText? htextual] at hmem
    rw [show i.place = place by simpa using (List.mem_filter.mp hmem).2]

/-! ## Texts -/

/-- The heading of a section in Markdown. A node whose id is empty is headed as no node is. -/
def markdownHeading : Option String → String
  | none => "## Graph"
  | some id => if id = "" then "## Graph" else "## Node `" ++ id ++ "`"

def markdownLine (i : Issue) : String :=
  "- " ++ i.severity.name ++ " **" ++ i.code ++ "**: " ++ i.message ++ i.location

/-- The issues of one place in Markdown. -/
def markdownSection (r : Report) (place : Option String) : List String :=
  [markdownHeading place, ""] ++ (r.forNode (.ofText? place)).map markdownLine ++ [""]

theorem groupMarkdown_ofText? (place : Option String) :
    groupMarkdown (.ofText? place, r.forNode (.ofText? place)) = r.markdownSection place := by
  cases place with
  | none => rfl
  | some id => by_cases hempty : id = "" <;>
      simp [groupMarkdown, markdownSection, markdownHeading, markdownLine, Value.ofText?, Value.isTrue,
        Value.display, hempty]

/-- The heading of a section in plain text. -/
def textHeading : Option String → String
  | none => "  graph:"
  | some id => if id = "" then "  graph:" else "  " ++ id ++ ":"

def textLine (i : Issue) : String :=
  "    [" ++ i.severity.badge ++ "] " ++ i.code ++ ": " ++ i.message

/-- The issues of one place in plain text. -/
def textSection (r : Report) (place : Option String) : List String :=
  textHeading place :: (r.forNode (.ofText? place)).map textLine

theorem groupText_ofText? (place : Option String) :
    groupText (.ofText? place, r.forNode (.ofText? place)) = r.textSection place := by
  cases place with
  | none => rfl
  | some id => by_cases hempty : id = "" <;>
      simp [groupText, textSection, textHeading, textLine, Value.ofText?, Value.isTrue, Value.display, hempty]

def textHead (r : Report) : String :=
  s!"Validation: {r.status} ({(r.ofSeverity .error).length} errors, {(r.ofSeverity .warning).length} warnings)"

/-! ## The views -/

/-- The entry `nodes` of a report as data. -/
theorem exists_nodes_toValue (htextual : ∀ i ∈ r.issues, i.Textual) :
    ∃ entries : Entries, r.toValue = .map entries ∧ entries.text? "nodes" = some (.map ((ids r.issues).map fun id =>
      (.str id, .texts ((r.forNode (.str id)).map (·.code))))) := by
  have hnamed : r.byNode.filter (fun g => !g.1.sameKey .null) =
      (ids r.issues).map fun id => (.str id, r.forNode (.str id)) := by
    have hgraph : ∀ l : List (Option String), l = [none] ∨ l = [] →
        (l.map fun place => (Value.ofText? place, r.forNode (.ofText? place))).filter
          (fun g => !g.1.sameKey .null) = [] := by
      rintro l (rfl | rfl) <;> rfl
    have hnodes : (((ids r.issues).map some).map fun place =>
        (Value.ofText? place, r.forNode (.ofText? place))).filter (fun g => !g.1.sameKey .null) =
          (ids r.issues).map fun id => (.str id, r.forNode (.str id)) := by
      rw [List.map_map, List.filter_eq_self.mpr]
      · rfl
      · simp only [List.mem_map]
        rintro g ⟨id, -, rfl⟩
        rfl
    rw [byNode_eq htextual, places, List.map_append, List.filter_append, hnodes, hgraph, List.nil_append]
    split
    · exact .inl rfl
    · exact .inr rfl
  have hmap : (r.byNode.filter fun g => !g.1.sameKey .null).map
      (fun g => (g.1, Value.texts (g.2.map (·.code)))) =
        (ids r.issues).map fun id => (.str id, .texts ((r.forNode (.str id)).map (·.code))) := by
    rw [hnamed, List.map_map]
    rfl
  rw [← hmap]
  exact ⟨_, rfl, rfl⟩

theorem flatten_map_byNode {f : Group → List String} {f' : Option String → List String}
    (htextual : ∀ i ∈ r.issues, i.Textual)
    (hf : ∀ place, f (.ofText? place, r.forNode (.ofText? place)) = f' place) :
    (r.byNode.map f).flatten = (places r.issues).flatMap f' := by
  rw [byNode_eq htextual, List.map_map, ← List.flatMap_def]
  exact List.flatMap_congr fun place _ => hf place

theorem markdown_eq (htextual : ∀ i ∈ r.issues, i.Textual) :
    r.markdown = if r.issues.isEmpty then Text.joinLines (r.headMarkdown ++ ["No issues found."])
      else Text.trimEnd Text.isBlank
        (Text.joinLines (r.headMarkdown ++ (places r.issues).flatMap r.markdownSection)) ++ "\n" := by
  rw [markdown, flatten_map_byNode htextual fun _ => groupMarkdown_ofText? _]

theorem text_eq (htextual : ∀ i ∈ r.issues, i.Textual) :
    r.text = Text.joinLines (r.textHead :: (places r.issues).flatMap r.textSection) := by
  rw [text, flatten_map_byNode htextual fun _ => groupText_ofText? _]
  rfl

/-- **The views of a report agree**, if what names a node in its issues is a text. It is valid iff no issue is
an error. By node, every issue is in one group, and the groups are those of the nodes in the order in which they
first come, after that of no node if there is one. These are the nodes of the report as data and, in both
texts, the sections, which stand after that of no node. A section is headed by its node, but one of an empty id
by the words for no node. -/
theorem views_agree (workflowId workflowName : Option String) (issues : List Issue)
    (htextual : ∀ i ∈ issues, i.Textual) :
    let r := (Report.empty workflowId workflowName).addAll issues
    (r.valid = true ↔ ∀ i ∈ issues, i.severity ≠ .error) ∧
    r.byNode = (places issues).map (fun place => (.ofText? place, r.forNode (.ofText? place))) ∧
    (places issues).Nodup ∧ (r.byNode.flatMap Prod.snd).Perm issues ∧
    (∀ i ∈ issues, ∃! g, g ∈ r.byNode ∧ i ∈ g.2) ∧
    (∃ entries : Entries, r.toValue = .map entries ∧ entries.text? "nodes" = some (.map ((ids issues).map fun id =>
      (.str id, .texts ((r.forNode (.str id)).map (·.code)))))) ∧
    r.markdown = (if issues.isEmpty then Text.joinLines (r.headMarkdown ++ ["No issues found."])
      else Text.trimEnd Text.isBlank
        (Text.joinLines (r.headMarkdown ++ (places issues).flatMap r.markdownSection)) ++ "\n") ∧
    r.text = Text.joinLines (r.textHead :: (places issues).flatMap r.textSection) := by
  intro r
  have hissues : r.issues = issues := (issues_addAll issues _).trans (List.nil_append _)
  rw [← hissues] at htextual ⊢
  refine ⟨?_, byNode_eq htextual, nodup_places _, byNode_perm htextual, fun i => existsUnique_group htextual,
    exists_nodes_toValue htextual, markdown_eq htextual, text_eq htextual⟩
  rw [hissues, valid_addAll]
  simp [Report.empty]

/-- An issue of a node, one of none, and one of a node whose id is empty: both texts head the last one as the
second, while the data names its node. -/
theorem views_agree_of_three :
    let issues : List Issue := [⟨.error, "A", "x", [("node", .str "n")]⟩, ⟨.warning, "B", "y", []⟩,
      ⟨.info, "C", "z", [("node", .str "")]⟩]
    let r := (Report.empty none none).addAll issues
    (∀ i ∈ issues, i.Textual) ∧ (r.valid = true ↔ ∀ i ∈ issues, i.severity ≠ .error) ∧
    r.byNode = (places issues).map (fun place => (.ofText? place, r.forNode (.ofText? place))) ∧
    ids issues = ["n", ""] ∧ places issues = [none, some "n", some ""] ∧
    r.markdown = "# workflow: FAIL\n\n1 error(s), 1 warning(s), 1 note(s)\n\n## Graph\n\n- warning **B**: y\n\n" ++
      "## Node `n`\n\n- error **A**: x\n\n## Graph\n\n- info **C**: z\n" ∧
    r.text = "Validation: FAIL (1 errors, 1 warnings)\n  graph:\n    [WARNING] B: y\n" ++
      "  n:\n    [ERROR] A: x\n  graph:\n    [INFO] C: z" := by
  intro issues r
  have htextual : ∀ i ∈ issues, i.Textual :=
    List.forall_mem_cons.mpr ⟨.inr ⟨"n", rfl⟩, List.forall_mem_cons.mpr ⟨.inl rfl,
      List.forall_mem_singleton.mpr (.inr ⟨"", rfl⟩)⟩⟩
  obtain ⟨hvalid, hgroups, -, -, -, -, hmarkdown, htext⟩ := views_agree none none issues htextual
  exact ⟨htextual, hvalid, hgroups, by decide +kernel, by decide +kernel,
    hmarkdown.trans (by decide +kernel), htext.trans (by decide +kernel)⟩

end Report

end Runbook.Check
