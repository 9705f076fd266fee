import Runbook.Proofs.Check.Errors
import Runbook.Proofs.Workflow.Decoded

/-!
# Edits of a valid workflow

Which edits keep a workflow free of errors. The structural rules see of a node only its
`role`, and of an edge only its `joint`. Most edits leave these alone or take some away
(`Thinned`), and taking away breaks no rule so long as no edge is left hanging
(`Lawful.of_thinned`). What is left are the three edits that may break a rule: a removed
node leaves its edges behind (`errors_removeNode`), a node may come under an id that is
taken (`lawful_insertNode_iff`), and an edge may have no room (`lawful_of_joinable`). What
the rules ask of one node is said once, of the edges that leave it (`Orderly`). Main
statement: `edits_keep_validity`.
-/

namespace Runbook.Check

variable {w w' : Workflow} {e : Edge} {n : Node} {id : String} {now : Int}

/-! ## What the rules ask of one node -/

/-- What the structural rules ask of the edges that leave a node of a kind. -/
structure Orderly (kind : NodeKind) (out : List Edge) : Prop where
  branch : kind = .decision → ∀ e ∈ out, ∃ b, e.sourceHandle = some (branchHandle b)
  branches_nodup : kind = .decision → (out.map (·.sourceHandle)).Nodup
  output_last : kind = .output → out = []
  single : kind ≠ .decision → kind ≠ .output → out.length ≤ 1

theorem Lawful.orderly (h : Lawful w) (hn : n ∈ w.nodes) : Orderly n.kind (w.outgoing n.id) where
  branch := h.branch n hn
  branches_nodup := h.branches_nodup n hn
  output_last := h.output_last n hn
  single := h.single n hn

theorem lawful_of_orderly (hnodes : w.nodeIds.Nodup) (hedges : (w.edges.map (·.id)).Nodup)
    (hsource : ∀ e ∈ w.edges, e.source ∈ w.nodeIds) (htarget : ∀ e ∈ w.edges, e.target ∈ w.nodeIds)
    (horderly : ∀ n ∈ w.nodes, Orderly n.kind (w.outgoing n.id)) : Lawful w where
  node_ids := hnodes
  edge_ids := hedges
  source_mem := hsource
  target_mem := htarget
  branch n hn := (horderly n hn).branch
  branches_nodup n hn := (horderly n hn).branches_nodup
  output_last n hn := (horderly n hn).output_last
  single n hn := (horderly n hn).single

section Orderly

variable {kind : NodeKind} {out : List Edge}

theorem orderly_nil (kind : NodeKind) : Orderly kind [] where
  branch _ _ he := absurd he List.not_mem_nil
  branches_nodup _ := List.nodup_nil
  output_last _ := rfl
  single _ _ := Nat.zero_le 1

theorem Orderly.of_sublist {out' : List Edge} (h : Orderly kind out)
    (hsub : (out'.map (·.sourceHandle)).Sublist (out.map (·.sourceHandle))) : Orderly kind out' := by
  have hlength : out'.length ≤ out.length := by simpa using hsub.length_le
  constructor
  case branch =>
    intro hkind e he
    obtain ⟨d, hd, hhandle⟩ := List.mem_map.mp (hsub.subset (List.mem_map_of_mem he))
    exact hhandle ▸ h.branch hkind d hd
  case branches_nodup => exact fun hkind => (h.branches_nodup hkind).sublist hsub
  case output_last =>
    intro hkind
    rw [h.output_last hkind] at hlength
    exact List.eq_nil_of_length_eq_zero (Nat.le_zero.mp hlength)
  case single => exact fun hdecision houtput => Nat.le_trans hlength (h.single hdecision houtput)

/-- **One more edge** may leave a decision on a branch that nothing takes, or a node that is
no output and has no successor. -/
theorem orderly_concat_iff : Orderly kind (out ++ [e]) ↔ Orderly kind out ∧ kind ≠ .output ∧
    if kind = .decision then
      (∃ b, e.sourceHandle = some (branchHandle b)) ∧ ∀ d ∈ out, d.sourceHandle ≠ e.sourceHandle
    else out = [] := by
  constructor
  · intro h
    have hlast : kind ≠ .output := fun houtput =>
      absurd (h.output_last houtput) (List.append_ne_nil_of_right_ne_nil _ (List.cons_ne_nil _ _))
    refine ⟨h.of_sublist ((List.sublist_append_left out [e]).map _), hlast, ?_⟩
    split
    case isTrue hkind =>
      have hnodup := h.branches_nodup hkind
      rw [List.map_append] at hnodup
      refine ⟨h.branch hkind e (List.mem_append_right _ List.mem_cons_self), fun d hd => ?_⟩
      exact (List.nodup_append.mp hnodup).2.2 _ (List.mem_map_of_mem hd) _ List.mem_cons_self
    case isFalse hkind =>
      have hone := h.single hkind hlast
      rw [List.length_append, List.length_singleton] at hone
      exact List.eq_nil_of_length_eq_zero (Nat.le_zero.mp (Nat.le_of_succ_le_succ hone))
  · rintro ⟨h, hlast, hroom⟩
    constructor
    case branch =>
      intro hkind d hd
      rw [if_pos hkind] at hroom
      rw [List.mem_append, List.mem_singleton] at hd
      obtain hd | rfl := hd
      · exact h.branch hkind d hd
      · exact hroom.1
    case branches_nodup =>
      intro hkind
      rw [if_pos hkind] at hroom
      rw [List.map_append]
      refine List.nodup_append.mpr ⟨h.branches_nodup hkind, List.nodup_singleton _, ?_⟩
      rintro a ha b hb heq
      obtain ⟨d, hd, rfl⟩ := List.mem_map.mp ha
      exact hroom.2 d hd (heq.trans (List.mem_singleton.mp hb))
    case output_last => exact fun hkind => absurd hkind hlast
    case single =>
      intro hdecision _
      rw [if_neg hdecision] at hroom
      rw [hroom]
      exact Nat.le_refl 1

end Orderly

/-! ## What the rules see -/

/-- What the structural rules see of a node. -/
def role (n : Node) : String × NodeKind := (n.id, n.kind)

/-- What the structural rules see of an edge. -/
def joint (e : Edge) : String × String × String × Option String :=
  (e.id, e.source, e.target, e.sourceHandle)

/-- A workflow of which nodes and edges may have been taken away. The others are as they
were, as far as the structural rules see. -/
structure Thinned (w w' : Workflow) : Prop where
  nodes : (w'.nodes.map role).Sublist (w.nodes.map role)
  edges : (w'.edges.map joint).Sublist (w.edges.map joint)

namespace Thinned

theorem nodeIds (h : Thinned w w') : w'.nodeIds.Sublist w.nodeIds := by
  have hids : ∀ w : Workflow, w.nodeIds = (w.nodes.map role).map Prod.fst := fun w => by
    simp [Workflow.nodeIds, Function.comp_def, role]
  rw [hids, hids]
  exact h.nodes.map _

theorem edgeIds (h : Thinned w w') : (w'.edges.map (·.id)).Sublist (w.edges.map (·.id)) := by
  have hids : ∀ w : Workflow, w.edges.map (·.id) = (w.edges.map joint).map Prod.fst := fun w => by
    simp [Function.comp_def, joint]
  rw [hids, hids]
  exact h.edges.map _

theorem exists_node (h : Thinned w w') (hn : n ∈ w'.nodes) :
    ∃ m ∈ w.nodes, m.id = n.id ∧ m.kind = n.kind := by
  obtain ⟨m, hm, hrole⟩ := List.mem_map.mp (h.nodes.subset (List.mem_map_of_mem hn))
  exact ⟨m, hm, congrArg Prod.fst hrole, congrArg Prod.snd hrole⟩

theorem outgoing (h : Thinned w w') (id : String) :
    ((w'.outgoing id).map joint).Sublist ((w.outgoing id).map joint) := by
  have hfilter : ∀ w : Workflow,
      (w.outgoing id).map joint = (w.edges.map joint).filter (·.2.1 == id) := fun w => by
    rw [Workflow.outgoing, List.filter_map]
    rfl
  rw [hfilter, hfilter]
  exact h.edges.filter _

theorem handles (h : Thinned w w') (id : String) :
    ((w'.outgoing id).map (·.sourceHandle)).Sublist ((w.outgoing id).map (·.sourceHandle)) := by
  simpa [Function.comp_def, joint] using (h.outgoing id).map (·.2.2.2)

end Thinned

/-- Taking away breaks no rule where both ends of every edge that is left are there. -/
theorem Lawful.of_thinned (h : Lawful w) (hthin : Thinned w w')
    (hends : ∀ e ∈ w'.edges, e.source ∈ w'.nodeIds ∧ e.target ∈ w'.nodeIds) : Lawful w' := by
  refine lawful_of_orderly (h.node_ids.sublist hthin.nodeIds) (h.edge_ids.sublist hthin.edgeIds)
    (fun e he => (hends e he).1) (fun e he => (hends e he).2) fun n hn => ?_
  obtain ⟨m, hm, hid, hkind⟩ := hthin.exists_node hn
  have hbefore := h.orderly hm
  rw [hid, hkind] at hbefore
  exact hbefore.of_sublist (hthin.handles n.id)

/-- Where nodes are not touched, an edge that is left has both its ends. -/
theorem Lawful.of_roles_eq (h : Lawful w) (hnodes : w'.nodes.map role = w.nodes.map role)
    (hedges : (w'.edges.map joint).Sublist (w.edges.map joint)) : Lawful w' := by
  have hthin : Thinned w w' := ⟨hnodes ▸ List.Sublist.refl _, hedges⟩
  have hids : w'.nodeIds = w.nodeIds := hthin.nodeIds.eq_of_length (by
    simpa [Workflow.nodeIds] using congrArg List.length hnodes)
  refine h.of_thinned hthin fun e he => ?_
  obtain ⟨d, hd, hjoint⟩ := List.mem_map.mp (hedges.subset (List.mem_map_of_mem he))
  obtain ⟨-, hsource, htarget, -⟩ : d.id = e.id ∧ d.source = e.source ∧ d.target = e.target ∧
      d.sourceHandle = e.sourceHandle := by simpa [joint] using hjoint
  rw [hids, ← hsource, ← htarget]
  exact ⟨h.source_mem d hd, h.target_mem d hd⟩

/-! ## Edits that take away -/

theorem lawful_removeEdge (h : Lawful w) : Lawful (w.removeEdge now id) :=
  h.of_roles_eq rfl (List.filter_sublist.map joint)

theorem lawful_labelEdge (h : Lawful w) (label : Option String) :
    Lawful (w.labelEdge now id label) := by
  have hedges : (w.labelEdge now id label).edges.map joint = w.edges.map joint := by
    rw [Workflow.labelEdge, Workflow.touch, List.map_map]
    refine List.map_congr_left fun e _ => ?_
    by_cases hid : e.id = id <;> simp [joint, hid]
  exact h.of_roles_eq rfl (hedges ▸ List.Sublist.refl _)

theorem lawful_describe (h : Lawful w) (name description icon : Option String) :
    Lawful (w.describe now name description icon) :=
  h.of_roles_eq rfl (List.Sublist.refl _)

theorem lawful_duplicate (h : Lawful w) (m : Mint) : Lawful (w.duplicate m).1 :=
  h.of_roles_eq rfl (List.Sublist.refl _)

theorem lawful_moveNode (h : Lawful w) {position : Value}
    (hmove : w.moveNode now id position = .ok w') : Lawful w' := by
  obtain ⟨place, -, rfl⟩ := except_map_eq_ok_iff.mp hmove
  refine h.of_roles_eq ?_ (List.Sublist.refl _)
  rw [Workflow.touch, List.map_map]
  refine List.map_congr_left fun n _ => ?_
  by_cases hid : n.id = id <;> simp [role, Node.kind, hid]

theorem roles_of_update {changes : Settings} {nodes nodes' : List Node}
    (h : List.Forall₂ (fun n n' => (if n.id = id then (n.payload.update changes).map
      fun p => { n with payload := p } else .ok n) = Except.ok n') nodes nodes') :
    nodes'.map role = nodes.map role := by
  induction h with
  | nil => rfl
  | @cons n n' _ _ hn _ ih =>
      have hrole : role n' = role n := by
        split at hn
        · obtain ⟨p, hp, rfl⟩ := except_map_eq_ok_iff.mp hn
          exact congrArg (Prod.mk n.id) (Payload.kind_of_update hp)
        · exact congrArg role (Except.ok.inj hn).symm
      rw [List.map_cons, List.map_cons, ih, hrole]

theorem lawful_updateNode (h : Lawful w) {changes : Settings}
    (hupdate : w.updateNode now id changes = .ok w') : Lawful w' := by
  unfold Workflow.updateNode at hupdate
  split at hupdate
  · obtain rfl := Except.ok.inj hupdate
    exact h
  · obtain ⟨nodes, hnodes, hdone⟩ := except_bind_eq_ok_iff.mp hupdate
    obtain rfl := Except.ok.inj hdone
    exact h.of_roles_eq (roles_of_update (forall₂_of_mapM_eq_ok hnodes)) (List.Sublist.refl _)

/-! ## Removing a node -/

theorem mem_nodeIds_removeNode (w : Workflow) (now : Int) (id : String) {other : String} :
    other ∈ (w.removeNode now id).nodeIds ↔ other ∈ w.nodeIds ∧ other ≠ id := by
  simp only [Workflow.nodeIds, Workflow.removeNode, Workflow.touch, List.mem_map, List.mem_filter,
    decide_eq_true_eq]
  constructor
  · rintro ⟨n, ⟨hn, hid⟩, rfl⟩
    exact ⟨⟨n, hn, rfl⟩, hid⟩
  · rintro ⟨⟨n, hn, rfl⟩, hid⟩
    exact ⟨n, ⟨hn, hid⟩, rfl⟩

/-- Together with its edges a node may go. -/
theorem lawful_removeEdgesFor_removeNode (h : Lawful w) {later : Int} :
    Lawful ((w.removeNode now id).removeEdgesFor later id) := by
  refine h.of_thinned ⟨List.filter_sublist.map role, List.filter_sublist.map joint⟩ fun e he => ?_
  obtain ⟨he, hapart⟩ := List.mem_filter.mp he
  obtain ⟨hsource, htarget⟩ := of_decide_eq_true hapart
  exact ⟨(mem_nodeIds_removeNode w now id).mpr ⟨h.source_mem e he, hsource⟩,
    (mem_nodeIds_removeNode w now id).mpr ⟨h.target_mem e he, htarget⟩⟩

/-- The errors of an edge when a node is removed: one for each of its ends that was there. -/
def severed (id : String) (e : Edge) : List Issue :=
  (if e.source = id then
    [Rule.danglingSource.issue s!"Edge '{e.id}' source '{e.source}' not found in nodes" [atEdge e.id]]
    else []) ++
  (if e.target = id then
    [Rule.danglingTarget.issue s!"Edge '{e.id}' target '{e.target}' not found in nodes" [atEdge e.id]]
    else [])

theorem repeated_eq_nil {items : List String} (h : items.Nodup) : repeated items = [] := by
  refine List.eq_nil_iff_forall_not_mem.mpr fun ⟨s, count⟩ hs => ?_
  obtain ⟨rfl, htwo⟩ := mem_repeated_iff.mp hs
  exact Nat.not_lt.mpr (List.nodup_iff_count_le_one.mp h s) htwo

theorem checkIds_eq_nil (hnodes : w.nodeIds.Nodup) (hedges : (w.edges.map (·.id)).Nodup) :
    checkIds w = [] := by
  rw [checkIds, repeated_eq_nil hnodes, repeated_eq_nil hedges]
  rfl

theorem filter_error_eq_nil {issues : List Issue} (h : ∀ i ∈ issues, i.severity ≠ .error) :
    issues.filter (·.severity == .error) = [] :=
  List.filter_eq_nil_iff.mpr fun i hi => by simpa using h i hi

theorem filter_error_checkEdge (hsource : e.source ∈ w.nodeIds) (htarget : e.target ∈ w.nodeIds) :
    (checkEdge (w.removeNode now id).nodeIds e).filter (·.severity == .error) = severed id e := by
  have hleft : ∀ other ∈ w.nodeIds, (w.removeNode now id).nodeIds.contains other = decide (other ≠ id) :=
    fun other hother => by
      rw [List.contains_eq_mem]
      exact decide_eq_decide.mpr ((mem_nodeIds_removeNode w now id).trans (and_iff_right hother))
  rw [checkEdge, hleft _ hsource, hleft _ htarget, severed]
  by_cases hs : e.source = id <;> by_cases ht : e.target = id <;> by_cases hloop : e.source = e.target <;>
    simp [hs, ht, hloop, Rule.severity]

/-- **A removed node leaves its edges behind**: each end of an edge at the node is an
error, and nothing else is. -/
theorem errors_removeNode (h : Lawful w) :
    (w.removeNode now id).check.ofSeverity .error = w.edges.flatMap (severed id) := by
  have hclean : ∀ n ∈ w.nodes, ∀ i ∈ checkNode w n, i.severity ≠ .error := fun n hn i hi =>
    valid_check_iff.mp (valid_iff_lawful.mpr h) i
      (mem_issuesOf_iff.mpr (.inr (.inr (.inl ⟨n, hn, hi⟩))))
  have hthin : Thinned w (w.removeNode now id) :=
    ⟨List.filter_sublist.map role, List.Sublist.refl _⟩
  have hids : checkIds (w.removeNode now id) = [] :=
    checkIds_eq_nil (h.node_ids.sublist hthin.nodeIds) h.edge_ids
  have hnodes : (checkOutputs (w.removeNode now id)).filter (·.severity == .error) = [] := by
    refine filter_error_eq_nil fun i hi => ?_
    obtain ⟨n, hn, hi⟩ := List.mem_flatMap.mp hi
    -- the edges are those of before, and so is what they say of a node that is left
    exact hclean n (List.mem_filter.mp hn).1 i hi
  have hedges : (checkEndpoints (w.removeNode now id)).filter (·.severity == .error) =
      w.edges.flatMap (severed id) := by
    rw [checkEndpoints, List.filter_flatMap]
    refine List.flatMap_congr fun e he => ?_
    exact filter_error_checkEdge (h.source_mem e he) (h.target_mem e he)
  have hprompts : ((w.removeNode now id).nodes.flatMap checkPrompt).filter (·.severity == .error) = [] :=
    filter_error_eq_nil fun i hi => by
      obtain ⟨n, -, hi⟩ := List.mem_flatMap.mp hi
      exact severity_of_mem_checkPrompt hi
  rw [Report.ofSeverity, issues_check, issuesOf]
  simp only [List.filter_append, hids, hedges, hnodes, hprompts,
    filter_error_eq_nil fun _ => severity_of_mem_checkTriggers,
    filter_error_eq_nil fun _ => severity_of_mem_checkCycles, List.nil_append, List.append_nil]

/-! ## Inserting a node -/

theorem outgoing_eq_nil (h : Lawful w) (hid : id ∉ w.nodeIds) : w.outgoing id = [] := by
  refine List.filter_eq_nil_iff.mpr fun e he hsource => hid ?_
  rw [← beq_iff_eq.mp hsource]
  exact h.source_mem e he

/-- A node may come under any id that no other node has. -/
theorem lawful_insertNode_iff (h : Lawful w) :
    Lawful (w.insertNode now n) ↔ n.id ∉ w.nodeIds := by
  have hids : (w.insertNode now n).nodeIds = w.nodeIds ++ [n.id] := by
    simp [Workflow.insertNode, Workflow.touch, Workflow.nodeIds]
  constructor
  · intro hnew hmem
    have hnodup := hnew.node_ids
    rw [hids] at hnodup
    exact (List.nodup_append.mp hnodup).2.2 _ hmem _ List.mem_cons_self rfl
  · intro hid
    have hnone := outgoing_eq_nil h hid
    -- every node is one of before, or it is the new one, which no edge leaves
    have hcases : ∀ m ∈ (w.insertNode now n).nodes, m ∈ w.nodes ∨ m = n := fun m hm => by
      simpa [Workflow.insertNode, Workflow.touch] using hm
    refine lawful_of_orderly ?_ h.edge_ids (fun e he => hids ▸ List.mem_append_left _ (h.source_mem e he))
      (fun e he => hids ▸ List.mem_append_left _ (h.target_mem e he)) fun m hm => ?_
    · rw [hids]
      exact List.nodup_append.mpr ⟨h.node_ids, List.nodup_singleton _, fun a ha b hb heq =>
        hid (List.mem_singleton.mp hb ▸ heq ▸ ha)⟩
    · obtain hm | rfl := hcases m hm
      · exact h.orderly hm
      · exact hnone.symm ▸ orderly_nil m.kind

/-! ## Joining two nodes -/

/-- There is room for one more edge, with an id and a handle, from one node to another: the
id is free, both nodes are there, and the one that it leaves is a decision with nothing on
that branch, or a node that is no output and has no successor. -/
structure Joinable (w : Workflow) (id source target : String) (handle : Option String) : Prop where
  id_unused : id ∉ w.edges.map (·.id)
  source_mem : source ∈ w.nodeIds
  target_mem : target ∈ w.nodeIds
  room : ∃ n ∈ w.nodes, n.id = source ∧ n.kind ≠ .output ∧
    if n.kind = .decision then
      (∃ b, handle = some (branchHandle b)) ∧ ∀ e ∈ w.outgoing source, e.sourceHandle ≠ handle
    else w.outgoing source = []

/-- A workflow with one more edge. -/
def withEdge (w : Workflow) (now : Int) (e : Edge) : Workflow :=
  { w with edges := w.edges ++ [e] }.touch now

theorem connect_eq (w : Workflow) (m : Mint) (source target : String)
    (handle targetHandle : Option String) :
    w.connect m (.str source) (.str target) (.ofText? handle) (.ofText? targetHandle) =
      (.ok (withEdge w m.edgeId.2.now ⟨m.edgeId.1, source, target, handle, targetHandle, none, false,
        Edge.defaultShape⟩, m.edgeId.1), m.edgeId.2) := by
  cases handle <;> cases targetHandle <;> rfl

theorem outgoing_withEdge (w : Workflow) (now : Int) (e : Edge) (id : String) :
    (withEdge w now e).outgoing id = w.outgoing id ++ if e.source = id then [e] else [] := by
  rw [withEdge, Workflow.touch, Workflow.outgoing, List.filter_append, Workflow.outgoing]
  by_cases hid : e.source = id <;> simp [hid]

theorem outgoing_withEdge_self (w : Workflow) (now : Int) (e : Edge) :
    (withEdge w now e).outgoing e.source = w.outgoing e.source ++ [e] := by
  rw [outgoing_withEdge, if_pos rfl]

theorem outgoing_withEdge_of_ne (hid : e.source ≠ id) :
    (withEdge w now e).outgoing id = w.outgoing id := by
  rw [outgoing_withEdge, if_neg hid, List.append_nil]

theorem edgeIds_withEdge (w : Workflow) (now : Int) (e : Edge) :
    (withEdge w now e).edges.map (·.id) = w.edges.map (·.id) ++ [e.id] := by
  simp [withEdge, Workflow.touch]

theorem joinable_of_lawful (h : Lawful (withEdge w now e)) :
    Joinable w e.id e.source e.target e.sourceHandle := by
  have hmem : e ∈ (withEdge w now e).edges := List.mem_append_right _ List.mem_cons_self
  have hids := h.edge_ids
  rw [edgeIds_withEdge] at hids
  have hsource : e.source ∈ w.nodeIds := h.source_mem e hmem
  obtain ⟨n, hn, hid⟩ := List.mem_map.mp hsource
  have horderly : Orderly n.kind ((withEdge w now e).outgoing n.id) := h.orderly hn
  rw [hid, outgoing_withEdge_self] at horderly
  exact ⟨fun hused => (List.nodup_append.mp hids).2.2 _ hused _ List.mem_cons_self rfl, hsource,
    h.target_mem e hmem, n, hn, hid, (orderly_concat_iff.mp horderly).2⟩

theorem lawful_of_joinable (h : Lawful w) (hroom : Joinable w e.id e.source e.target e.sourceHandle) :
    Lawful (withEdge w now e) := by
  obtain ⟨hid, hsource, htarget, n, hn, hfrom, hfree⟩ := hroom
  have hcases : ∀ d ∈ (withEdge w now e).edges, d ∈ w.edges ∨ d = e := fun d hd => by
    simpa [withEdge, Workflow.touch] using hd
  refine lawful_of_orderly h.node_ids ?edge_ids ?source_mem ?target_mem fun m hm => ?_
  case edge_ids =>
    rw [edgeIds_withEdge]
    exact List.nodup_append.mpr ⟨h.edge_ids, List.nodup_singleton _, fun a ha b hb heq =>
      hid (List.mem_singleton.mp hb ▸ heq ▸ ha)⟩
  case source_mem =>
    intro d hd
    obtain hd | rfl := hcases d hd
    · exact h.source_mem d hd
    · exact hsource
  case target_mem =>
    intro d hd
    obtain hd | rfl := hcases d hd
    · exact h.target_mem d hd
    · exact htarget
  -- the node that the edge leaves is the only one with its id; for the others nothing changes
  by_cases hleaves : m.id = e.source
  · obtain rfl : m = n := List.inj_on_of_nodup_map h.node_ids hm hn (hleaves.trans hfrom.symm)
    have hbefore := h.orderly hn
    rw [hfrom] at hbefore
    rw [hfrom, outgoing_withEdge_self]
    exact orderly_concat_iff.mpr ⟨hbefore, hfree⟩
  · rw [outgoing_withEdge_of_ne (Ne.symm hleaves)]
    exact h.orderly hm

/-! ## All edits -/

/-- **What edits make of a workflow without errors.** A node may be removed together with
its edges, in either order; without them each of their ends at the node is an error, and
there is no other. A node may be inserted under a free id, and an edge where there is room
for it, which is all that is asked. Every other edit that is accepted gives a workflow
without errors again. -/
structure KeepsValidity (w : Workflow) : Prop where
  removed : ∀ now later id, ((w.removeNode now id).removeEdgesFor later id).check.valid = true
  removed_comm : ∀ now later id time, ((w.removeNode now id).removeEdgesFor later id).touch time =
    ((w.removeEdgesFor now id).removeNode later id).touch time
  severed : ∀ now id, (w.removeNode now id).check.ofSeverity .error = w.edges.flatMap (severed id)
  inserted : ∀ now n, (w.insertNode now n).check.valid = true ↔ n.id ∉ w.nodeIds
  connected : ∀ (m : Mint) (source target : String) (handle targetHandle : Option String), ∃ w',
    w.connect m (.str source) (.str target) (.ofText? handle) (.ofText? targetHandle) =
      (.ok (w', m.edgeId.1), m.edgeId.2) ∧
    (w'.check.valid = true ↔ Joinable w m.edgeId.1 source target handle)
  edge_removed : ∀ now id, (w.removeEdge now id).check.valid = true
  moved : ∀ now id position w', w.moveNode now id position = .ok w' → w'.check.valid = true
  labeled : ∀ now id label, (w.labelEdge now id label).check.valid = true
  described : ∀ now name description icon, (w.describe now name description icon).check.valid = true
  duplicated : ∀ m, (w.duplicate m).1.check.valid = true
  updated : ∀ now id changes w', w.updateNode now id changes = .ok w' → w'.check.valid = true

/-- **Editing preserves validity exactly where it should.** -/
theorem edits_keep_validity (hvalid : w.check.valid = true) : KeepsValidity w := by
  have h := valid_iff_lawful.mp hvalid
  constructor
  case removed => exact fun _ _ _ => valid_iff_lawful.mpr (lawful_removeEdgesFor_removeNode h)
  case removed_comm => exact fun _ _ _ _ => rfl
  case severed => exact fun _ _ => errors_removeNode h
  case inserted => exact fun _ _ => valid_iff_lawful.trans (lawful_insertNode_iff h)
  case connected =>
    exact fun m source target handle targetHandle => ⟨_, connect_eq w m source target handle targetHandle,
      valid_iff_lawful.trans ⟨fun hnew => joinable_of_lawful hnew, fun hroom => lawful_of_joinable h hroom⟩⟩
  case edge_removed => exact fun _ _ => valid_iff_lawful.mpr (lawful_removeEdge h)
  case moved => exact fun _ _ _ _ hmove => valid_iff_lawful.mpr (lawful_moveNode h hmove)
  case labeled => exact fun _ _ label => valid_iff_lawful.mpr (lawful_labelEdge h label)
  case described =>
    exact fun _ name description icon => valid_iff_lawful.mpr (lawful_describe h name description icon)
  case duplicated => exact fun m => valid_iff_lawful.mpr (lawful_duplicate h m)
  case updated => exact fun _ _ _ _ hupdate => valid_iff_lawful.mpr (lawful_updateNode h hupdate)

/-- A decision of which one branch is drawn. -/
def halfDecided : Workflow where
  id := "wf_1"
  name := "Half decided"
  description := none
  icon := none
  nodes := [
    ⟨"start", .origin, "Start", none, none, none, .trigger .manual []⟩,
    ⟨"size", .origin, "Size", none, none, none, .decision (some "Is it small?")⟩,
    ⟨"end", .origin, "End", none, none, none, .output⟩]
  edges := [
    ⟨"e1", "start", "size", none, none, none, false, Edge.defaultShape⟩,
    ⟨"e2", "size", "end", some "true", none, none, false, Edge.defaultShape⟩]
  createdAt := 0
  updatedAt := 0
  version := Workflow.defaultVersion
  author := none
  exportTarget := none
  exportPath := none

/-- The second branch may be drawn. Without the decision both edges hang loose. -/
theorem edits_of_halfDecided :
    halfDecided.check.valid = true ∧
    (∃ w', halfDecided.connect ⟨7, 0⟩ (.str "size") (.str "end") (.ofText? (some "false"))
      (.ofText? none) = (.ok (w', "edge_7_00001"), ⟨7, 1⟩) ∧ w'.check.valid = true) ∧
    ((halfDecided.removeNode 7 "size").check.ofSeverity .error).map (·.code) =
      ["DANGLING_TARGET", "DANGLING_SOURCE"] := by
  have hvalid : halfDecided.check.valid = true := by decide +kernel
  have h := edits_keep_validity hvalid
  have hid : (Mint.mk 7 0).edgeId = ("edge_7_00001", ⟨7, 1⟩) := by decide +kernel
  obtain ⟨drawn, hdrawn, hroom⟩ := h.connected ⟨7, 0⟩ "size" "end" (some "false") none
  rw [hid] at hdrawn hroom
  refine ⟨hvalid, ⟨drawn, hdrawn, hroom.mpr ?_⟩, ?_⟩
  · refine ⟨by decide +kernel, by decide +kernel, by decide +kernel, _, .tail _ (.head _), rfl,
      by decide, ?_⟩
    exact (if_pos rfl).mpr ⟨⟨false, rfl⟩, by decide +kernel⟩
  · rw [h.severed]
    decide +kernel

end Runbook.Check
