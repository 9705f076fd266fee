import Runbook.Proofs.Graph.Rename

/-!
# Parts of graphs

A part of a graph has, of what it has, also all sources. Its sequence is then that of the
whole graph without the ids that it lacks: places move together, so what is released
earlier in the whole is released earlier in the part (`Part.release_lt_iff`), and ties go
as in the whole so long as the part lists its ids in a fitting order. Main statements:
`arrange_filter`, where the part keeps the order of the node list, and
`linearize_order_fixed`, where it takes that of the sequence.
-/

namespace Runbook.Graph

variable {ids ids' order order' : List String} {links : List Edge} {edges : List Edge} {a b : String}

/-! ## Places in a part -/

/-- Where ids come in the order of their places in another list, places in both lists
compare alike. -/
theorem idxOf_lt_idxOf_iff (h : order'.Pairwise fun a b => order.idxOf a < order.idxOf b)
    (ha : a ∈ order') (hb : b ∈ order') :
    order'.idxOf a < order'.idxOf b ↔ order.idxOf a < order.idxOf b := by
  have hforth : ∀ {a b}, a ∈ order' → b ∈ order' → order'.idxOf a < order'.idxOf b →
      order.idxOf a < order.idxOf b := by
    intro a b ha hb hlt
    have hplaces := List.pairwise_iff_getElem.mp h _ _ (List.idxOf_lt_length_of_mem ha)
      (List.idxOf_lt_length_of_mem hb) hlt
    rwa [List.getElem_idxOf, List.getElem_idxOf] at hplaces
  refine ⟨hforth ha hb, fun hlt => ?_⟩
  rcases Nat.lt_trichotomy (order'.idxOf a) (order'.idxOf b) with hab | heq | hba
  · exact hab
  · rw [(List.idxOf_inj ha).mp heq] at hlt
    exact absurd hlt (Nat.lt_irrefl _)
  · exact absurd (hforth hb ha hba) (Nat.lt_asymm hlt)

/-- Ids are released one before the other if the later has a source behind all sources of
the earlier. -/
theorem release_lt_release_iff :
    release links order a < release links order b ↔
      ∃ e ∈ links, e.target = b ∧
        ∀ d ∈ links, d.target = a → order.idxOf d.source < order.idxOf e.source := by
  rw [← not_le, release_le_iff (neg_one_le_release ..)]
  simp only [← release_lt_iff, not_forall, not_le, exists_prop]

/-! ## Parts -/

/-- Some ids of a graph, with the sources of all links into them. -/
structure Part (edges : List Edge) (ids ids' : List String) : Prop where
  subset : ∀ id ∈ ids', id ∈ ids
  source_mem : ∀ e ∈ Graph.links ids edges, e.target ∈ ids' → e.source ∈ ids'

namespace Part

/-- The links of a part are the links into it. -/
theorem mem_links_iff (h : Part edges ids ids') {e : Edge} :
    e ∈ Graph.links ids' edges ↔ e ∈ Graph.links ids edges ∧ e.target ∈ ids' := by
  constructor
  · intro he
    obtain ⟨hmem, hsource, htarget⟩ := Graph.mem_links_iff.mp he
    exact ⟨Graph.mem_links_iff.mpr ⟨hmem, h.subset _ hsource, h.subset _ htarget⟩, htarget⟩
  · rintro ⟨he, htarget⟩
    exact Graph.mem_links_iff.mpr ⟨(Graph.mem_links_iff.mp he).1, h.source_mem e he htarget, htarget⟩

/-- What a part has of a sequence. -/
def taken (ids' order : List String) : List String := order.filter (ids'.contains ·)

theorem mem_taken_iff : a ∈ taken ids' order ↔ a ∈ order ∧ a ∈ ids' := by
  rw [taken, List.mem_filter, List.contains_iff_mem]

/-- Places in what is taken compare as they do in the whole. -/
theorem idxOf_taken_lt_iff (hnodup : order.Nodup) (ha : a ∈ taken ids' order)
    (hb : b ∈ taken ids' order) :
    (taken ids' order).idxOf a < (taken ids' order).idxOf b ↔ order.idxOf a < order.idxOf b :=
  idxOf_lt_idxOf_iff ((pairwise_idxOf hnodup).sublist List.filter_sublist) ha hb

section Sequence

variable (h : Part edges ids ids') (hseq : Sequenced ids (Graph.links ids edges) order)
include h hseq

/-- The sources of a link into what is taken are taken too. -/
theorem source_mem_taken {e : Edge} (he : e ∈ Graph.links ids edges)
    (ht : e.target ∈ taken ids' order) : e.source ∈ taken ids' order := by
  obtain ⟨horder, hpart⟩ := mem_taken_iff.mp ht
  exact mem_taken_iff.mpr ⟨hseq.forward.source_mem he horder, h.source_mem e he hpart⟩

theorem sequenced : Sequenced ids' (Graph.links ids' edges) (taken ids' order) where
  nodup := hseq.nodup.filter _
  subset _ hid := (mem_taken_iff.mp hid).2
  forward := by
    intro e he ht
    have hlink := (h.mem_links_iff.mp he).1
    rw [idxOf_taken_lt_iff hseq.nodup (h.source_mem_taken hseq hlink ht) ht]
    exact hseq.forward e hlink (mem_taken_iff.mp ht).1
  complete := by
    intro id hid hsources
    refine mem_taken_iff.mpr ⟨hseq.complete id (h.subset id hid) fun e he ht => ?_, hid⟩
    have hlink := h.mem_links_iff.mpr ⟨he, ht ▸ hid⟩
    exact (mem_taken_iff.mp (hsources e hlink ht)).1

/-- **What is released earlier in the whole is released earlier in the part.** -/
theorem release_lt_iff (ha : a ∈ taken ids' order) (hb : b ∈ taken ids' order) :
    release (Graph.links ids' edges) (taken ids' order) a <
        release (Graph.links ids' edges) (taken ids' order) b ↔
      release (Graph.links ids edges) order a < release (Graph.links ids edges) order b := by
  -- a link into an id of the part is one of the whole, from an id of the part
  have hlinks : ∀ {id}, id ∈ taken ids' order → ∀ e,
      (e ∈ Graph.links ids' edges ∧ e.target = id ↔ e ∈ Graph.links ids edges ∧ e.target = id) := by
    intro id hid e
    rw [h.mem_links_iff, and_assoc]
    refine and_congr_right fun _ => and_iff_right_of_imp fun ht => ?_
    rw [ht]
    exact (mem_taken_iff.mp hid).2
  have hsource : ∀ {id}, id ∈ taken ids' order → ∀ e, e ∈ Graph.links ids edges → e.target = id →
      e.source ∈ taken ids' order := fun hid e he ht => h.source_mem_taken hseq he (ht ▸ hid)
  rw [release_lt_release_iff, release_lt_release_iff]
  constructor
  · rintro ⟨e, he, ht, hbehind⟩
    obtain ⟨hlink, -⟩ := (hlinks hb e).mp ⟨he, ht⟩
    refine ⟨e, hlink, ht, fun d hd hta => ?_⟩
    rw [← idxOf_taken_lt_iff hseq.nodup (hsource ha d hd hta) (hsource hb e hlink ht)]
    exact hbehind d ((hlinks ha d).mpr ⟨hd, hta⟩).1 hta
  · rintro ⟨e, he, ht, hbehind⟩
    refine ⟨e, ((hlinks hb e).mpr ⟨he, ht⟩).1, ht, fun d hd hta => ?_⟩
    obtain ⟨hlink, -⟩ := (hlinks ha d).mp ⟨hd, hta⟩
    rw [idxOf_taken_lt_iff hseq.nodup (hsource ha d hlink hta) (hsource hb e he ht)]
    exact hbehind d hlink hta

/-- A part serves its ids as the whole does, if it lists them so that ties go alike. -/
theorem served (hserved : Served ids (Graph.links ids edges) order)
    (hties : (taken ids' order).Pairwise fun a b =>
      ids.idxOf a < ids.idxOf b → ids'.idxOf a < ids'.idxOf b) :
    Served ids' (Graph.links ids' edges) (taken ids' order) := by
  have hboth := (hserved.sublist (List.filter_sublist (p := (ids'.contains ·)))).and hties
  refine hboth.imp_of_mem fun {a b} ha hb ⟨hrank, htie⟩ => ?_
  rw [rank_lt_iff, h.release_lt_iff hseq ha hb]
  rcases rank_lt_iff.mp hrank with hlt | ⟨heq, hplace⟩
  · exact .inl hlt
  · refine .inr ⟨le_antisymm (not_lt.mp ?_) (not_lt.mp ?_), htie hplace⟩
    · rw [h.release_lt_iff hseq hb ha, heq]
      exact lt_irrefl _
    · rw [h.release_lt_iff hseq ha hb, heq]
      exact lt_irrefl _

end Sequence

end Part

/-! ## The sequence of a part -/

variable {nodes nodes' : List Node}

/-- **The sequence of a part is what it has of the sequence of the whole.** -/
theorem arrange_ids_of_part (h : Part edges (known nodes) (known nodes'))
    (hties : (Part.taken (known nodes') (arrange nodes edges).ids).Pairwise fun a b =>
      (known nodes).idxOf a < (known nodes).idxOf b → (known nodes').idxOf a < (known nodes').idxOf b) :
    (arrange nodes' edges).ids = Part.taken (known nodes') (arrange nodes edges).ids := by
  have hseq := sequenced_arrange nodes edges
  have hpart := h.sequenced hseq
  exact Served.eq_of_perm hpart.nodup hpart.forward (h.served hseq (served_arrange nodes edges) hties)
    (served_arrange nodes' edges) (hpart.perm (sequenced_arrange nodes' edges))

/-! ## Nodes that are left out -/

/-- The first nodes of some ids are the first nodes with these ids. -/
theorem firstsFrom_filter (keep : String → Bool) (nodes : List Node) : ∀ seen seen' : List String,
    (∀ id, keep id = true → (id ∈ seen' ↔ id ∈ seen)) →
    firstsFrom seen' (nodes.filter (keep ·.id)) = (firstsFrom seen nodes).filter (keep ·.id) := by
  induction nodes with
  | nil => intro _ _ _; rfl
  | cons n rest ih =>
      intro seen seen' hseen
      rw [firstsFrom]
      by_cases hkeep : keep n.id = true
      · have hcons : ∀ l : List Node, (n :: l).filter (keep ·.id) = n :: l.filter (keep ·.id) :=
          fun l => List.filter_cons_of_pos hkeep
        rw [hcons, firstsFrom]
        by_cases hin : n.id ∈ seen
        · rw [if_pos (List.contains_iff_mem.mpr hin),
            if_pos (List.contains_iff_mem.mpr ((hseen _ hkeep).mpr hin)), ih _ _ hseen]
        · have hout : n.id ∉ seen' := mt (hseen _ hkeep).mp hin
          rw [if_neg (by simpa using hout), if_neg (by simpa using hin), hcons,
            ih (n.id :: seen) (n.id :: seen')]
          intro id hid
          rw [List.mem_cons, List.mem_cons, hseen id hid]
      · have hcons : ∀ l : List Node, (n :: l).filter (keep ·.id) = l.filter (keep ·.id) :=
          fun l => List.filter_cons_of_neg hkeep
        rw [hcons]
        split
        · exact ih _ _ hseen
        · rw [hcons]
          refine ih _ _ fun id hid => ?_
          have hne : id ≠ n.id := fun heq => hkeep (heq ▸ hid)
          rw [hseen id hid, List.mem_cons, or_iff_right hne]

theorem firsts_filter (keep : String → Bool) (nodes : List Node) :
    firsts (nodes.filter (keep ·.id)) = (firsts nodes).filter (keep ·.id) :=
  firstsFrom_filter keep nodes [] [] fun _ _ => Iff.rfl

theorem known_filter (keep : String → Bool) (nodes : List Node) :
    known (nodes.filter (keep ·.id)) = (known nodes).filter keep := by
  rw [known, firsts_filter, known, List.filter_map]
  rfl

theorem filter_find?_id (keep : String → Bool) (nodes : List Node) (id : String) :
    (nodes.find? (·.id == id)).filter (keep ·.id) =
      if keep id = true then nodes.find? (·.id == id) else none := by
  cases hfind : nodes.find? (·.id == id) with
  | none => rw [Option.filter_none, ite_self]
  | some n =>
      have hid : n.id = id := by simpa using List.find?_some hfind
      rw [Option.filter_some, hid]

/-- Nodes that are kept are looked up as before. -/
theorem find?_filter_id {keep : String → Bool} (nodes : List Node) {id : String} (hid : keep id = true) :
    (nodes.filter (keep ·.id)).find? (·.id == id) = nodes.find? (·.id == id) := by
  have htest : ∀ n : Node, decide (keep n.id = true ∧ (n.id == id) = true) = (n.id == id) := by
    intro n
    by_cases heq : n.id = id <;> simp [heq, hid]
  rw [List.find?_filter]
  simp only [htest]

/-- **Where a part of a graph keeps the order of the node list**, the sequence of the part
is the sequence of the whole without the nodes that are left out, and so is what a cycle
keeps out. -/
theorem arrange_filter {keep : String → Bool} (h : Part edges (known nodes) ((known nodes).filter keep)) :
    (arrange (nodes.filter (keep ·.id)) edges).order = (arrange nodes edges).order.filter (keep ·.id) ∧
    (arrange (nodes.filter (keep ·.id)) edges).excluded =
      (arrange nodes edges).excluded.filter (keep ·.id) := by
  have hsubset := (sequenced_arrange nodes edges).subset
  have htaken : Part.taken ((known nodes).filter keep) (arrange nodes edges).ids =
      (arrange nodes edges).ids.filter keep :=
    List.filter_congr fun id hid => by simp [hsubset id hid]
  have hids : (arrange (nodes.filter (keep ·.id)) edges).ids = (arrange nodes edges).ids.filter keep := by
    rw [← htaken, ← known_filter]
    rw [← known_filter] at h
    refine arrange_ids_of_part h (List.pairwise_of_forall_mem_list fun a ha b hb hlt => ?_)
    have hplaces : (known (nodes.filter (keep ·.id))).Pairwise fun a b =>
        (known nodes).idxOf a < (known nodes).idxOf b := by
      rw [known_filter]
      exact (pairwise_idxOf (firsts_nodup nodes)).sublist List.filter_sublist
    exact (idxOf_lt_idxOf_iff hplaces (Part.mem_taken_iff.mp ha).2 (Part.mem_taken_iff.mp hb).2).mpr hlt
  rw [order_eq, order_eq, excluded_eq, excluded_eq, hids, firsts_filter]
  constructor
  · rw [List.filterMap_filter, List.filter_filterMap]
    refine List.filterMap_congr fun id _ => ?_
    rw [filter_find?_id]
    split
    · next hkeep => rw [find?_filter_id nodes hkeep]
    · rfl
  · rw [List.filter_comm, List.filter_filter, List.filter_filter]
    refine List.filter_congr fun n _ => ?_
    by_cases hkeep : keep n.id = true <;> simp [hkeep]

/-! ## The sequence as node list -/

theorem firstsFrom_eq_self {nodes : List Node} : ∀ {seen : List String}, (nodes.map (·.id)).Nodup →
    (∀ n ∈ nodes, n.id ∉ seen) → firstsFrom seen nodes = nodes := by
  induction nodes with
  | nil => intro _ _ _; rfl
  | cons n rest ih =>
      intro seen hnodup hnew
      obtain ⟨hn, hrest⟩ := List.forall_mem_cons.mp hnew
      obtain ⟨hout, hnodup⟩ := List.nodup_cons.mp hnodup
      rw [firstsFrom, if_neg (by simpa using hn), ih hnodup]
      intro m hm hmem
      rcases List.mem_cons.mp hmem with heq | hmem
      · exact hout (List.mem_map.mpr ⟨m, hm, heq⟩)
      · exact hrest m hm hmem

/-- Where no id comes twice, every node is the first of its id. -/
theorem firsts_eq_self (h : (nodes.map (·.id)).Nodup) : firsts nodes = nodes :=
  firstsFrom_eq_self h fun _ _ => List.not_mem_nil

theorem known_order (nodes : List Node) (edges : List Edge) :
    known (arrange nodes edges).order = (arrange nodes edges).ids := by
  rw [known, firsts_eq_self (sequenced_arrange nodes edges).nodup]
  rfl

/-- The nodes of a sequence are a part of the graph. -/
theorem part_order (nodes : List Node) (edges : List Edge) :
    Part edges (known nodes) (known (arrange nodes edges).order) := by
  have hseq := sequenced_arrange nodes edges
  rw [known_order]
  exact ⟨hseq.subset, fun e he ht => hseq.forward.source_mem he ht⟩

/-- Ties in the node list that a sequence makes go by the places in it. -/
theorem arrange_ids_order (nodes : List Node) (edges : List Edge) :
    (arrange (arrange nodes edges).order edges).ids = (arrange nodes edges).ids := by
  have hknown := known_order nodes edges
  have htaken : Part.taken (known (arrange nodes edges).order) (arrange nodes edges).ids =
      (arrange nodes edges).ids :=
    List.filter_eq_self.mpr fun id hid => List.contains_iff_mem.mpr (hknown ▸ hid)
  have hties := pairwise_idxOf (sequenced_arrange nodes edges).nodup
  rw [arrange_ids_of_part (part_order nodes edges), htaken]
  rw [htaken, hknown]
  refine hties.imp ?_
  intro a b hlt _
  exact hlt

end Runbook.Graph

namespace Runbook

/-- **A sequence is its own sequence**: the workflow whose nodes are those of the sequence,
in that order, is put into the same sequence, and nothing is kept out of it. -/
theorem Workflow.linearize_order_fixed (w : Workflow) :
    let again : Workflow := { w with nodes := w.linearize.order }
    again.linearize.order = w.linearize.order ∧ again.linearize.excluded = [] := by
  intro again
  have hids : again.linearize.ids = w.linearize.ids := Graph.arrange_ids_order w.nodes w.edges
  have hnodup : (w.linearize.order.map (·.id)).Nodup := (Graph.sequenced_arrange w.nodes w.edges).nodup
  have hfirst : ∀ n ∈ w.linearize.order, w.linearize.order.find? (·.id == n.id) = some n :=
    fun n hn => Graph.mem_firsts_iff.mp (by rwa [Graph.firsts_eq_self hnodup])
  constructor
  · have horder : again.linearize.order = w.linearize.ids.filterMap fun id =>
        w.linearize.order.find? (·.id == id) := by
      rw [← hids]
      exact Graph.order_eq w.linearize.order w.edges
    rw [horder]
    exact Graph.filterMap_find?_map_id hfirst
  · refine List.eq_nil_iff_forall_not_mem.mpr fun n hn => ?_
    obtain ⟨hfind, hout⟩ := Graph.mem_excluded_iff.mp hn
    refine hout ?_
    change n.id ∈ again.linearize.ids
    rw [hids]
    exact List.mem_map_of_mem (List.mem_of_find?_eq_some hfind)

end Runbook
