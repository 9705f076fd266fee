import Mathlib.Data.List.Forall2
import Runbook.Proofs.Graph.Fifo

/-!
# Renamed graphs

What a sequence is the same for. The ids of a graph may be renamed, so long as they
stay apart, and its edges written down in another order, or more than once: `Renames`
says that the same ids are linked. `Sequenced` and `Served` speak of nothing else, and
only one sequence has both properties, so the sequence of the renamed graph is the
renamed sequence (`arrange_ids_map`). What else the nodes say goes along with them
(`forall₂_arrange`).
-/

namespace Runbook

/-- An edge under a renaming of ids: one with the renamed ends, whatever else it says. -/
structure Edge.Renamed (f : String → String) (e e' : Edge) : Prop where
  source : e'.source = f e.source
  target : e'.target = f e.target

instance (f : String → String) (e e' : Edge) : Decidable (e.Renamed f e') :=
  decidable_of_iff (e'.source = f e.source ∧ e'.target = f e.target)
    ⟨fun h => ⟨h.1, h.2⟩, fun h => ⟨h.source, h.target⟩⟩

end Runbook

namespace Runbook.Graph

variable {f : String → String} {ids order : List String} {links links' : List Edge} {id : String}

/-- A renaming that keeps the ids of a list apart, and carries links between them to
links and back. How often a link is there, and where, does not count. -/
structure Renames (f : String → String) (ids : List String) (links links' : List Edge) : Prop where
  injOn : Set.InjOn f {id | id ∈ ids}
  ends : ∀ e ∈ links, e.source ∈ ids ∧ e.target ∈ ids
  image : ∀ e ∈ links, ∃ e' ∈ links', e.Renamed f e'
  preimage : ∀ e' ∈ links', ∃ e ∈ links, e.Renamed f e'

/-! ## Places and releases -/

/-- A renaming that keeps ids apart keeps their places. -/
theorem idxOf_map_of_injOn (hf : Set.InjOn f {id | id ∈ ids}) (hid : id ∈ ids)
    (horder : ∀ a ∈ order, a ∈ ids) : (order.map f).idxOf (f id) = order.idxOf id := by
  induction order with
  | nil => rfl
  | cons a rest ih =>
      obtain ⟨ha, hrest⟩ := List.forall_mem_cons.mp horder
      rw [List.map_cons]
      by_cases heq : a = id
      · rw [heq, List.idxOf_cons_self, List.idxOf_cons_self]
      · have hne : f a ≠ f id := fun h => heq (hf ha hid h)
        rw [List.idxOf_cons_ne _ hne, List.idxOf_cons_ne _ heq, ih hrest]

theorem mem_map_iff_of_injOn (hf : Set.InjOn f {id | id ∈ ids}) (hid : id ∈ ids)
    (horder : ∀ a ∈ order, a ∈ ids) : f id ∈ order.map f ↔ id ∈ order := by
  rw [← List.idxOf_lt_length_iff, ← List.idxOf_lt_length_iff, List.length_map,
    idxOf_map_of_injOn hf hid horder]

theorem contains_map_of_injOn (hf : Set.InjOn f {id | id ∈ ids}) (hid : id ∈ ids)
    (horder : ∀ a ∈ order, a ∈ ids) : (order.map f).contains (f id) = order.contains id := by
  rw [Bool.eq_iff_iff, List.contains_iff_mem, List.contains_iff_mem]
  exact mem_map_iff_of_injOn hf hid horder

namespace Renames

/-- A link into a renamed id comes from a link into the id. -/
theorem exists_into (h : Renames f ids links links') (hid : id ∈ ids) {e' : Edge}
    (he : e' ∈ links') (ht : e'.target = f id) :
    ∃ e ∈ links, e.target = id ∧ e'.source = f e.source := by
  obtain ⟨e, hlink, hends⟩ := h.preimage e' he
  refine ⟨e, hlink, h.injOn (h.ends e hlink).2 hid ?_, hends.source⟩
  rw [← hends.target, ht]

theorem release_map (h : Renames f ids links links') (horder : ∀ a ∈ order, a ∈ ids)
    (hid : id ∈ ids) : release links' (order.map f) (f id) = release links order id := by
  refine le_antisymm ((release_le_iff (neg_one_le_release ..)).mpr fun e' he ht => ?_)
    ((release_le_iff (neg_one_le_release ..)).mpr fun e he ht => ?_)
  · obtain ⟨e, hlink, rfl, hsource⟩ := h.exists_into hid he ht
    rw [hsource, idxOf_map_of_injOn h.injOn (h.ends e hlink).1 horder]
    exact le_release hlink order
  · obtain ⟨e', hlink, hends⟩ := h.image e he
    rw [← idxOf_map_of_injOn h.injOn (h.ends e he).1 horder, ← hends.source, ← ht, ← hends.target]
    exact le_release hlink (order.map f)

/-! ## Sequences -/

theorem sequenced_map (h : Renames f ids links links') (hseq : Sequenced ids links order) :
    Sequenced (ids.map f) links' (order.map f) where
  nodup := hseq.nodup.map_on fun a ha b hb heq =>
    h.injOn (hseq.subset a ha) (hseq.subset b hb) heq
  subset := by
    rintro _ hid
    obtain ⟨id, hmem, rfl⟩ := List.mem_map.mp hid
    exact List.mem_map_of_mem (hseq.subset id hmem)
  forward := by
    intro e' he ht
    obtain ⟨e, hlink, hends⟩ := h.preimage e' he
    obtain ⟨hsource, htarget⟩ := h.ends e hlink
    rw [hends.target, mem_map_iff_of_injOn h.injOn htarget hseq.subset] at ht
    rw [hends.source, hends.target, idxOf_map_of_injOn h.injOn hsource hseq.subset,
      idxOf_map_of_injOn h.injOn htarget hseq.subset]
    exact hseq.forward e hlink ht
  complete := by
    intro _ hid hsources
    obtain ⟨id, hmem, rfl⟩ := List.mem_map.mp hid
    refine List.mem_map_of_mem (hseq.complete id hmem fun e he ht => ?_)
    obtain ⟨e', hlink, hends⟩ := h.image e he
    have hsource := hsources e' hlink (by rw [hends.target, ht])
    rwa [hends.source, mem_map_iff_of_injOn h.injOn (h.ends e he).1 hseq.subset] at hsource

theorem served_map (h : Renames f ids links links') (horder : ∀ a ∈ order, a ∈ ids)
    (hserved : Served ids links order) : Served (ids.map f) links' (order.map f) := by
  have hrank : ∀ a ∈ order, rank (ids.map f) links' (order.map f) (f a) = rank ids links order a := by
    intro a ha
    rw [rank, rank, h.release_map horder (horder a ha),
      idxOf_map_of_injOn h.injOn (horder a ha) fun _ => id]
  refine List.pairwise_map.mpr (hserved.imp_of_mem fun {a b} ha hb hlt => ?_)
  rw [hrank a ha, hrank b hb]
  exact hlt

end Renames

/-! ## Nodes -/

section Nodes

variable {R : Node → Node → Prop} {nodes nodes' : List Node} {edges edges' : List Edge}

/-- Nodes that go together have ids that go together. -/
theorem map_id_of_forall₂ (hR : ∀ n n', R n n' → n'.id = f n.id)
    (h : List.Forall₂ R nodes nodes') : nodes'.map (·.id) = (nodes.map (·.id)).map f := by
  induction h with
  | nil => rfl
  | cons hn _ ih => rw [List.map_cons, List.map_cons, List.map_cons, hR _ _ hn, ih]

/-- The first nodes of a list go together with those of the renamed list. -/
theorem forall₂_firstsFrom (hR : ∀ n n', R n n' → n'.id = f n.id)
    (hf : Set.InjOn f {id | id ∈ ids}) (h : List.Forall₂ R nodes nodes') :
    ∀ seen : List String, (∀ id ∈ seen, id ∈ ids) → (∀ n ∈ nodes, n.id ∈ ids) →
      List.Forall₂ R (firstsFrom seen nodes) (firstsFrom (seen.map f) nodes') := by
  induction h with
  | nil => intro _ _ _; exact .nil
  | @cons n n' rest rest' hn _ ih =>
      intro seen hseen hnodes
      obtain ⟨hid, hrest⟩ := List.forall_mem_cons.mp hnodes
      rw [firstsFrom, firstsFrom, hR n n' hn, contains_map_of_injOn hf hid hseen]
      split
      · exact ih seen hseen hrest
      · have hnext := ih (n.id :: seen) (List.forall_mem_cons.mpr ⟨hid, hseen⟩) hrest
        exact .cons hn hnext

theorem forall₂_firsts (hR : ∀ n n', R n n' → n'.id = f n.id)
    (hf : Set.InjOn f {id | id ∈ known nodes}) (h : List.Forall₂ R nodes nodes') :
    List.Forall₂ R (firsts nodes) (firsts nodes') :=
  forall₂_firstsFrom hR hf h [] (by simp) fun _ hn =>
    mem_firsts_ids_iff.mpr (List.mem_map_of_mem hn)

/-- Looking up a renamed id finds the node that goes with the one of the id. -/
theorem rel_find? (hR : ∀ n n', R n n' → n'.id = f n.id)
    (hf : Set.InjOn f {id | id ∈ ids}) (h : List.Forall₂ R nodes nodes')
    (hnodes : ∀ n ∈ nodes, n.id ∈ ids) (hid : id ∈ ids) :
    Option.Rel R (nodes.find? (·.id == id)) (nodes'.find? (·.id == f id)) := by
  induction h with
  | nil => exact .none
  | @cons n n' rest rest' hn _ ih =>
      obtain ⟨hmem, hrest⟩ := List.forall_mem_cons.mp hnodes
      have hsame : (n'.id == f id) = (n.id == id) := by
        rw [Bool.eq_iff_iff, beq_iff_eq, beq_iff_eq, hR n n' hn]
        exact hf.eq_iff hmem hid
      rw [List.find?_cons, List.find?_cons, hsame]
      split
      · exact .some hn
      · exact ih hrest

/-! ## The sequence of a renamed graph -/

/-- **The sequence of a renamed graph is the renamed sequence.** -/
theorem arrange_ids_map (hknown : known nodes' = (known nodes).map f)
    (h : Renames f (known nodes) (Graph.links (known nodes) edges)
      (Graph.links (known nodes') edges')) :
    (arrange nodes' edges').ids = (arrange nodes edges).ids.map f := by
  have hseq := sequenced_arrange nodes edges
  have hseq' := sequenced_arrange nodes' edges'
  have hserved' := served_arrange nodes' edges'
  rw [hknown] at h hseq' hserved'
  have hmap := h.sequenced_map hseq
  exact Served.eq_of_perm hmap.nodup hmap.forward
    (h.served_map hseq.subset (served_arrange nodes edges)) hserved' (hmap.perm hseq')

theorem order_eq (nodes : List Node) (edges : List Edge) :
    (arrange nodes edges).order =
      (arrange nodes edges).ids.filterMap fun id => nodes.find? (·.id == id) := by
  rw [arrange_ids]
  exact List.filterMap_congr fun id _ => find?_firsts nodes id

theorem excluded_eq (nodes : List Node) (edges : List Edge) :
    (arrange nodes edges).excluded =
      (firsts nodes).filter fun n => !(arrange nodes edges).ids.contains n.id := by
  rw [arrange_ids]
  rfl

/-- Nodes that go together are put into the same place of the sequence, or are both
kept out. -/
theorem forall₂_arrange (hR : ∀ n n', R n n' → n'.id = f n.id)
    (h : List.Forall₂ R nodes nodes')
    (hlinks : Renames f (known nodes) (Graph.links (known nodes) edges)
      (Graph.links (known nodes') edges')) :
    List.Forall₂ R (arrange nodes edges).order (arrange nodes' edges').order ∧
    List.Forall₂ R (arrange nodes edges).excluded (arrange nodes' edges').excluded := by
  have hfirsts := forall₂_firsts hR hlinks.injOn h
  have hids := arrange_ids_map (map_id_of_forall₂ hR hfirsts) hlinks
  have hsubset := (sequenced_arrange nodes edges).subset
  have hnodes : ∀ n ∈ nodes, n.id ∈ known nodes := fun n hn =>
    mem_firsts_ids_iff.mpr (List.mem_map_of_mem hn)
  rw [order_eq, order_eq, excluded_eq, excluded_eq, hids]
  constructor
  · have hplaced : List.Forall₂ (fun id id' => id ∈ known nodes ∧ id' = f id)
        (arrange nodes edges).ids ((arrange nodes edges).ids.map f) := by
      rw [List.forall₂_and_left, List.forall₂_map_right_iff, List.forall₂_same]
      exact ⟨hsubset, fun _ _ => rfl⟩
    refine List.rel_filterMap ?_ hplaced
    rintro id _ ⟨hid, rfl⟩
    exact rel_find? hR hlinks.injOn h hnodes hid
  · have hunique : List.Forall₂ (fun n n' => n.id ∈ known nodes ∧ R n n')
        (firsts nodes) (firsts nodes') :=
      (List.forall₂_and_left _ _).mpr ⟨fun n hn => List.mem_map_of_mem hn, hfirsts⟩
    refine (List.rel_filter ?_ hunique).imp fun _ _ hn => hn.2
    rintro n n' ⟨hid, hn⟩
    simp only [hR n n' hn, contains_map_of_injOn hlinks.injOn hid hsubset]

end Nodes

end Runbook.Graph
