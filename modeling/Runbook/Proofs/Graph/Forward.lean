import Mathlib.Data.List.Basic
import Mathlib.Data.List.Induction
import Runbook.Proofs.Graph.Nodes

/-!
# Sequences of ids

`Forward` says of a list of ids that links go forward in it. It carries the two
arguments that later modules make along a sequence: `Forward.induction`, from
the sources of an id to the id, and `mem_scan_iff`, which turns one pass that
keeps or drops each id into an equation that holds at the end of the pass.
-/

namespace Runbook.Graph

/-- A link that ends in the sequence goes forward in it, so it starts there too. -/
def Forward (links : List Edge) (order : List String) : Prop :=
  ∀ e ∈ links, e.target ∈ order → order.idxOf e.source < order.idxOf e.target

theorem Forward.source_mem {links : List Edge} {order : List String}
    (h : Forward links order) {e : Edge} (he : e ∈ links) (ht : e.target ∈ order) :
    e.source ∈ order := by
  rw [← List.idxOf_lt_length_iff]
  exact Nat.lt_trans (h e he ht) (List.idxOf_lt_length_of_mem ht)

theorem Forward.nil (links : List Edge) : Forward links [] := by
  intro e _ ht
  simp at ht

/-- An id may be put behind a sequence that has all its sources. -/
theorem Forward.snoc {links : List Edge} {order : List String} {id : String}
    (h : Forward links order)
    (hid : ∀ e ∈ links, e.target = id → e.source ∈ order) :
    Forward links (order ++ [id]) := by
  intro e he ht
  by_cases hold : e.target ∈ order
  · rw [List.idxOf_append, List.idxOf_append, if_pos hold, if_pos (h.source_mem he hold)]
    exact h e he hold
  · have htarget : e.target = id := by
      rcases List.mem_append.mp ht with ht | ht
      · exact absurd ht hold
      · simpa using ht
    have hsource := hid e he htarget
    rw [List.idxOf_append, List.idxOf_append, if_neg hold, if_pos hsource]
    have := List.idxOf_lt_length_of_mem hsource
    omega

/-- **Induction along a sequence**: what passes from the sources of an id to the
id holds of every id in the sequence. -/
theorem Forward.induction {links : List Edge} {order : List String}
    (h : Forward links order) {P : String → Prop}
    (step : ∀ id ∈ order, (∀ e ∈ links, e.target = id → P e.source) → P id) :
    ∀ id ∈ order, P id := by
  intro id hid
  induction hk : order.idxOf id using Nat.strongRecOn generalizing id with
  | _ k ih =>
      refine step id hid fun e he ht => ?_
      have hmem : e.target ∈ order := ht ▸ hid
      refine ih (order.idxOf e.source) ?_ e.source (h.source_mem he hmem) rfl
      rw [← hk, ← ht]
      exact h e he hmem

/-- In a list without repetitions places grow. -/
theorem pairwise_idxOf {order : List String} (h : order.Nodup) :
    order.Pairwise fun a b => order.idxOf a < order.idxOf b := by
  rw [List.pairwise_iff_getElem]
  intro i j hi hj hij
  rw [h.idxOf_getElem i hi, h.idxOf_getElem j hj]
  exact hij

/-- A sequence of some of the ids that leaves out no id whose sources it has. -/
structure Sequenced (ids : List String) (links : List Edge) (order : List String) : Prop where
  nodup : order.Nodup
  subset : ∀ id ∈ order, id ∈ ids
  forward : Forward links order
  complete : ∀ id ∈ ids, (∀ e ∈ links, e.target = id → e.source ∈ order) → id ∈ order

/-- A sequence has all ids that can be reached without one that is missing, so any two
of them have the same ids. -/
theorem Sequenced.perm {ids : List String} {links : List Edge} {order other : List String}
    (h : Sequenced ids links order) (h' : Sequenced ids links other) : other.Perm order := by
  have hsubset : ∀ {order other}, Sequenced ids links order → Sequenced ids links other →
      ∀ id ∈ order, id ∈ other := fun h h' =>
    h.forward.induction fun id hid hsources => h'.complete id (h.subset id hid) hsources
  refine (List.perm_ext_iff_of_nodup h'.nodup h.nodup).mpr fun id => ?_
  exact ⟨hsubset h' h id, hsubset h h' id⟩

/-! ## One pass along a sequence -/

/-- Goes through the ids once, and keeps those that a test on what is kept so far
lets in. -/
def scan (keep : List String → String → Bool) (order : List String) : List String :=
  order.foldl (fun kept id => if keep kept id then kept ++ [id] else kept) []

theorem scan_snoc (keep : List String → String → Bool) (order : List String) (id : String) :
    scan keep (order ++ [id]) =
      if keep (scan keep order) id then scan keep order ++ [id] else scan keep order := by
  rw [scan, List.foldl_append]
  rfl

theorem scan_sublist (keep : List String → String → Bool) (order : List String) :
    (scan keep order).Sublist order := by
  induction order using List.reverseRecOn with
  | nil => exact List.Sublist.refl _
  | append_singleton order id ih =>
      rw [scan_snoc]
      split
      · exact ih.append (List.Sublist.refl _)
      · exact ih.trans (List.sublist_append_left _ _)

/-- The sources of every id of a sequence stand before its last id. -/
theorem Forward.source_mem_of_snoc {links : List Edge} {order : List String} {id : String}
    (h : Forward links (order ++ [id])) {e : Edge} (he : e ∈ links) (ht : e.target ∈ order ++ [id]) :
    e.source ∈ order := by
  have hlt := h e he ht
  have hlast := List.idxOf_lt_length_of_mem ht
  rw [List.length_append, List.length_singleton] at hlast
  by_contra hsource
  rw [List.idxOf_append, if_neg hsource] at hlt
  omega

theorem Forward.of_snoc {links : List Edge} {order : List String} {id : String}
    (h : Forward links (order ++ [id])) : Forward links order := by
  intro e he ht
  have hlt := h e he (List.mem_append_left _ ht)
  have hsource := h.source_mem_of_snoc he (List.mem_append_left _ ht)
  rwa [List.idxOf_append, List.idxOf_append, if_pos hsource, if_pos ht] at hlt

/-- **A pass that looks at sources only**: whether an id is let in may be asked
at the end of the pass as well, for its sources were all seen before it. -/
theorem mem_scan_iff {links : List Edge} {order : List String}
    {keep : List String → String → Bool} (hnodup : order.Nodup) (hforward : Forward links order)
    (hlocal : ∀ kept kept' id, (∀ e ∈ links, e.target = id →
      (e.source ∈ kept ↔ e.source ∈ kept')) → keep kept id = keep kept' id) :
    ∀ id ∈ order, (id ∈ scan keep order ↔ keep (scan keep order) id = true) := by
  induction order using List.reverseRecOn with
  | nil => intro id hid; simp at hid
  | append_singleton order last ih =>
      have hnew : last ∉ order := fun hmem =>
        (List.nodup_append.mp hnodup).2.2 last hmem last (by simp) rfl
      have hforward' := hforward.of_snoc
      have hout : last ∉ scan keep order := fun hmem => hnew ((scan_sublist keep order).subset hmem)
      -- the last id changes nothing that an id in the sequence looks at
      have hsame : ∀ x ∈ order, (x ∈ scan keep order ↔ x ∈ scan keep (order ++ [last])) := by
        intro x hx
        have hne : x ≠ last := fun heq => hnew (heq ▸ hx)
        rw [scan_snoc]
        split <;> simp [hne]
      have hkeep : ∀ id ∈ order ++ [last],
          keep (scan keep order) id = keep (scan keep (order ++ [last])) id := by
        intro id hid
        exact hlocal _ _ _ fun e he ht => hsame e.source (hforward.source_mem_of_snoc he (ht ▸ hid))
      intro id hid
      rw [← hkeep id hid]
      by_cases hlast : id = last
      · subst hlast
        rw [scan_snoc]
        split
        · rename_i hin
          simp [hin]
        · rename_i hin
          simp [hin, hout]
      · have hmem : id ∈ order := by
          rcases List.mem_append.mp hid with h | h
          · exact h
          · exact absurd (by simpa using h) hlast
        rw [← hsame id hmem]
        exact ih (List.nodup_append.mp hnodup).1 hforward' id hmem

end Runbook.Graph
