import Mathlib.Data.List.Basic
import Runbook.Graph.Order

/-!
# First nodes and links

The node list that a sequence is built from: `firsts` keeps, of the nodes that
share an id, the one that comes first, and keeps the order of the list. `links`
keeps the edges both of whose ends have a node. Everything here is stated about
the given node list, so that later modules need not open `firstsFrom`.
-/

namespace Runbook.Graph

/-- Looking up an id that a list has finds a node with it. -/
theorem exists_find? {nodes : List Node} {id : String} (h : id ∈ nodes.map (·.id)) :
    ∃ n, nodes.find? (·.id == id) = some n ∧ n.id = id := by
  obtain ⟨m, hm, hid⟩ := List.mem_map.mp h
  cases hfind : nodes.find? (·.id == id) with
  | none => exact absurd (List.find?_eq_none.mp hfind m hm) (by simp [hid])
  | some n => exact ⟨n, rfl, by simpa using List.find?_some hfind⟩

/-! ## First nodes -/

/-- A node is kept iff its id is new and no node before it has that id. -/
theorem mem_firstsFrom_iff (nodes : List Node) : ∀ (seen : List String) (n : Node),
    n ∈ firstsFrom seen nodes ↔ n.id ∉ seen ∧ nodes.find? (·.id == n.id) = some n := by
  induction nodes with
  | nil => intro seen n; simp [firstsFrom]
  | cons m rest ih =>
      intro seen n
      by_cases hseen : m.id ∈ seen
      · have hcontains : seen.contains m.id = true := by simpa using hseen
        rw [firstsFrom, if_pos hcontains, ih, List.find?_cons]
        constructor
        · rintro ⟨hn, hfind⟩
          have hne : (m.id == n.id) = false := by
            simp only [beq_eq_false_iff_ne]
            exact fun heq => hn (heq ▸ hseen)
          exact ⟨hn, by rw [hne]; exact hfind⟩
        · rintro ⟨hn, hfind⟩
          have hne : (m.id == n.id) = false := by
            simp only [beq_eq_false_iff_ne]
            exact fun heq => hn (heq ▸ hseen)
          rw [hne] at hfind
          exact ⟨hn, hfind⟩
      · have hcontains : ¬ seen.contains m.id = true := by simpa using hseen
        rw [firstsFrom, if_neg hcontains, List.mem_cons, ih, List.find?_cons]
        by_cases heq : m.id = n.id
        · have hn : n.id ∉ seen := heq ▸ hseen
          simp [heq, hn, eq_comm]
        · have hne : n ≠ m := fun h => heq (by rw [h])
          have hbeq : (m.id == n.id) = false := by simpa using heq
          simp [hbeq, hne, Ne.symm heq]

theorem mem_firsts_iff {nodes : List Node} {n : Node} :
    n ∈ firsts nodes ↔ nodes.find? (·.id == n.id) = some n := by
  simp [firsts, mem_firstsFrom_iff]

theorem firstsFrom_sublist (nodes : List Node) : ∀ seen : List String,
    (firstsFrom seen nodes).Sublist nodes := by
  induction nodes with
  | nil => intro seen; exact List.Sublist.refl _
  | cons m rest ih =>
      intro seen
      rw [firstsFrom]
      split
      · exact (ih seen).cons m
      · exact (ih _).cons_cons m

/-- The kept ids come in the order in which the list first has them. -/
theorem firstsFrom_pairwise (nodes : List Node) : ∀ seen : List String,
    ((firstsFrom seen nodes).map (·.id)).Pairwise
      fun a b => (nodes.map (·.id)).idxOf a < (nodes.map (·.id)).idxOf b := by
  induction nodes with
  | nil => intro seen; simp [firstsFrom]
  | cons m rest ih =>
      intro seen
      -- behind the head, positions of ids other than the head's shift by one
      have hshift : ∀ seen', m.id ∈ seen' →
          ((firstsFrom seen' rest).map (·.id)).Pairwise
            fun a b => ((m :: rest).map (·.id)).idxOf a < ((m :: rest).map (·.id)).idxOf b := by
        intro seen' hm
        have hother : ∀ id ∈ (firstsFrom seen' rest).map (·.id), m.id ≠ id := by
          intro id hid heq
          obtain ⟨n, hn, rfl⟩ := List.mem_map.mp hid
          exact ((mem_firstsFrom_iff rest seen' n).mp hn).1 (heq ▸ hm)
        refine (ih seen').imp_of_mem fun {a b} ha hb hab => ?_
        rw [List.map_cons, List.idxOf_cons_ne _ (hother a ha), List.idxOf_cons_ne _ (hother b hb)]
        omega
      rw [firstsFrom]
      split
      · rename_i hcontains
        exact hshift seen (by simpa using hcontains)
      · refine List.pairwise_cons.mpr ⟨?_, hshift (m.id :: seen) (by simp)⟩
        intro id hid
        obtain ⟨n, hn, rfl⟩ := List.mem_map.mp hid
        have hne : m.id ≠ n.id := by
          have := ((mem_firstsFrom_iff rest (m.id :: seen) n).mp hn).1
          simp only [List.mem_cons, not_or] at this
          exact Ne.symm this.1
        show ((m :: rest).map (·.id)).idxOf m.id < _
        rw [List.map_cons, List.idxOf_cons_self, List.idxOf_cons_ne _ hne]
        omega

theorem firsts_pairwise (nodes : List Node) :
    ((firsts nodes).map (·.id)).Pairwise
      fun a b => (nodes.map (·.id)).idxOf a < (nodes.map (·.id)).idxOf b :=
  firstsFrom_pairwise nodes []

theorem firsts_nodup (nodes : List Node) : ((firsts nodes).map (·.id)).Nodup :=
  (firsts_pairwise nodes).imp fun h heq => by
    rw [heq] at h
    exact Nat.lt_irrefl _ h

theorem mem_firsts_ids_iff {nodes : List Node} {id : String} :
    id ∈ (firsts nodes).map (·.id) ↔ id ∈ nodes.map (·.id) := by
  constructor
  · intro h
    exact ((firstsFrom_sublist nodes []).map (·.id)).subset h
  · intro h
    obtain ⟨n, hfind, rfl⟩ := exists_find? h
    exact List.mem_map.mpr ⟨n, mem_firsts_iff.mpr hfind, rfl⟩

/-- Looking up an id among the first nodes finds what it finds in the list. -/
theorem find?_firsts (nodes : List Node) (id : String) :
    (firsts nodes).find? (·.id == id) = nodes.find? (·.id == id) := by
  cases hfind : (firsts nodes).find? (·.id == id) with
  | none =>
      rw [List.find?_eq_none] at hfind
      rw [eq_comm, List.find?_eq_none]
      intro m hm hid
      have hmem : m.id ∈ (firsts nodes).map (·.id) :=
        mem_firsts_ids_iff.mpr (List.mem_map.mpr ⟨m, hm, rfl⟩)
      obtain ⟨n, hn, hnm⟩ := List.mem_map.mp hmem
      exact hfind n hn (by rw [hnm]; exact hid)
  | some n =>
      have hid : n.id = id := by simpa using List.find?_some hfind
      rw [← hid, mem_firsts_iff.mp (List.mem_of_find?_eq_some hfind)]

/-! ## Links -/

theorem mem_links_iff {ids : List String} {edges : List Edge} {e : Edge} :
    e ∈ links ids edges ↔ e ∈ edges ∧ e.source ∈ ids ∧ e.target ∈ ids := by
  simp [links]

theorem links_source {ids : List String} {edges : List Edge} {e : Edge}
    (h : e ∈ links ids edges) : e.source ∈ ids := (mem_links_iff.mp h).2.1

theorem links_target {ids : List String} {edges : List Edge} {e : Edge}
    (h : e ∈ links ids edges) : e.target ∈ ids := (mem_links_iff.mp h).2.2

end Runbook.Graph
