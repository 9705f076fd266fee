import Mathlib.Data.Fintype.Card
import Mathlib.Data.Set.Finite.List
import Mathlib.Logic.Relation
import Runbook.Proofs.Graph.Sweep

/-!
# Sequence and cycles

What `arrange` gives for any list of nodes and any list of edges, well formed or
not: its sequence is `Sequenced`, and what it excludes is what a directed cycle
keeps out. The first half comes from the loop invariant. The second needs a
finite graph: an excluded id waits for an excluded id, so walking back from it
never ends, and must come round.
-/

namespace Runbook.Graph

open Relation

/-! ## The two parts of the result -/

/-- The ids that a sequence is made of. -/
def known (nodes : List Node) : List String := (firsts nodes).map (·.id)

/-- Looking up ids that nodes have loses none of them. -/
theorem map_id_filterMap_find? (unique : List Node) : ∀ placed : List String,
    (∀ id ∈ placed, id ∈ unique.map (·.id)) →
    (placed.filterMap fun id => unique.find? (·.id == id)).map (·.id) = placed := by
  intro placed
  induction placed with
  | nil => intro _; rfl
  | cons id rest ih =>
      intro hknown
      obtain ⟨n, hfind, hn⟩ := exists_find? (hknown id List.mem_cons_self)
      have hrest := ih fun x hx => hknown x (List.mem_cons_of_mem _ hx)
      simp only [List.filterMap_cons, hfind, List.map_cons, hn, hrest]

theorem arrange_ids (nodes : List Node) (edges : List Edge) :
    (arrange nodes edges).ids =
      (Sweep.finish (known nodes) (links (known nodes) edges)).placed :=
  map_id_filterMap_find? _ _ fun id hid =>
    (Sweep.sequenced_finish (firsts_nodup nodes) _).subset id hid

theorem sequenced_arrange (nodes : List Node) (edges : List Edge) :
    Sequenced (known nodes) (links (known nodes) edges) (arrange nodes edges).ids := by
  rw [arrange_ids]
  exact Sweep.sequenced_finish (firsts_nodup nodes) _

theorem mem_order_iff {nodes : List Node} {edges : List Edge} {n : Node} :
    n ∈ (arrange nodes edges).order ↔
      nodes.find? (·.id == n.id) = some n ∧ n.id ∈ (arrange nodes edges).ids := by
  have hids := arrange_ids nodes edges
  constructor
  · intro hn
    have hmem : n.id ∈ (arrange nodes edges).ids := List.mem_map.mpr ⟨n, hn, rfl⟩
    obtain ⟨id, -, hfind⟩ := List.mem_filterMap.mp hn
    have hid : n.id = id := by simpa using List.find?_some hfind
    rw [find?_firsts, ← hid] at hfind
    exact ⟨hfind, hmem⟩
  · rintro ⟨hfind, hmem⟩
    refine List.mem_filterMap.mpr ⟨n.id, ?_, ?_⟩
    · rw [hids] at hmem
      exact hmem
    · rw [find?_firsts]
      exact hfind

theorem mem_excluded_iff {nodes : List Node} {edges : List Edge} {n : Node} :
    n ∈ (arrange nodes edges).excluded ↔
      nodes.find? (·.id == n.id) = some n ∧ n.id ∉ (arrange nodes edges).ids := by
  rw [← mem_firsts_iff, arrange_ids]
  simp [arrange, known]

theorem mem_excludedIds_iff {nodes : List Node} {edges : List Edge} {id : String} :
    id ∈ (arrange nodes edges).excludedIds ↔
      id ∈ known nodes ∧ id ∉ (arrange nodes edges).ids := by
  simp only [Linearization.excludedIds, known, List.mem_map, mem_excluded_iff, ← mem_firsts_iff]
  constructor
  · rintro ⟨n, ⟨hn, hout⟩, rfl⟩
    exact ⟨⟨n, hn, rfl⟩, hout⟩
  · rintro ⟨⟨n, hn, rfl⟩, hout⟩
    exact ⟨n, ⟨hn, hout⟩, rfl⟩

theorem excludedIds_sublist (nodes : List Node) (edges : List Edge) :
    (arrange nodes edges).excludedIds.Sublist (known nodes) :=
  List.Sublist.map Node.id List.filter_sublist

/-- What is excluded stays in the order of the node list. -/
theorem excludedIds_pairwise (nodes : List Node) (edges : List Edge) :
    (arrange nodes edges).excludedIds.Pairwise
      fun a b => (nodes.map (·.id)).idxOf a < (nodes.map (·.id)).idxOf b :=
  (firsts_pairwise nodes).sublist (excludedIds_sublist nodes edges)

/-! ## Cycles -/

/-- An edge leads from one id to another, and both have a node. -/
def Joins (nodes : List Node) (edges : List Edge) (source target : String) : Prop :=
  ∃ e ∈ edges, e.source = source ∧ e.target = target ∧
    source ∈ nodes.map (·.id) ∧ target ∈ nodes.map (·.id)

theorem joins_iff {nodes : List Node} {edges : List Edge} {u v : String} :
    Joins nodes edges u v ↔
      ∃ e ∈ links (known nodes) edges, e.source = u ∧ e.target = v := by
  simp only [Joins, mem_links_iff, known, mem_firsts_ids_iff]
  constructor
  · rintro ⟨e, he, rfl, rfl, hsource, htarget⟩
    exact ⟨e, ⟨he, hsource, htarget⟩, rfl, rfl⟩
  · rintro ⟨e, ⟨he, hsource, htarget⟩, rfl, rfl⟩
    exact ⟨e, he, rfl, rfl, hsource, htarget⟩

/-- The ids of a list from which an id can be reached. -/
abbrev Behind (R : String → String → Prop) (left : List String) (v : String) :=
  { u : String // u ∈ left ∧ ReflTransGen R u v }

/-- Where every id has a predecessor among finitely many, every id is behind a
cycle: else "is behind" would be well founded, and have a first id. -/
theorem exists_cycle_behind {R : String → String → Prop} {left : List String}
    (hpred : ∀ v ∈ left, ∃ u ∈ left, R u v) {v : String} (hv : v ∈ left) :
    ∃ c, TransGen R c c ∧ ReflTransGen R c v := by
  by_contra hnone
  have hacyclic : ∀ c, ReflTransGen R c v → ¬ TransGen R c c :=
    fun c hbehind hcycle => hnone ⟨c, hcycle, hbehind⟩
  have : Finite (Behind R left v) := (left.finite_toSet.subset fun u hu => hu.1).to_subtype
  have : IsTrans (Behind R left v) fun a b => TransGen R a.1 b.1 :=
    ⟨fun _ _ _ hab hbc => hab.trans hbc⟩
  have : Std.Irrefl fun a b : Behind R left v => TransGen R a.1 b.1 :=
    ⟨fun a => hacyclic a.1 a.2.2⟩
  have hfounded : WellFounded fun a b : Behind R left v => TransGen R a.1 b.1 :=
    Finite.wellFounded_of_trans_of_irrefl _
  obtain ⟨first, -, hfirst⟩ := hfounded.has_min Set.univ ⟨⟨v, hv, .refl⟩, trivial⟩
  obtain ⟨u, hu, hstep⟩ := hpred first.1 first.2.1
  exact hfirst ⟨u, hu, first.2.2.head hstep⟩ trivial (.single hstep)

section Reach

variable {nodes : List Node} {edges : List Edge} {u v : String}

/-- A joined pair goes forward in the sequence once it ends there. -/
theorem Joins.idxOf_lt (h : Joins nodes edges u v) (hv : v ∈ (arrange nodes edges).ids) :
    u ∈ (arrange nodes edges).ids ∧
      (arrange nodes edges).ids.idxOf u < (arrange nodes edges).ids.idxOf v := by
  obtain ⟨e, he, rfl, rfl⟩ := joins_iff.mp h
  have hforward := (sequenced_arrange nodes edges).forward
  exact ⟨hforward.source_mem he hv, hforward e he hv⟩

theorem idxOf_lt_of_transGen (h : TransGen (Joins nodes edges) u v)
    (hv : v ∈ (arrange nodes edges).ids) :
    u ∈ (arrange nodes edges).ids ∧
      (arrange nodes edges).ids.idxOf u < (arrange nodes edges).ids.idxOf v := by
  induction h with
  | single hstep => exact hstep.idxOf_lt hv
  | tail _ hstep ih =>
      obtain ⟨hmem, hlt⟩ := hstep.idxOf_lt hv
      obtain ⟨hmem', hlt'⟩ := ih hmem
      exact ⟨hmem', Nat.lt_trans hlt' hlt⟩

/-- An id outside the sequence is joined from another one outside. -/
theorem exists_joins_excluded (hv : v ∈ (arrange nodes edges).excludedIds) :
    ∃ u ∈ (arrange nodes edges).excludedIds, Joins nodes edges u v := by
  obtain ⟨hknown, hout⟩ := mem_excludedIds_iff.mp hv
  by_contra hnone
  refine hout ((sequenced_arrange nodes edges).complete v hknown fun e he ht => ?_)
  by_contra hsource
  exact hnone ⟨e.source, mem_excludedIds_iff.mpr ⟨links_source he, hsource⟩,
    joins_iff.mpr ⟨e, he, rfl, ht⟩⟩

/-- **Excluded are the ids on a cycle and those behind one.** -/
theorem mem_excludedIds_iff_cycle :
    v ∈ (arrange nodes edges).excludedIds ↔
      ∃ c, TransGen (Joins nodes edges) c c ∧ ReflTransGen (Joins nodes edges) c v := by
  constructor
  · intro hv
    exact exists_cycle_behind (fun _ => exists_joins_excluded) hv
  · rintro ⟨c, hcycle, hbehind⟩
    have hc : c ∉ (arrange nodes edges).ids := fun hmem =>
      Nat.lt_irrefl _ (idxOf_lt_of_transGen hcycle hmem).2
    have hcv : TransGen (Joins nodes edges) c v := by
      rcases reflTransGen_iff_eq_or_transGen.mp hbehind with heq | htrans
      · rw [heq]
        exact hcycle
      · exact htrans
    have hv : v ∉ (arrange nodes edges).ids := fun hmem => hc (idxOf_lt_of_transGen hcv hmem).1
    obtain ⟨w, -, hlast⟩ := TransGen.tail'_iff.mp hcv
    obtain ⟨e, he, -, rfl⟩ := joins_iff.mp hlast
    exact mem_excludedIds_iff.mpr ⟨links_target he, hv⟩

end Reach

/-- **Linearization is sound and complete**: the sequence and what is excluded
share out the first nodes of all ids; edges go forward in the sequence; excluded
is what a cycle keeps out, in the order of the node list. -/
theorem arrange_sound_and_complete (nodes : List Node) (edges : List Edge) :
    let l := arrange nodes edges
    ((l.order ++ l.excluded).map (·.id)).Nodup ∧
    (∀ n, n ∈ l.order ++ l.excluded ↔ nodes.find? (·.id == n.id) = some n) ∧
    (∀ u v, Joins nodes edges u v → v ∈ l.ids → u ∈ l.ids ∧ l.ids.idxOf u < l.ids.idxOf v) ∧
    (∀ id, id ∈ l.excludedIds ↔
      ∃ c, TransGen (Joins nodes edges) c c ∧ ReflTransGen (Joins nodes edges) c id) ∧
    l.excludedIds.Pairwise
      (fun a b => (nodes.map (·.id)).idxOf a < (nodes.map (·.id)).idxOf b) := by
  refine ⟨?_, fun n => ?_, fun u v h => h.idxOf_lt, fun id => mem_excludedIds_iff_cycle,
    excludedIds_pairwise nodes edges⟩
  · rw [List.map_append, List.nodup_append]
    refine ⟨(sequenced_arrange nodes edges).nodup,
      (firsts_nodup nodes).sublist (excludedIds_sublist nodes edges), fun a ha b hb heq => ?_⟩
    exact (mem_excludedIds_iff.mp hb).2 (heq ▸ ha)
  · rw [List.mem_append, mem_order_iff, mem_excluded_iff, ← and_or_left]
    exact and_iff_left (Classical.em _)

end Runbook.Graph
