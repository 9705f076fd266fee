import Mathlib.Data.List.Dedup
import Runbook.Proofs.Graph.Cycle

/-!
# The counters of the sweep

The loop that puts a graph into sequence, told in the nodes and edges that it is given.
Before each step a counter is the number of edges that hold its id back (`Sweep.Tallied`).
Within a step the counters go down edge by edge and never below what holds the id back
afterwards, so that no id is released twice (`Sweep.Discharged`). Both are read off the loop
invariant `Sweep.Exact`. As each step places an id for good, the loop stops.
Main statement: `sweep_tallied_and_stops`.
-/

namespace Runbook.Graph

variable {nodes : List Node} {edges : List Edge} {id : String}

/-! ## Edges that hold an id back -/

/-- How many edges hold an id back: those that enter it from an id that a node has and
that is not placed. -/
def holding (nodes : List Node) (edges : List Edge) (placed : List String) (id : String) : Nat :=
  edges.countP fun e => e.target = id ∧ e.source ∈ nodes.map (·.id) ∧ e.source ∉ placed

/-- The links that are open are the edges that hold an id back, if a node has the id. -/
theorem openInto_links (hid : id ∈ known nodes) (edges : List Edge) (placed : List String) :
    Sweep.openInto (links (known nodes) edges) placed id = holding nodes edges placed id := by
  rw [Sweep.openInto, links, List.countP_filter, holding]
  refine List.countP_congr fun e _ => ?_
  have hsource : e.source ∈ known nodes ↔ e.source ∈ nodes.map (·.id) := mem_firsts_ids_iff
  by_cases htarget : e.target = id
  · simp [htarget, hid, hsource, and_comm]
  · simp [htarget]

/-- The ids of a sequence are the ids of the node list, once each. -/
theorem known_perm_dedup (nodes : List Node) : (known nodes).Perm (nodes.map (·.id)).dedup := by
  refine (List.perm_ext_iff_of_nodup (firsts_nodup nodes) (List.nodup_dedup _)).mpr fun id => ?_
  rw [List.mem_dedup]
  exact mem_firsts_ids_iff

namespace Sweep

variable {s : Sweep} {current : String} {waiting : List String}

/-! ## Before a step -/

/-- **What holds before each step of the loop**: there is one counter for each id of a node,
and it is the number of edges that hold the id back; the ids that are queued or placed are,
once each, those whose counter is zero. -/
structure Tallied (nodes : List Node) (edges : List Edge) (s : Sweep) : Prop where
  keys : s.degree.keys.Perm (nodes.map (·.id)).dedup
  count : ∀ id ∈ nodes.map (·.id), s.degree.get id = holding nodes edges s.placed id
  nodup : (s.queue ++ s.placed).Nodup
  free : ∀ id, id ∈ s.queue ++ s.placed ↔ id ∈ nodes.map (·.id) ∧ s.degree.get id = 0

theorem Exact.tallied (h : Exact (known nodes) (links (known nodes) edges) s) :
    Tallied nodes edges s where
  keys := h.keys ▸ known_perm_dedup nodes
  count := by
    intro id hid
    have hmem : id ∈ known nodes := mem_firsts_ids_iff.mpr hid
    rw [h.count id hmem, openInto_links hmem]
  nodup := h.nodup
  free := by
    intro id
    rw [h.free id]
    exact and_congr_left fun _ => mem_firsts_ids_iff

/-! ## Within a step -/

/-- The ends of the links that leave an id, in the order in which a step closes them. -/
def exits (links : List Edge) (current : String) : List String :=
  (links.filter (·.source == current)).map (·.target)

/-- **What holds within a step** that places `current`: when some of the exits are closed, a
counter is what will hold its id back after the step, and the exits to the id among the
rest. No id is released twice, and what is released is queued, in the order of the node
list. -/
structure Discharged (nodes : List Node) (edges : List Edge) (s : Sweep) (current : String)
    (waiting : List String) : Prop where
  count : ∀ closed rest, closed ++ rest = exits (links (known nodes) edges) current →
    ∀ id ∈ nodes.map (·.id), (closed.foldl close (s.degree, [])).1.get id =
      (holding nodes edges (s.placed ++ [current]) id + rest.count id : Nat)
  nodup : (closing (links (known nodes) edges) s current).2.Nodup
  step : ∃ batch : List String, batch.Perm (closing (links (known nodes) edges) s current).2 ∧
    batch.Sublist (known nodes) ∧
    s.step (known nodes) (links (known nodes) edges) =
      ⟨(closing (links (known nodes) edges) s current).1, waiting ++ batch, s.placed ++ [current]⟩

/-- What a step releases has a node. -/
theorem mem_known_of_released (h : id ∈ (closing (links (known nodes) edges) s current).2) :
    id ∈ known nodes := by
  rcases mem_of_mem_foldl_close _ _ h with hnone | hexit
  · exact absurd hnone List.not_mem_nil
  · obtain ⟨e, he, rfl⟩ := List.mem_map.mp hexit
    exact links_target (List.mem_of_mem_filter he)

theorem Exact.released_nodup (h : Exact (known nodes) (links (known nodes) edges) s)
    (hqueue : s.queue = current :: waiting) :
    (closing (links (known nodes) edges) s current).2.Nodup := by
  refine List.nodup_iff_count_le_one.mpr fun id => ?_
  by_cases hid : id ∈ known nodes
  · rw [h.count_released hqueue hid]
    split <;> omega
  · rw [List.count_eq_zero_of_not_mem (mt mem_known_of_released hid)]
    exact Nat.zero_le 1

theorem Exact.discharged (h : Exact (known nodes) (links (known nodes) edges) s)
    (hqueue : s.queue = current :: waiting) : Discharged nodes edges s current waiting where
  count := by
    intro closed rest hsplit id hid
    have hmem : id ∈ known nodes := mem_firsts_ids_iff.mpr hid
    have hkey : id ∈ s.degree.keys := h.keys.symm ▸ hmem
    have hcount := h.count id hmem
    have hsnoc : openInto (links (known nodes) edges) s.placed id =
        openInto (links (known nodes) edges) (s.placed ++ [current]) id +
          (exits (links (known nodes) edges) current).count id :=
      openInto_snoc (h.not_mem_placed hqueue) _ id
    have hclosed : (closed.foldl close (s.degree, [])).1.get id =
        s.degree.get id - (closed.count id : Nat) := get_foldl_close _ (s.degree, []) hkey
    rw [← hsplit, List.count_append] at hsnoc
    rw [hclosed, ← openInto_links hmem]
    omega
  nodup := h.released_nodup hqueue
  step := by
    refine ⟨_, ?_, List.filter_sublist, step_eq hqueue⟩
    refine (List.perm_ext_iff_of_nodup ((firsts_nodup nodes).filter _)
      (h.released_nodup hqueue)).mpr fun id => ?_
    rw [List.mem_filter, List.contains_iff_mem]
    exact and_iff_right_of_imp mem_known_of_released

/-! ## The end of the loop -/

/-- The queue is empty for the first time after at most a step for each id. -/
theorem exists_end {ids : List String} (hids : ids.Nodup) (links : List Edge) :
    ∃ n ≤ ids.length, ((start ids links).run ids links n).queue = [] ∧
      ∀ m < n, ((start ids links).run ids links m).queue ≠ [] := by
  have hall : ((start ids links).run ids links ids.length).queue = [] := finish_queue hids links
  have hend : ∃ n, ((start ids links).run ids links n).queue = [] := ⟨_, hall⟩
  have hgoes : ∀ m < Nat.find hend, ((start ids links).run ids links m).queue ≠ [] :=
    fun _ => Nat.find_min hend
  exact ⟨Nat.find hend, Nat.le_of_not_lt fun hlt => hgoes _ hlt hall, Nat.find_spec hend, hgoes⟩

end Sweep

/-- **The counters are exact, and the loop stops**: its invariant holds before and within
each step, and it comes to an end when the queue is empty for the first time, after a step
for each id that it has placed, which are at most the ids of the node list. -/
theorem sweep_tallied_and_stops (nodes : List Node) (edges : List Edge) :
    let ids := known nodes
    let state := fun n => (Sweep.start ids (links ids edges)).run ids (links ids edges) n
    (∀ n, Sweep.Tallied nodes edges (state n)) ∧
    (∀ n current waiting, (state n).queue = current :: waiting →
      Sweep.Discharged nodes edges (state n) current waiting) ∧
    ∃ n ≤ (nodes.map (·.id)).dedup.length,
      (∀ m < n, (state m).queue ≠ []) ∧ (state n).queue = [] ∧
      (state n).placed = (arrange nodes edges).ids ∧ (state n).placed.length = n := by
  intro ids state
  have hids : ids.Nodup := firsts_nodup nodes
  have hexact : ∀ n, Sweep.Exact ids (links ids edges) (state n) :=
    fun n => (Sweep.exact_start hids _).run hids n
  refine ⟨fun n => (hexact n).tallied, fun n current waiting hqueue => (hexact n).discharged hqueue,
    ?_⟩
  obtain ⟨n, hbound, hempty, hgoes⟩ := Sweep.exists_end hids (links ids edges)
  refine ⟨n, (known_perm_dedup nodes).length_eq ▸ hbound, hgoes, hempty, ?_, ?_⟩
  · rw [arrange_ids, Sweep.finish]
    exact congrArg Sweep.placed (Sweep.run_of_queue_nil hbound hempty).symm
  · have hplaced : (state n).placed.length = 0 + n := Sweep.length_placed_run n hgoes
    rw [hplaced, Nat.zero_add]

end Runbook.Graph
