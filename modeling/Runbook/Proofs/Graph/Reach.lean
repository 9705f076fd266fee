import Mathlib.Data.Nat.Find
import Mathlib.Logic.Relation
import Mathlib.Order.Bounds.Defs
import Runbook.Graph.Reach

/-!
# What a search finds

The search from some ids finds what chains of edges join to one of them, and nothing
else (`mem_reachable_iff`). An id is put on the stack as a start, or as the end of an
edge from an id that was found before (`Search.Sound`); and an id that is found has
put the ends of its edges there (`Search.Closed`). The stack may grow, but every step
takes one id off it and puts there only the ends of edges that were not followed
before, so that what is left to do goes down by one (`Search.left_step`).
Main statement: `search_ends_with_least_closed_set`.
-/

namespace Runbook.Graph

open Relation

variable {edges : List Edge} {starts : List String} {s : Search} {id : String}

/-- An edge leads from one id to another, whether or not they have nodes. -/
def Connects (edges : List Edge) (source target : String) : Prop :=
  ∃ e ∈ edges, e.source = source ∧ e.target = target

namespace Search

/-! ## Runs -/

theorem run_succ (edges : List Edge) (n : Nat) : ∀ s : Search,
    s.run edges (n + 1) = (s.run edges n).step edges := by
  induction n with
  | zero => intro s; rfl
  | succ n ih => intro s; exact ih (s.step edges)

/-- What every step keeps, a run keeps. -/
theorem run_keeps {P : Search → Prop} (hstep : ∀ s, P s → P (s.step edges)) (n : Nat) :
    ∀ {s : Search}, P s → P (s.run edges n) := by
  induction n with
  | zero => exact fun h => h
  | succ n ih => exact fun h => ih (hstep _ h)

/-- An empty stack ends the search. -/
theorem run_of_stack_nil {m n : Nat} (hmn : m ≤ n) (h : (s.run edges m).stack = []) :
    s.run edges n = s.run edges m := by
  induction hmn with
  | refl => rfl
  | step _ ih => rw [run_succ, ih, step, h]

/-! ## What is found -/

/-- **The search invariant**: chains of edges lead from the starts to what is found,
and to what is still to be looked at. -/
def Sound (edges : List Edge) (starts : List String) (s : Search) : Prop :=
  ∀ id, id ∈ s.seen ∨ id ∈ s.stack → ∃ start ∈ starts, ReflTransGen (Connects edges) start id

theorem Sound.step (h : s.Sound edges starts) : (s.step edges).Sound edges starts := by
  intro id hid
  rw [Search.step] at hid
  split at hid
  · exact h id hid
  · rename_i current rest hstack
    have hcurrent : current ∈ s.stack := by simp [hstack]
    have hrest : ∀ x ∈ rest, x ∈ s.stack := fun x hx => by simp [hstack, hx]
    split at hid
    · exact h id (hid.imp_right (hrest id))
    · rcases hid with hseen | hstack'
      · rcases List.mem_append.mp hseen with hold | hnew
        · exact h id (.inl hold)
        · rw [List.mem_singleton.mp hnew]
          exact h current (.inr hcurrent)
      · rcases List.mem_append.mp hstack' with htarget | hold
        · -- the end of an edge from the id that is looked at
          obtain ⟨e, he, rfl⟩ := List.mem_map.mp (List.mem_reverse.mp htarget)
          obtain ⟨hedge, hsource⟩ := List.mem_filter.mp he
          obtain ⟨start, hstart, hpath⟩ := h current (.inr hcurrent)
          exact ⟨start, hstart, hpath.tail ⟨e, hedge, by simpa using hsource, rfl⟩⟩
        · exact h id (.inr (hrest id hold))

theorem Sound.run (n : Nat) (h : s.Sound edges starts) : (s.run edges n).Sound edges starts :=
  run_keeps (P := Sound edges starts) (fun _ => Sound.step) n h

/-- **What a search has come by**: the starts, and the ends of the edges from what is
found, are found too or still to be looked at. -/
structure Closed (edges : List Edge) (starts : List String) (s : Search) : Prop where
  start_mem : ∀ id ∈ starts, id ∈ s.seen ∨ id ∈ s.stack
  target_mem : ∀ e ∈ edges, e.source ∈ s.seen → e.target ∈ s.seen ∨ e.target ∈ s.stack

/-- A step loses nothing that was found or still to be looked at. -/
theorem mem_step (h : id ∈ s.seen ∨ id ∈ s.stack) :
    id ∈ (s.step edges).seen ∨ id ∈ (s.step edges).stack := by
  rw [Search.step]
  split
  · exact h
  · rename_i current rest hstack
    rw [hstack, List.mem_cons] at h
    split
    · rename_i hseen
      rcases h with h | rfl | h
      · exact .inl h
      · exact .inl (List.contains_iff_mem.mp hseen)
      · exact .inr h
    · rcases h with h | rfl | h
      · exact .inl (List.mem_append_left _ h)
      · exact .inl (List.mem_append_right _ List.mem_cons_self)
      · exact .inr (List.mem_append_right _ h)

theorem Closed.step (h : s.Closed edges starts) : (s.step edges).Closed edges starts where
  start_mem id hid := mem_step (h.start_mem id hid)
  target_mem := by
    intro e he hsource
    by_cases hold : e.source ∈ s.seen
    · exact mem_step (h.target_mem e he hold)
    · -- the source is found by this step, which puts the ends of its edges on the stack
      rw [Search.step] at hsource ⊢
      split at hsource
      · exact absurd hsource hold
      · rename_i current rest hstack
        split at hsource
        · exact absurd hsource hold
        · rename_i hnew
          have hcurrent : e.source = current := by simpa [hold] using hsource
          have htarget : e.target ∈ (edges.filter (·.source == current)).map (·.target) :=
            List.mem_map_of_mem (List.mem_filter.mpr ⟨he, by simpa using hcurrent⟩)
          rw [if_neg hnew]
          exact .inr (List.mem_append_left _ (List.mem_reverse.mpr htarget))

theorem Closed.run (n : Nat) (h : s.Closed edges starts) : (s.run edges n).Closed edges starts :=
  run_keeps (P := Closed edges starts) (fun _ => Closed.step) n h

/-- No id is found twice. -/
theorem nodup_step (h : s.seen.Nodup) : (s.step edges).seen.Nodup := by
  rw [Search.step]
  split
  · exact h
  · split
    · exact h
    · rename_i hnew
      refine List.nodup_append.mpr ⟨h, List.nodup_cons.mpr ⟨List.not_mem_nil, List.nodup_nil⟩, ?_⟩
      rintro id hold _ hmem rfl
      rw [List.mem_singleton.mp hmem] at hold
      exact hnew (List.contains_iff_mem.mpr hold)

theorem nodup_run (n : Nat) (h : s.seen.Nodup) : (s.run edges n).seen.Nodup :=
  run_keeps (P := fun s => s.seen.Nodup) (fun _ => nodup_step) n h

/-! ## The end of a search -/

/-- What is left to do: the ids on the stack, and the edges that are not followed yet. -/
def left (edges : List Edge) (s : Search) : Nat :=
  s.stack.length + edges.countP fun e => !s.seen.contains e.source

/-- To find an id is to follow the edges that leave it. -/
theorem countP_snoc {seen : List String} {current : String} (hnew : current ∉ seen)
    (edges : List Edge) :
    edges.countP (fun e => !seen.contains e.source) =
      edges.countP (fun e => !(seen ++ [current]).contains e.source) +
        (edges.filter (·.source == current)).length := by
  induction edges with
  | nil => rfl
  | cons e rest ih =>
      rw [List.countP_cons, List.countP_cons, ih]
      by_cases hsource : e.source = current
      · rw [List.filter_cons_of_pos (by simpa using hsource), List.length_cons]
        simp [hsource, hnew]
        omega
      · rw [List.filter_cons_of_neg (by simpa using hsource)]
        simp [hsource]
        omega

/-- **Every step leaves less to do**, so long as there is an id to look at. -/
theorem left_step (h : s.stack ≠ []) : (s.step edges).left edges + 1 = s.left edges := by
  rw [Search.step]
  split
  · contradiction
  · rename_i current rest hstack
    split
    · simp only [left, hstack, List.length_cons]
      omega
    · rename_i hnew
      have hout : current ∉ s.seen := by simpa using hnew
      have hcount := countP_snoc hout edges
      simp only [left, hstack, List.length_append, List.length_reverse, List.length_map,
        List.length_cons]
      omega

/-- So long as the search goes on, what is left goes down by one with each step. -/
theorem left_run : ∀ n : Nat, (∀ m < n, (s.run edges m).stack ≠ []) →
    (s.run edges n).left edges + n = s.left edges := by
  intro n
  induction n with
  | zero => intro _; rfl
  | succ n ih =>
      intro hgoes
      have hstep : ((s.run edges n).step edges).left edges + 1 = (s.run edges n).left edges :=
        left_step (hgoes n (Nat.lt_succ_self n))
      have hbefore := ih fun m hm => hgoes m (Nat.lt_succ_of_lt hm)
      rw [run_succ]
      omega

/-- As many steps as there are things to do empty the stack. -/
theorem stack_run {n : Nat} (h : s.left edges ≤ n) : (s.run edges n).stack = [] := by
  by_contra hstack
  have hgoes : ∀ m < n, (s.run edges m).stack ≠ [] :=
    fun m hm hempty => hstack (by rw [run_of_stack_nil (Nat.le_of_lt hm) hempty, hempty])
  have hleft := left_run n hgoes
  rw [left] at hleft
  exact hstack (List.eq_nil_of_length_eq_zero (by omega))

/-- A search comes to an end. -/
theorem exists_end (edges : List Edge) (s : Search) :
    ∃ n ≤ s.left edges, (s.run edges n).stack = [] ∧ ∀ m < n, (s.run edges m).stack ≠ [] := by
  have hall : (s.run edges (s.left edges)).stack = [] := stack_run (Nat.le_refl _)
  have hend : ∃ n, (s.run edges n).stack = [] := ⟨_, hall⟩
  have hgoes : ∀ m < Nat.find hend, (s.run edges m).stack ≠ [] := fun _ => Nat.find_min hend
  exact ⟨Nat.find hend, Nat.le_of_not_lt fun hlt => hgoes _ hlt hall, Nat.find_spec hend, hgoes⟩

end Search

theorem exists_path_of_mem_reachable (h : id ∈ reachable edges starts) :
    ∃ start ∈ starts, ReflTransGen (Connects edges) start id := by
  have hstart : Search.Sound edges starts ⟨[], starts.reverse⟩ := by
    intro id hid
    have hmem : id ∈ starts := by simpa using hid
    exact ⟨id, hmem, .refl⟩
  exact hstart.run _ id (.inl h)

/-- The search comes to an end, and has then found the starts, and the ends of the edges
from what it found. -/
theorem closed_reachable (edges : List Edge) (starts : List String) :
    (∀ id ∈ starts, id ∈ reachable edges starts) ∧
    ∀ e ∈ edges, e.source ∈ reachable edges starts → e.target ∈ reachable edges starts := by
  have hstart : Search.Closed edges starts ⟨[], starts.reverse⟩ :=
    ⟨fun id hid => .inr (List.mem_reverse.mpr hid), fun _ _ hseen => absurd hseen List.not_mem_nil⟩
  obtain ⟨hstarts, htargets⟩ := hstart.run (starts.length + edges.length)
  have hstack : (Search.run edges (starts.length + edges.length) ⟨[], starts.reverse⟩).stack = [] :=
    Search.stack_run (by simp [Search.left])
  simp only [hstack, List.not_mem_nil, or_false] at hstarts htargets
  exact ⟨hstarts, htargets⟩

/-- A set that has, with the source of an edge, its target has all of a chain of edges. -/
theorem mem_of_path {ids : Set String} (h : ∀ e ∈ edges, e.source ∈ ids → e.target ∈ ids)
    {source target : String} (hpath : ReflTransGen (Connects edges) source target)
    (hsource : source ∈ ids) : target ∈ ids := by
  induction hpath with
  | refl => exact hsource
  | tail _ hedge ih =>
      obtain ⟨e, he, rfl, rfl⟩ := hedge
      exact h e he ih

/-- **Reachable is what a chain of edges joins to a start.** -/
theorem mem_reachable_iff :
    id ∈ reachable edges starts ↔ ∃ start ∈ starts, ReflTransGen (Connects edges) start id := by
  obtain ⟨hstart, hstep⟩ := closed_reachable edges starts
  refine ⟨exists_path_of_mem_reachable, ?_⟩
  rintro ⟨start, hmem, hpath⟩
  show id ∈ {id | id ∈ reachable edges starts}
  exact mem_of_path hstep hpath (hstart start hmem)

/-- **The search ends, and finds the least closed set**: the stack is empty for the first
time after a step for each start and for each edge that leaves what is found. Found is, once
each, what a chain of edges joins to a start; so it is the least set of ids that has the
starts and, with the source of an edge, its target. -/
theorem search_ends_with_least_closed_set (edges : List Edge) (starts : List String) :
    let state := fun n => Search.run edges n ⟨[], starts.reverse⟩
    let found := reachable edges starts
    (∃ n, (state n).stack = [] ∧ (∀ m < n, (state m).stack ≠ []) ∧ (state n).seen = found ∧
      n = starts.length + edges.countP fun e => found.contains e.source) ∧
    found.Nodup ∧
    (∀ id, id ∈ found ↔ ∃ start ∈ starts, ReflTransGen (Connects edges) start id) ∧
    IsLeast {ids : Set String | (∀ id ∈ starts, id ∈ ids) ∧
      ∀ e ∈ edges, e.source ∈ ids → e.target ∈ ids} {id | id ∈ found} := by
  intro state found
  have hleft : (state 0).left edges = starts.length + edges.length := by
    simp [state, Search.run, Search.left]
  refine ⟨?_, Search.nodup_run _ List.nodup_nil, fun id => mem_reachable_iff,
    closed_reachable edges starts, ?_⟩
  · obtain ⟨n, hbound, (hempty : (state n).stack = []), hgoes⟩ := Search.exists_end edges (state 0)
    have hseen : (state n).seen = found :=
      congrArg Search.seen (Search.run_of_stack_nil (hleft ▸ hbound) hempty).symm
    refine ⟨n, hempty, hgoes, hseen, ?_⟩
    -- what is left at the end are the edges that leave no id that is found
    have hcount : (state n).left edges + n = (state 0).left edges := Search.left_run n hgoes
    have hend : (state n).left edges = edges.countP fun e => !found.contains e.source := by
      rw [Search.left, hempty, hseen, List.length_nil, Nat.zero_add]
    have hparts : edges.length = (edges.countP fun e => found.contains e.source) +
        edges.countP fun e => !found.contains e.source := by
      simpa using List.length_eq_countP_add_countP (fun e : Edge => found.contains e.source)
    omega
  · rintro ids ⟨hstarts, htargets⟩ id hid
    obtain ⟨start, hstart, hpath⟩ := mem_reachable_iff.mp hid
    exact mem_of_path htargets hpath (hstarts start hstart)

end Runbook.Graph
