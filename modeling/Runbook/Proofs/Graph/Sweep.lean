import Mathlib.Data.List.Count
import Runbook.Proofs.Graph.Forward

/-!
# The sweep

What the loop that puts a graph into sequence keeps true. `Sweep.Exact` is the
loop invariant: the counters are exact, nothing is released twice, and what is
released is what waits for nothing. `Sweep.sequenced_finish` reads off the end
of the loop that the result is `Sequenced`.
-/

namespace Runbook.Graph

/-! ## Counters -/

namespace Counts

/-- The ids that have a number. -/
def keys (counts : Counts) : List String := counts.map Prod.fst

@[simp] theorem keys_zero (ids : List String) : (zero ids).keys = ids := by
  simp [keys, zero, Function.comp_def]

@[simp] theorem keys_add (counts : Counts) (id : String) (amount : Int) :
    (counts.add id amount).keys = counts.keys := by
  simp only [keys, add, List.map_map]
  refine List.map_congr_left fun entry _ => ?_
  simp only [Function.comp_apply]
  split <;> rfl

theorem get_zero (ids : List String) (id : String) : (zero ids).get id = 0 := by
  induction ids with
  | nil => rfl
  | cons a rest ih =>
      simp only [zero, List.map_cons, get] at ih ⊢
      split
      · rfl
      · exact ih

theorem get_add_of_mem {counts : Counts} {other : String} (h : other ∈ counts.keys)
    (id : String) (amount : Int) :
    (counts.add id amount).get other =
      if id = other then counts.get other + amount else counts.get other := by
  have hmem : other ∈ counts.map Prod.fst := h
  rw [get_add]
  simp [hmem]

end Counts

/-- Adding up the links gives each id the number of links that end there. -/
theorem get_foldl_add (links : List Edge) : ∀ (counts : Counts) {id : String},
    id ∈ counts.keys →
    (links.foldl (fun counts e => counts.add e.target 1) counts).get id =
      counts.get id + (links.countP (·.target == id) : Nat) := by
  induction links with
  | nil => intro counts id _; simp
  | cons e rest ih =>
      intro counts id hid
      rw [List.foldl_cons, ih _ (by simpa using hid), Counts.get_add_of_mem hid,
        List.countP_cons]
      by_cases htarget : e.target = id
      · simp only [htarget, if_true, beq_self_eq_true]
        omega
      · simp [htarget]

theorem keys_foldl_add (links : List Edge) : ∀ counts : Counts,
    (links.foldl (fun counts e => counts.add e.target 1) counts).keys = counts.keys := by
  induction links with
  | nil => intro counts; rfl
  | cons e rest ih => intro counts; rw [List.foldl_cons, ih, Counts.keys_add]

@[simp] theorem keys_inDegrees (ids : List String) (links : List Edge) :
    (inDegrees ids links).keys = ids := by
  rw [inDegrees, keys_foldl_add, Counts.keys_zero]

theorem get_inDegrees {ids : List String} {id : String} (hid : id ∈ ids) (links : List Edge) :
    (inDegrees ids links).get id = (links.countP (·.target == id) : Nat) := by
  rw [inDegrees, get_foldl_add links _ (by simpa using hid), Counts.get_zero]
  omega

/-! ## One step -/

namespace Sweep

/-- Closing edges takes from each counter what it has among the targets. -/
theorem get_foldl_close (targets : List String) : ∀ (state : Counts × List String) {id : String},
    id ∈ state.1.keys →
    (targets.foldl close state).1.get id = state.1.get id - (targets.count id : Nat) := by
  induction targets with
  | nil => intro state id _; simp
  | cons t rest ih =>
      intro state id hid
      rw [List.foldl_cons, ih _ (by simpa [close] using hid), close,
        Counts.get_add_of_mem hid, List.count_cons]
      by_cases ht : t = id
      · simp only [ht, if_true, beq_self_eq_true]
        omega
      · simp [ht]

theorem keys_foldl_close (targets : List String) : ∀ state : Counts × List String,
    (targets.foldl close state).1.keys = state.1.keys := by
  induction targets with
  | nil => intro state; rfl
  | cons t rest ih => intro state; rw [List.foldl_cons, ih, close, Counts.keys_add]

/-- Closing an edge releases its target iff the counter stood at one. -/
theorem count_close {state : Counts × List String} {id : String} (hid : id ∈ state.1.keys)
    (t : String) :
    (close state t).2.count id =
      state.2.count id + if t = id ∧ state.1.get id = 1 then 1 else 0 := by
  by_cases ht : t = id
  · subst ht
    have hget : (state.1.add t (-1)).get t = state.1.get t + -1 := by
      rw [Counts.get_add_of_mem hid, if_pos rfl]
    by_cases hone : state.1.get t = 1
    · have hzero : (state.1.add t (-1)).get t = 0 := by omega
      simp [close, hzero, hone]
    · have hpos : ¬ (state.1.add t (-1)).get t = 0 := by omega
      simp [close, hpos, hone]
  · simp only [close]
    split <;> simp [ht]

/-- An id is released iff it is among the targets and its counter was no more
than its share of them. Parallel edges release it once, at the last of them. -/
theorem count_foldl_close (targets : List String) :
    ∀ (state : Counts × List String) {id : String}, id ∈ state.1.keys →
    (targets.count id : Nat) ≤ state.1.get id →
    (targets.foldl close state).2.count id =
      state.2.count id +
        if 0 < targets.count id ∧ state.1.get id = (targets.count id : Nat) then 1 else 0 := by
  induction targets with
  | nil => intro state id _ _; simp
  | cons t rest ih =>
      intro state id hid hle
      have hkey : id ∈ (close state t).1.keys := by simpa [close] using hid
      have hget : (close state t).1.get id =
          if t = id then state.1.get id + -1 else state.1.get id :=
        Counts.get_add_of_mem hid t (-1)
      have hcount : (t :: rest).count id = rest.count id + if t = id then 1 else 0 := by
        simp [List.count_cons]
      -- the counter and the share of the targets left go down together
      by_cases ht : t = id
      · subst ht
        rw [if_pos rfl] at hget hcount
        rw [hcount] at hle
        rw [List.foldl_cons, ih _ hkey (by rw [hget]; omega), count_close hid, hget, hcount]
        simp only [true_and]
        split <;> split <;> split <;> omega
      · simp only [ht, if_false, Nat.add_zero] at hle hget hcount
        rw [hcount] at hle
        rw [List.foldl_cons, ih _ hkey (by rw [hget]; exact hle), count_close hid, hget, hcount]
        simp only [ht, false_and, if_false, Nat.add_zero]

/-- Closing edges releases nothing but targets. -/
theorem mem_of_mem_foldl_close {id : String} (targets : List String) :
    ∀ state : Counts × List String, id ∈ (targets.foldl close state).2 →
    id ∈ state.2 ∨ id ∈ targets := by
  induction targets with
  | nil => intro state h; exact .inl h
  | cons t rest ih =>
      intro state h
      rcases ih _ h with hold | hrest
      · simp only [close] at hold
        split at hold
        · rw [List.mem_append, List.mem_singleton] at hold
          exact hold.imp_right fun heq => List.mem_cons.mpr (.inl heq)
        · exact .inl hold
      · exact .inr (List.mem_cons_of_mem t hrest)

/-- The links into an id whose source is not placed. -/
def openInto (links : List Edge) (placed : List String) (id : String) : Nat :=
  links.countP fun e => e.target == id && !placed.contains e.source

/-- Placing an id closes the links that leave it. -/
theorem openInto_snoc {placed : List String} {current : String} (hnew : current ∉ placed)
    (links : List Edge) (id : String) :
    openInto links placed id = openInto links (placed ++ [current]) id +
      ((links.filter (·.source == current)).map (·.target)).count id := by
  induction links with
  | nil => rfl
  | cons e rest ih =>
      simp only [openInto, List.countP_cons] at ih ⊢
      by_cases hsource : e.source = current
      · have hout : placed.contains e.source = false := by simpa [hsource] using hnew
        have hin : (placed ++ [current]).contains e.source = true := by simp [hsource]
        rw [List.filter_cons_of_pos (by simpa using hsource), List.map_cons, List.count_cons, hin,
          hout]
        simp only [Bool.not_false, Bool.not_true, Bool.and_true, Bool.and_false]
        rw [ih]
        simp
        omega
      · have hsame : (placed ++ [current]).contains e.source = placed.contains e.source := by
          simp [hsource]
        rw [List.filter_cons_of_neg (by simpa using hsource), hsame, ih]
        omega

/-- **The loop invariant**: each counter is the number of links into its id whose
source is not placed, and the ids that are queued or placed are, once each,
those with nothing to wait for. -/
structure Exact (ids : List String) (links : List Edge) (s : Sweep) : Prop where
  keys : s.degree.keys = ids
  count : ∀ id ∈ ids, s.degree.get id = openInto links s.placed id
  nodup : (s.queue ++ s.placed).Nodup
  free : ∀ id, id ∈ s.queue ++ s.placed ↔ id ∈ ids ∧ s.degree.get id = 0
  forward : Forward links s.placed

theorem openInto_eq_zero_iff {links : List Edge} {placed : List String} {id : String} :
    openInto links placed id = 0 ↔ ∀ e ∈ links, e.target = id → e.source ∈ placed := by
  simp [openInto, List.countP_eq_zero]

/-- An id that is queued waits for nothing. -/
theorem Exact.source_mem {ids : List String} {links : List Edge} {s : Sweep}
    (h : Exact ids links s) {id : String} (hid : id ∈ s.queue ++ s.placed) :
    ∀ e ∈ links, e.target = id → e.source ∈ s.placed := by
  obtain ⟨hmem, hzero⟩ := (h.free id).mp hid
  have hopen := h.count id hmem
  rw [hzero] at hopen
  exact openInto_eq_zero_iff.mp (by omega)

theorem exact_start {ids : List String} (hids : ids.Nodup) (links : List Edge) :
    Exact ids links (start ids links) where
  keys := keys_inDegrees ids links
  count := by
    intro id hid
    simp [start, openInto, get_inDegrees hid]
  nodup := by
    rw [start, List.append_nil]
    exact hids.filter _
  free := by
    intro id
    simp [start]
  forward := Forward.nil links

section Step

variable {ids : List String} {links : List Edge} {s : Sweep} {current : String}
  {waiting : List String}

/-- What the links that leave an id do to the counters, and what they release. -/
def closing (links : List Edge) (s : Sweep) (current : String) : Counts × List String :=
  ((links.filter (·.source == current)).map (·.target)).foldl close (s.degree, [])

theorem step_eq (hqueue : s.queue = current :: waiting) :
    s.step ids links = ⟨(closing links s current).1,
      waiting ++ ids.filter ((closing links s current).2.contains ·),
      s.placed ++ [current]⟩ := by
  simp [step, hqueue, closing]

theorem Exact.not_mem_placed (h : Exact ids links s) (hqueue : s.queue = current :: waiting) :
    current ∉ s.placed := by
  have hnodup := h.nodup
  rw [hqueue, List.cons_append, List.nodup_cons] at hnodup
  exact fun hmem => hnodup.1 (List.mem_append_right _ hmem)

/-- The counters after the step are exact again. -/
theorem Exact.get_closing (h : Exact ids links s) (hqueue : s.queue = current :: waiting)
    {id : String} (hid : id ∈ ids) :
    (closing links s current).1.get id = openInto links (s.placed ++ [current]) id := by
  rw [closing, get_foldl_close _ _ (by rw [h.keys]; exact hid), h.count id hid,
    openInto_snoc (h.not_mem_placed hqueue)]
  omega

/-- The step releases once each the ids whose last open links it closes. -/
theorem Exact.count_released (h : Exact ids links s) (hqueue : s.queue = current :: waiting)
    {id : String} (hid : id ∈ ids) :
    (closing links s current).2.count id =
      if s.degree.get id ≠ 0 ∧ (closing links s current).1.get id = 0 then 1 else 0 := by
  have hcount := h.count id hid
  have hsnoc := openInto_snoc (h.not_mem_placed hqueue) links id
  have hkey : id ∈ s.degree.keys := by rw [h.keys]; exact hid
  have hshare := count_foldl_close ((links.filter (·.source == current)).map (·.target))
    (s.degree, []) hkey (by show _ ≤ s.degree.get id; omega)
  rw [h.get_closing hqueue hid, closing, hshare, List.count_nil, Nat.zero_add]
  refine if_congr ?_ rfl rfl
  show 0 < _ ∧ s.degree.get id = _ ↔ _
  omega

theorem Exact.mem_released_iff (h : Exact ids links s) (hqueue : s.queue = current :: waiting)
    {id : String} (hid : id ∈ ids) :
    id ∈ (closing links s current).2 ↔
      s.degree.get id ≠ 0 ∧ (closing links s current).1.get id = 0 := by
  rw [← List.count_pos_iff, h.count_released hqueue hid]
  split <;> omega

/-- What waits for nothing before the step waits for nothing after it. -/
theorem Exact.get_closing_eq_zero (h : Exact ids links s) (hqueue : s.queue = current :: waiting)
    {id : String} (hmem : id ∈ s.queue ++ s.placed) : (closing links s current).1.get id = 0 := by
  have hsources := h.source_mem hmem
  have hopen : openInto links (s.placed ++ [current]) id = 0 :=
    openInto_eq_zero_iff.mpr fun e he ht => List.mem_append_left _ (hsources e he ht)
  rw [h.get_closing hqueue ((h.free id).mp hmem).1, hopen]
  rfl

/-- What is queued or placed after the step was so before, or the step releases it. -/
theorem step_perm (hqueue : s.queue = current :: waiting) :
    ((s.step ids links).queue ++ (s.step ids links).placed).Perm
      ((s.queue ++ s.placed) ++ ids.filter ((closing links s current).2.contains ·)) := by
  rw [step_eq hqueue, hqueue, List.perm_iff_count]
  intro id
  simp only [List.count_append, List.count_cons, List.count_nil, Nat.zero_add]
  omega

theorem Exact.step_cons (hids : ids.Nodup) (h : Exact ids links s)
    (hqueue : s.queue = current :: waiting) : Exact ids links (s.step ids links) where
  keys := by
    rw [step_eq hqueue, ← h.keys]
    exact keys_foldl_close _ _
  count := by
    rw [step_eq hqueue]
    exact fun id hid => h.get_closing hqueue hid
  nodup := by
    rw [(step_perm hqueue).nodup_iff, List.nodup_append]
    refine ⟨h.nodup, hids.filter _, ?_⟩
    -- what is released was neither queued nor placed before
    rintro id hwas _ hbatch rfl
    obtain ⟨hid, hreleased⟩ := List.mem_filter.mp hbatch
    exact ((h.mem_released_iff hqueue hid).mp (by simpa using hreleased)).1 ((h.free id).mp hwas).2
  free := by
    intro id
    rw [(step_perm hqueue).mem_iff, List.mem_append, List.mem_filter, List.contains_iff_mem,
      step_eq hqueue]
    constructor
    · rintro (hwas | ⟨hid, hreleased⟩)
      · exact ⟨((h.free id).mp hwas).1, h.get_closing_eq_zero hqueue hwas⟩
      · exact ⟨hid, ((h.mem_released_iff hqueue hid).mp hreleased).2⟩
    · rintro ⟨hid, hzero⟩
      by_cases hdegree : s.degree.get id = 0
      · exact .inl ((h.free id).mpr ⟨hid, hdegree⟩)
      · exact .inr ⟨hid, (h.mem_released_iff hqueue hid).mpr ⟨hdegree, hzero⟩⟩
  forward := by
    have hcurrent : current ∈ s.queue ++ s.placed := by simp [hqueue]
    rw [step_eq hqueue]
    exact h.forward.snoc (h.source_mem hcurrent)

end Step

theorem Exact.step {ids : List String} {links : List Edge} {s : Sweep} (hids : ids.Nodup)
    (h : Exact ids links s) : Exact ids links (s.step ids links) := by
  cases hqueue : s.queue with
  | nil => simpa [Sweep.step, hqueue] using h
  | cons current waiting => exact h.step_cons hids hqueue

/-! ## The whole loop -/

theorem Exact.run {ids : List String} {links : List Edge} (hids : ids.Nodup) : ∀ (n : Nat)
    {s : Sweep}, Exact ids links s → Exact ids links (s.run ids links n) := by
  intro n
  induction n with
  | zero => intro s h; exact h
  | succ n ih => intro s h; exact ih (h.step hids)

theorem run_succ (ids : List String) (links : List Edge) (n : Nat) : ∀ s : Sweep,
    s.run ids links (n + 1) = (s.run ids links n).step ids links := by
  induction n with
  | zero => intro s; rfl
  | succ n ih => intro s; exact ih (s.step ids links)

/-- An empty queue ends the loop. -/
theorem run_of_queue_nil {ids : List String} {links : List Edge} {s : Sweep} {m n : Nat}
    (hmn : m ≤ n) (h : (s.run ids links m).queue = []) :
    s.run ids links n = s.run ids links m := by
  induction hmn with
  | refl => rfl
  | step _ ih => rw [run_succ, ih, step, h]

/-- Every step places one id, until the queue is empty. -/
theorem length_placed_run {ids : List String} {links : List Edge} {s : Sweep} : ∀ n : Nat,
    (∀ m < n, (s.run ids links m).queue ≠ []) →
    (s.run ids links n).placed.length = s.placed.length + n := by
  intro n
  induction n with
  | zero => intro _; rfl
  | succ n ih =>
      intro hgoes
      obtain ⟨current, waiting, hqueue⟩ := List.exists_cons_of_ne_nil (hgoes n (Nat.lt_succ_self n))
      have hbefore := ih fun m hm => hgoes m (Nat.lt_succ_of_lt hm)
      rw [run_succ, step_eq hqueue, List.length_append, List.length_singleton, hbefore]
      omega

theorem exact_finish {ids : List String} (hids : ids.Nodup) (links : List Edge) :
    Exact ids links (finish ids links) :=
  (exact_start hids links).run hids ids.length

/-- After a step for each id the queue is empty. -/
theorem finish_queue {ids : List String} (hids : ids.Nodup) (links : List Edge) :
    (finish ids links).queue = [] := by
  have h := exact_finish hids links
  by_contra hqueue
  -- a loop that still goes on has placed an id with each step, and one is queued besides
  have hgoes : ∀ m < ids.length, ((start ids links).run ids links m).queue ≠ [] :=
    fun m hm hempty => hqueue (by rw [finish, run_of_queue_nil (Nat.le_of_lt hm) hempty, hempty])
  have hplaced : (finish ids links).placed.length = 0 + ids.length :=
    length_placed_run ids.length hgoes
  have hle : ((finish ids links).queue ++ (finish ids links).placed).length ≤ ids.length :=
    h.nodup.length_le_of_subset fun id hid => ((h.free id).mp hid).1
  have hpos := List.length_pos_iff.mpr hqueue
  rw [List.length_append, hplaced] at hle
  omega

/-- **What the loop computes**: a sequence in which links go forward, and from
which only ids are missing that wait for a missing one. -/
theorem sequenced_finish {ids : List String} (hids : ids.Nodup) (links : List Edge) :
    Sequenced ids links (finish ids links).placed := by
  have h := exact_finish hids links
  have hfree : ∀ id, id ∈ (finish ids links).placed ↔
      id ∈ ids ∧ (finish ids links).degree.get id = 0 := by
    intro id
    rw [← h.free id, finish_queue hids links, List.nil_append]
  refine ⟨?_, fun id hid => ((hfree id).mp hid).1, h.forward, fun id hid hsources => ?_⟩
  · exact (List.nodup_append.mp h.nodup).2.1
  · rw [hfree, h.count id hid, openInto_eq_zero_iff.mpr hsources]
    exact ⟨hid, rfl⟩

end Sweep

end Runbook.Graph
