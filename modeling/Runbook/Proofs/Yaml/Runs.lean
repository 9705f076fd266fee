import Mathlib.Data.List.SplitBy
import Runbook.Yaml.Writer

/-!
# Runs of a text

The runs of a text are runs of blanks, of line ends, and of words, and two runs side by side
are of different kinds (`woven_runs`). Where blanks and line ends are never side by side,
what follows a gap is a word.
-/

namespace Runbook.Yaml

/-- A run of blanks. -/
def IsBlanks (run : List Char) : Prop := run ≠ [] ∧ ∀ c ∈ run, c = ' '

/-- A run of line ends. -/
def IsBreaks (run : List Char) : Prop := run ≠ [] ∧ ∀ c ∈ run, isBreak c = true

/-- A run of other characters. -/
def IsWord (run : List Char) : Prop := run ≠ [] ∧ ∀ c ∈ run, c ≠ ' ' ∧ isBreak c = false

/-- A run between words. -/
def IsBetween (run : List Char) : Prop := IsBlanks run ∨ IsBreaks run

/-- Runs in which words and gaps take turns. -/
def Woven : List (List Char) → Prop
  | [] => True
  | run :: rest =>
    (IsWord run ∧ (∀ next, rest.head? = some next → IsBetween next) ∨
      IsBetween run ∧ ∀ next, rest.head? = some next → IsWord next) ∧ Woven rest

variable {run next cs : List Char} {rest : List (List Char)} {c d : Char}

theorem ne_blank_of_isBreak (h : isBreak c = true) : c ≠ ' ' := by
  rintro rfl
  cases h

theorem sameRun_iff : sameRun c d = true ↔ (c = ' ' ↔ d = ' ') ∧ isBreak c = isBreak d := by
  rw [sameRun, Bool.and_eq_true, beq_iff_eq, beq_iff_eq, Bool.eq_iff_iff, beq_iff_eq, beq_iff_eq]

theorem sameRun_of_mem {first : Char} (h : (first :: run).IsChain fun c d => sameRun c d = true) :
    ∀ c ∈ first :: run, sameRun first c = true := by
  induction run generalizing first with
  | nil =>
      intro c hc
      obtain rfl := List.mem_singleton.mp hc
      exact sameRun_iff.mpr ⟨Iff.rfl, rfl⟩
  | cons next run ih =>
      obtain ⟨hnext, hrun⟩ := List.isChain_cons_cons.mp h
      refine List.forall_mem_cons.mpr ⟨sameRun_iff.mpr ⟨Iff.rfl, rfl⟩, fun c hc => ?_⟩
      obtain ⟨hblank, hbreak⟩ := sameRun_iff.mp hnext
      obtain ⟨hblank', hbreak'⟩ := sameRun_iff.mp (ih hrun c hc)
      exact sameRun_iff.mpr ⟨hblank.trans hblank', hbreak.trans hbreak'⟩

/-- A run is of one of three kinds. -/
theorem run_cases (h : run ∈ runs cs) : IsBetween run ∨ IsWord run := by
  have hne := List.ne_nil_of_mem_splitBy h
  have hchain := List.isChain_of_mem_splitBy h
  obtain ⟨first, run, rfl⟩ := List.exists_cons_of_ne_nil hne
  have hsame := sameRun_of_mem hchain
  by_cases hblank : first = ' '
  · exact .inl (.inl ⟨hne, fun c hc => (sameRun_iff.mp (hsame c hc)).1.mp hblank⟩)
  · by_cases hbreak : isBreak first = true
    · exact .inl (.inr ⟨hne, fun c hc => (sameRun_iff.mp (hsame c hc)).2.symm.trans hbreak⟩)
    · refine .inr ⟨hne, fun c hc => ?_⟩
      obtain ⟨hc, hc'⟩ := sameRun_iff.mp (hsame c hc)
      exact ⟨fun h => hblank (hc.mpr h), by rw [← hc']; simpa using hbreak⟩

/-! ## Neighbours -/

section Neighbours

variable {p q : Char → Bool} {xs ys : List Char}

theorem hasNeighbours_cons_cons :
    Style.hasNeighbours p q (c :: d :: xs) = (p c && q d || Style.hasNeighbours p q (d :: xs)) :=
  rfl

/-- Characters on either side of a boundary are neighbours. -/
theorem neighbours_append (h : Style.hasNeighbours p q (xs ++ ys) = false) :
    Style.hasNeighbours p q ys = false ∧
      ∀ c d, xs.getLast? = some c → ys.head? = some d → (p c && q d) = false := by
  induction xs with
  | nil => exact ⟨h, fun c d hc => by cases hc⟩
  | cons x xs ih =>
      cases xs with
      | nil =>
          cases ys with
          | nil => exact ⟨rfl, fun c d _ hd => by cases hd⟩
          | cons y ys =>
              rw [List.singleton_append, hasNeighbours_cons_cons, Bool.or_eq_false_iff] at h
              refine ⟨h.2, fun c d hc hd => ?_⟩
              obtain rfl := Option.some.inj hc
              obtain rfl := Option.some.inj hd
              exact h.1
      | cons x' xs =>
          rw [List.cons_append, List.cons_append, hasNeighbours_cons_cons, Bool.or_eq_false_iff] at h
          rw [List.getLast?_cons_cons]
          exact ih h.2

theorem hasNeighbours_eq_false (h : ∀ c ∈ xs, ∀ d ∈ xs, (p c && q d) = false) : Style.hasNeighbours p q xs = false := by
  induction xs with
  | nil => rfl
  | cons x xs ih =>
      cases xs with
      | nil => rfl
      | cons y ys =>
          rw [hasNeighbours_cons_cons, h x (by simp) y (by simp), Bool.false_or]
          exact ih fun c hc d hd => h c (List.mem_cons_of_mem _ hc) d (List.mem_cons_of_mem _ hd)

end Neighbours

theorem not_isBetween (h : IsWord run) : ¬ IsBetween run := by
  obtain ⟨c, rest, rfl⟩ := List.exists_cons_of_ne_nil h.1
  have hc := h.2 c List.mem_cons_self
  rintro (hrun | hrun)
  · exact hc.1 (hrun.2 c List.mem_cons_self)
  · exact absurd (hrun.2 c List.mem_cons_self) (by simp [hc.2])

theorem IsBlanks.exists_concat (h : IsBlanks run) : ∃ before, run = before ++ [' '] := by
  obtain rfl | ⟨before, c, rfl⟩ := List.eq_nil_or_concat' run
  · exact absurd rfl h.1
  · exact ⟨before, by rw [h.2 c (by simp)]⟩

theorem IsBlanks.eq_replicate (h : IsBlanks run) : run = List.replicate run.length ' ' := List.eq_replicate_of_mem h.2

/-- Behind a word on one line come blanks, and a word behind those. -/
theorem Woven.of_word (h : Woven (run :: next :: rest)) (hrun : IsWord run) (hline : ∀ c ∈ next, isBreak c = false) :
    IsBlanks next ∧ (∀ word, rest.head? = some word → IsWord word) ∧ Woven rest := by
  obtain ⟨hfirst, hsecond, hrest⟩ := h
  have hbetween : IsBetween next := hfirst.elim (fun h => h.2 next rfl) fun h => absurd h.1 (not_isBetween hrun)
  refine ⟨hbetween.resolve_right fun h => ?_, ?_, hrest⟩
  · obtain ⟨c, hc⟩ := List.exists_mem_of_ne_nil next h.1
    exact absurd (h.2 c hc) (by rw [hline c hc]; exact Bool.false_ne_true)
  · exact hsecond.elim (fun h => absurd hbetween (not_isBetween h.1)) fun h => h.2

/-- Whether two runs cannot be parts of one. -/
def Differ (run next : List Char) : Prop :=
  ∃ (h : run ≠ []) (h' : next ≠ []), sameRun (run.getLast h) (next.head h') = false

/-- What stands beside a gap is a word. -/
theorem isWord_of_differ (hrun : IsBetween run) (hnext : IsBetween next ∨ IsWord next) (h : Differ run next)
    (hbreak : (isBreak (run.getLast h.1) && next.head h.2.1 == ' ') = false)
    (hblank : (run.getLast h.1 == ' ' && isBreak (next.head h.2.1)) = false) : IsWord next := by
  obtain ⟨hne, hne', hdiffer⟩ := h
  have hlast := List.getLast_mem hne
  have hhead := List.head_mem hne'
  obtain (hnext | hnext) | hnext := hnext
  · have hspace := hnext.2 _ hhead
    obtain hrun | hrun := hrun
    · simp [sameRun, hrun.2 _ hlast, hspace] at hdiffer
    · simp [hrun.2 _ hlast, hspace] at hbreak
  · have hend := hnext.2 _ hhead
    obtain hrun | hrun := hrun
    · simp [hrun.2 _ hlast, hend] at hblank
    · have hend' := hrun.2 _ hlast
      simp [sameRun, ne_blank_of_isBreak hend, ne_blank_of_isBreak hend', hend, hend'] at hdiffer
  · exact hnext

/-- What stands beside a word is a gap. -/
theorem isBetween_of_differ (hrun : IsWord run) (hnext : IsBetween next ∨ IsWord next) (h : Differ run next) :
    IsBetween next := by
  obtain ⟨hne, hne', hdiffer⟩ := h
  obtain hnext | hnext := hnext
  · exact hnext
  · have hlast := hrun.2 _ (List.getLast_mem hne)
    have hhead := hnext.2 _ (List.head_mem hne')
    simp [sameRun, hlast, hhead] at hdiffer

/-- Where no blank is beside a line end, words and gaps take turns. -/
theorem woven_of_differ {texts : List (List Char)} (hcases : ∀ run ∈ texts, IsBetween run ∨ IsWord run)
    (hchain : texts.IsChain Differ) (hbreak : Style.hasNeighbours isBreak (· == ' ') texts.flatten = false)
    (hblank : Style.hasNeighbours (· == ' ') isBreak texts.flatten = false) : Woven texts := by
  induction texts with
  | nil => trivial
  | cons run rest ih =>
      obtain ⟨hrun, hrest⟩ := List.forall_mem_cons.mp hcases
      rw [List.flatten_cons] at hbreak hblank
      obtain ⟨hbreak, hbreak'⟩ := neighbours_append hbreak
      obtain ⟨hblank, hblank'⟩ := neighbours_append hblank
      obtain ⟨hhead, htail⟩ := List.isChain_cons.mp hchain
      refine ⟨?_, ih hrest htail hbreak hblank⟩
      have hmem : ∀ next, rest.head? = some next → next ∈ rest := fun _ h => List.mem_of_head? h
      obtain hgap | hword := hrun
      · refine .inr ⟨hgap, fun next hnext => ?_⟩
        obtain ⟨more, rfl⟩ := List.head?_eq_some_iff.mp hnext
        have hdiffer : Differ run next := hhead next rfl
        obtain ⟨hne, hne', -⟩ := id hdiffer
        have hlast : run.getLast? = some (run.getLast hne) := List.getLast?_eq_some_getLast hne
        have hfirst : ((next :: more).flatten).head? = some (next.head hne') := by
          rw [List.flatten_cons, List.head?_append_of_ne_nil _ hne', List.head?_eq_some_head hne']
        exact isWord_of_differ hgap (hrest next (hmem next hnext)) hdiffer (hbreak' _ _ hlast hfirst)
          (hblank' _ _ hlast hfirst)
      · exact .inl ⟨hword, fun next hnext =>
          isBetween_of_differ hword (hrest next (hmem next hnext)) (hhead next hnext)⟩

theorem woven_runs (hbreak : Style.hasNeighbours isBreak (· == ' ') cs = false)
    (hblank : Style.hasNeighbours (· == ' ') isBreak cs = false) : Woven (runs cs) := by
  have hflatten : (runs cs).flatten = cs := List.flatten_splitBy _ _
  exact woven_of_differ (fun _ => run_cases) (List.isChain_getLast_head_splitBy _ _) (by rwa [hflatten])
    (by rwa [hflatten])

end Runbook.Yaml
