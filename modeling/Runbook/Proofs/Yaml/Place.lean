import Mathlib.Tactic.Common
import Runbook.Proofs.Text.Span
import Runbook.Yaml.Place

/-!
# Places further on

Whatever is read of a text, the place after it is the place so many characters further on
(`Place.skip`). These lemmas say where that is: what is left of the text, and in which line
and column it begins when the characters that were passed are known.
-/

namespace Runbook.Yaml

/-- A character that takes one column of its line. -/
def isInline (c : Char) : Bool := !isBreak c && c != '\ufeff'

theorem isInline_iff {c : Char} : isInline c = true ↔ isBreak c = false ∧ c ≠ '\ufeff' := by
  simp [isInline]

namespace Place

variable {s : Place} {c : Char} {text tail : List Char}

/-! ## Counting -/

@[simp] theorem skip_zero (s : Place) : s.skip 0 = s := rfl

theorem skip_succ (s : Place) (n : Nat) : s.skip (n + 1) = (s.skip n).next := rfl

@[simp] theorem next_eq_skip (s : Place) : s.next = s.skip 1 := rfl

@[simp] theorem skip_skip (s : Place) (m n : Nat) : (s.skip m).skip n = s.skip (m + n) := by
  induction n with
  | zero => rfl
  | succ n ih => rw [skip_succ, ih, ← skip_succ, Nat.add_assoc]

/-! ## What is left -/

theorem rest_next (s : Place) : s.next.rest = s.rest.tail := by
  unfold next
  split
  · next h => rw [h, List.tail_nil]
  · next h =>
    rw [h, List.tail_cons]
    split
    · rfl
    · split <;> rfl

@[simp] theorem rest_skip (s : Place) (n : Nat) : (s.skip n).rest = s.rest.drop n := by
  induction n with
  | zero => rfl
  | succ n ih => rw [skip_succ, rest_next, ih, List.tail_drop]

theorem rest_skip_of_append (h : s.rest = text ++ tail) : (s.skip text.length).rest = tail := by
  rw [rest_skip, h, List.drop_left]

theorem rest_skip_one (h : s.rest = c :: tail) : (s.skip 1).rest = tail := by
  rw [rest_skip, h, List.drop_one, List.tail_cons]

/-! ## Positions -/

theorem next_of_break (h : s.rest = c :: tail) (hc : isBreak c = true) :
    s.next = ⟨s.index + 1, s.line + 1, 0, tail⟩ := by
  unfold next
  rw [h]
  simp only [hc, if_true]

theorem next_of_inline (h : s.rest = c :: tail) (hc : isInline c = true) :
    s.next = ⟨s.index + 1, s.line, s.column + 1, tail⟩ := by
  obtain ⟨hbreak, hmark⟩ := isInline_iff.mp hc
  unfold next
  rw [h]
  simp only [hbreak, Bool.false_eq_true, if_false, beq_iff_eq, hmark]

theorem line_le_line_next (s : Place) : s.line ≤ s.next.line := by
  unfold next
  split
  · exact Nat.le_refl _
  · split
    · exact Nat.le_succ _
    · split <;> exact Nat.le_refl _

/-- No line comes again. -/
theorem line_le_line_skip (s : Place) (n : Nat) : s.line ≤ (s.skip n).line := by
  induction n with
  | zero => exact Nat.le_refl _
  | succ n ih => exact Nat.le_trans ih (line_le_line_next _)

/-- Characters that take one column each. -/
theorem skip_of_inline (h : s.rest = text ++ tail) (htext : ∀ c ∈ text, isInline c = true) :
    s.skip text.length = ⟨s.index + text.length, s.line, s.column + text.length, tail⟩ := by
  induction text generalizing s with
  | nil =>
      subst h
      rfl
  | cons c rest ih =>
      obtain ⟨hc, hrest⟩ := List.forall_mem_cons.mp htext
      have hnext : s.skip 1 = ⟨s.index + 1, s.line, s.column + 1, rest ++ tail⟩ := next_of_inline h hc
      rw [List.length_cons, Nat.add_comm, ← skip_skip, hnext, ih rfl hrest]
      simp only [Nat.add_assoc]

/-- A line end and the blanks of the next line. -/
theorem skip_of_newLine {n : Nat} (h : s.rest = c :: (List.replicate n ' ' ++ tail)) (hc : isBreak c = true) :
    s.skip (n + 1) = ⟨s.index + (n + 1), s.line + 1, n, tail⟩ := by
  have hnext : s.skip 1 = ⟨s.index + 1, s.line + 1, 0, List.replicate n ' ' ++ tail⟩ := next_of_break h hc
  have hblanks : ∀ c ∈ List.replicate n ' ', isInline c = true := fun c hc => by
    obtain rfl := List.eq_of_mem_replicate hc
    rfl
  have := @skip_of_inline ⟨s.index + 1, s.line + 1, 0, List.replicate n ' ' ++ tail⟩ _ _ rfl hblanks
  rw [List.length_replicate] at this
  rw [Nat.add_comm n, ← skip_skip, hnext, this]
  simp only [Nat.add_assoc, Nat.zero_add]

/-! ## Runs of characters -/

theorem span_eq (s : Place) (p : Char → Bool) :
    s.span p = (s.rest.takeWhile p, s.skip (s.rest.takeWhile p).length) := rfl

theorem span_append {p : Char → Bool} (h : s.rest = text ++ tail) (htext : ∀ c ∈ text, p c = true)
    (htail : Text.Stops p tail) : s.span p = (text, s.skip text.length) := by
  rw [span_eq, h, Text.takeWhile_append htext htail]

theorem skipWhile_append {p : Char → Bool} (h : s.rest = text ++ tail) (htext : ∀ c ∈ text, p c = true)
    (htail : Text.Stops p tail) : s.skipWhile p = s.skip text.length := by
  rw [skipWhile, span_append h htext htail]

theorem skipWhile_of_stops {p : Char → Bool} (h : Text.Stops p s.rest) : s.skipWhile p = s :=
  skipWhile_append (List.nil_append _).symm (fun _ hc => absurd hc List.not_mem_nil) h

end Place

end Runbook.Yaml
