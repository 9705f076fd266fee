/-! Lines of a text: one mark for the three line ends, and the line and column of a position. -/
namespace Runbook.Text

/-- A text in which a carriage return, with or without a line feed after it, is a line feed. -/
def unifyLines : List Char → List Char
  | [] => []
  | '\r' :: '\n' :: rest => '\n' :: unifyLines rest
  | '\r' :: rest => '\n' :: unifyLines rest
  | c :: rest => c :: unifyLines rest

theorem unifyLines_of_not_mem : ∀ {cs : List Char}, '\r' ∉ cs → unifyLines cs = cs
  | [], _ => rfl
  | c :: rest, h => by
    simp only [List.mem_cons, not_or] at h
    have tail := unifyLines_of_not_mem h.2
    unfold unifyLines
    split <;> simp_all

/-- The line, counted from 1, of the position after `before`. -/
def lineAfter (before : List Char) : Nat := before.count '\n' + 1

/-- The column, counted from 1, of the position after `before`. -/
def columnAfter (before : List Char) : Nat := (before.reverse.takeWhile (· != '\n')).length + 1

/-- Text with a line feed between two lines. -/
def joinLines (lines : List String) : String := "\n".intercalate lines

end Runbook.Text
