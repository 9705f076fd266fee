import Runbook.Text.Printable
import Runbook.Text.Torn

/-! Texts as messages quote them: between single quotes, or double quotes if the text holds a single
quote and no double one, with what cannot be printed escaped. -/
namespace Runbook.Text

/-- The quote that goes around a text. -/
def quoteMark (s : String) : Char :=
  if s.toList.contains '\'' && !s.toList.contains '"' then '"' else '\''

/-- One character inside quotes. -/
def quoteChar (mark c : Char) : String :=
  if c = mark || c = '\\' then String.ofList ['\\', c]
  else if c = '\n' then "\\n"
  else if c = '\r' then "\\r"
  else if c = '\t' then "\\t"
  else if isPrintable c then c.toString
  else if let some half := half? c then halfEscape half
  else if c.toNat ≤ 0xff then "\\x" ++ hexDigits 2 c.toNat
  else if c.toNat ≤ 0xffff then "\\u" ++ hexDigits 4 c.toNat
  else "\\U" ++ hexDigits 8 c.toNat

/-- A text between quotes. -/
def quote (s : String) : String :=
  let mark := quoteMark s
  mark.toString ++ String.join (s.toList.map (quoteChar mark)) ++ mark.toString

end Runbook.Text
