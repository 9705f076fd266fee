import Runbook.Text.Lines

/-! Why a text is not JSON. -/
namespace Runbook.Json

/-- What is wrong at a position. -/
inductive Problem where
  | byteOrderMark
  | expectedValue
  | expectedName
  | expectedColon
  | expectedComma
  | extraData
  | controlCharacter
  | badEscape
  | badCodePoint
  | unterminated
  deriving DecidableEq, Repr

/-- A text that is malformed at a position; a number with too many digits; arrays or objects that are
nested too deep. -/
inductive Fault where
  | malformed (problem : Problem) (position : Nat)
  | tooManyDigits (count : Nat)
  | tooDeep (isArray : Bool)
  deriving DecidableEq, Repr

/-- The most digits that an integer may have. -/
def digitLimit : Nat := 4300

/-- How deep arrays and objects may be nested. -/
def depthLimit : Nat := 988

def Problem.message : Problem → String
  | .byteOrderMark => "Unexpected UTF-8 BOM (decode using utf-8-sig)"
  | .expectedValue => "Expecting value"
  | .expectedName => "Expecting property name enclosed in double quotes"
  | .expectedColon => "Expecting ':' delimiter"
  | .expectedComma => "Expecting ',' delimiter"
  | .extraData => "Extra data"
  | .controlCharacter => "Invalid control character at"
  | .badEscape => "Invalid \\escape"
  | .badCodePoint => "Invalid \\uXXXX escape"
  | .unterminated => "Unterminated string starting at"

/-- The message on an integer with too many digits to be written. -/
def writtenDigitsMessage : String :=
  s!"Exceeds the limit ({digitLimit} digits) for integer string conversion; " ++
    "use sys.set_int_max_str_digits() to increase the limit"

/-- The message on an integer with too many digits to be read. -/
def digitsMessage (count : Nat) : String :=
  s!"Exceeds the limit ({digitLimit} digits) for integer string conversion: value has {count} digits; " ++
    "use sys.set_int_max_str_digits() to increase the limit"

/-- The message names the position in the text by line, column and offset. -/
def Fault.message (text : List Char) : Fault → String
  | .malformed problem position =>
    let before := text.take position
    let line := Text.lineAfter before
    let column := Text.columnAfter before
    s!"{problem.message}: line {line} column {column} (char {position})"
  | .tooManyDigits count => digitsMessage count
  | .tooDeep isArray =>
    "maximum recursion depth exceeded while decoding a JSON " ++
      (if isArray then "array" else "object") ++ " from a unicode string"

end Runbook.Json
