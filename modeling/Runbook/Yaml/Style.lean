import Runbook.Yaml.Place
import Runbook.Yaml.Schema

/-! How a text is written: plain if nothing in it could be taken for something else, else between single
quotes, and between double quotes only if it holds what must be escaped or what folding would lose. -/
namespace Runbook.Yaml

inductive Style where
  | plain
  | single
  | double
  deriving DecidableEq, Repr

namespace Style

/-- A character that has to be escaped, as half of a surrogate pair has to be. -/
def isSpecial (c : Char) : Bool :=
  let n := c.toNat
  !(c == '\n' || (0x20 ≤ n && n ≤ 0x7e) || n == 0x85 ||
    (0xa0 ≤ n && n ≤ 0xfffd && n != 0xfeff) || (0x10000 ≤ n && n < 0x10ffff && (Text.half? c).isNone))

/-- A blank or a line end. -/
def isSpace (c : Char) : Bool := c == ' ' || isBreak c

/-- Two neighbours, the first of one class and the second of another. -/
def hasNeighbours (p q : Char → Bool) (cs : List Char) : Bool :=
  (cs.zip (cs.drop 1)).any fun (c, d) => p c && q d

/-- The text has the form of a mark. -/
def startsLikeMark (cs : List Char) : Bool :=
  ['-', '-', '-'].isPrefixOf cs || ['.', '.', '.'].isPrefixOf cs ||
    match cs with
    | [] => false
    | c :: rest =>
      "#,[]\x7b\x7d&*!|>'\"%@`".toList.contains c || ((c == '?' || c == ':' || c == '-') && endsWord rest)

/-- Inside the text a key would end or a comment would start. -/
def holdsMark : List Char → Bool
  | [] => false
  | c :: rest =>
    (match rest with
     | ':' :: after => endsWord after
     | '#' :: _ => isSpace c
     | _ => false) || holdsMark rest

/-- The text may stand without quotes. -/
def allowsPlain (text : String) : Bool :=
  let cs := text.toList
  Schema.kindOf text == .str && !(cs.any fun c => isBreak c || isSpecial c) &&
    cs.head? != some ' ' && cs.getLast? != some ' ' && !startsLikeMark cs && !holdsMark cs

/-- The text may stand between single quotes, where a line end and a blank beside it would be lost. -/
def allowsSingle (cs : List Char) : Bool :=
  !cs.any isSpecial && !hasNeighbours isBreak (· == ' ') cs && !hasNeighbours (· == ' ') isBreak cs

/-- The style of a text, which has one line only in a key that stands before its colon. -/
def ofText (oneLine : Bool) (text : String) : Style :=
  let cs := text.toList
  if allowsPlain text then .plain
  else if allowsSingle cs && !(oneLine && cs.any isBreak) then .single
  else .double

/-- The widest key that stands before its colon. -/
def keyWidth : Nat := 122

/-- Whether a text stands before its colon as a key. Others get a mark of their own. -/
def isShortKey (text : String) : Bool :=
  text != "" && text.length ≤ keyWidth && !text.toList.any isBreak

end Style
end Runbook.Yaml
