import Runbook.Yaml.Lexeme.Block
import Runbook.Yaml.Lexeme.Name
import Runbook.Yaml.Lexeme.Plain

/-! Tokens. Indentation becomes tokens that open and close block collections. Where a key starts is known
only at its colon: every place where one may start is noted, and the colon puts the key's token there. -/
namespace Runbook.Yaml

inductive Token where
  | directive (d : Lexeme.Directive)
  | documentStart
  | documentEnd
  | blockSequence
  | blockMapping
  | blockEnd
  | flowSequence
  | flowSequenceEnd
  | flowMapping
  | flowMappingEnd
  | comma
  | dash
  | key
  | value
  | alias (name : String)
  | anchor (name : String)
  | tag (name : Lexeme.TagName)
  | scalar (plain : Bool) (text : String)
  | fault (f : Fault)
  deriving DecidableEq

/-- A place where a key may start: the number of tokens before it, and whether it has to be a key. -/
structure KeySpot where
  number : Nat
  required : Bool
  line : Nat
  index : Nat
  column : Nat

/-- The longest key, in characters up to its colon. -/
def keyLimit : Nat := 1024

/-- The state between two tokens. Tokens are kept in reverse. `spot` is where a key may start in the
innermost collection, and `outer` has those of the flow collections' surroundings, one for each. -/
structure Scanner where
  place : Place
  tokens : List Token
  columns : List Nat
  keyAllowed : Bool
  spot : Option KeySpot
  outer : List (Option KeySpot)

namespace Scanner

def ofText (text : List Char) : Scanner := ⟨.ofText text, [], [], true, none, []⟩

/-- Whether the place is inside of brackets. -/
def inFlow (s : Scanner) : Bool := !s.outer.isEmpty

def advance (s : Scanner) (count : Nat) : Scanner := { s with place := s.place.skip count }

/-- Puts tokens behind the first `number`; they are given in reverse. -/
def insertAt (s : Scanner) (number : Nat) (given : List Token) : Scanner :=
  let later := s.tokens.length - number
  { s with tokens := s.tokens.take later ++ given ++ s.tokens.drop later }

/-- A line that says nothing, up to its end. Outside of brackets a key may start on the next one. -/
def toNextToken : Nat → Scanner → Scanner
  | 0, s => s
  | fuel + 1, s =>
    let place := s.place.skipBlanks.skipComment
    match place.rest with
    | c :: _ =>
      if isBreak c then
        toNextToken fuel { s with place := place.next, keyAllowed := s.keyAllowed || !s.inFlow }
      else { s with place := place }
    | [] => { s with place := place }

/-- Skips what separates tokens, and a byte order mark at the start of the text. -/
def skipSeparation (s : Scanner) : Scanner :=
  let s := match s.place.index, s.place.rest with
    | 0, '\ufeff' :: _ => s.advance 1
    | _, _ => s
  toNextToken (s.place.rest.length + 1) s

/-- A key that starts at a spot has to end on its line, and may not be too long. -/
def isStale (place : Place) (k : KeySpot) : Bool :=
  k.line != place.line || keyLimit < place.index - k.index

/-- A spot that can still start a key. One that has to and cannot is a fault. -/
def fresh (place : Place) : Option KeySpot → Except Fault (Option KeySpot)
  | none => .ok none
  | some k =>
    if isStale place k then (if k.required then .error .malformed else .ok none) else .ok (some k)

/-- Forgets the spots where a key can start no more. -/
def dropStale (s : Scanner) : Except Fault Scanner := do
  let spot ← fresh s.place s.spot
  let outer ← s.outer.mapM (fresh s.place)
  return { s with spot := spot, outer := outer }

/-- Closes the block collections that are indented deeper than a column. -/
def unwindTo (column : Nat) (s : Scanner) : Scanner :=
  let closed := s.columns.takeWhile (column < ·)
  { s with
    columns := s.columns.drop closed.length
    tokens := List.replicate closed.length .blockEnd ++ s.tokens }

/-- Closes all block collections. -/
def unwindAll (s : Scanner) : Scanner :=
  { s with columns := [], tokens := List.replicate s.columns.length .blockEnd ++ s.tokens }

/-- Closes what the indentation of the next token closes; inside of brackets it closes nothing. -/
def unwind (s : Scanner) : Scanner := if s.inFlow then s else s.unwindTo s.place.column

/-- Whether a column is deeper than every open block collection. -/
def isDeeper (s : Scanner) (column : Nat) : Bool :=
  match s.columns with
  | [] => true
  | deepest :: _ => deepest < column

/-- Gives up the spot where a key may start, which may not be one that has to. -/
def dropSpot (s : Scanner) : Except Fault Scanner :=
  match s.spot with
  | some k => if k.required then .error .malformed else .ok { s with spot := none }
  | none => .ok s

/-- Notes that a key may start here. -/
def noteSpot (s : Scanner) : Except Fault Scanner :=
  if s.keyAllowed then do
    let s ← s.dropSpot
    let required := !s.inFlow && s.columns.head? == some s.place.column
    return { s with
      spot := some ⟨s.tokens.length, required, s.place.line, s.place.index, s.place.column⟩ }
  else .ok s

/-- Opens a block collection at the place, if none is open there. -/
def openBlock (s : Scanner) (t : Token) : Scanner :=
  if s.isDeeper s.place.column then
    { s with columns := s.place.column :: s.columns, tokens := t :: s.tokens }
  else s

/-- What stands alone on its line: a directive or a mark of a document. -/
def ofDocument (s : Scanner) (t : Token) (place : Place) : Except Fault Scanner := do
  let s ← s.unwindAll.dropSpot
  return { s with keyAllowed := false, tokens := t :: s.tokens, place := place }

def openFlow (s : Scanner) (t : Token) : Except Fault Scanner := do
  let s ← s.noteSpot
  return { s with
    outer := s.spot :: s.outer, spot := none, keyAllowed := true
    tokens := t :: s.tokens, place := s.place.next }

def closeFlow (s : Scanner) (t : Token) : Except Fault Scanner := do
  let s ← s.dropSpot
  match s.outer with
  | [] => throw .malformed
  | spot :: outer =>
    return { s with
      outer := outer, spot := spot, keyAllowed := false
      tokens := t :: s.tokens, place := s.place.next }

def takeComma (s : Scanner) : Except Fault Scanner := do
  let s ← s.dropSpot
  return { s with keyAllowed := true, tokens := .comma :: s.tokens, place := s.place.next }

/-- Opens a block collection, where one may start. Inside of brackets there are none. -/
def enterBlock (s : Scanner) (t : Token) : Except Fault Scanner :=
  if s.inFlow then .ok s
  else if s.keyAllowed then .ok (s.openBlock t)
  else .error .malformed

def takeDash (s : Scanner) : Except Fault Scanner := do
  let s ← s.enterBlock .blockSequence
  let s ← s.dropSpot
  return { s with keyAllowed := true, tokens := .dash :: s.tokens, place := s.place.next }

def takeKey (s : Scanner) : Except Fault Scanner := do
  let s ← s.enterBlock .blockMapping
  let s ← s.dropSpot
  return { s with keyAllowed := !s.inFlow, tokens := .key :: s.tokens, place := s.place.next }

/-- Puts the token of a key, whose colon is here, where the key starts. -/
def keyAt (s : Scanner) (k : KeySpot) : Scanner :=
  let s := { s with spot := none, keyAllowed := false }
  if !s.inFlow && s.isDeeper k.column then
    { s with columns := k.column :: s.columns }.insertAt k.number [.key, .blockMapping]
  else s.insertAt k.number [.key]

def takeColon (s : Scanner) : Except Fault Scanner := do
  let s ← match s.spot with
    | some k => pure (s.keyAt k)
    | none => do
      let s ← s.enterBlock .blockMapping
      pure { s with keyAllowed := !s.inFlow }
  return { s with tokens := .value :: s.tokens, place := s.place.next }

/-- A token with which a key may start. -/
def takeNode (s : Scanner) (read : Place → Except Fault (Token × Place)) : Except Fault Scanner := do
  let s ← s.noteSpot
  let (t, place) ← read s.place
  return { s with keyAllowed := false, tokens := t :: s.tokens, place := place }

def takePlain (s : Scanner) : Except Fault Scanner := do
  let s ← s.noteSpot
  let least := match s.columns with
    | [] => 0
    | column :: _ => column + 1
  let t := Lexeme.plain s.inFlow least s.place
  return { s with
    keyAllowed := t.broken, tokens := .scalar true (String.ofList t.text) :: s.tokens, place := t.place }

def takeQuoted (double : Bool) (s : Scanner) : Except Fault Scanner :=
  s.takeNode fun place =>
    (Lexeme.quoted double place).map fun (text, place) => (.scalar false (String.ofList text), place)

def takeBlock (folds : Bool) (s : Scanner) : Except Fault Scanner := do
  let s ← s.dropSpot
  let least := match s.columns with
    | [] => 1
    | column :: _ => column + 1
  let (text, place) ← Lexeme.block folds least s.place
  return { s with
    keyAllowed := true, tokens := .scalar false (String.ofList text) :: s.tokens, place := place }

/-- Whether a mark with a blank after it is more than text; inside of brackets it always is. -/
def isMark (s : Scanner) (after : List Char) : Bool := s.inFlow || endsWord after

/-- Whether plain text may start with a character. -/
def startsPlain (s : Scanner) (c : Char) (after : List Char) : Bool :=
  !("-?:,[]\x7b\x7d#&*!|>'\"%@`\t".toList.contains c) ||
    (!endsWord after && (c == '-' || (!s.inFlow && (c == '?' || c == ':'))))

/-- Takes the token that starts with a character. -/
def take (s : Scanner) (c : Char) (after : List Char) : Except Fault Scanner :=
  if c == '%' && s.place.column == 0 then do
    let (d, place) ← Lexeme.directive s.place
    s.ofDocument (.directive d) place
  else if s.place.column == 0 && s.place.startsMark ['-', '-', '-'] then
    s.ofDocument .documentStart (s.place.skip 3)
  else if s.place.column == 0 && s.place.startsMark ['.', '.', '.'] then
    s.ofDocument .documentEnd (s.place.skip 3)
  else if c == '[' then s.openFlow .flowSequence
  else if c == '\x7b' then s.openFlow .flowMapping
  else if c == ']' then s.closeFlow .flowSequenceEnd
  else if c == '\x7d' then s.closeFlow .flowMappingEnd
  else if c == ',' then s.takeComma
  else if c == '-' && endsWord after then s.takeDash
  else if c == '?' && s.isMark after then s.takeKey
  else if c == ':' && s.isMark after then s.takeColon
  else if c == '*' then
    s.takeNode fun place => (Lexeme.anchor place).map fun (name, place) => (.alias name, place)
  else if c == '&' then
    s.takeNode fun place => (Lexeme.anchor place).map fun (name, place) => (.anchor name, place)
  else if c == '!' then
    s.takeNode fun place => (Lexeme.tag place).map fun (name, place) => (.tag name, place)
  else if (c == '|' || c == '>') && !s.inFlow then s.takeBlock (c == '>')
  else if c == '\'' || c == '"' then s.takeQuoted (c == '"')
  else if s.startsPlain c after then s.takePlain
  else .error .malformed

/-- Gets ready for the next token: skips to it, and lets its place close what it closes. -/
def settle (s : Scanner) : Except Fault Scanner := s.skipSeparation.dropStale.map unwind

/-- Closes everything at the end of the text. -/
def finish (s : Scanner) : Except Fault Scanner := s.unwindAll.dropSpot

/-- The tokens that were taken, and a fault after them. -/
def broken (s : Scanner) (f : Fault) : List Token := (Token.fault f :: s.tokens).reverse

/-- Takes at most `fuel` tokens. -/
def run : Nat → Scanner → List Token
  | 0, s => s.broken .malformed
  | fuel + 1, s =>
    match s.settle with
    | .error f => s.broken f
    | .ok s =>
      match s.place.rest with
      | [] => match s.finish with
        | .ok s => s.tokens.reverse
        | .error f => s.broken f
      | c :: after => match s.take c after with
        | .ok s => run fuel s
        | .error f => s.broken f

end Scanner

/-- A character that a document may hold. -/
def isAllowed (c : Char) : Bool :=
  let n := c.toNat
  n == 9 || n == 10 || n == 13 || (0x20 ≤ n && n ≤ 0x7e) || n == 0x85 || (0xa0 ≤ n && n != 0xfffe && n != 0xffff)

/-- The tokens of a text, whose lines end as they do after `Text.unifyLines`. Each takes at least one
character. A fault stands after the tokens before it. -/
def Token.scan (text : List Char) : List Token :=
  if text.all isAllowed then (Scanner.ofText text).run (text.length + 1) else [.fault .malformed]

end Runbook.Yaml
