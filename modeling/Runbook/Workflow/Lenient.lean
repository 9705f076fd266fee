import Runbook.Json.Reader
import Runbook.Text.Blank
import Runbook.Workflow.Fault

/-! Reading scalars leniently: a number may be written as text, a truth value as a number, and so on. Text
alone is never made from anything else. -/
namespace Runbook.Lenient

open Decoded (fail)

def text : Value → Decoded String
  | .str s => .ok s
  | _ => fail .notText

/-- Null stands for no value. -/
def optional {α : Type} (read : Value → Decoded α) : Value → Decoded (Option α)
  | .null => .ok none
  | v => (read v).map some

/-- Digits, with single underscores between them. -/
def digits? : List Char → Option (List Char)
  | [] => none
  | [c] => if c.isDigit then some [c] else none
  | c :: '_' :: rest => if c.isDigit then (digits? rest).map (c :: ·) else none
  | c :: rest => if c.isDigit then (digits? rest).map (c :: ·) else none

/-- A sign, and what follows it. -/
def splitSign : List Char → Bool × List Char
  | '-' :: rest => (true, rest)
  | '+' :: rest => (false, rest)
  | rest => (false, rest)

/-- The text of an integer: a sign, digits, and a fraction of zeros. -/
def integerText? (s : String) : Option Int :=
  let (negative, unsigned) := splitSign (Text.trim Text.isWhite s).toList
  let whole := unsigned.takeWhile (· != '.')
  let fractionFits := match unsigned.drop whole.length with
    | [] => true
    | _ :: zeros => !zeros.isEmpty && zeros.all (· == '0')
  match digits? whole with
  | some digits =>
    if fractionFits then
      let n : Int := Json.digitsValue digits
      some (if negative then -n else n)
    else none
  | none => none

def integer : Value → Decoded Int
  | .bool b => .ok (if b then 1 else 0)
  | .int n => .ok n
  | .float x =>
    if !x.isFinite then fail .integerInfinite
    else match x.toInt? with
      | some n => .ok n
      | none => fail .integerFraction
  | .str s =>
    if Json.digitLimit < s.length then fail .integerTooLong
    else match integerText? s with
      | some n => .ok n
      | none => fail .integerText
  | _ => fail .notInteger

/-- An integer that is at least one. -/
def loopCount (v : Value) : Decoded LoopCount :=
  (integer v).andThen fun n =>
    if h : 0 < n.toNat then .ok ⟨n.toNat, h⟩ else fail (.tooSmall 1)

/-- Digits with a point somewhere, of which one side may be missing. -/
def mantissa? (cs : List Char) : Option (Decimal × List Char) :=
  let whole := cs.takeWhile Char.isDigit
  let rest := cs.drop whole.length
  let (fraction, rest) : List Char × List Char := match rest with
    | '.' :: more =>
      let digits := more.takeWhile Char.isDigit
      (digits, more.drop digits.length)
    | _ => ([], rest)
  if whole.isEmpty && fraction.isEmpty then none
  else some (⟨Json.digitsValue (whole ++ fraction), -(fraction.length : Int)⟩, rest)

/-- The text of a number in digits. -/
def decimal? (cs : List Char) : Option Decimal :=
  match mantissa? cs with
  | none => none
  | some (x, []) => some x
  | some (x, rest) =>
    match Json.exponent? rest with
    | some ((negative, digits), []) =>
      let shift : Int := Json.digitsValue digits
      some ⟨x.digits, x.scale + (if negative then -shift else shift)⟩
    | _ => none

/-- A text in which ASCII letters are small. -/
def lowerAscii (cs : List Char) : List Char := cs.map Char.toLower

/-- The text of a number: digits or a word, after a sign. -/
def double? (cs : List Char) : Option Double :=
  let (negative, unsigned) := splitSign cs
  let word := String.ofList (lowerAscii unsigned)
  if word = "nan" then some .nan
  else if word = "inf" || word = "infinity" then some (.infinite negative)
  else (decimal? unsigned).map (·.toDouble negative)

/-- A text without its underscores, of which there are some, none at an end and no two together. -/
def withoutUnderscores? (cs : List Char) : Option (List Char) :=
  let doubled := (cs.zip (cs.drop 1)).any fun (a, b) => a == '_' && b == '_'
  if cs.head? = some '_' || cs.getLast? = some '_' || !cs.contains '_' || doubled then none
  else some (cs.filter (· != '_'))

def doubleText? (s : String) : Option Double :=
  match double? (Text.trim Text.isWhite s).toList with
  | some x => some x
  | none => (withoutUnderscores? s.toList).bind double?

/-- An integer as a number; one too large for the format is none. -/
def ofInteger (n : Int) : Decoded Double :=
  let x := Double.ofInt n
  if x.isFinite then .ok x else fail .notNumber

def double : Value → Decoded Double
  | .bool b => .ok (.ofInt (if b then 1 else 0))
  | .int n => ofInteger n
  | .float x => .ok x
  | .str s => match doubleText? s with
    | some x => .ok x
    | none => fail .numberText
  | _ => fail .notNumber

def falseWords : List String := ["0", "off", "f", "false", "n", "no"]

def trueWords : List String := ["1", "on", "t", "true", "y", "yes"]

/-- The truth value that an integer stands for. -/
def flagNumber (n : Int) : Decoded Bool :=
  if n = 0 then .ok false else if n = 1 then .ok true else fail .flagText

def flag : Value → Decoded Bool
  | .bool b => .ok b
  | .int n => flagNumber n
  | .float x => match x.toInt? with
    | some n => flagNumber n
    | none => fail .notFlag
  | .str s =>
    let word := String.ofList (lowerAscii s.toList)
    if falseWords.contains word then .ok false
    else if trueWords.contains word then .ok true
    else fail .flagText
  | _ => fail .notFlag

/-- A name out of a list of names. -/
def member {α : Type} (ofName? : String → Option α) (names : List String) : Value → Decoded α
  | .str s => match ofName? s with
    | some a => .ok a
    | none => fail (.notMember names)
  | _ => fail (.notMember names)

/-- A handle: truth values stand for the branches that they name. -/
def handle : Value → Decoded (Option String)
  | .bool b => .ok (some (branchHandle b))
  | v => optional text v

/-- Integers from here on do not fit a signed 64-bit word. -/
def wordLimit : Nat := Nat.pow 2 63

/-- How a path names a key. -/
def keyStep (key : Value) : Step :=
  match key with
  | .str s => .key s
  | v => match v.integer? with
    | some n => if -(wordLimit : Int) ≤ n && n < wordLimit then .index n else .key v.literal
    | none => .key v.literal

/-- Settings: a map whose keys are text. -/
def settings : Value → Decoded Settings
  | .map entries =>
    let read (entry : Value × Value) : Decoded (String × Value) :=
      ((text entry.1).map fun k => (k, entry.2)).within (.key "[key]") |>.within (keyStep entry.1)
    entries.foldr (fun entry rest => (read entry).map List.cons |>.both rest) (.ok [])
  | _ => fail .notMap

end Runbook.Lenient
