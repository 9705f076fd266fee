import Runbook.Json.Reader
import Runbook.Text.Lowercase
import Runbook.Text.Utf8
import Runbook.Value.Basic
import Runbook.Workflow.Lenient
import Runbook.Yaml.Fault

/-! Types of scalars. Plain text has the type whose form it has, and is text if it has none of these forms.
Integers may be written in several bases and in parts of sixty, and underscores between digits count for
nothing. -/
namespace Runbook.Yaml

/-- The types of nodes. `merge` and `default` are the two keys with a meaning of their own. -/
inductive Kind where
  | null
  | bool
  | int
  | float
  | timestamp
  | merge
  | default
  | str
  | binary
  | seq
  | map
  | set
  | pairs
  deriving DecidableEq, Repr

namespace Schema

def nullWords : List String := ["", "~", "null", "Null", "NULL"]

def trueWords : List String := ["yes", "Yes", "YES", "true", "True", "TRUE", "on", "On", "ON"]

def falseWords : List String := ["no", "No", "NO", "false", "False", "FALSE", "off", "Off", "OFF"]

def infinityWords : List String := [".inf", ".Inf", ".INF"]

def nanWords : List String := [".nan", ".NaN", ".NAN"]

/-- A digit or an underscore. -/
def isLoose (digit : Char → Bool) (c : Char) : Bool := digit c || c == '_'

/-- Text without a sign in front. -/
def unsigned : List Char → List Char
  | '-' :: rest => rest
  | '+' :: rest => rest
  | rest => rest

/-- A digit, and digits and underscores after it; and the rest. -/
def looseDigits? : List Char → Option (List Char)
  | c :: rest => if c.isDigit then some (rest.dropWhile (isLoose Char.isDigit)) else none
  | [] => none

/-- A number below sixty in one or two digits. -/
def isSixtieth : List Char → Bool
  | [c] => c.isDigit
  | [c, d] => c.isDigit && c ≤ '5' && d.isDigit
  | _ => false

/-- The rest after sixtieths, each behind a colon. -/
def sixtieths? : Nat → List Char → Option (List Char)
  | fuel + 1, ':' :: rest =>
    let digits := rest.takeWhile Char.isDigit
    if isSixtieth digits then sixtieths? fuel (rest.drop digits.length) else none
  | _, rest => some rest

/-- The rest after at least one sixtieth. -/
def someSixtieths? (cs : List Char) : Option (List Char) :=
  match cs with
  | ':' :: _ => sixtieths? cs.length cs
  | _ => none

/-- Nothing, or an exponent with a sign and digits. -/
def isExponent : List Char → Bool
  | [] => true
  | e :: sign :: digits =>
    (e == 'e' || e == 'E') && (sign == '-' || sign == '+') && !digits.isEmpty && digits.all Char.isDigit
  | [_] => false

/-- A fraction with its point, and maybe an exponent. -/
def isFraction : List Char → Bool
  | '.' :: rest => isExponent (rest.dropWhile (isLoose Char.isDigit))
  | _ => false

/-- A point, and digits and underscores to the end. -/
def isPlainFraction : List Char → Bool
  | '.' :: rest => rest.all (isLoose Char.isDigit)
  | _ => false

def isFloat (cs : List Char) : Bool :=
  let body := unsigned cs
  (match looseDigits? body with
   | some rest => isFraction rest || (someSixtieths? rest).any isPlainFraction
   | none => false) ||
  (match cs with
   | '.' :: rest => (looseDigits? rest).any isExponent
   | _ => false) ||
  infinityWords.contains (String.ofList body) || nanWords.contains (String.ofList cs)

def isHexDigit (c : Char) : Bool := (Json.hexValue? c).isSome

def isOctalDigit (c : Char) : Bool := '0' ≤ c && c ≤ '7'

def isBit (c : Char) : Bool := c == '0' || c == '1'

/-- At least one character, and all of a class. -/
def nonemptyAll (p : Char → Bool) (cs : List Char) : Bool := !cs.isEmpty && cs.all p

def isInt (cs : List Char) : Bool :=
  match unsigned cs with
  | ['0'] => true
  | '0' :: 'b' :: digits => nonemptyAll (isLoose isBit) digits
  | '0' :: 'x' :: digits => nonemptyAll (isLoose isHexDigit) digits
  | '0' :: digits => digits.all (isLoose isOctalDigit)
  | body =>
    match looseDigits? body with
    | some rest => rest.isEmpty || (someSixtieths? rest).any List.isEmpty
    | none => false

/-- Digits at the start, at least `least` and at most `most` of them, and the rest. -/
def digits? (least most : Nat) (cs : List Char) : Option (Nat × List Char) :=
  let digits := (cs.take most).takeWhile Char.isDigit
  if digits.length < least then none else some (Json.digitsValue digits, cs.drop digits.length)

/-- The rest after a character. -/
def after? (c : Char) : List Char → Option (List Char)
  | d :: rest => if c = d then some rest else none
  | [] => none

/-- The parts of a time before they are put into their ranges: a day; the time of day; digits of a second;
the distance from universal time in minutes. -/
structure TimeText where
  year : Nat
  month : Nat
  day : Nat
  clock : Option (Nat × Nat × Nat)
  fraction : List Char
  offset : Option Int

def dayText? (cs : List Char) : Option ((Nat × Nat × Nat) × List Char) := do
  let (year, cs) ← digits? 4 4 cs
  let (month, cs) ← digits? 1 2 (← after? '-' cs)
  let (day, cs) ← digits? 1 2 (← after? '-' cs)
  return ((year, month, day), cs)

def isGap (c : Char) : Bool := c == ' ' || c == '\t'

/-- The text after what stands between a day and a time. -/
def clockStart? (cs : List Char) : Option (List Char) :=
  match cs with
  | 'T' :: rest => some rest
  | 't' :: rest => some rest
  | c :: rest => if isGap c then some (rest.dropWhile isGap) else none
  | [] => none

def clockText? (cs : List Char) : Option ((Nat × Nat × Nat) × List Char) := do
  let (hour, cs) ← digits? 1 2 cs
  let (minute, cs) ← digits? 2 2 (← after? ':' cs)
  let (second, cs) ← digits? 2 2 (← after? ':' cs)
  return ((hour, minute, second), cs)

/-- The minutes after the hours of an offset, to the end. -/
def offsetMinutes? : List Char → Option Nat
  | [] => some 0
  | ':' :: rest => match digits? 2 2 rest with
    | some (n, []) => some n
    | _ => none
  | _ => none

/-- The distance from universal time, to the end. -/
def offset? (cs : List Char) : Option (Option Int) :=
  match cs, cs.dropWhile isGap with
  | [], _ => some none
  | _, ['Z'] => some (some 0)
  | _, sign :: rest => do
    let (hours, rest) ← digits? 1 2 rest
    let minutes ← offsetMinutes? rest
    let span : Int := 60 * hours + minutes
    if sign = '+' then some (some span) else if sign = '-' then some (some (-span)) else none
  | _, [] => none

/-- The text of a day, or of a day and a time. -/
def timeText? (cs : List Char) : Option TimeText := do
  let ((year, month, day), rest) ← dayText? cs
  if rest.isEmpty then return ⟨year, month, day, none, [], none⟩
  let (clock, rest) ← clockText? (← clockStart? rest)
  let (fraction, rest) := match rest with
    | '.' :: more => (more.takeWhile Char.isDigit, more.dropWhile Char.isDigit)
    | _ => ([], rest)
  return ⟨year, month, day, some clock, fraction, ← offset? rest⟩

/-- A day alone is a time only with all its digits. -/
def isTimestamp (cs : List Char) : Bool :=
  match timeText? cs with
  | some t => t.clock.isSome || cs.length == 10
  | none => false

/-- The type that plain text has. -/
def kindOf (text : String) : Kind :=
  let cs := text.toList
  if trueWords.contains text || falseWords.contains text then .bool
  else if isFloat cs then .float
  else if isInt cs then .int
  else if text = "<<" then .merge
  else if nullWords.contains text then .null
  else if isTimestamp cs then .timestamp
  else if text = "=" then .default
  else .str

/-! Reading scalars of a type. A tag may give a type to text that does not have its form. -/

def readFlag (text : String) : Except Fault Value :=
  let word := Text.lower text
  if ["yes", "true", "on"].contains word then .ok (.bool true)
  else if ["no", "false", "off"].contains word then .ok (.bool false)
  else .error (.flagText word)

/-- The value of a digit in bases up to sixteen. -/
def digitValue? (base : Nat) (c : Char) : Option Nat := (Json.hexValue? c).filter (· < base)

/-- The mark that digits of a base may start with. -/
def baseMark (base : Nat) (cs : List Char) : Bool :=
  match cs with
  | '0' :: c :: _ =>
    (base == 2 && (c == 'b' || c == 'B')) || (base == 8 && (c == 'o' || c == 'O')) ||
      (base == 16 && (c == 'x' || c == 'X'))
  | _ => false

/-- An integer in a base: a sign, the mark of the base, and digits. -/
def readDigits (base : Nat) (text : List Char) : Except Fault Int :=
  let quoted := String.ofList text
  let (negative, body) := Lenient.splitSign (Text.trim Text.isBlank quoted).toList
  let digits := if baseMark base body then body.drop 2 else body
  match digits.mapM (digitValue? base) with
  | none => .error (.integerText base quoted)
  | some [] => .error (.integerText base quoted)
  | some values =>
    if base == 10 && Json.digitLimit < values.length then .error (.tooManyDigits values.length)
    else
      let n : Nat := values.foldl (fun n d => base * n + d) 0
      .ok (if negative then -n else n)

/-- The parts between colons. -/
def colonParts : List Char → List (List Char)
  | [] => [[]]
  | ':' :: rest => [] :: colonParts rest
  | c :: rest => match colonParts rest with
    | [] => [[c]]
    | part :: more => (c :: part) :: more

/-- A sign in front of digits, and the digits, without underscores. -/
def signed (text : String) : Except Fault (Bool × List Char) :=
  match text.toList.filter (· != '_') with
  | [] => .error .noDigits
  | '-' :: rest => .ok (true, rest)
  | '+' :: rest => .ok (false, rest)
  | rest => .ok (false, rest)

/-- An integer without its sign. -/
def readUnsigned (cs : List Char) : Except Fault Int :=
  match cs with
  | [] => .error .noDigits
  | ['0'] => .ok 0
  | '0' :: 'b' :: digits => readDigits 2 digits
  | '0' :: 'x' :: digits => readDigits 16 digits
  | '0' :: _ => readDigits 8 cs
  | _ =>
    if cs.contains ':' then
      ((colonParts cs).mapM (readDigits 10)).map fun ns => ns.foldl (fun n d => 60 * n + d) 0
    else readDigits 10 cs

def readInt (text : String) : Except Fault Value := do
  let (negative, cs) ← signed text
  let n ← readUnsigned cs
  return .int (if negative then -n else n)

/-- A number in decimal notation, or a word for one. -/
def readNumber (cs : List Char) : Except Fault Double :=
  let text := String.ofList cs
  match Lenient.double? (Text.trim Text.isBlank text).toList with
  | some x => .ok x
  | none => .error (.numberText text)

/-- A number in parts of sixty, the last part first: `base` is what one of the first is worth. -/
def addSixtieths (base : Nat) (sum : Double) : List Double → Except Fault Double
  | [] => .ok sum
  | x :: rest =>
    match x.mulNat? base with
    | none => .error .numberTooLarge
    | some y => addSixtieths (60 * base) (sum.add y) rest

def readFloat (text : String) : Except Fault Value := do
  let (negative, cs) ← signed (Text.lower text)
  let x ←
    if cs = ".inf".toList then pure (.infinite false)
    else if cs = ".nan".toList then pure .nan
    else if cs.contains ':' then do
      let xs ← (colonParts cs).mapM readNumber
      addSixtieths 1 .zero xs.reverse
    else readNumber cs
  return .float (if negative then x.negate else x)

/-- Digits of a second as millionths. -/
def micros (fraction : List Char) : Nat :=
  Json.digitsValue ((fraction ++ List.replicate 6 '0').take 6)

def checkedDay (t : TimeText) : Except Fault Day :=
  if t.year = 0 then .error (.outOfRange (.year 0))
  else if t.month = 0 || 12 < t.month then .error (.outOfRange .month)
  else if t.day = 0 || daysIn t.year t.month < t.day then .error (.outOfRange .day)
  else .ok ⟨t.year, t.month, t.day⟩

def readTime (text : String) : Except Fault Value :=
  match timeText? text.toList with
  | none => .error .timeText
  | some t =>
    match t.clock with
    | none => (checkedDay t).map .day
    | some (hour, minute, second) =>
      if t.offset.any fun minutes => 1440 ≤ minutes.natAbs then
        .error (.outOfRange (.offset (t.offset.getD 0)))
      else do
        let day ← checkedDay t
        if 23 < hour then throw (.outOfRange .hour)
        if 59 < minute then throw (.outOfRange .minute)
        if 59 < second then throw (.outOfRange .second)
        return .moment ⟨day, hour, minute, second, micros t.fraction, t.offset⟩

/-- The six bits that a character of base 64 writes. -/
def sextet? (c : Char) : Option Nat :=
  if c.isUpper then some (c.toNat - 65)
  else if c.isLower then some (c.toNat - 71)
  else if c.isDigit then some (c.toNat + 4)
  else if c = '+' then some 62
  else if c = '/' then some 63
  else none

/-- The bytes of sextets, of which the last ones may be too few for a byte. -/
def bytesOfSextets : List Nat → List UInt8
  | a :: b :: c :: d :: rest =>
    UInt8.ofNat (4 * a + b / 16) :: UInt8.ofNat (b % 16 * 16 + c / 4) :: UInt8.ofNat (c % 4 * 64 + d) ::
      bytesOfSextets rest
  | [a, b, c] => [UInt8.ofNat (4 * a + b / 16), UInt8.ofNat (b % 16 * 16 + c / 4)]
  | [a, b] => [UInt8.ofNat (4 * a + b / 16)]
  | _ => []

/-- Text in base 64, up to its padding; other characters count for nothing. Bytes that are no text become
one character each. -/
def readBinary (text : String) : Except Fault Value :=
  let cs := text.toList
  let body := (cs.takeWhile (· != '=')).filterMap sextet?
  let padding := cs.count '='
  let missing := (4 - body.length % 4) % 4
  if cs.any (fun c => 0x7f < c.toNat) || body.length % 4 == 1 || padding < missing then .error .malformed
  else
    let bytes := bytesOfSextets body
    match Text.decodeUtf8 bytes with
    | .ok cs => .ok (.str (String.ofList cs))
    | .error _ => .ok (.str (String.ofList (bytes.map fun b => Char.ofNat b.toNat)))

/-- A scalar of a type; there are none of the types of collections, nor of the keys with a meaning. -/
def readScalar (kind : Kind) (text : String) : Except Fault Value :=
  match kind with
  | .null => .ok .null
  | .bool => readFlag text
  | .int => readInt text
  | .float => readFloat text
  | .timestamp => readTime text
  | .str => .ok (.str text)
  | .binary => readBinary text
  | .merge | .default | .seq | .map | .set | .pairs => .error .malformed

end Schema
end Runbook.Yaml
