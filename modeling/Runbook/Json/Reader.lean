import Runbook.Json.Fault
import Runbook.Value.Basic

/-! Reading JSON. Besides the standard's forms the words `NaN`, `Infinity` and `-Infinity` are numbers, and
of two members with one name the last counts. -/
namespace Runbook.Json

/-- The text that is still to be read, and its position. -/
structure Spot where
  position : Nat
  rest : List Char

namespace Spot

/-- The spot after `count` more characters. -/
def skip (s : Spot) (count : Nat) : Spot := ⟨s.position + count, s.rest.drop count⟩

def fault (s : Spot) (problem : Problem) : Except Fault α := .error (.malformed problem s.position)

end Spot

def isSpace (c : Char) : Bool := c == ' ' || c == '\t' || c == '\n' || c == '\r'

/-- The spot after white space. -/
def skipSpace (s : Spot) : Spot := s.skip (s.rest.takeWhile isSpace).length

/-- The value of a hexadecimal digit. -/
def hexValue? (c : Char) : Option Nat :=
  if '0' ≤ c && c ≤ '9' then some (c.toNat - 48)
  else if 'a' ≤ c && c ≤ 'f' then some (c.toNat - 87)
  else if 'A' ≤ c && c ≤ 'F' then some (c.toNat - 55)
  else none

/-- The number that hexadecimal digits write. -/
def hexNumber? (digits : List Char) : Option Nat :=
  digits.foldlM (fun n c => (hexValue? c).map (16 * n + ·)) 0

/-- The unit that four hexadecimal digits name; they may not end the text. -/
def unit? (rest : List Char) : Option Nat :=
  if (rest.take 5).length < 5 then none else hexNumber? (rest.take 4)

def isHighSurrogate (n : Nat) : Bool := 0xd800 ≤ n && n < 0xdc00

def isLowSurrogate (n : Nat) : Bool := 0xdc00 ≤ n && n < 0xe000

/-- The character of a unit, which may be half of a pair on its own. -/
def unitChar (n : Nat) : Char := if 0xd800 ≤ n && n < 0xe000 then Text.halfChar n else Char.ofNat n

/-- The character that a backslash and a letter write. -/
def escaped? (c : Char) : Option Char :=
  if c = '"' || c = '\\' || c = '/' then some c
  else if c = 'b' then some '\x08'
  else if c = 'f' then some '\x0c'
  else if c = 'n' then some '\n'
  else if c = 'r' then some '\r'
  else if c = 't' then some '\t'
  else none

/-- What one step inside a string finds. -/
inductive Piece where
  | close
  | char (c : Char) (taken : Nat)

/-- The next piece of the string that starts at `start`. -/
def piece (start : Nat) (s : Spot) : Except Fault Piece :=
  match s.rest with
  | [] => .error (.malformed .unterminated start)
  | '"' :: _ => .ok .close
  | '\\' :: rest =>
    match rest with
    | [] => .error (.malformed .unterminated start)
    | 'u' :: rest =>
      match unit? rest with
      | none => (s.skip 1).fault .badCodePoint
      | some high =>
        let after := rest.drop 4
        if isHighSurrogate high && (after.take 7).length = 7 && after.take 2 == ['\\', 'u'] then
          match hexNumber? ((after.drop 2).take 4) with
          | none => (s.skip 7).fault .badCodePoint
          | some low =>
            if isLowSurrogate low then
              .ok (.char (Char.ofNat (0x10000 + (high - 0xd800) * 0x400 + (low - 0xdc00))) 12)
            else .ok (.char (unitChar high) 6)
        else .ok (.char (unitChar high) 6)
    | c :: _ =>
      match escaped? c with
      | some e => .ok (.char e 2)
      | none => s.fault .badEscape
  | c :: _ => if c.toNat < 0x20 then s.fault .controlCharacter else .ok (.char c 1)

/-- Reads at most `count` pieces of a string, which are all of them if `count` is the length of the rest. -/
def pieces (start : Nat) : Nat → Spot → List Char → Except Fault (String × Spot)
  | 0, _, _ => .error (.malformed .unterminated start)
  | count + 1, s, read =>
    match piece start s with
    | .error e => .error e
    | .ok .close => .ok (String.ofList read.reverse, s.skip 1)
    | .ok (.char c taken) => pieces start count (s.skip taken) (c :: read)

/-- Reads a string after its opening quote. -/
def readString (s : Spot) : Except Fault (String × Spot) :=
  pieces (s.position - 1) (s.rest.length + 1) s []

/-- The value of decimal digits. -/
def digitsValue (digits : List Char) : Nat := digits.foldl (fun n c => 10 * n + (c.toNat - 48)) 0

/-- The parts of a number: sign, whole digits, the digits after a point, and an exponent. -/
structure Numeral where
  negative : Bool
  whole : List Char
  fraction : Option (List Char)
  exponent : Option (Bool × List Char)

/-- The digits after a point, where a point with a digit comes next. -/
def fraction? : List Char → Option (List Char × List Char)
  | '.' :: rest =>
    let digits := rest.takeWhile Char.isDigit
    if digits.isEmpty then none else some (digits, rest.drop digits.length)
  | _ => none

/-- An exponent, where one with a digit comes next. -/
def exponent? : List Char → Option ((Bool × List Char) × List Char)
  | e :: rest =>
    if e = 'e' || e = 'E' then
      let (negative, rest) : Bool × List Char := match rest with
        | '-' :: rest => (true, rest)
        | '+' :: rest => (false, rest)
        | rest => (false, rest)
      let digits := rest.takeWhile Char.isDigit
      if digits.isEmpty then none else some ((negative, digits), rest.drop digits.length)
    else none
  | [] => none

/-- The numeral at the start of a text, and the rest. -/
def numeral? (text : List Char) : Option (Numeral × List Char) :=
  let (negative, unsigned) : Bool × List Char := match text with
    | '-' :: rest => (true, rest)
    | rest => (false, rest)
  let digits := unsigned.takeWhile Char.isDigit
  let whole := if digits.head? = some '0' then ['0'] else digits
  if whole.isEmpty then none
  else
    let rest := unsigned.drop whole.length
    let (fraction, rest) := match fraction? rest with
      | some (digits, rest) => (some digits, rest)
      | none => (none, rest)
    let (exponent, rest) := match exponent? rest with
      | some (e, rest) => (some e, rest)
      | none => (none, rest)
    some (⟨negative, whole, fraction, exponent⟩, rest)

/-- A numeral with neither fraction nor exponent is an integer. -/
def Numeral.value (n : Numeral) : Except Fault Value :=
  match n.fraction, n.exponent with
  | none, none =>
    if digitLimit < n.whole.length then .error (.tooManyDigits n.whole.length)
    else
      let m : Int := digitsValue n.whole
      .ok (.int (if n.negative then -m else m))
  | fraction, exponent =>
    let fraction := fraction.getD []
    let shift : Int := match exponent with
      | none => 0
      | some (negative, digits) => if negative then -(digitsValue digits : Int) else digitsValue digits
    let decimal : Decimal := ⟨digitsValue (n.whole ++ fraction), shift - fraction.length⟩
    .ok (.float (decimal.toDouble n.negative))

/-- The values that are written as words. -/
def words : List (String × Value) := [
  ("null", .null), ("true", .bool true), ("false", .bool false), ("NaN", .float .nan),
  ("Infinity", .float (.infinite false)), ("-Infinity", .float (.infinite true))]

/-- The word at the start of a text. -/
def word? (text : List Char) : Option (Value × Nat) :=
  (words.find? fun (w, _) => w.toList.isPrefixOf text).map fun (w, v) => (v, w.length)

/-- A word or a number. -/
def readScalar (s : Spot) : Except Fault (Value × Spot) :=
  match word? s.rest with
  | some (v, taken) => .ok (v, s.skip taken)
  | none =>
    match numeral? s.rest with
    | none => s.fault .expectedValue
    | some (n, rest) =>
      match n.value with
      | .error e => .error e
      | .ok v => .ok (v, ⟨s.position + (s.rest.length - rest.length), rest⟩)

/-- Reads the items of an array up to its end; `read` reads one item. -/
def readItems (read : Spot → Except Fault (Value × Spot)) :
    Nat → Spot → List Value → Except Fault (Value × Spot)
  | 0, s, _ => s.fault .expectedComma
  | count + 1, s, items =>
    match read s with
    | .error e => .error e
    | .ok (v, s) =>
      let s := skipSpace s
      match s.rest with
      | ']' :: _ => .ok (.list (v :: items).reverse, s.skip 1)
      | ',' :: _ => readItems read count (skipSpace (s.skip 1)) (v :: items)
      | _ => s.fault .expectedComma

/-- Reads the members of an object up to its end; `read` reads one value. -/
def readMembers (read : Spot → Except Fault (Value × Spot)) :
    Nat → Spot → Entries → Except Fault (Value × Spot)
  | 0, s, _ => s.fault .expectedComma
  | count + 1, s, entries =>
    match s.rest with
    | '"' :: _ =>
      match readString (s.skip 1) with
      | .error e => .error e
      | .ok (name, s) =>
        let s := skipSpace s
        match s.rest with
        | ':' :: _ =>
          match read (skipSpace (s.skip 1)) with
          | .error e => .error e
          | .ok (v, s) =>
            let s := skipSpace s
            let entries := Entries.insert entries (.str name) v
            match s.rest with
            | '\x7d' :: _ => .ok (.map entries, s.skip 1)
            | ',' :: _ => readMembers read count (skipSpace (s.skip 1)) entries
            | _ => s.fault .expectedComma
        | _ => s.fault .expectedColon
    | _ => s.fault .expectedName

/-- Reads a value in which arrays and objects nest at most `depth` deep. -/
def readValue : Nat → Spot → Except Fault (Value × Spot)
  | depth, s =>
    match s.rest with
    | '"' :: _ =>
      match readString (s.skip 1) with
      | .error e => .error e
      | .ok (text, s) => .ok (.str text, s)
    | '[' :: _ =>
      match depth with
      | 0 => .error (.tooDeep true)
      | depth + 1 =>
        let s := skipSpace (s.skip 1)
        match s.rest with
        | ']' :: _ => .ok (.list [], s.skip 1)
        | _ => readItems (readValue depth) (s.rest.length + 1) s []
    | '\x7b' :: _ =>
      match depth with
      | 0 => .error (.tooDeep false)
      | depth + 1 =>
        let s := skipSpace (s.skip 1)
        match s.rest with
        | '\x7d' :: _ => .ok (.map [], s.skip 1)
        | _ => readMembers (readValue depth) (s.rest.length + 1) s []
    | _ => readScalar s

/-- Reads a whole text. -/
def read (text : List Char) : Except Fault Value :=
  match text with
  | '\ufeff' :: _ => .error (.malformed .byteOrderMark 0)
  | _ =>
    match readValue depthLimit (skipSpace ⟨0, text⟩) with
    | .error e => .error e
    | .ok (v, s) =>
      let s := skipSpace s
      if s.rest.isEmpty then .ok v else s.fault .extraData

end Runbook.Json
