import Runbook.Double.Decimal
import Runbook.Text.Quoted
import Runbook.Value.Calendar

/-! The values that documents hold. A map keeps its entries in the order in which their keys first came,
and a key that comes again only changes the value. -/
namespace Runbook

inductive Value where
  | null
  | bool (b : Bool)
  | int (n : Int)
  | float (x : Double)
  | str (s : String)
  | day (d : Day)
  | moment (m : Moment)
  | list (items : List Value)
  | map (entries : List (Value × Value))
  deriving Inhabited

/-- The entries of a map. -/
abbrev Entries := List (Value × Value)

namespace Value

/-- The integer that stands for a value among numbers: truth values count as 1 and 0. -/
def integer? : Value → Option Int
  | .bool b => some (if b then 1 else 0)
  | .int n => some n
  | _ => none

/-- Equality of keys. Numbers are equal by value, whether written as integers, fractions or truth values,
and lists and maps are no keys. -/
def sameKey : Value → Value → Bool
  | .null, .null => true
  | .str a, .str b => a == b
  | .day a, .day b => a == b
  | .moment a, .moment b => a == b
  | .float x, .float y => x.equals y
  | .float x, v => match v.integer? with
    | some n => x.toInt? == some n
    | none => false
  | u, .float y => match u.integer? with
    | some n => y.toInt? == some n
    | none => false
  | u, v => match u.integer?, v.integer? with
    | some n, some m => n == m
    | _, _ => false

/-- Whether a value can be a key. -/
def isKey : Value → Bool
  | .list _ | .map _ => false
  | _ => true

/-- Whether a condition on the value holds: nulls, zeros and empty values are false. -/
def isTrue : Value → Bool
  | .null => false
  | .bool b => b
  | .int n => n != 0
  | .float x => !(x.equals .zero)
  | .str s => s != ""
  | .day _ | .moment _ => true
  | .list items => !items.isEmpty
  | .map entries => !entries.isEmpty

/-- The name of a value's type in messages. -/
def typeName : Value → String
  | .null => "NoneType"
  | .bool _ => "bool"
  | .int _ => "int"
  | .float _ => "float"
  | .str _ => "str"
  | .day _ => "date"
  | .moment _ => "datetime"
  | .list _ => "list"
  | .map _ => "dict"

/-- Numbers in messages. -/
def numberStyle : Double.Style := ⟨"nan", "inf", false⟩

mutual

/-- A value as messages quote it. -/
def literal : Value → String
  | .null => "None"
  | .bool b => if b then "True" else "False"
  | .int n => toString n
  | .float x => x.text numberStyle
  | .str s => Text.quote s
  | .day d => s!"datetime.date({d.year}, {d.month}, {d.day})"
  | .moment m => m.text "T" "+00:00"
  | .list items => "[" ++ ", ".intercalate (literals items) ++ "]"
  | .map entries => "\x7b" ++ ", ".intercalate (literalEntries entries) ++ "\x7d"

def literals : List Value → List String
  | [] => []
  | v :: rest => v.literal :: literals rest

def literalEntries : List (Value × Value) → List String
  | [] => []
  | (k, v) :: rest => (k.literal ++ ": " ++ v.literal) :: literalEntries rest

end

/-- A value as messages show it: text and days stand for themselves. -/
def display : Value → String
  | .str s => s
  | .day d => d.text
  | .moment m => m.text " " "+00:00"
  | v => v.literal

end Value

namespace Entries

/-- The value of a key. -/
def get? (entries : Entries) (key : Value) : Option Value :=
  match entries with
  | [] => none
  | (k, v) :: rest => if k.sameKey key then some v else get? rest key

/-- Gives a key a value: in its old place if it has one, else at the end. -/
def insert (entries : Entries) (key value : Value) : Entries :=
  match entries with
  | [] => [(key, value)]
  | (k, v) :: rest => if k.sameKey key then (k, value) :: rest else (k, v) :: insert rest key value

/-- The entries that pairs leave when they are inserted in turn. -/
def ofPairs (pairs : List (Value × Value)) : Entries :=
  pairs.foldl (fun entries (k, v) => entries.insert k v) []

/-- The value of a key that is a text. -/
def text? (entries : Entries) (key : String) : Option Value := entries.get? (.str key)

end Entries

/-- A map with texts for keys. -/
def Value.record (fields : List (String × Value)) : Value :=
  .map (fields.map fun (k, v) => (.str k, v))

/-- A text, or null for none. -/
def Value.ofText? : Option String → Value
  | some s => .str s
  | none => .null

/-- A list of texts. -/
def Value.texts (items : List String) : Value := .list (items.map .str)

mutual

/-- Equality of values: numbers by value, maps whatever the order of their entries. -/
def Value.equals : Value → Value → Bool
  | .list items, .list others => Value.listEquals items others
  | .map entries, .map others => entries.length == others.length && Value.entriesEqual entries others
  | .list _, _ | .map _, _ => false
  | u, v => u.sameKey v

def Value.listEquals : List Value → List Value → Bool
  | [], [] => true
  | u :: us, v :: vs => u.equals v && Value.listEquals us vs
  | _, _ => false

def Value.entriesEqual : List (Value × Value) → Entries → Bool
  | [], _ => true
  | (k, u) :: rest, others =>
    (match others.get? k with
     | some v => u.equals v
     | none => false) && Value.entriesEqual rest others

end

/-- A key as text. -/
def Value.plainKey : Value → String
  | .bool b => if b then "true" else "false"
  | .day d => d.text
  | .moment m => m.text "T" "Z"
  | v => v.display

mutual

/-- A value in the form that is stored: days and moments become text, keys become text, and a number that
is not finite becomes null. -/
def Value.plain : Value → Value
  | .float x => if x.isFinite then .float x else .null
  | .day d => .str d.text
  | .moment m => .str (m.text "T" "Z")
  | .list items => .list (Value.plainItems items)
  | .map entries => .map (Entries.ofPairs (Value.plainEntries entries))
  | v => v

def Value.plainItems : List Value → List Value
  | [] => []
  | v :: rest => v.plain :: Value.plainItems rest

def Value.plainEntries : List (Value × Value) → List (Value × Value)
  | [] => []
  | (k, v) :: rest => (.str (Value.plainKey k), v.plain) :: Value.plainEntries rest

end

end Runbook
