import Runbook.Value.Basic

/-! Writing JSON. A form says how a text is laid out and what is escaped; the structure is the same for all. -/
namespace Runbook.Json

/-- How a text is laid out: the blanks per level where items have lines of their own, and whether only
ASCII is written. -/
structure Form where
  indent : Option Nat
  ascii : Bool

namespace Form

/-- Two blanks a level, and ASCII alone. -/
def stored : Form := ⟨some 2, true⟩

/-- Two blanks a level, and every character but controls as it is. -/
def report : Form := ⟨some 2, false⟩

/-- One line without blanks. -/
def line : Form := ⟨none, false⟩

end Form

/-- Numbers in JSON. -/
def numberStyle : Double.Style := ⟨"NaN", "Infinity", false⟩

/-- The escape of one 16-bit unit. -/
def unitEscape (n : Nat) : String := "\\u" ++ Text.hexDigits 4 n

/-- A character inside quotes. -/
def charText (ascii : Bool) (c : Char) : String :=
  let n := c.toNat
  if c = '"' then "\\\""
  else if c = '\\' then "\\\\"
  else if c = '\n' then "\\n"
  else if c = '\r' then "\\r"
  else if c = '\t' then "\\t"
  else if c = '\x08' then "\\b"
  else if c = '\x0c' then "\\f"
  else if n < 0x20 then unitEscape n
  else if !ascii || n < 0x7f then c.toString
  else if n < 0x10000 then unitEscape n
  else if let some half := Text.half? c then Text.halfEscape half
  else unitEscape (0xd800 + (n - 0x10000) / 0x400) ++ unitEscape (0xdc00 + (n - 0x10000) % 0x400)

/-- A text between quotes. -/
def stringText (ascii : Bool) (s : String) : String :=
  "\"" ++ String.join (s.toList.map (charText ascii)) ++ "\""

/-- What stands before an item at a level. -/
def Form.lineStart (form : Form) (level : Nat) : String :=
  match form.indent with
  | none => ""
  | some width => "\n" ++ String.ofList (List.replicate (width * level) ' ')

/-- What stands between a name and its value. -/
def Form.colon (form : Form) : String := if form.indent.isSome then ": " else ":"

/-- Items between brackets, each on a line of its own where the form has lines. -/
def enclose (form : Form) (level : Nat) (opening closing : String) (items : List String) : String :=
  if items.isEmpty then opening ++ closing
  else
    opening ++ form.lineStart (level + 1) ++ ("," ++ form.lineStart (level + 1)).intercalate items ++
      form.lineStart level ++ closing

mutual

/-- A value at a level. -/
def write (form : Form) (level : Nat) : Value → String
  | .null => "null"
  | .bool b => if b then "true" else "false"
  | .int n => toString n
  | .float x => x.text numberStyle
  | .str s => stringText form.ascii s
  | .day d => stringText form.ascii d.text
  | .moment m => stringText form.ascii (m.text "T" "+00:00")
  | .list items => enclose form level "[" "]" (writeItems form (level + 1) items)
  | .map entries => enclose form level "\x7b" "\x7d" (writeEntries form (level + 1) entries)

def writeItems (form : Form) (level : Nat) : List Value → List String
  | [] => []
  | v :: rest => write form level v :: writeItems form level rest

def writeEntries (form : Form) (level : Nat) : List (Value × Value) → List String
  | [] => []
  | (k, v) :: rest =>
    (stringText form.ascii k.plainKey ++ form.colon ++ write form level v) :: writeEntries form level rest

end

/-- A whole text. -/
def Form.text (form : Form) (v : Value) : String := write form 0 v

end Runbook.Json
