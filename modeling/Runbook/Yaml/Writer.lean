import Runbook.Yaml.Style

/-! Writing YAML: block collections, two blanks a level, with the dashes of a sequence in the column of the
key above it. Texts are folded at blanks behind column 80. -/
namespace Runbook.Yaml

/-- The column behind which texts are folded. -/
def lineWidth : Nat := 80

/-- Numbers in YAML. -/
def numberStyle : Double.Style := ⟨".nan", ".inf", true⟩

def blanks (n : Nat) : List Char := List.replicate n ' '

/-- A line end, and the blanks of the next line. -/
def newLine (indent : Nat) : List Char := '\n' :: blanks indent

/-- Whether two characters belong to one run: of blanks, of line ends, or of others. -/
def sameRun (c d : Char) : Bool := (c == ' ') == (d == ' ') && isBreak c == isBreak d

/-- The runs of a text. -/
def runs (cs : List Char) : List (List Char) := cs.splitBy sameRun

/-- Plain text from a column on. A single blank may become a line end. -/
def writePlain (folds : Bool) (indent : Nat) : Nat → List (List Char) → List Char
  | _, [] => []
  | column, run :: rest =>
    if folds && run == [' '] && lineWidth < column then
      newLine indent ++ writePlain folds indent indent rest
    else run ++ writePlain folds indent (column + run.length) rest

/-- Text in which each quote is written twice. -/
def doubleQuotes : List Char → List Char
  | [] => []
  | c :: rest => if c = '\'' then '\'' :: '\'' :: doubleQuotes rest else c :: doubleQuotes rest

/-- A run of line ends. One more line feed goes before a run that starts with one, for one is folded. -/
def writeBreaks (indent : Nat) (run : List Char) : List Char :=
  (if run.head? == some '\n' then ['\n'] else []) ++ run ++ blanks indent

/-- Text between single quotes. No blank at either end becomes a line end. -/
def writeSingle (folds : Bool) (indent : Nat) : Bool → Nat → List (List Char) → List Char
  | _, _, [] => []
  | isFirst, column, run :: rest =>
    if run.head?.any isBreak then writeBreaks indent run ++ writeSingle folds indent false indent rest
    else if folds && run == [' '] && lineWidth < column && !isFirst && !rest.isEmpty then
      newLine indent ++ writeSingle folds indent false indent rest
    else
      let text := doubleQuotes run
      text ++ writeSingle folds indent false (column + text.length) rest

/-- A character that has to be escaped between double quotes. -/
def needsEscape (c : Char) : Bool :=
  let n := c.toNat
  c == '"' || c == '\\' || c == '\u2028' || c == '\u2029' || c == '\ufeff' ||
    !((0x20 ≤ n && n ≤ 0x7e) || (0xa0 ≤ n && n ≤ 0xfffd))

/-- The letters that stand for characters behind a backslash. -/
def escapeLetters : List (Char × Char) := [
  ('\x00', '0'), ('\x07', 'a'), ('\x08', 'b'), ('\t', 't'), ('\n', 'n'), ('\x0b', 'v'), ('\x0c', 'f'),
  ('\r', 'r'), ('\x1b', 'e'), ('"', '"'), ('\\', '\\'), ('\x85', 'N'), ('\xa0', '_'), ('\u2028', 'L'),
  ('\u2029', 'P')]

/-- Capital hexadecimal digits of a number, padded with zeros to a width. -/
def capitalHex (width n : Nat) : List Char := (Text.hexDigits width n).toList.map Char.toUpper

def escapeText (c : Char) : List Char :=
  match escapeLetters.lookup c with
  | some letter => ['\\', letter]
  | none =>
    if c.toNat ≤ 0xff then ['\\', 'x'] ++ capitalHex 2 c.toNat
    else if c.toNat ≤ 0xffff then ['\\', 'u'] ++ capitalHex 4 c.toNat
    else if let some half := Text.half? c then ['\\', 'u'] ++ capitalHex 4 half
    else ['\\', 'U'] ++ capitalHex 8 c.toNat

/-- A line end that says nothing, and a backslash before a blank that would be lost behind it. -/
def continuation (indent : Nat) (rest : List Char) : List Char :=
  ['\\'] ++ newLine indent ++ (if rest.head? == some ' ' then ['\\'] else [])

/-- The column after a continuation. -/
def columnAfter (indent : Nat) (rest : List Char) : Nat :=
  if rest.head? == some ' ' then indent + 1 else indent

/-- Text between double quotes, from a column on; `pending` has the characters before it, in reverse, that
are not counted in the column. Lines are continued behind an escape, or at a blank. -/
def writeDouble (folds : Bool) (indent : Nat) : Bool → Nat → List Char → List Char → List Char
  | _, _, pending, [] => pending.reverse
  | isFirst, column, pending, c :: rest =>
    let breaks := folds && !isFirst && !rest.isEmpty
    if needsEscape c then
      let text := pending.reverse ++ escapeText c
      if breaks && lineWidth + 1 < column + text.length then
        text ++ continuation indent rest ++ writeDouble folds indent false (columnAfter indent rest) [] rest
      else text ++ writeDouble folds indent false (column + text.length) [] rest
    else if breaks && (c == ' ' || pending.isEmpty) && lineWidth < column + pending.length then
      pending.reverse ++ continuation indent (c :: rest) ++
        writeDouble folds indent false (columnAfter indent (c :: rest)) [c] rest
    else writeDouble folds indent false column (c :: pending) rest

/-- A text from a column on, whose further lines are indented. A key that stands before its colon has one
line only. -/
def writeText (isKey : Bool) (indent column : Nat) (text : String) : List Char :=
  let cs := text.toList
  let folds := !isKey
  match Style.ofText isKey text with
  | .plain => writePlain folds indent column (runs cs)
  | .single => ['\''] ++ writeSingle folds indent true (column + 1) (runs cs) ++ ['\'']
  | .double => ['"'] ++ writeDouble folds indent true (column + 1) [] cs ++ ['"']

/-- A value that is no collection with something in it. -/
def writeScalar (isKey : Bool) (indent column : Nat) : Value → List Char
  | .null => "null".toList
  | .bool b => (if b then "true" else "false").toList
  | .int n => (toString n).toList
  | .float x => (x.text numberStyle).toList
  | .str s => writeText isKey indent column s
  | .day d => d.text.toList
  | .moment m => (m.text " " "+00:00").toList
  | .list _ => "[]".toList
  | .map _ => "\x7b\x7d".toList

/-- Whether a key stands before its colon. -/
def isShort : Value → Bool
  | .str s => Style.isShortKey s
  | _ => true

mutual

/-- A value behind the colon of a key, which ends at a column. -/
def behindKey (indent column : Nat) : Value → List Char
  | .list (v :: rest) => newLine indent ++ (newLine indent).intercalate (itemTexts indent (v :: rest))
  | .map (e :: rest) =>
    newLine (indent + 2) ++ (newLine (indent + 2)).intercalate (entryTexts (indent + 2) (e :: rest))
  | v => ' ' :: writeScalar false (indent + 2) (column + 1) v

/-- A value behind a mark in column `indent`. -/
def behindMark (indent : Nat) : Value → List Char
  | .list (v :: rest) => ' ' :: (newLine (indent + 2)).intercalate (itemTexts (indent + 2) (v :: rest))
  | .map (e :: rest) => ' ' :: (newLine (indent + 2)).intercalate (entryTexts (indent + 2) (e :: rest))
  | v => ' ' :: writeScalar false (indent + 2) (indent + 2) v

def itemTexts (indent : Nat) : List Value → List (List Char)
  | [] => []
  | v :: rest => ('-' :: behindMark indent v) :: itemTexts indent rest

def entryTexts (indent : Nat) : List (Value × Value) → List (List Char)
  | [] => []
  | (k, v) :: rest =>
    (if isShort k then
      let key := writeScalar true (indent + 2) indent k
      key ++ ':' :: behindKey indent (indent + key.length + 1) v
    else
      ['?', ' '] ++ writeScalar false (indent + 2) (indent + 2) k ++ newLine indent ++
        ':' :: behindMark indent v) :: entryTexts indent rest

end

/-- A document with one value. -/
def write (v : Value) : String :=
  String.ofList ((match v with
    | .list (v :: rest) => (newLine 0).intercalate (itemTexts 0 (v :: rest))
    | .map (e :: rest) => (newLine 0).intercalate (entryTexts 0 (e :: rest))
    | v => writeScalar false 2 0 v) ++ ['\n'])

end Runbook.Yaml
