import Runbook.Yaml.Place

/-! Block scalars: the lines below their indicator that are indented far enough. Literal ones keep their line
ends, folded ones join lines of text by a blank. -/
namespace Runbook.Yaml.Lexeme

/-- What becomes of the line ends after the last line: one is kept, none, or all. -/
inductive Chomp where
  | clip
  | strip
  | keep
  deriving DecidableEq

/-- What stands behind the indicator: how to end, and an indentation. -/
structure BlockHeader where
  chomp : Chomp
  indent : Option Nat

def chomp? (c : Char) : Option Chomp :=
  if c = '+' then some .keep else if c = '-' then some .strip else none

/-- The end of a block that comes next, if one is named. -/
def takeChomp (s : Place) : Option Chomp × Place :=
  match s.rest.head?.bind chomp? with
  | some chomp => (some chomp, s.next)
  | none => (none, s)

/-- The indentation that comes next, if one is given. -/
def takeIndent (s : Place) : Option Nat × Place :=
  match s.rest with
  | c :: _ => if c.isDigit then (some (c.toNat - 48), s.next) else (none, s)
  | [] => (none, s)

/-- The header, in which the two marks may come in either order. -/
def blockHeader (s : Place) : Except Fault (BlockHeader × Place) :=
  let (first, s) := takeChomp s
  let (indent, s) := takeIndent s
  let (second, s) := if first.isNone && indent.isSome then takeChomp s else (none, s)
  if indent == some 0 || !endsField s.rest then .error .malformed
  else .ok (⟨(first.or second).getD .clip, indent⟩, s)

/-- The place after blanks, but not beyond column `indent`. -/
def skipIndent (indent : Nat) (s : Place) : Place :=
  s.skip (min (indent - s.column) (s.rest.takeWhile (· == ' ')).length)

/-- Line ends of empty lines, and the place of the next text. -/
def blockBreaks (indent : Nat) : Nat → Place → List Char × Place
  | 0, s => ([], s)
  | fuel + 1, s =>
    let s := skipIndent indent s
    match s.rest with
    | c :: _ =>
      if isBreak c then
        let (more, s) := blockBreaks indent fuel s.next
        (breakChar c :: more, s)
      else ([], s)
    | [] => ([], s)

/-- The line ends before the first text, the widest indentation up to it, and its place. -/
def leadingBreaks : Nat → Place → List Char × Nat × Place
  | 0, s => ([], s.column, s)
  | fuel + 1, s =>
    let s := s.skipBlanks
    match s.rest with
    | c :: _ =>
      if isBreak c then
        let (more, widest, after) := leadingBreaks fuel s.next
        (breakChar c :: more, max s.column widest, after)
      else ([], s.column, s)
    | [] => ([], s.column, s)

/-- Whether a text starts with a blank or a tab. -/
def startsBlank : List Char → Bool
  | c :: _ => c == ' ' || c == '\t'
  | [] => false

/-- The text of a block, in reverse, the last line end, and the empty lines after it. -/
structure BlockText where
  text : List Char
  last : List Char
  breaks : List Char
  place : Place

/-- The line end that was taken at a place. -/
def lineEnd (s : Place) : List Char × Place :=
  match s.rest with
  | c :: _ => ([breakChar c], s.next)
  | [] => ([], s)

/-- What joins a line and the next one. -/
def joint (folds startsPlainly : Bool) (last breaks next : List Char) : List Char :=
  if folds && last == ['\n'] && startsPlainly && !startsBlank next then
    (if breaks.isEmpty then [' '] else [])
  else last

/-- The lines from here on that stand at column `indent`. -/
def blockLines (folds : Bool) (indent : Nat) : Nat → BlockText → BlockText
  | 0, b => b
  | fuel + 1, b =>
    if b.place.column != indent || b.place.rest.isEmpty then b
    else
      let startsPlainly := !startsBlank b.place.rest
      let (line, s) := b.place.span fun c => !isBreak c
      let text := line.reverse ++ b.breaks.reverse ++ b.text
      let (last, s) := lineEnd s
      let (breaks, s) := blockBreaks indent (s.rest.length + 1) s
      if s.column == indent && !s.rest.isEmpty then
        let text := (joint folds startsPlainly last breaks s.rest).reverse ++ text
        blockLines folds indent fuel ⟨text, last, breaks, s⟩
      else ⟨text, last, breaks, s⟩

/-- The block scalar that starts at an indicator, where text has to stand at column `least` or beyond. -/
def block (folds : Bool) (least : Nat) (s : Place) : Except Fault (List Char × Place) := do
  let (header, s) ← blockHeader s.next
  let s ← s.finishLine
  let fuel := s.rest.length + 1
  let (indent, breaks, s) := match header.indent with
    | some extra =>
      let indent := least + extra - 1
      let (breaks, s) := blockBreaks indent fuel s
      (indent, breaks, s)
    | none =>
      let (breaks, widest, s) := leadingBreaks fuel s
      (max least widest, breaks, s)
  let b := blockLines folds indent fuel ⟨[], [], breaks, s⟩
  let ending := match header.chomp with
    | .strip => []
    | .clip => b.last
    | .keep => b.last ++ b.breaks
  return (b.text.reverse ++ ending, b.place)

end Runbook.Yaml.Lexeme
