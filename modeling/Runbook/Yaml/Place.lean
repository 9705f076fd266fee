import Runbook.Yaml.Fault

/-! Places in a text: what is left to read, and where in its line that begins. Four characters end a line,
and a byte order mark takes no column. -/
namespace Runbook.Yaml

/-- A character that ends a line. -/
def isBreak (c : Char) : Bool := c == '\n' || c == '\x85' || c == '\u2028' || c == '\u2029'

/-- A line ends here. -/
def endsLine : List Char → Bool
  | [] => true
  | c :: _ => isBreak c

/-- A blank or the end of the line comes next. -/
def endsField : List Char → Bool
  | ' ' :: _ => true
  | rest => endsLine rest

/-- A blank, a tab or the end of the line comes next. -/
def endsWord : List Char → Bool
  | '\t' :: _ => true
  | rest => endsField rest

/-- What a line end stands for inside a scalar: the separators for lines and paragraphs stand for
themselves, the others for a line feed. -/
def breakChar (c : Char) : Char := if c == '\x85' then '\n' else c

structure Place where
  index : Nat
  line : Nat
  column : Nat
  rest : List Char

namespace Place

def ofText (text : List Char) : Place := ⟨0, 0, 0, text⟩

/-- The place after the next character. -/
def next (s : Place) : Place :=
  match s.rest with
  | [] => s
  | c :: rest =>
    if isBreak c then ⟨s.index + 1, s.line + 1, 0, rest⟩
    else if c == '\ufeff' then ⟨s.index + 1, s.line, s.column, rest⟩
    else ⟨s.index + 1, s.line, s.column + 1, rest⟩

/-- The place `count` characters further on. -/
def skip (s : Place) (count : Nat) : Place := Nat.repeat next count s

/-- The characters of a class that come next, and the place after them. -/
def span (s : Place) (p : Char → Bool) : List Char × Place :=
  let taken := s.rest.takeWhile p
  (taken, s.skip taken.length)

/-- The place after the characters of a class. -/
def skipWhile (s : Place) (p : Char → Bool) : Place := (s.span p).2

/-- The place after blanks. -/
def skipBlanks (s : Place) : Place := s.skipWhile (· == ' ')

/-- The place after a comment, if one starts here. -/
def skipComment (s : Place) : Place :=
  match s.rest with
  | '#' :: _ => s.skipWhile fun c => !isBreak c
  | _ => s

/-- What is left of a line that says nothing more, and its end. -/
def finishLine (s : Place) : Except Fault Place :=
  let s := s.skipBlanks.skipComment
  if endsLine s.rest then .ok s.next else .error .malformed

/-- A mark of three characters, and what may follow it. -/
def startsMark (mark : List Char) (s : Place) : Bool :=
  mark.isPrefixOf s.rest && endsWord (s.rest.drop mark.length)

/-- A mark between documents. -/
def atSeparator (s : Place) : Bool := startsMark ['-', '-', '-'] s || startsMark ['.', '.', '.'] s

end Place
end Runbook.Yaml
