import Runbook.Json.Reader
import Runbook.Yaml.Place

/-! Quoted scalars. Between single quotes only the quote itself is special, and is written twice; between
double quotes there are escapes. A line end is folded: into a blank, or into the line ends after it. -/
namespace Runbook.Yaml.Lexeme

/-- The line ends that follow a folded one, and the place of the text after them. -/
def foldedBreaks : Nat → Place → Except Fault (List Char × Place)
  | 0, _ => .error .malformed
  | fuel + 1, s =>
    if s.atSeparator then .error .malformed
    else
      let s := s.skipWhile fun c => c == ' ' || c == '\t'
      match s.rest with
      | c :: _ =>
        if isBreak c then (foldedBreaks fuel s.next).map fun (more, s) => (breakChar c :: more, s)
        else .ok ([], s)
      | [] => .ok ([], s)

/-- What a line end and those after it are folded into. -/
def folded (first : Char) (more : List Char) : List Char :=
  if breakChar first != '\n' then breakChar first :: more
  else if more.isEmpty then [' ']
  else more

/-- Folds the line end that comes next. -/
def foldLine (s : Place) (first : Char) : Except Fault (List Char × Place) :=
  (foldedBreaks (s.rest.length + 1) s.next).map fun (more, s) => (folded first more, s)

/-- The characters that a backslash and one letter write. -/
def namedEscapes : List (Char × Char) := [
  ('0', '\x00'), ('a', '\x07'), ('b', '\x08'), ('t', '\t'), ('\t', '\t'), ('n', '\n'), ('v', '\x0b'),
  ('f', '\x0c'), ('r', '\r'), ('e', '\x1b'), (' ', ' '), ('"', '"'), ('\\', '\\'), ('/', '/'),
  ('N', '\x85'), ('_', '\xa0'), ('L', '\u2028'), ('P', '\u2029')]

/-- How many hexadecimal digits follow a letter after a backslash. -/
def codeWidth? (c : Char) : Option Nat :=
  if c = 'x' then some 2 else if c = 'u' then some 4 else if c = 'U' then some 8 else none

/-- The character of a code point. -/
def charOfCode (n : Nat) : Except Fault Char :=
  if n < 0x110000 then .ok (Json.unitChar n) else .error (.codePoint n)

/-- The character that hexadecimal digits of a width write. -/
def codeEscape (width : Nat) (s : Place) : Except Fault (List Char × Place) :=
  let digits := s.rest.take width
  if digits.length < width then .error .malformed
  else match Json.hexNumber? digits with
    | none => .error .malformed
    | some n => (charOfCode n).map fun c => ([c], s.skip width)

/-- What follows a backslash. -/
def escape (s : Place) : Except Fault (List Char × Place) :=
  match s.rest with
  | [] => .error .malformed
  | c :: _ =>
    match namedEscapes.lookup c, codeWidth? c with
    | some e, _ => .ok ([e], s.next)
    | none, some width => codeEscape width s.next
    | none, none => if isBreak c then foldedBreaks (s.rest.length + 1) s.next else .error .malformed

/-- White space inside quotes, which is dropped at the end of a line. -/
def inlineSpace (s : Place) : Except Fault (List Char × Place) :=
  let (blanks, s) := s.span fun c => c == ' ' || c == '\t'
  match s.rest with
  | [] => .error .malformed
  | c :: _ => if isBreak c then foldLine s c else .ok (blanks, s)

/-- One piece of a quoted scalar, or none at its end. -/
def quotedPiece (double : Bool) (s : Place) : Except Fault (Option (List Char × Place)) :=
  match s.rest with
  | [] => .error .malformed
  | '"' :: _ => .ok (if double then none else some (['"'], s.next))
  | '\'' :: '\'' :: _ => .ok (some (['\''], if double then s.next else s.skip 2))
  | '\'' :: _ => .ok (if double then some (['\''], s.next) else none)
  | '\\' :: _ => if double then (escape s.next).map some else .ok (some (['\\'], s.next))
  | c :: _ =>
    if c == ' ' || c == '\t' || isBreak c then (inlineSpace s).map some else .ok (some ([c], s.next))

/-- The pieces up to the closing quote, after the text `read` in reverse. -/
def quotedFrom (double : Bool) : Nat → Place → List Char → Except Fault (List Char × Place)
  | 0, _, _ => .error .malformed
  | fuel + 1, s, read =>
    match quotedPiece double s with
    | .error f => .error f
    | .ok none => .ok (read.reverse, s.next)
    | .ok (some (piece, s)) => quotedFrom double fuel s (piece.reverse ++ read)

/-- The scalar that starts at a quote. -/
def quoted (double : Bool) (s : Place) : Except Fault (List Char × Place) :=
  quotedFrom double (s.rest.length + 1) s.next []

end Runbook.Yaml.Lexeme
