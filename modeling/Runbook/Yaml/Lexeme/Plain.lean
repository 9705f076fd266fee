import Runbook.Yaml.Lexeme.Quoted

/-! Plain scalars: text without quotes, which ends where something else could begin. It may go on over
several lines, which are folded. -/
namespace Runbook.Yaml.Lexeme

/-- The brackets and the comma of flow collections. -/
def isFlowMark (c : Char) : Bool := c == ',' || c == '[' || c == ']' || c == '\x7b' || c == '\x7d'

/-- A flow mark comes next. -/
def startsFlowMark : List Char → Bool
  | [] => false
  | c :: _ => isFlowMark c

/-- A word of plain text ends here. -/
def stopsPlain (flow : Bool) (rest : List Char) : Bool :=
  endsWord rest ||
    match rest with
    | [] => true
    | c :: after =>
      (c == ':' && (endsWord after || (flow && startsFlowMark after))) ||
        (flow && (c == '?' || isFlowMark c))

/-- The word of plain text that comes next. -/
def plainWord (flow : Bool) : List Char → List Char
  | [] => []
  | c :: rest => if stopsPlain flow (c :: rest) then [] else c :: plainWord flow rest

/-- The line ends after the first one between two words, and the place of the next word. A separator
of documents ends the scalar. -/
def plainBreaks : Nat → Place → Option (List Char) × Place
  | 0, s => (none, s)
  | fuel + 1, s =>
    if s.atSeparator then (none, s)
    else
      let s := s.skipBlanks
      match s.rest with
      | c :: _ =>
        if isBreak c then
          let (more, s) := plainBreaks fuel s.next
          (more.map (breakChar c :: ·), s)
        else (some [], s)
      | [] => (some [], s)

/-- What stands between two words of plain text, whether a line ended there, and the place after it. -/
structure PlainGap where
  text : List Char
  broken : Bool
  place : Place

def plainGap (s : Place) : PlainGap :=
  let (blanks, s) := s.span (· == ' ')
  match s.rest with
  | c :: _ =>
    if isBreak c then
      let (more, s) := plainBreaks (s.rest.length + 1) s.next
      ⟨(more.map (folded c)).getD [], true, s⟩
    else ⟨blanks, false, s⟩
  | [] => ⟨blanks, false, s⟩

/-- Whether a comment starts here. -/
def startsComment (s : Place) : Bool := s.rest.head? == some '#'

/-- A plain scalar, whether the last gap in or after it ended a line, and the place after it. -/
structure PlainText where
  text : List Char
  broken : Bool
  place : Place

/-- The words from here on, after the text `read` and a gap, both in reverse. Outside of brackets a word
has to stand at column `least` or beyond. -/
def plainFrom (flow : Bool) (least : Nat) : Nat → PlainText → List Char → PlainText
  | 0, t, _ => t
  | fuel + 1, t, gap =>
    if startsComment t.place then t
    else
      match plainWord flow t.place.rest with
      | [] => t
      | word =>
        let after := plainGap (t.place.skip word.length)
        let t : PlainText := ⟨word.reverse ++ gap ++ t.text, after.broken, after.place⟩
        if after.text.isEmpty || startsComment after.place || (!flow && after.place.column < least) then t
        else plainFrom flow least fuel t after.text.reverse

/-- The plain scalar that starts here. -/
def plain (flow : Bool) (least : Nat) (s : Place) : PlainText :=
  let t := plainFrom flow least (s.rest.length + 1) ⟨[], false, s⟩ []
  { t with text := t.text.reverse }

end Runbook.Yaml.Lexeme
