import Runbook.Json.Reader
import Runbook.Text.Utf8
import Runbook.Yaml.Place

/-! Names: the anchors of nodes, their tags, and the directives above a document. -/
namespace Runbook.Yaml.Lexeme

/-- A character of a word. -/
def isWordChar (c : Char) : Bool := c.isAlphanum || c == '-' || c == '_'

/-- A word that is not empty. -/
def word (s : Place) : Except Fault (String × Place) :=
  match s.span isWordChar with
  | ([], _) => .error .malformed
  | (cs, s) => .ok (String.ofList cs, s)

/-- What may follow the name of an anchor. -/
def endsAnchor (rest : List Char) : Bool :=
  endsWord rest || (rest.head?.any fun c => "?:,]\x7d%@`".toList.contains c)

/-- The name of an anchor, behind its indicator. -/
def anchor (s : Place) : Except Fault (String × Place) := do
  let (name, s) ← word s.next
  if endsAnchor s.rest then return (name, s) else throw .malformed

/-- A tag: a handle that stands for the start of a name, and the rest of the name. Without a handle the rest
is the whole name. -/
structure TagName where
  handle : Option String
  rest : String
  deriving DecidableEq

/-- A character that a tag may hold. -/
def isTagChar (c : Char) : Bool := c.isAlphanum || "-;/?:@&=+$,_.!~*'()[]%".toList.contains c

/-- The bytes that percent signs write. -/
def percentBytes : List Char → Except Fault (List UInt8 × List Char)
  | '%' :: a :: b :: rest =>
    match Json.hexValue? a, Json.hexValue? b with
    | some high, some low =>
      (percentBytes rest).map fun (bytes, rest) => (UInt8.ofNat (16 * high + low) :: bytes, rest)
    | _, _ => .error .malformed
  | '%' :: _ => .error .malformed
  | rest => .ok ([], rest)

/-- The text of a tag, in which a run of percent signs writes UTF-8. -/
def tagTextFrom : Nat → Place → List Char → Except Fault (List Char × Place)
  | 0, _, _ => .error .malformed
  | fuel + 1, s, read =>
    match s.rest with
    | '%' :: _ =>
      match percentBytes s.rest with
      | .error f => .error f
      | .ok (bytes, rest) =>
        match Text.decodeUtf8 bytes with
        | .error _ => .error .malformed
        | .ok cs => tagTextFrom fuel (s.skip (s.rest.length - rest.length)) (cs.reverse ++ read)
    | c :: _ => if isTagChar c then tagTextFrom fuel s.next (c :: read) else .ok (read.reverse, s)
    | [] => .ok (read.reverse, s)

/-- The text of a tag, which is not empty. -/
def tagText (s : Place) : Except Fault (String × Place) :=
  match tagTextFrom (s.rest.length + 1) s [] with
  | .error f => .error f
  | .ok (cs, after) =>
    if after.index == s.index then .error .malformed else .ok (String.ofList cs, after)

/-- A handle: a word between exclamation marks, or one mark alone before a blank. -/
def handle (s : Place) : Except Fault (String × Place) :=
  match s.rest with
  | '!' :: ' ' :: _ => .ok ("!", s.next)
  | '!' :: rest =>
    let name := rest.takeWhile isWordChar
    match rest.drop name.length with
    | '!' :: _ => .ok (String.ofList ('!' :: name ++ ['!']), s.skip (name.length + 2))
    | _ => .error .malformed
  | _ => .error .malformed

/-- Whether a tag after its mark has another mark, so that it starts with a handle of its own. -/
def hasHandle (rest : List Char) : Bool :=
  (rest.takeWhile fun c => !(c == ' ' || isBreak c)).contains '!'

/-- The tag that starts at a mark. -/
def tag (s : Place) : Except Fault (TagName × Place) := do
  let (name, s) ← match s.rest.drop 1 with
    | '<' :: _ =>
      let (text, s) ← tagText (s.skip 2)
      match s.rest with
      | '>' :: _ => pure ((⟨none, text⟩, s.next) : TagName × Place)
      | _ => throw .malformed
    | rest =>
      if endsWord rest then pure (⟨none, "!"⟩, s.next)
      else do
        let (handle, s) ← if hasHandle rest then handle s else pure ("!", s.next)
        let (text, s) ← tagText s
        pure (⟨some handle, text⟩, s)
  if endsField s.rest then return (name, s) else throw .malformed

/-- A line above a document: the version of the language, a handle for tags, or something else. -/
inductive Directive where
  | version (major : Nat)
  | handle (handle text : String)
  | other
  deriving DecidableEq

/-- A number of a version. -/
def versionNumber (s : Place) : Except Fault (Nat × Place) :=
  match s.span Char.isDigit with
  | ([], _) => .error .malformed
  | (digits, s) =>
    if Json.digitLimit < digits.length then .error (.tooManyDigits digits.length)
    else .ok (Json.digitsValue digits, s)

def versionDirective (s : Place) : Except Fault (Directive × Place) := do
  let (major, s) ← versionNumber s.skipBlanks
  match s.rest with
  | '.' :: _ =>
    let (_, s) ← versionNumber s.next
    if endsField s.rest then return (.version major, s) else throw .malformed
  | _ => throw .malformed

def handleDirective (s : Place) : Except Fault (Directive × Place) := do
  let (name, s) ← handle s.skipBlanks
  match s.rest with
  | ' ' :: _ =>
    let (text, s) ← tagText s.skipBlanks
    if endsField s.rest then return (.handle name text, s) else throw .malformed
  | _ => throw .malformed

/-- The directive that starts at a percent sign. -/
def directive (s : Place) : Except Fault (Directive × Place) := do
  let (name, s) ← word s.next
  if !endsField s.rest then throw .malformed
  let (d, s) ←
    if name = "YAML" then versionDirective s
    else if name = "TAG" then handleDirective s
    else pure (.other, s.skipWhile fun c => !isBreak c)
  let s ← s.finishLine
  return (d, s)

end Runbook.Yaml.Lexeme
