import Runbook.Yaml.Token

/-! Nodes: what a document is made of before its scalars have types. -/
namespace Runbook.Yaml

/-- How a scalar is marked: not at all, by quotes, or by a tag. -/
inductive Mark where
  | plain
  | quoted
  | tagged (name : String)
  deriving DecidableEq, Repr

/-- A collection may have a tag. An alias inside the very node that it stands for is a `cycle`. -/
inductive Node where
  | scalar (mark : Mark) (text : String)
  | sequence (tag : Option String) (items : List Node)
  | mapping (tag : Option String) (members : List (Node × Node))
  | cycle
  deriving Inhabited

/-- A key and its value. -/
abbrev Member := Node × Node

namespace Node

/-- What stands where nothing is written. -/
def empty : Node := .scalar .plain ""

/-- The start of the names of the language's own tags. -/
def coreTag : String := "tag:yaml.org,2002:"

/-- The texts that handles stand for. -/
abbrev Handles := List (String × String)

def defaultHandles : Handles := [("!", "!"), ("!!", coreTag)]

/-- The tokens still to read, and the nodes that have anchors; a node that is still open is none yet. -/
structure Feed where
  tokens : List Token
  anchors : List (String × Option Node)

/-- The fault at a token that fits nowhere. -/
def unexpected : List Token → Fault
  | .fault f :: _ => f
  | _ => .malformed

def refuse {α : Type} (feed : Feed) : Except Fault α := .error (unexpected feed.tokens)

/-- Where a node stands: whether block collections may start there, and whether a sequence may whose dashes
are not indented. -/
inductive Context where
  | flow
  | block
  | underKey
  deriving DecidableEq

def Context.allowsBlock : Context → Bool
  | .flow => false
  | .block | .underKey => true

/-- What may stand before a node. -/
structure Properties where
  anchor : Option String
  tag : Option Lexeme.TagName

/-- The anchor and the tag that come next, in either order. -/
def properties : List Token → Properties × List Token
  | .anchor a :: .tag t :: rest => (⟨some a, some t⟩, rest)
  | .tag t :: .anchor a :: rest => (⟨some a, some t⟩, rest)
  | .anchor a :: rest => (⟨some a, none⟩, rest)
  | .tag t :: rest => (⟨none, some t⟩, rest)
  | rest => (⟨none, none⟩, rest)

/-- The name of a tag; the lone mark says nothing. -/
def tagName (handles : Handles) : Option Lexeme.TagName → Except Fault (Option String)
  | none => .ok none
  | some ⟨none, name⟩ => .ok (some name)
  | some ⟨some handle, rest⟩ =>
    match handles.lookup handle with
    | some start => .ok (some (start ++ rest))
    | none => .error .malformed

/-- The tag of a collection, for which the lone mark is none. -/
def collectionTag (tag : Option String) : Option String := tag.filter (· != "!")

/-- The mark of a scalar, which the lone mark makes plain. -/
def scalarMark (plain : Bool) : Option String → Mark
  | none => if plain then .plain else .quoted
  | some name => if name = "!" then .plain else .tagged name

/-- Gives an anchor a node. -/
def Feed.name (feed : Feed) (anchor : Option String) (n : Option Node) : Feed :=
  match anchor with
  | none => feed
  | some a => { feed with anchors := (a, n) :: feed.anchors }

/-- Reads a node at a place. -/
abbrev Reader := Context → Feed → Except Fault (Node × Feed)

/-- Reads a node, or none where one of some tokens comes next. -/
def orEmpty (read : Reader) (context : Context) (stops : Token → Bool) (feed : Feed) :
    Except Fault (Node × Feed) :=
  match feed.tokens with
  | t :: _ => if stops t then .ok (empty, feed) else read context feed
  | [] => read context feed

/-- The value of a member, if its mark comes next. -/
def valueOrEmpty (read : Reader) (context : Context) (stops : Token → Bool) (feed : Feed) :
    Except Fault (Node × Feed) :=
  match feed.tokens with
  | .value :: rest => orEmpty read context stops { feed with tokens := rest }
  | _ => .ok (empty, feed)

/-- A key, whose mark has been read, and its value. -/
def member (read : Reader) (context : Context) (stops : Token → Bool) (feed : Feed) :
    Except Fault (Member × Feed) := do
  let (key, feed) ← orEmpty read context (fun t => t == .value || stops t) feed
  let (value, feed) ← valueOrEmpty read context stops feed
  return ((key, value), feed)

/-- The items of a block sequence, after `items` in reverse. -/
def blockItems (read : Reader) : Nat → Feed → List Node → Except Fault (List Node × Feed)
  | 0, feed, _ => refuse feed
  | fuel + 1, feed, items =>
    match feed.tokens with
    | .dash :: rest => do
      let (item, feed) ← orEmpty read .block (fun t => t == .dash || t == .blockEnd) { feed with tokens := rest }
      blockItems read fuel feed (item :: items)
    | .blockEnd :: rest => .ok (items.reverse, { feed with tokens := rest })
    | _ => refuse feed

/-- The items of a sequence whose dashes stand in the column of the key above. -/
def dashItems (read : Reader) : Nat → Feed → List Node → Except Fault (List Node × Feed)
  | 0, feed, _ => refuse feed
  | fuel + 1, feed, items =>
    match feed.tokens with
    | .dash :: rest => do
      let stops (t : Token) : Bool := t == .dash || t == .key || t == .value || t == .blockEnd
      let (item, feed) ← orEmpty read .block stops { feed with tokens := rest }
      dashItems read fuel feed (item :: items)
    | _ => .ok (items.reverse, feed)

/-- The members of a block mapping. -/
def blockMembers (read : Reader) : Nat → Feed → List Member → Except Fault (List Member × Feed)
  | 0, feed, _ => refuse feed
  | fuel + 1, feed, members =>
    match feed.tokens with
    | .key :: rest => do
      let stops (t : Token) : Bool := t == .key || t == .value || t == .blockEnd
      let (m, feed) ← member read .underKey stops { feed with tokens := rest }
      blockMembers read fuel feed (m :: members)
    | .blockEnd :: rest => .ok (members.reverse, { feed with tokens := rest })
    | _ => refuse feed

/-- One item of a flow sequence; a key makes it a mapping with one member. -/
def flowItem (read : Reader) (feed : Feed) : Except Fault (Node × Feed) :=
  match feed.tokens with
  | .key :: rest => do
    let stops (t : Token) : Bool := t == .comma || t == .flowSequenceEnd
    let (m, feed) ← member read .flow stops { feed with tokens := rest }
    return (.mapping none [m], feed)
  | _ => read .flow feed

/-- The items of a flow sequence. -/
def flowItems (read : Reader) : Nat → Feed → List Node → Except Fault (List Node × Feed)
  | 0, feed, _ => refuse feed
  | fuel + 1, feed, items =>
    match feed.tokens with
    | .flowSequenceEnd :: rest => .ok (items.reverse, { feed with tokens := rest })
    | _ => do
      let (item, feed) ← flowItem read feed
      match feed.tokens with
      | .comma :: rest => flowItems read fuel { feed with tokens := rest } (item :: items)
      | .flowSequenceEnd :: rest => .ok ((item :: items).reverse, { feed with tokens := rest })
      | _ => refuse feed

/-- One member of a flow mapping; without a key's mark it has no value. -/
def flowMember (read : Reader) (feed : Feed) : Except Fault (Member × Feed) :=
  match feed.tokens with
  | .key :: rest => member read .flow (fun t => t == .comma || t == .flowMappingEnd) { feed with tokens := rest }
  | _ => do
    let (key, feed) ← read .flow feed
    return ((key, empty), feed)

/-- The members of a flow mapping. -/
def flowMembers (read : Reader) : Nat → Feed → List Member → Except Fault (List Member × Feed)
  | 0, feed, _ => refuse feed
  | fuel + 1, feed, members =>
    match feed.tokens with
    | .flowMappingEnd :: rest => .ok (members.reverse, { feed with tokens := rest })
    | _ => do
      let (m, feed) ← flowMember read feed
      match feed.tokens with
      | .comma :: rest => flowMembers read fuel { feed with tokens := rest } (m :: members)
      | .flowMappingEnd :: rest => .ok ((m :: members).reverse, { feed with tokens := rest })
      | _ => refuse feed

/-- The collection that a token opens, in a context. -/
def collection? (read : Reader) (context : Context) (tag : Option String) (feed : Feed) :
    Option (Except Fault (Node × Feed)) :=
  let fuel := feed.tokens.length + 1
  let sequence (items : Except Fault (List Node × Feed)) : Except Fault (Node × Feed) :=
    items.map fun (items, feed) => (.sequence tag items, feed)
  let mapping (members : Except Fault (List Member × Feed)) : Except Fault (Node × Feed) :=
    members.map fun (members, feed) => (.mapping tag members, feed)
  match feed.tokens with
  | .dash :: _ => if context == .underKey then some (sequence (dashItems read fuel feed [])) else none
  | .flowSequence :: rest => some (sequence (flowItems read fuel { feed with tokens := rest } []))
  | .flowMapping :: rest => some (mapping (flowMembers read fuel { feed with tokens := rest } []))
  | .blockSequence :: rest =>
    if context.allowsBlock then some (sequence (blockItems read fuel { feed with tokens := rest } [])) else none
  | .blockMapping :: rest =>
    if context.allowsBlock then some (mapping (blockMembers read fuel { feed with tokens := rest } [])) else none
  | _ => none

/-- The node that an alias stands for. -/
def aliased (feed : Feed) (name : String) : Except Fault Node :=
  match feed.anchors.lookup name with
  | none => .error .malformed
  | some none => .ok .cycle
  | some (some n) => .ok n

/-- A node that is no alias; `read` reads the nodes inside it, if there may be any. -/
def content (handles : Handles) (read : Option Reader) (context : Context) (feed : Feed) :
    Except Fault (Node × Feed) := do
  let (given, tokens) := properties feed.tokens
  let tag ← tagName handles given.tag
  if given.anchor.any fun a => (feed.anchors.lookup a).isSome then throw .malformed
  let feed := { feed with tokens := tokens }
  let finish (n : Node) (feed : Feed) : Except Fault (Node × Feed) := .ok (n, feed.name given.anchor (some n))
  match tokens with
  | .scalar plain text :: rest =>
    finish (.scalar (scalarMark plain tag) text) { feed with tokens := rest }
  | _ =>
    let inside : Reader := read.getD fun _ _ => .error .tooDeep
    match collection? inside context (collectionTag tag) (feed.name given.anchor none) with
    | some result =>
      let (n, feed) ← result
      finish n feed
    | none =>
      if given.anchor.isNone && tag.isNone then refuse feed
      else finish (.scalar (scalarMark true tag) "") feed

/-- Reads a node in which collections nest at most `depth` deep. -/
def read (handles : Handles) : Nat → Reader
  | depth, context, feed =>
    match feed.tokens with
    | .alias name :: rest =>
      (aliased feed name).map fun n => (n, { feed with tokens := rest })
    | _ =>
      match depth with
      | 0 => content handles none context feed
      | depth + 1 => content handles (some (read handles depth)) context feed

/-- How deep collections may be nested. -/
def depthLimit : Nat := 489

/-- The handles that directives declare, each once, on top of those that always are; the version may be
given once, and has to be one that is known. -/
def declared : Bool → Handles → List Token → Except Fault (Handles × List Token)
  | versioned, handles, .directive d :: rest =>
    match d with
    | .version major =>
      if versioned || major != 1 then .error .malformed else declared true handles rest
    | .handle h text =>
      if (handles.lookup h).isSome then .error .malformed else declared versioned ((h, text) :: handles) rest
    | .other => declared versioned handles rest
  | _, handles, rest => .ok (handles ++ defaultHandles, rest)

/-- The node at the top of a document. -/
def root (handles : Handles) (tokens : List Token) : Except Fault (Node × List Token) :=
  (read handles depthLimit .block ⟨tokens, []⟩).map fun (n, feed) => (n, feed.tokens)

/-- A document that starts with its mark, below directives. Nothing may stand in it. -/
def markedDocument (tokens : List Token) : Except Fault (Node × List Token) := do
  let (handles, tokens) ← declared false [] tokens
  match tokens with
  | .documentStart :: rest =>
    match rest with
    | [] | .directive _ :: _ | .documentStart :: _ | .documentEnd :: _ => return (empty, rest)
    | _ => root handles rest
  | _ => throw (unexpected tokens)

/-- Marks of a document's end. -/
def skipEnds : List Token → List Token
  | .documentEnd :: rest => skipEnds rest
  | rest => rest

/-- The node of the only document, and none if there is no document. -/
def ofTokens (tokens : List Token) : Except Fault (Option Node) := do
  match tokens with
  | [] => return none
  | _ =>
    let (n, rest) ← match tokens with
      | .directive _ :: _ | .documentStart :: _ => markedDocument tokens
      | _ => root defaultHandles tokens
    match skipEnds rest with
    | [] => return some n
    | rest => throw (unexpected rest)

end Node
end Runbook.Yaml
