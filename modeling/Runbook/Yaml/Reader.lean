import Runbook.Text.Lines
import Runbook.Yaml.Node
import Runbook.Yaml.Schema

/-! Reading YAML. Nodes become values level by level, so of two faults the one nearer to the top counts. A
mapping takes over the members of the mappings that it merges in, but its own come after them and win. -/
namespace Runbook.Yaml

namespace Kind

/-- The names of the types, behind the start that they share. -/
def named : List (String × Kind) := [
  ("null", .null), ("bool", .bool), ("int", .int), ("float", .float), ("timestamp", .timestamp),
  ("merge", .merge), ("value", .default), ("str", .str), ("binary", .binary), ("seq", .seq), ("map", .map),
  ("set", .set), ("pairs", .pairs), ("omap", .pairs)]

def ofTag? (tag : String) : Option Kind := (named.find? fun (name, _) => Node.coreTag ++ name == tag).map (·.2)

def isCollection : Kind → Bool
  | seq | map | set | pairs => true
  | _ => false

end Kind

namespace Node

/-- The type of a node; a tag may name one that there is not. -/
def kind? : Node → Option Kind
  | .scalar .plain text => some (Schema.kindOf text)
  | .scalar .quoted _ => some .str
  | .scalar (.tagged name) _ => Kind.ofTag? name
  | .sequence none _ => some .seq
  | .sequence (some name) _ => Kind.ofTag? name
  | .mapping none _ => some .map
  | .mapping (some name) _ => Kind.ofTag? name
  | .cycle => some .null

def isMerge (n : Node) : Bool := n.kind? == some .merge

mutual

/-- How many levels of nodes there are. -/
def height : Node → Nat
  | .sequence _ items => itemsHeight items + 1
  | .mapping _ members => membersHeight members + 1
  | _ => 1

def itemsHeight : List Node → Nat
  | [] => 0
  | n :: rest => max n.height (itemsHeight rest)

def membersHeight : List (Node × Node) → Nat
  | [] => 0
  | (k, v) :: rest => max (max k.height v.height) (membersHeight rest)

end

mutual

/-- The members that a node gives to a mapping that merges it in: those of a mapping, or of a sequence of
mappings, where those of the first one come last. -/
def merged : Node → Except Fault (List Member)
  | .mapping _ members => (splitMerged members).map fun (taken, own) => taken ++ own
  | .sequence _ items => mergedItems items
  | .cycle => .ok []
  | .scalar .. => .error .malformed

def mergedItems : List Node → Except Fault (List Member)
  | [] => .ok []
  | .mapping _ members :: rest => do
    let (taken, own) ← splitMerged members
    let more ← mergedItems rest
    return more ++ (taken ++ own)
  | _ :: _ => .error .malformed

/-- The members that are merged in, and a mapping's own. -/
def splitMerged : List (Node × Node) → Except Fault (List Member × List Member)
  | [] => .ok ([], [])
  | (k, v) :: rest =>
    if k.isMerge then do
      let here ← v.merged
      let (taken, own) ← splitMerged rest
      return (here ++ taken, own)
    else (splitMerged rest).map fun (taken, own) => (taken, (k, v) :: own)

end

/-- Every member of a mapping. -/
def allMembers (members : List Member) : Except Fault (List Member) :=
  (splitMerged members).map fun (taken, own) => taken ++ own

/-- The text of a scalar, or of the member of a mapping that stands for it. -/
def scalarText? : Nat → Node → Option String
  | _, .scalar _ text => some text
  | fuel + 1, .mapping _ members =>
    (members.find? fun (k, _) => k.kind? == some .default).bind fun (_, v) => scalarText? fuel v
  | _, _ => none

end Node

/-- What a node becomes: a value, or a fault with the number of its level. -/
inductive Built (α : Type) where
  | ok (value : α)
  | faulty (level : Nat) (f : Fault)

namespace Built

variable {α β γ : Type}

def map (f : α → β) : Built α → Built β
  | .ok a => .ok (f a)
  | .faulty level fault => .faulty level fault

/-- Builds both; of two faults the nearer to the top counts, and the left one on one level. -/
def both (f : α → β → γ) : Built α → Built β → Built γ
  | .ok a, .ok b => .ok (f a b)
  | .faulty level fault, .ok _ => .faulty level fault
  | .ok _, .faulty level fault => .faulty level fault
  | .faulty level fault, .faulty level' fault' =>
    if level ≤ level' then .faulty level fault else .faulty level' fault'

def all : List (Built α) → Built (List α)
  | [] => .ok []
  | x :: rest => both List.cons x (all rest)

def ofExcept (level : Nat) : Except Fault α → Built α
  | .ok a => .ok a
  | .error f => .faulty level f

/-- The next step for a value. -/
def andThen (x : Built α) (f : α → Built β) : Built β :=
  match x with
  | .ok a => f a
  | .faulty level fault => .faulty level fault

def toExcept : Built α → Except Fault α
  | .ok a => .ok a
  | .faulty _ fault => .error fault

end Built

/-- How the nodes of one level become values. -/
abbrev Builder := Node → Built Value

/-- The key of a member on a level. What is inside a collection does not count, for none is a key. -/
def buildKey (build : Builder) (level : Nat) (n : Node) : Built Value :=
  match n, n.kind? with
  | .cycle, _ => .faulty level .malformed
  | .scalar _ text, some .default => .ok (.str text)
  | _, _ => match build n with
    | .ok v => if v.isKey then .ok v else .faulty level .malformed
    | .faulty found f => .faulty level (if found ≤ level then f else .malformed)

/-- The members of a mapping, on their level. -/
def buildMembers (build : Builder) (level : Nat) (members : List Member) : Built (List (Value × Value)) :=
  (Built.ofExcept level (Node.allMembers members)).andThen fun members =>
    .all (members.map fun (k, v) => .both Prod.mk (buildKey build level k) (build v))

/-- A mapping with one member, as a pair. -/
def buildPair (build : Builder) (level : Nat) : Node → Built Value
  | .mapping _ [(k, v)] => .both (fun k v => .list [k, v]) (build k) (build v)
  | _ => .faulty level .malformed

/-- A sequence of a type; `build` builds what is one level below. -/
def buildSequence (build : Builder) (level : Nat) (kind : Kind) (items : List Node) : Built Value :=
  match kind with
  | .seq => (Built.all (items.map build)).map .list
  | .pairs => (Built.all (items.map (buildPair build (level + 1)))).map .list
  | .map | .set => .faulty (level + 1) .malformed
  | _ => .faulty level .malformed

/-- A mapping of a type. A scalar type takes the text of the member that stands for the mapping. -/
def buildMapping (build : Builder) (level : Nat) (kind : Kind) (n : Node) (members : List Member) :
    Built Value :=
  match kind with
  | .map => (buildMembers build (level + 1) members).map fun pairs => .map (Entries.ofPairs pairs)
  | .set =>
    (buildMembers build (level + 1) members).map fun pairs =>
      .map (Entries.ofPairs (pairs.map fun (k, _) => (k, .null)))
  | .seq | .pairs => .faulty (level + 1) .malformed
  | kind =>
    match n.scalarText? n.height with
    | some text => .ofExcept level (Schema.readScalar kind text)
    | none => .faulty level .malformed

/-- The value of a node with at most `fuel` levels. -/
def buildNode : Nat → Nat → Builder
  | 0, level, _ => .faulty level .tooDeep
  | fuel + 1, level, n =>
    let build : Builder := buildNode fuel (level + 1)
    match n, n.kind? with
    | .cycle, _ => .ok .null
    | _, none => .faulty level .malformed
    | .scalar _ text, some kind =>
      .ofExcept (if kind.isCollection then level + 1 else level) (Schema.readScalar kind text)
    | .sequence _ items, some kind => buildSequence build level kind items
    | .mapping _ members, some kind => buildMapping build level kind n members

/-- The value of a node. -/
def Node.toValue (n : Node) : Except Fault Value := (buildNode n.height 0 n).toExcept

/-- Reads a text that holds at most one document; without one the value is null. -/
def read (text : List Char) : Except Fault Value := do
  match ← Node.ofTokens (Token.scan (Text.unifyLines text)) with
  | none => return .null
  | some n => n.toValue

end Runbook.Yaml
