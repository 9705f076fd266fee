import Runbook.Workflow.Decode
import Runbook.Workflow.Encode
import Runbook.Workflow.Palette

/-! Editing. Every operation gives a new workflow and marks it as updated, and none asks the graph to stay
well formed: a node that is removed leaves its edges behind, and an edge may join ids that no node has.
Ids are drawn from a mint, and one that is drawn stays drawn though the operation then fails. -/
namespace Runbook

/-- Where times and fresh ids come from: the time in milliseconds, and how many ids were drawn. -/
structure Mint where
  now : Int
  drawn : Nat
  deriving DecidableEq, Repr

namespace Mint

/-- The digits that tell the ids of one moment apart: five that count, and zeros. -/
def serial (width n : Nat) : String :=
  String.ofList (((Text.hexDigits 5 n).toList ++ List.replicate width '0').take width)

/-- Draws an id: a word for what it names, the time, and a serial. -/
def draw (m : Mint) (word : String) (width : Nat) : String × Mint :=
  let n := m.drawn + 1
  (word ++ "_" ++ toString m.now ++ "_" ++ serial width n, { m with drawn := n })

def workflowId (m : Mint) : String × Mint := m.draw "wf" 7

def nodeId (m : Mint) : String × Mint := m.draw "node" 5

def edgeId (m : Mint) : String × Mint := m.draw "edge" 5

end Mint

/-- An operation is refused because what should be the thing called `title` is faulty. -/
structure Refused where
  title : String
  faults : List Fault

/-- What was read as the thing called `title`. -/
def Decoded.orRefuse {α : Type} (title : String) : Decoded α → Except Refused α
  | .ok a => .ok a
  | .faulty faults => .error ⟨title, faults⟩

/-- A place to put a node. -/
def Position.read (v : Value) : Except Refused Position := (Position.decode v).orRefuse "Position"

/-- The data of a fresh node: its template's, under what is given. -/
def Node.startingData (kind : NodeKind) (given : Entries) : Entries :=
  given.foldl (fun entries (k, v) => entries.insert k v) ((Template.dataFor kind).map fun (k, v) => (.str k, v))

/-- A fresh node with the payload of its kind's template, changed by what is given. A place that is a map is
read before an id is drawn. -/
def Node.fresh (m : Mint) (kind : NodeKind) (position : Value) (given : Entries) :
    Except Refused Node × Mint :=
  match position, Position.decode position with
  | .map _, .faulty faults => (.error ⟨"Position", faults⟩, m)
  | _, place =>
    let (id, m) := m.nodeId
    let node := Node.mk id <$> place.within (.key Field.position.camel)
      <*> (Payload.ofEntries kind (Node.startingData kind given)).within (.key Field.data.camel)
    (node.orRefuse kind.nodeName, m)

/-- The payload's fields under their second spelling, null for one without a value. -/
def Payload.snapshot (p : Payload) : Entries := p.fields.map fun (f, v) => (.str f.snake, v.getD .null)

/-- The field of the payload that a key spells. -/
def Payload.field? (p : Payload) (key : String) : Option Field :=
  (p.fields.map Prod.fst).find? (·.spelled key)

/-- The payload's fields with new values; a key that spells none of them is passed over. -/
def Payload.changed (p : Payload) (changes : Settings) : Entries :=
  changes.foldl (fun entries (key, v) =>
    match p.field? key with
    | some f => entries.insert (.str f.snake) v
    | none => entries) p.snapshot

/-- The payload with new values, if they are valid. -/
def Payload.update (p : Payload) (changes : Settings) : Except Refused Payload :=
  (Payload.ofEntries p.detail.kind (p.changed changes)).orRefuse p.detail.kind.payloadName

namespace Workflow

/-- The node that every new workflow starts with. -/
def startNode : Node where
  id := "trigger_start"
  position := ⟨.ofInt 250, .ofInt 50⟩
  payload := ⟨"Start", none, none, none, .trigger .manual []⟩

/-- A new workflow with a manual trigger. -/
def create (m : Mint) (name : String) (description : Option String) : Workflow × Mint :=
  let (id, m) := m.workflowId
  (⟨id, name, description, none, [startNode], [], m.now, m.now, defaultVersion, none, none, none⟩, m)

/-- Marks a workflow as updated. -/
def touch (w : Workflow) (now : Int) : Workflow := { w with updatedAt := now }

/-- A copy under a fresh id. -/
def duplicate (w : Workflow) (m : Mint) : Workflow × Mint :=
  let (id, m) := m.workflowId
  ({ w with id := id, name := w.name ++ " (Copy)", createdAt := m.now, updatedAt := m.now }, m)

/-- New values for name, description and icon, where they are given. -/
def describe (w : Workflow) (now : Int) (name description icon : Option String) : Workflow :=
  { w with
    name := name.getD w.name
    description := description.or w.description
    icon := icon.or w.icon
    updatedAt := now }

def insertNode (w : Workflow) (now : Int) (n : Node) : Workflow :=
  { w with nodes := w.nodes ++ [n] }.touch now

/-- Changes the payload of the nodes with an id. If there is none the workflow stays as it is. -/
def updateNode (w : Workflow) (now : Int) (id : String) (changes : Settings) : Except Refused Workflow :=
  if (w.node? id).isNone then .ok w
  else do
    let nodes ← w.nodes.mapM fun (n : Node) =>
      if n.id = id then (n.payload.update changes).map fun p => { n with payload := p } else .ok n
    return { w with nodes := nodes }.touch now

def moveNode (w : Workflow) (now : Int) (id : String) (position : Value) : Except Refused Workflow :=
  (Position.read position).map fun place =>
    { w with nodes := w.nodes.map fun (n : Node) => if n.id = id then { n with position := place } else n }.touch now

/-- Removes the nodes with an id, but not their edges. -/
def removeNode (w : Workflow) (now : Int) (id : String) : Workflow :=
  { w with nodes := w.nodes.filter fun n => n.id ≠ id }.touch now

/-- Removes the edges that enter or leave an id. -/
def removeEdgesFor (w : Workflow) (now : Int) (id : String) : Workflow :=
  { w with edges := w.edges.filter fun e => e.source ≠ id ∧ e.target ≠ id }.touch now

/-- Joins two ids by a fresh edge, whose id is given too. -/
def connect (w : Workflow) (m : Mint) (source target sourceHandle targetHandle : Value) :
    Except Refused (Workflow × String) × Mint :=
  let (id, m) := m.edgeId
  let fields : Entries := [(.str Field.id.snake, .str id), (.str Field.source.snake, source),
    (.str Field.target.snake, target), (.str Field.sourceHandle.snake, sourceHandle),
    (.str Field.targetHandle.snake, targetHandle)]
  let edge := (Edge.ofEntries fields).orRefuse "WorkflowEdge"
  (edge.map fun e => ({ w with edges := w.edges ++ [e] }.touch m.now, e.id), m)

def removeEdge (w : Workflow) (now : Int) (id : String) : Workflow :=
  { w with edges := w.edges.filter fun e => e.id ≠ id }.touch now

def labelEdge (w : Workflow) (now : Int) (id : String) (label : Option String) : Workflow :=
  { w with edges := w.edges.map fun (e : Edge) => if e.id = id then { e with label := label } else e }.touch now

end Workflow
end Runbook
