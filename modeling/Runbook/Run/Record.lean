import Runbook.Workflow.Basic

/-! The record of a run: what became of each node, and the history of every change of state. -/
namespace Runbook.Run

inductive RunStatus where
  | pending
  | running
  | completed
  | failed
  | cancelled
  deriving DecidableEq, Repr

namespace RunStatus

def name : RunStatus → String
  | pending => "pending"
  | running => "running"
  | completed => "completed"
  | failed => "failed"
  | cancelled => "cancelled"

/-- Whether a run in this state is over. -/
def isFinal : RunStatus → Bool
  | completed | failed | cancelled => true
  | pending | running => false

end RunStatus

inductive NodeStatus where
  | pending
  | running
  | completed
  | failed
  deriving DecidableEq, Repr

namespace NodeStatus

def all : List NodeStatus := [pending, running, completed, failed]

def name : NodeStatus → String
  | pending => "pending"
  | running => "running"
  | completed => "completed"
  | failed => "failed"

end NodeStatus

/-- What became of one node. -/
structure Slot where
  status : NodeStatus
  result : Option String
  error : Option String
  startedAt : Option Int
  completedAt : Option Int
  iterations : Nat
  selectedHandle : Option String
  deriving DecidableEq, Repr

/-- The slot of a node that has not begun. -/
def Slot.initial : Slot := ⟨.pending, none, none, none, none, 0, none⟩

/-- A change of state, of the run or of one node. -/
inductive Change where
  | run (before after : RunStatus)
  | node (id : String) (before after : NodeStatus)
  deriving DecidableEq, Repr

structure Event where
  time : Int
  change : Change
  detail : Option String
  deriving DecidableEq, Repr

structure Record where
  workflowId : String
  startedAt : Option Int
  finishedAt : Option Int
  status : RunStatus
  current : Option String
  visited : List String
  slots : List (String × Slot)
  finalResult : Option String
  error : Option String
  events : List Event
  deriving DecidableEq, Repr

namespace Record

/-- The record of a run that has not started, with a slot for each id. -/
def initial (workflowId : String) (ids : List String) : Record :=
  ⟨workflowId, none, none, .pending, none, [], ids.map fun id => (id, .initial), none, none, []⟩

def isFinal (r : Record) : Bool := r.status.isFinal

theorem status_ne_of_live {r : Record} {s : RunStatus} (hlive : r.isFinal = false)
    (hs : s.isFinal = true) : r.status ≠ s := by
  intro heq
  rw [isFinal, heq, hs] at hlive
  cases hlive

def slot? (r : Record) (id : String) : Option Slot :=
  (r.slots.find? (·.1 == id)).map (·.2)

/-- The slot of an id; an id without one has the slot of a node that never begins. -/
def slot (r : Record) (id : String) : Slot := (r.slot? id).getD .initial

/-- Changes the slot of an id. -/
def updateSlot (r : Record) (id : String) (f : Slot → Slot) : Record :=
  { r with slots := r.slots.map fun (key, s) => if key == id then (key, f s) else (key, s) }

/-- The node that is running. -/
def runningNode (r : Record) : Option String :=
  (r.slots.find? (·.2.status == .running)).map (·.1)

/-- How many nodes are in a state. -/
def countOf (r : Record) (s : NodeStatus) : Nat := (r.slots.filter (·.2.status == s)).length

end Record

def optionalInt : Option Int → Value
  | some n => .int n
  | none => .null

def Slot.toValue (s : Slot) : Value :=
  .record [("status", .str s.status.name), ("result", .ofText? s.result), ("error", .ofText? s.error),
    ("started_at", optionalInt s.startedAt), ("completed_at", optionalInt s.completedAt),
    ("iterations", .int s.iterations), ("selected_handle", .ofText? s.selectedHandle)]

def Event.toValue (e : Event) : Value :=
  let (kind, id, before, after) : String × Option String × String × String := match e.change with
    | .run before after => ("run", none, before.name, after.name)
    | .node id before after => ("node", some id, before.name, after.name)
  .record [("ts", .int e.time), ("kind", .str kind), ("node_id", .ofText? id),
    ("from_status", .str before), ("to_status", .str after), ("detail", .ofText? e.detail)]

def Record.toValue (r : Record) : Value :=
  .record [("workflow_id", .str r.workflowId), ("started_at", optionalInt r.startedAt),
    ("finished_at", optionalInt r.finishedAt), ("status", .str r.status.name),
    ("current_node_id", .ofText? r.current), ("visited_nodes", .texts r.visited),
    ("node_results", .record (r.slots.map fun (id, s) => (id, s.toValue))),
    ("final_result", .ofText? r.finalResult), ("error", .ofText? r.error),
    ("events", .list (r.events.map Event.toValue))]

/-- A summary of a record, for display. -/
def Record.progress (r : Record) : Value :=
  .record [("workflow_id", .str r.workflowId), ("status", .str r.status.name),
    ("current_node_id", .ofText? r.current), ("visited", .int r.visited.length),
    ("total", .int r.slots.length),
    ("nodes", .record (NodeStatus.all.map fun s => (s.name, .int (r.countOf s))))]

end Runbook.Run
