import Runbook.Value.Basic

/-! Workflows: nodes of eight kinds, joined by directed edges. The order of the nodes counts, for it breaks
ties when they are put into sequence. Nothing here asks a graph to be well formed: ids may repeat, and an
edge may name a node that is not there. -/
namespace Runbook

/-- What a step does. -/
inductive NodeKind where
  | trigger
  | prompt
  | action
  | decision
  | loop
  | subagent
  | mcpCall
  | output
  deriving DecidableEq, Repr

namespace NodeKind

def all : List NodeKind := [trigger, prompt, action, decision, loop, subagent, mcpCall, output]

def name : NodeKind → String
  | trigger => "trigger"
  | prompt => "prompt"
  | action => "action"
  | decision => "decision"
  | loop => "loop"
  | subagent => "subagent"
  | mcpCall => "mcp_call"
  | output => "output"

def ofName? (s : String) : Option NodeKind := all.find? (·.name == s)

/-- The name of the kind's payload in messages. -/
def payloadName : NodeKind → String
  | trigger => "TriggerData"
  | prompt => "PromptData"
  | action => "ActionData"
  | decision => "DecisionData"
  | loop => "LoopData"
  | subagent => "SubagentData"
  | mcpCall => "McpCallData"
  | output => "OutputData"

/-- The name of the kind's nodes in messages. -/
def nodeName : NodeKind → String
  | trigger => "TriggerNode"
  | prompt => "PromptNode"
  | action => "ActionNode"
  | decision => "DecisionNode"
  | loop => "LoopNode"
  | subagent => "SubagentNode"
  | mcpCall => "McpCallNode"
  | output => "OutputNode"

/-- The kind at the start of a sentence. -/
def title : NodeKind → String
  | trigger => "Trigger"
  | prompt => "Prompt"
  | action => "Action"
  | decision => "Decision"
  | loop => "Loop"
  | subagent => "Subagent"
  | mcpCall => "Mcp_call"
  | output => "Output"

theorem mem_all (k : NodeKind) : k ∈ all := by cases k <;> decide

theorem ofName?_name (k : NodeKind) : ofName? k.name = some k := by cases k <;> decide

end NodeKind

/-- What starts a workflow. -/
inductive TriggerType where
  | manual
  | fileChange
  | command
  | schedule
  | hook
  deriving DecidableEq, Repr

namespace TriggerType

def all : List TriggerType := [manual, fileChange, command, schedule, hook]

def name : TriggerType → String
  | manual => "manual"
  | fileChange => "file_change"
  | command => "command"
  | schedule => "schedule"
  | hook => "hook"

def ofName? (s : String) : Option TriggerType := all.find? (·.name == s)

theorem ofName?_name (t : TriggerType) : ofName? t.name = some t := by cases t <;> decide

end TriggerType

/-- The shape of the document that a workflow compiles to. -/
inductive Target where
  | command
  | subagent
  deriving DecidableEq, Repr

namespace Target

def all : List Target := [command, subagent]

def name : Target → String
  | command => "command"
  | subagent => "subagent"

def ofName? (s : String) : Option Target := all.find? (·.name == s)

theorem ofName?_name (t : Target) : ofName? t.name = some t := by cases t <;> decide

end Target

/-- The branch that an outcome of a decision takes, as its edges name it. -/
def branchHandle (outcome : Bool) : String := if outcome then "true" else "false"

/-- A place on the canvas. -/
structure Position where
  x : Double
  y : Double
  deriving DecidableEq

def Position.origin : Position := ⟨.zero, .zero⟩

/-- Free-form settings, in order. -/
abbrev Settings := List (String × Value)

/-- How often a loop runs: at least once. -/
structure LoopCount where
  count : Nat
  pos : 0 < count
  deriving DecidableEq

/-- The part of a payload that only nodes of one kind have. -/
inductive Detail where
  | trigger (type : TriggerType) (config : Settings)
  | prompt (text : Option String)
  | action
  | decision (condition : Option String)
  | loop (times : LoopCount)
  | subagent (prompt context : Option String)
  | mcpCall (server tool : Option String) (args : Settings)
  | output

def Detail.kind : Detail → NodeKind
  | trigger .. => .trigger
  | prompt .. => .prompt
  | action => .action
  | decision .. => .decision
  | loop .. => .loop
  | subagent .. => .subagent
  | mcpCall .. => .mcpCall
  | output => .output

/-- What a node carries. -/
structure Payload where
  label : String
  description : Option String
  linkedItemId : Option String
  linkedItemType : Option String
  detail : Detail

structure Node where
  id : String
  position : Position
  payload : Payload

namespace Node

def kind (n : Node) : NodeKind := n.payload.detail.kind

def label (n : Node) : String := n.payload.label

/-- How often the node runs before it is done. -/
def rounds (n : Node) : Nat :=
  match n.payload.detail with
  | .loop times => times.count
  | _ => 1

theorem rounds_pos (n : Node) : 0 < n.rounds := by
  unfold rounds
  split
  · exact LoopCount.pos _
  · exact Nat.one_pos

end Node

/-- A connection from one node to another. A decision has one handle for each branch. -/
structure Edge where
  id : String
  source : String
  target : String
  sourceHandle : Option String
  targetHandle : Option String
  label : Option String
  animated : Bool
  shape : String
  deriving DecidableEq, Repr

/-- The shape of an edge that names none. -/
def Edge.defaultShape : String := "smoothstep"

/-- Times are in milliseconds. -/
structure Workflow where
  id : String
  name : String
  description : Option String
  icon : Option String
  nodes : List Node
  edges : List Edge
  createdAt : Int
  updatedAt : Int
  version : String
  author : Option String
  exportTarget : Option Target
  exportPath : Option String

namespace Workflow

def defaultVersion : String := "1.0.0"

/-- The first node with an id. -/
def node? (w : Workflow) (id : String) : Option Node := w.nodes.find? (·.id == id)

def nodeIds (w : Workflow) : List String := w.nodes.map (·.id)

/-- The edges that leave an id, in order. -/
def outgoing (w : Workflow) (id : String) : List Edge := w.edges.filter (·.source == id)

/-- The edges that enter an id, in order. -/
def incoming (w : Workflow) (id : String) : List Edge := w.edges.filter (·.target == id)

end Workflow
end Runbook
