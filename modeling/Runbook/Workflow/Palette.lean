import Runbook.Workflow.Field

/-! The palette: templates of nodes, and the data that fresh nodes start with. -/
namespace Runbook

/-- The group of the palette that a template is in. -/
inductive Category where
  | trigger
  | flow
  | action
  | advanced
  deriving DecidableEq, Repr

def Category.name : Category → String
  | trigger => "trigger"
  | flow => "flow"
  | action => "action"
  | advanced => "advanced"

structure Template where
  kind : NodeKind
  label : String
  description : String
  icon : String
  category : Category
  data : Settings

namespace Template

def toValue (t : Template) : Value :=
  .record [("type", .str t.kind.name), ("label", .str t.label), ("description", .str t.description),
    ("icon", .str t.icon), ("category", .str t.category.name), ("defaultData", .record t.data)]

/-- The data of a template: a label, and one more field where there is one. -/
def starting (label : String) (more : List (Field × Value)) : Settings :=
  (Field.label.camel, .str label) :: more.map fun (f, v) => (f.camel, v)

/-- Every template, in the order of the palette. -/
def all : List Template := [
  ⟨.trigger, "Manual Trigger", "Start workflow manually", "play", .trigger,
    starting "Start" [(.triggerType, .str TriggerType.manual.name)]⟩,
  ⟨.trigger, "Command Trigger", "Start when /command is invoked", "terminal", .trigger,
    starting "On Command" [(.triggerType, .str TriggerType.command.name)]⟩,
  ⟨.prompt, "Prompt", "Agent instruction/prompt", "message", .flow,
    starting "Prompt" [(.prompt, .str "")]⟩,
  ⟨.decision, "Decision", "If/else branching", "git-branch", .flow,
    starting "Decision" [(.condition, .str "")]⟩,
  ⟨.loop, "Loop", "Repeat actions", "repeat", .flow, starting "Loop" [(.loopCount, .int 3)]⟩,
  ⟨.action, "Action", "Execute a skill or command", "zap", .action, starting "Action" []⟩,
  ⟨.mcpCall, "MCP Call", "Call an MCP server tool", "plug", .action, starting "MCP Call" []⟩,
  ⟨.subagent, "Subagent", "Spawn isolated context agent", "users", .advanced,
    starting "Subagent" [(.subagentPrompt, .str "")]⟩,
  ⟨.output, "Output", "Return result", "check-circle", .flow, starting "Output" []⟩]

/-- The first template of a kind. -/
def ofKind? (kind : NodeKind) : Option Template := all.find? (·.kind == kind)

/-- The data that a fresh node of a kind starts with. -/
def dataFor (kind : NodeKind) : Settings := ((ofKind? kind).map Template.data).getD []

/-- The templates by category, in the order in which the categories first come. -/
def grouped : List (Category × List Template) :=
  let categories := all.foldl (fun seen t => if seen.contains t.category then seen else seen ++ [t.category]) []
  categories.map fun c => (c, all.filter (·.category == c))

end Template
end Runbook
