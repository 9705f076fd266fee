import Runbook.Check.Report
import Runbook.Graph.Order

/-! Instruction documents. A node has a section or is silent; a document is a header and the sections of a
sequence of nodes. -/
namespace Runbook.Document

/-- A text that may be missing. -/
def orEmpty (s : Option String) : String := s.getD ""

/-- A text, or another one where it is missing or empty. -/
def orElse (s : Option String) (other : String) : String := (Check.Report.present s).getD other

/-- The section of a node. Triggers, loops and prompts without text have none. -/
def section? (n : Node) : Option String :=
  match n.payload.detail with
  | .trigger .. | .loop _ => none
  | .prompt text => (Check.Report.present text).map fun text => "## Prompt\n" ++ text
  | .action => some ("## Action: " ++ n.label ++ "\n" ++ orEmpty n.payload.description)
  | .decision condition => some ("## Decision\nCondition: " ++ orElse condition "Check condition")
  | .mcpCall server tool _ =>
    some ("## MCP Call: " ++ orElse tool "tool" ++ "\nServer: " ++ orElse server "server")
  | .subagent text _ => some ("## Spawn Subagent\n" ++ orEmpty text)
  | .output => some "## Output\nReturn the result."

/-- The sections of nodes in sequence. -/
def sections (order : List Node) : List String := order.filterMap section?

/-- What stands above the sections, with the blank line that ends it. -/
def header (w : Workflow) : Target → String
  | .command => "# " ++ w.name ++ "\n\n" ++ orEmpty w.description ++ "\n\n"
  | .subagent =>
    "# Subagent: " ++ w.name ++ "\n\n" ++ orEmpty w.description ++ "\n\n## Context\n" ++
      "Isolated context agent for: " ++ orElse w.description w.name ++ "\n\n"

/-- The document of a workflow over a sequence of its nodes. -/
def render (w : Workflow) (target : Target) (order : List Node) : String :=
  header w target ++ "\n\n".intercalate (sections order)

end Runbook.Document
