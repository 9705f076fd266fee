import Runbook.Workflow.Basic

/-! Equality of workflows. Settings are equal as maps are, whatever the order of their entries; coordinates
are compared by a rule that the caller gives, for a coordinate that is no number equals itself only where
nothing was written and read again. -/
namespace Runbook

/-- A comparison of coordinates. -/
abbrev Comparison := Double → Double → Bool

def Position.same (compare : Comparison) (p q : Position) : Bool := compare p.x q.x && compare p.y q.y

def Settings.same (s t : Settings) : Bool := (Value.record s).equals (.record t)

def Detail.same : Detail → Detail → Bool
  | .trigger type config, .trigger type' config' => type == type' && Settings.same config config'
  | .prompt text, .prompt text' => text == text'
  | .action, .action => true
  | .decision condition, .decision condition' => condition == condition'
  | .loop times, .loop times' => times == times'
  | .subagent text background, .subagent text' background' => text == text' && background == background'
  | .mcpCall server tool args, .mcpCall server' tool' args' =>
    server == server' && tool == tool' && Settings.same args args'
  | .output, .output => true
  | _, _ => false

def Payload.same (p q : Payload) : Bool :=
  p.label == q.label && p.description == q.description && p.linkedItemId == q.linkedItemId &&
    p.linkedItemType == q.linkedItemType && p.detail.same q.detail

def Node.same (compare : Comparison) (m n : Node) : Bool :=
  m.id == n.id && m.position.same compare n.position && m.payload.same n.payload

/-- Equality of lists, item by item. -/
def listsSame {α : Type} (same : α → α → Bool) (xs ys : List α) : Bool :=
  xs.length == ys.length && (xs.zip ys).all fun (x, y) => same x y

def Workflow.same (compare : Comparison) (v w : Workflow) : Bool :=
  v.id == w.id && v.name == w.name && v.description == w.description && v.icon == w.icon &&
    listsSame (Node.same compare) v.nodes w.nodes && v.edges == w.edges && v.createdAt == w.createdAt &&
    v.updatedAt == w.updatedAt && v.version == w.version && v.author == w.author &&
    v.exportTarget == w.exportTarget && v.exportPath == w.exportPath

/-- Coordinates compared without writing and reading: one that is no number equals itself. -/
def Double.identical (x y : Double) : Bool := x.equals y || (x.isNaN && y.isNaN)

end Runbook
