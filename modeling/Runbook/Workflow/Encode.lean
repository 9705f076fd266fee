import Runbook.Workflow.Field

/-! Workflows as data. A field without a value is left out, and what stands inside settings is put into the
form that can be stored. Settings that nest too deep are refused; how deep they may is up to the serializer. -/
namespace Runbook

/-- A field and its value, if it has one. -/
abbrev FieldValue := Field × Option Value

/-- The map of the fields that have a value. -/
def Value.ofFields (fields : List FieldValue) : Value :=
  .record (fields.filterMap fun (f, v) => v.map fun v => (f.camel, v))

/-- A map of settings. -/
def Settings.toValue (s : Settings) : Value := .record s

def Position.fields (p : Position) : List FieldValue :=
  [(.x, some (.float p.x)), (.y, some (.float p.y))]

/-- The fields that the payloads of one kind have. -/
def Detail.fields : Detail → List FieldValue
  | .trigger type config =>
    [(.triggerType, some (.str type.name)), (.triggerConfig, some (Settings.toValue config))]
  | .prompt text => [(.prompt, text.map .str)]
  | .action => []
  | .decision condition => [(.condition, condition.map .str)]
  | .loop times => [(.loopCount, some (.int times.count))]
  | .subagent text background =>
    [(.subagentPrompt, text.map .str), (.subagentContext, background.map .str)]
  | .mcpCall server tool args =>
    [(.mcpServer, server.map .str), (.mcpTool, tool.map .str), (.mcpArgs, some (Settings.toValue args))]
  | .output => []

def Payload.fields (p : Payload) : List FieldValue :=
  [(.label, some (.str p.label)), (.description, p.description.map .str),
    (.linkedItemId, p.linkedItemId.map .str), (.linkedItemType, p.linkedItemType.map .str)] ++
    p.detail.fields

/-- The stored form of a field's value. -/
def FieldValue.plain (f : FieldValue) : FieldValue := (f.1, f.2.map Value.plain)

/-- Coordinates are stored as they are, also those that are not finite. -/
def Position.toValue (p : Position) : Value := .ofFields p.fields

def Payload.toValue (p : Payload) : Value := .ofFields (p.fields.map FieldValue.plain)

def Node.fields (n : Node) : List FieldValue :=
  [(.id, some (.str n.id)), (.position, some n.position.toValue), (.type, some (.str n.kind.name)),
    (.data, some n.payload.toValue)]

def Node.toValue (n : Node) : Value := .ofFields n.fields

def Edge.fields (e : Edge) : List FieldValue :=
  [(.id, some (.str e.id)), (.source, some (.str e.source)), (.target, some (.str e.target)),
    (.sourceHandle, e.sourceHandle.map .str), (.targetHandle, e.targetHandle.map .str),
    (.label, e.label.map .str), (.animated, some (.bool e.animated)), (.type, some (.str e.shape))]

def Edge.toValue (e : Edge) : Value := .ofFields e.fields

def Workflow.fields (w : Workflow) : List FieldValue :=
  [(.id, some (.str w.id)), (.name, some (.str w.name)), (.description, w.description.map .str),
    (.icon, w.icon.map .str), (.nodes, some (.list (w.nodes.map Node.toValue))),
    (.edges, some (.list (w.edges.map Edge.toValue))), (.createdAt, some (.int w.createdAt)),
    (.updatedAt, some (.int w.updatedAt)), (.version, some (.str w.version)),
    (.author, w.author.map .str), (.exportType, w.exportTarget.map fun t => .str t.name),
    (.exportPath, w.exportPath.map .str)]

def Workflow.toValue (w : Workflow) : Value := .ofFields w.fields

mutual

/-- How many values stand inside one another at most, from a value inward. -/
def Value.depth : Value → Nat
  | .list items => Value.itemsDepth items + 1
  | .map entries => Value.entriesDepth entries + 1
  | _ => 1

def Value.itemsDepth : List Value → Nat
  | [] => 0
  | v :: rest => max v.depth (Value.itemsDepth rest)

def Value.entriesDepth : List (Value × Value) → Nat
  | [] => 0
  | (_, v) :: rest => max v.depth (Value.entriesDepth rest)

end

/-- How deep the values of settings may nest. The limit is the serializer's. -/
def Settings.depthLimit : Nat := 255

def Settings.nestsWithin (limit : Nat) (s : Settings) : Bool := s.all fun (_, v) => v.depth ≤ limit

/-- The settings of a payload, none where its kind has none. -/
def Detail.settings : Detail → Settings
  | .trigger _ config => config
  | .mcpCall _ _ args => args
  | _ => []

def Workflow.nestsWithin (limit : Nat) (w : Workflow) : Bool :=
  w.nodes.all fun n => n.payload.detail.settings.nestsWithin limit

def Workflow.isShallow (w : Workflow) : Bool := w.nestsWithin Settings.depthLimit

/-- Why a workflow cannot be put into data. -/
inductive EncodeFault where
  | tooDeep
  deriving DecidableEq, Repr

def EncodeFault.message : EncodeFault → String
  | tooDeep => "Maximum serialization depth exceeded"

/-- The data of a workflow, by a serializer with some limit. -/
def Workflow.encodeWithin (limit : Nat) (w : Workflow) : Except EncodeFault Value :=
  if w.nestsWithin limit then .ok w.toValue else .error .tooDeep

/-- The data of a workflow. -/
def Workflow.encode (w : Workflow) : Except EncodeFault Value := w.encodeWithin Settings.depthLimit

end Runbook
