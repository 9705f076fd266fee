import Runbook.Workflow.Field
import Runbook.Workflow.Lenient

/-! Reading workflows from data. A field that is missing takes its default, a field nobody asks for is passed
over, and a node is read by the rules of the kind that it names. -/
namespace Runbook

open Decoded (fail)

/-- A field of text that may be missing or null. -/
def Field.optionalText (f : Field) : Entries → Decoded (Option String) :=
  f.withDefault none (Lenient.optional Lenient.text)

def Position.decode : Value → Decoded Position
  | .map entries =>
    Position.mk <$> Field.x.withDefault .zero Lenient.double entries
      <*> Field.y.withDefault .zero Lenient.double entries
  | _ => fail (.notModel "Position")

/-- The times that a loop runs if nobody says how often. -/
def LoopCount.default : LoopCount := ⟨3, Nat.succ_pos 2⟩

def TriggerType.decode : Value → Decoded TriggerType :=
  Lenient.member TriggerType.ofName? (TriggerType.all.map TriggerType.name)

def Target.decode : Value → Decoded Target :=
  Lenient.member Target.ofName? (Target.all.map Target.name)

/-- The fields that the payloads of one kind have. -/
def Detail.decode (kind : NodeKind) (entries : Entries) : Decoded Detail :=
  match kind with
  | .trigger =>
    Detail.trigger <$> Field.triggerType.withDefault .manual TriggerType.decode entries
      <*> Field.triggerConfig.withDefault [] Lenient.settings entries
  | .prompt => Detail.prompt <$> Field.prompt.optionalText entries
  | .action => .ok .action
  | .decision => Detail.decision <$> Field.condition.optionalText entries
  | .loop => Detail.loop <$> Field.loopCount.withDefault .default Lenient.loopCount entries
  | .subagent =>
    Detail.subagent <$> Field.subagentPrompt.optionalText entries
      <*> Field.subagentContext.optionalText entries
  | .mcpCall =>
    Detail.mcpCall <$> Field.mcpServer.optionalText entries <*> Field.mcpTool.optionalText entries
      <*> Field.mcpArgs.withDefault [] Lenient.settings entries
  | .output => .ok .output

/-- A payload, from the fields in a map. -/
def Payload.ofEntries (kind : NodeKind) (entries : Entries) : Decoded Payload :=
  Payload.mk <$> Field.label.withDefault "" Lenient.text entries
    <*> Field.description.optionalText entries
    <*> Field.linkedItemId.optionalText entries
    <*> Field.linkedItemType.optionalText entries
    <*> Detail.decode kind entries

def Payload.decode (kind : NodeKind) : Value → Decoded Payload
  | .map entries => Payload.ofEntries kind entries
  | _ => fail (.notModel kind.payloadName)

/-- What is particular to a kind when nothing is said. -/
def Detail.blank : NodeKind → Detail
  | .trigger => .trigger .manual []
  | .prompt => .prompt none
  | .action => .action
  | .decision => .decision none
  | .loop => .loop .default
  | .subagent => .subagent none none
  | .mcpCall => .mcpCall none none []
  | .output => .output

/-- The payload of a node that gives none. -/
def Payload.blank (kind : NodeKind) : Payload := ⟨"", none, none, none, .blank kind⟩

/-- A node of a known kind. -/
def Node.ofEntries (kind : NodeKind) (entries : Entries) : Decoded Node :=
  Node.mk <$> Field.id.required Lenient.text entries
    <*> Field.position.withDefault .origin Position.decode entries
    <*> Field.data.withDefault (.blank kind) (Payload.decode kind) entries

/-- The kind that a map names. -/
def Node.kindOf (entries : Entries) : Except Cause NodeKind :=
  match entries.text? Field.type.camel with
  | none => .error .noKind
  | some (.str s) => match NodeKind.ofName? s with
    | some kind => .ok kind
    | none => .error (.unknownKind s)
  | some v => .error (.unknownKind v.display)

def Node.decode : Value → Decoded Node
  | .map entries => match Node.kindOf entries with
    | .ok kind => (Node.ofEntries kind entries).within (.key kind.name)
    | .error cause => fail cause
  | _ => fail .notNode

/-- An edge, from the fields in a map. -/
def Edge.ofEntries (entries : Entries) : Decoded Edge :=
  Edge.mk <$> Field.id.required Lenient.text entries
    <*> Field.source.required Lenient.text entries
    <*> Field.target.required Lenient.text entries
    <*> Field.sourceHandle.withDefault none Lenient.handle entries
    <*> Field.targetHandle.withDefault none Lenient.handle entries
    <*> Field.label.optionalText entries
    <*> Field.animated.withDefault false Lenient.flag entries
    <*> Field.type.withDefault Edge.defaultShape Lenient.text entries

def Edge.decode : Value → Decoded Edge
  | .map entries => Edge.ofEntries entries
  | _ => fail (.notModel "WorkflowEdge")

/-- A list, read item by item. -/
def Decoded.list {α : Type} (read : Value → Decoded α) : Value → Decoded (List α)
  | .list items => Decoded.allFrom 0 (items.map read)
  | _ => fail .notList

/-- A workflow, from the fields in a map; `now` is the time it gets where it names none. -/
def Workflow.ofEntries (now : Int) (entries : Entries) : Decoded Workflow :=
  Workflow.mk <$> Field.id.required Lenient.text entries
    <*> Field.name.required Lenient.text entries
    <*> Field.description.optionalText entries
    <*> Field.icon.optionalText entries
    <*> Field.nodes.withDefault [] (Decoded.list Node.decode) entries
    <*> Field.edges.withDefault [] (Decoded.list Edge.decode) entries
    <*> Field.createdAt.withDefault now Lenient.integer entries
    <*> Field.updatedAt.withDefault now Lenient.integer entries
    <*> Field.version.withDefault Workflow.defaultVersion Lenient.text entries
    <*> Field.author.optionalText entries
    <*> Field.exportType.withDefault none (Lenient.optional Target.decode) entries
    <*> Field.exportPath.optionalText entries

def Workflow.decode (now : Int) : Value → Decoded Workflow
  | .map entries => Workflow.ofEntries now entries
  | _ => fail (.notModel "Workflow")

end Runbook
