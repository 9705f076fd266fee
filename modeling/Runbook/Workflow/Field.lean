import Runbook.Workflow.Fault

/-! The fields of workflows, nodes, payloads and edges. Each has two spellings; data may use either, and the
first wins where both are there. -/
namespace Runbook

/-- A field by its two spellings, as in `sourceHandle` and `source_handle`. -/
structure Field where
  camel : String
  snake : String
  deriving DecidableEq, Repr

namespace Field

/-- A field whose spellings agree. -/
def word (name : String) : Field := ⟨name, name⟩

/-- The field's value in a map, with the spelling it has there. -/
def find? (f : Field) (entries : Entries) : Option (String × Value) :=
  match entries.text? f.camel with
  | some v => some (f.camel, v)
  | none => (entries.text? f.snake).map fun v => (f.snake, v)

/-- Whether a key spells the field. -/
def spelled (f : Field) (key : String) : Bool := key == f.camel || key == f.snake

/-- Reads a field that has to be there. -/
def required {α : Type} (f : Field) (read : Value → Decoded α) (entries : Entries) : Decoded α :=
  match f.find? entries with
  | some (key, v) => (read v).within (.key key)
  | none => (Decoded.fail .missing).within (.key f.camel)

/-- Reads a field that has a default. -/
def withDefault {α : Type} (f : Field) (default : α) (read : Value → Decoded α) (entries : Entries) :
    Decoded α :=
  match f.find? entries with
  | some (key, v) => (read v).within (.key key)
  | none => .ok default

/-! The fields themselves. -/

def id : Field := word "id"
def name : Field := word "name"
def description : Field := word "description"
def icon : Field := word "icon"
def nodes : Field := word "nodes"
def edges : Field := word "edges"
def createdAt : Field := ⟨"createdAt", "created_at"⟩
def updatedAt : Field := ⟨"updatedAt", "updated_at"⟩
def version : Field := word "version"
def author : Field := word "author"
def exportType : Field := ⟨"exportType", "export_type"⟩
def exportPath : Field := ⟨"exportPath", "export_path"⟩
def position : Field := word "position"
def type : Field := word "type"
def data : Field := word "data"
def x : Field := word "x"
def y : Field := word "y"
def label : Field := word "label"
def linkedItemId : Field := ⟨"linkedItemId", "linked_item_id"⟩
def linkedItemType : Field := ⟨"linkedItemType", "linked_item_type"⟩
def triggerType : Field := ⟨"triggerType", "trigger_type"⟩
def triggerConfig : Field := ⟨"triggerConfig", "trigger_config"⟩
def prompt : Field := word "prompt"
def condition : Field := word "condition"
def loopCount : Field := ⟨"loopCount", "loop_count"⟩
def subagentPrompt : Field := ⟨"subagentPrompt", "subagent_prompt"⟩
def subagentContext : Field := ⟨"subagentContext", "subagent_context"⟩
def mcpServer : Field := ⟨"mcpServer", "mcp_server"⟩
def mcpTool : Field := ⟨"mcpTool", "mcp_tool"⟩
def mcpArgs : Field := ⟨"mcpArgs", "mcp_args"⟩
def source : Field := word "source"
def target : Field := word "target"
def sourceHandle : Field := ⟨"sourceHandle", "source_handle"⟩
def targetHandle : Field := ⟨"targetHandle", "target_handle"⟩
def animated : Field := word "animated"

end Field
end Runbook
