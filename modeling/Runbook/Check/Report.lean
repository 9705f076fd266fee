import Runbook.Text.Blank
import Runbook.Text.Lines
import Runbook.Workflow.Basic

/-! Reports on workflows: issues in the order in which they were found, and the views of them that are
shown. A report is valid as long as no issue in it is an error. -/
namespace Runbook.Check

inductive Severity where
  | error
  | warning
  | info
  deriving DecidableEq, Repr

def Severity.name : Severity → String
  | error => "error"
  | warning => "warning"
  | info => "info"

/-- The severity at the head of a line. -/
def Severity.badge : Severity → String
  | error => "ERROR"
  | warning => "WARNING"
  | info => "INFO"

/-- One problem. What it concerns is in its context: the entry `node` names a node, `edge` an edge, and
others say more. -/
structure Issue where
  severity : Severity
  code : String
  message : String
  context : Settings

namespace Issue

/-- An entry of the context, null where there is none. -/
def entry (i : Issue) (key : String) : Value :=
  match i.context.find? (·.1 == key) with
  | some (_, v) => v
  | none => .null

def node (i : Issue) : Value := i.entry "node"

def edge (i : Issue) : Value := i.entry "edge"

/-- A value of the context in a line of text. -/
def shown : Value → String
  | .list items => ", ".intercalate (items.map Value.display)
  | v => v.display

/-- The edge and what else the context says, in parentheses. -/
def location (i : Issue) : String :=
  let edge := if i.edge.isTrue then ["edge " ++ i.edge.display] else []
  let others := (i.context.filter fun (k, _) => k != "node" && k != "edge").map
    fun (k, v) => k ++ ": " ++ shown v
  match edge ++ others with
  | [] => ""
  | parts => " (" ++ "; ".intercalate parts ++ ")"

end Issue

/-- Issues of one node, or of none where the key is null. -/
abbrev Group := Value × List Issue

/-- Adds an issue to the group of its node, which is a new one at the end if there is none yet. -/
def addToGroup (groups : List Group) (i : Issue) : List Group :=
  match groups with
  | [] => [(i.node, [i])]
  | (key, issues) :: rest =>
    if key.sameKey i.node then (key, issues ++ [i]) :: rest else (key, issues) :: addToGroup rest i

structure Report where
  valid : Bool
  issues : List Issue
  workflowId : Option String
  workflowName : Option String

namespace Report

def empty (workflowId workflowName : Option String) : Report := ⟨true, [], workflowId, workflowName⟩

def add (r : Report) (i : Issue) : Report :=
  { r with issues := r.issues ++ [i], valid := r.valid && i.severity != .error }

def addAll (r : Report) (issues : List Issue) : Report := issues.foldl add r

/-- The issues of one severity. -/
def ofSeverity (r : Report) (s : Severity) : List Issue := r.issues.filter (·.severity == s)

def codes (r : Report) : List String := r.issues.map (·.code)

/-- The issues of one node, or of none where the key is null. -/
def forNode (r : Report) (key : Value) : List Issue := r.issues.filter (·.node.equals key)

/-- The issues by node, in the order in which the nodes first came; those of no node come first. -/
def byNode (r : Report) : List Group :=
  (r.issues.foldl addToGroup [(.null, [])]).filter fun (key, issues) =>
    !(key.sameKey .null && issues.isEmpty)

def issueValue (i : Issue) : Value :=
  .record [("severity", .str i.severity.name), ("code", .str i.code), ("message", .str i.message),
    ("context", .record i.context)]

/-- The report as data. -/
def toValue (r : Report) : Value :=
  let count (issues : List Issue) : Value := .int issues.length
  let named := r.byNode.filter fun (key, _) => !key.sameKey .null
  .record [("valid", .bool r.valid), ("workflow_id", .ofText? r.workflowId),
    ("workflow_name", .ofText? r.workflowName), ("issue_count", count r.issues),
    ("error_count", count (r.ofSeverity .error)), ("warning_count", count (r.ofSeverity .warning)),
    ("issues", .list (r.issues.map issueValue)),
    ("nodes", .map (named.map fun (key, issues) => (key, .texts (issues.map (·.code)))))]

def status (r : Report) : String := if r.valid then "PASS" else "FAIL"

/-- A text that is there and not empty. -/
def present : Option String → Option String
  | some s => if s = "" then none else some s
  | none => none

/-- The name of the workflow, or else its id. -/
def title (r : Report) : String := ((present r.workflowName).or (present r.workflowId)).getD "workflow"

/-- The lines of a group in Markdown. -/
def groupMarkdown (g : Group) : List String :=
  let heading := if g.1.isTrue then "## Node `" ++ g.1.display ++ "`" else "## Graph"
  let line (i : Issue) : String :=
    "- " ++ i.severity.name ++ " **" ++ i.code ++ "**: " ++ i.message ++ i.location
  [heading, ""] ++ g.2.map line ++ [""]

/-- The lines that stand before the groups in Markdown. -/
def headMarkdown (r : Report) : List String :=
  let errors := (r.ofSeverity .error).length
  let warnings := (r.ofSeverity .warning).length
  let notes := (r.ofSeverity .info).length
  let id := match present r.workflowId with
    | some id => ["Workflow id: `" ++ id ++ "`"]
    | none => []
  ["# " ++ r.title ++ ": " ++ r.status, "",
    s!"{errors} error(s), {warnings} warning(s), {notes} note(s)"] ++ id ++ [""]

/-- The report in Markdown, with a section for each node. -/
def markdown (r : Report) : String :=
  if r.issues.isEmpty then Text.joinLines (r.headMarkdown ++ ["No issues found."])
  else
    let lines := r.headMarkdown ++ (r.byNode.map groupMarkdown).flatten
    Text.trimEnd Text.isBlank (Text.joinLines lines) ++ "\n"

/-- The lines of a group in plain text. -/
def groupText (g : Group) : List String :=
  let heading := if g.1.isTrue then "  " ++ g.1.display ++ ":" else "  graph:"
  heading :: g.2.map fun i => "    [" ++ i.severity.badge ++ "] " ++ i.code ++ ": " ++ i.message

/-- The report in plain text. -/
def text (r : Report) : String :=
  let errors := (r.ofSeverity .error).length
  let warnings := (r.ofSeverity .warning).length
  let head := s!"Validation: {r.status} ({errors} errors, {warnings} warnings)"
  Text.joinLines (head :: (r.byNode.map groupText).flatten)

end Report
end Runbook.Check
