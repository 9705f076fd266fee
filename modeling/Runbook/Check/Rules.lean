import Runbook.Check.Report
import Runbook.Graph.Order
import Runbook.Graph.Reach

/-! The rules that a workflow is checked against. Broken rules are reported, never raised. -/
namespace Runbook.Check

inductive Rule where
  | duplicateNodeId
  | duplicateEdgeId
  | danglingSource
  | danglingTarget
  | selfLoop
  | invalidHandle
  | duplicateBranch
  | outputHasEdges
  | multipleOutputs
  | unexpectedHandle
  | noTrigger
  | multipleTriggers
  | triggerHasInput
  | unreachable
  | cycleExcluded
  | emptyPrompt
  deriving DecidableEq, Repr

namespace Rule

def code : Rule → String
  | duplicateNodeId => "DUPLICATE_NODE_ID"
  | duplicateEdgeId => "DUPLICATE_EDGE_ID"
  | danglingSource => "DANGLING_SOURCE"
  | danglingTarget => "DANGLING_TARGET"
  | selfLoop => "SELF_LOOP"
  | invalidHandle => "INVALID_HANDLE"
  | duplicateBranch => "DUPLICATE_BRANCH"
  | outputHasEdges => "OUTPUT_HAS_EDGES"
  | multipleOutputs => "MULTIPLE_OUTPUTS"
  | unexpectedHandle => "UNEXPECTED_HANDLE"
  | noTrigger => "NO_TRIGGER"
  | multipleTriggers => "MULTIPLE_TRIGGERS"
  | triggerHasInput => "TRIGGER_HAS_INPUT"
  | unreachable => "UNREACHABLE"
  | cycleExcluded => "CYCLE_EXCLUDED"
  | emptyPrompt => "EMPTY_PROMPT"

def severity : Rule → Severity
  | duplicateNodeId | duplicateEdgeId | danglingSource | danglingTarget | invalidHandle
  | duplicateBranch | outputHasEdges | multipleOutputs => .error
  | selfLoop | unexpectedHandle | noTrigger | multipleTriggers | triggerHasInput | cycleExcluded =>
    .warning
  | unreachable | emptyPrompt => .info

/-- The issue that a broken rule is. -/
def issue (r : Rule) (message : String) (context : Settings) : Issue :=
  ⟨r.severity, r.code, message, context⟩

end Rule

def atNode (id : String) : String × Value := ("node", .str id)

def atEdge (id : String) : String × Value := ("edge", .str id)

/-- The items of a list without repetitions, each where it first came. -/
def distinct (items : List String) : List String :=
  items.foldl (fun seen s => if seen.contains s then seen else seen ++ [s]) []

/-- The items that come more than once, with how often. -/
def repeated (items : List String) : List (String × Nat) :=
  ((distinct items).map fun s => (s, items.count s)).filter fun (_, n) => 1 < n

/-- Ids are not used twice. -/
def checkIds (w : Workflow) : List Issue :=
  ((repeated w.nodeIds).map fun (id, count) =>
    Rule.duplicateNodeId.issue s!"Node id '{id}' is used {count} times" [atNode id]) ++
  ((repeated (w.edges.map (·.id))).map fun (id, count) =>
    Rule.duplicateEdgeId.issue s!"Edge id '{id}' is used {count} times" [atEdge id])

/-- An edge joins two nodes that are there, and not one with itself. -/
def checkEdge (ids : List String) (e : Edge) : List Issue :=
  (if ids.contains e.source then [] else
    [Rule.danglingSource.issue s!"Edge '{e.id}' source '{e.source}' not found in nodes" [atEdge e.id]]) ++
  (if ids.contains e.target then [] else
    [Rule.danglingTarget.issue s!"Edge '{e.id}' target '{e.target}' not found in nodes" [atEdge e.id]]) ++
  (if e.source = e.target then
    [Rule.selfLoop.issue s!"Edge '{e.id}' connects '{e.source}' to itself" [atEdge e.id]] else [])

def checkEndpoints (w : Workflow) : List Issue := w.edges.flatMap (checkEdge w.nodeIds)

/-- A handle in a message. -/
def handleText : Option String → String
  | some h => Text.quote h
  | none => "None"

def isBranch : Option String → Bool
  | some h => h = branchHandle true || h = branchHandle false
  | none => false

/-- A decision has branches for edges, and one edge on each. -/
def checkDecision (id : String) (outgoing : List Edge) : List Issue :=
  let invalid := (outgoing.filter fun e => !isBranch e.sourceHandle).map fun e =>
    Rule.invalidHandle.issue
      (s!"Decision '{id}' edge '{e.id}' has handle " ++ handleText e.sourceHandle ++
        "; expected 'true' or 'false'")
      [atNode id, atEdge e.id]
  let doubled := [branchHandle false, branchHandle true].flatMap fun handle =>
    let count := (outgoing.filter (·.sourceHandle == some handle)).length
    if 1 < count then
      [Rule.duplicateBranch.issue s!"Decision '{id}' has {count} edges on handle '{handle}'"
        [atNode id, ("handle", .str handle)]]
    else []
  invalid ++ doubled

/-- An output ends a workflow. -/
def checkOutput (id : String) (outgoing : List Edge) : List Issue :=
  if outgoing.isEmpty then []
  else [Rule.outputHasEdges.issue s!"Output '{id}' has {outgoing.length} outbound edge(s)" [atNode id]]

/-- Any other node has one successor at most, and no branches. -/
def checkPlain (kind : NodeKind) (id : String) (outgoing : List Edge) : List Issue :=
  (if 1 < outgoing.length then
    [Rule.multipleOutputs.issue
      s!"{kind.title} '{id}' has {outgoing.length} outbound edges; only one is allowed" [atNode id]]
    else []) ++
  (outgoing.filter fun e => (Report.present e.sourceHandle).isSome).map fun e =>
    Rule.unexpectedHandle.issue
      (s!"Edge '{e.id}' from {kind.name} '{id}' carries handle " ++ handleText e.sourceHandle)
      [atNode id, atEdge e.id]

/-- The rules on the edges that leave a node. -/
def checkNode (w : Workflow) (n : Node) : List Issue :=
  match n.kind with
  | .decision => checkDecision n.id (w.outgoing n.id)
  | .output => checkOutput n.id (w.outgoing n.id)
  | kind => checkPlain kind n.id (w.outgoing n.id)

def checkOutputs (w : Workflow) : List Issue := w.nodes.flatMap (checkNode w)

def triggers (w : Workflow) : List Node := w.nodes.filter (·.kind == .trigger)

/-- A workflow starts at one trigger, which nothing precedes and which leads everywhere. -/
def checkTriggers (w : Workflow) : List Issue :=
  let starts := (triggers w).map (·.id)
  if starts.isEmpty then [Rule.noTrigger.issue "Workflow has no trigger node" []]
  else
    (if 1 < starts.length then
      [Rule.multipleTriggers.issue s!"Workflow has {starts.length} trigger nodes"
        [("nodes", .texts starts)]]
      else []) ++
    ((starts.filter fun id => !(w.incoming id).isEmpty).map fun id =>
      Rule.triggerHasInput.issue s!"Trigger '{id}' has inbound edges" [atNode id]) ++
    ((w.nodeIds.filter fun id => !(Graph.reachable w.edges starts).contains id).map fun id =>
      Rule.unreachable.issue s!"Node '{id}' cannot be reached from a trigger" [atNode id])

/-- Nodes that a cycle keeps out of the sequence are named. -/
def checkCycles (w : Workflow) : List Issue :=
  match w.linearize.excludedIds with
  | [] => []
  | ids =>
    [Rule.cycleExcluded.issue
      ("Cycle detected, nodes " ++ ", ".intercalate ids ++ " excluded from compilation")
      [("nodes", .texts ids)]]

/-- A prompt says something. -/
def checkPrompt (n : Node) : List Issue :=
  match n.payload.detail with
  | .prompt text =>
    if (Report.present text).isSome then []
    else [Rule.emptyPrompt.issue s!"Prompt '{n.id}' has no text and will not be rendered" [atNode n.id]]
  | _ => []

/-- Every issue of a workflow. -/
def issuesOf (w : Workflow) : List Issue :=
  checkIds w ++ checkEndpoints w ++ checkOutputs w ++ checkTriggers w ++ checkCycles w ++
    w.nodes.flatMap checkPrompt

end Runbook.Check

/-- The report on a workflow. -/
def Runbook.Workflow.check (w : Runbook.Workflow) : Runbook.Check.Report :=
  (Runbook.Check.Report.empty (some w.id) (some w.name)).addAll (Runbook.Check.issuesOf w)
