import Runbook.Graph.Order
import Runbook.Run.Record

/-! Tracking a run. The tracker executes nothing: a driver asks which nodes may begin and says what became
of them, and the tracker refuses what the state does not allow. Nodes run one at a time. A decision that
completes takes one branch; a node is dead once no edge into it can be followed any more. A loop runs as
often as its count says, and goes before other nodes once it has begun. -/
namespace Runbook.Run

/-- The readings of a clock, and how many of them were taken. -/
structure Clock where
  reading : Nat → Int
  taken : Nat

/-- A clock that stands still. -/
def Clock.still (now : Int) : Clock := ⟨fun _ => now, 0⟩

/-- What a run follows: the sequence of the nodes, the nodes by id, and the edges between them. -/
structure Plan where
  order : List String
  nodes : List Node
  links : List Edge

namespace Plan

def ofWorkflow (w : Workflow) : Plan :=
  let nodes := Graph.firsts w.nodes
  ⟨w.linearize.ids, nodes, Graph.links (nodes.map (·.id)) w.edges⟩

def ids (p : Plan) : List String := p.nodes.map (·.id)

def node? (p : Plan) (id : String) : Option Node := p.nodes.find? (·.id == id)

def kind? (p : Plan) (id : String) : Option NodeKind := (p.node? id).map (·.kind)

/-- How often a node runs. -/
def rounds (p : Plan) (id : String) : Nat :=
  match p.node? id with
  | some n => n.rounds
  | none => 1

theorem rounds_pos (p : Plan) (id : String) : 0 < p.rounds id := by
  rw [rounds]
  split
  · exact Node.rounds_pos _
  · exact Nat.one_pos

def incoming (p : Plan) (id : String) : List Edge := p.links.filter (·.target == id)

/-- Whether an edge can never be followed: it comes from a dead node, or from a decision that took another
branch. -/
def isDeadEdge (p : Plan) (r : Record) (dead : List String) (e : Edge) : Bool :=
  dead.contains e.source ||
    (p.kind? e.source == some .decision && (r.slot e.source).status == .completed &&
      e.sourceHandle != (r.slot e.source).selectedHandle)

/-- The nodes that are dead, found along the sequence: those into which every edge is dead. -/
def deadNodes (p : Plan) (r : Record) : List String :=
  p.order.foldl (fun dead id =>
    let edges := p.incoming id
    if !edges.isEmpty && edges.all (p.isDeadEdge r dead) then dead ++ [id] else dead) []

/-- Whether every node that a node waits for is completed. -/
def isReady (p : Plan) (r : Record) (dead : List String) (id : String) : Bool :=
  let edges := p.incoming id
  let live := edges.filter fun e => !p.isDeadEdge r dead e
  edges.isEmpty || (!live.isEmpty && live.all fun e => (r.slot e.source).status == .completed)

/-- The nodes that may begin, in sequence, but a loop that has begun comes first. None may while another
one runs, or once the run is over. -/
def eligible (p : Plan) (r : Record) : List String :=
  if r.isFinal || r.runningNode.isSome then []
  else
    let dead := p.deadNodes r
    let free := p.order.filter fun id =>
      !dead.contains id && (r.slot id).status == .pending && p.isReady r dead id
    let begun := free.filter fun id => 0 < (r.slot id).iterations
    begun ++ free.filter fun id => !begun.contains id

end Plan

structure Tracker where
  plan : Plan
  record : Record
  lastResult : Option String
  clock : Clock

/-- Why a call is refused. -/
inductive Refusal where
  | cannotStart (status : RunStatus)
  | cannotCancel (status : RunStatus)
  | unknownNode (id : String)
  | runIsOver (id : String) (status : RunStatus)
  | notEligible (id : String)
  | notRunning (id : String) (status : NodeStatus)
  | runHasFailed (id : String)
  | outcomeMissing (id : String)
  deriving DecidableEq, Repr

def Refusal.message : Refusal → String
  | cannotStart status => s!"Cannot start run in state '{status.name}'"
  | cannotCancel status => s!"Cannot cancel run in state '{status.name}'"
  | unknownNode id => s!"Node '{id}' not found in workflow"
  | runIsOver id status => s!"Cannot begin '{id}': run is {status.name}"
  | notEligible id => s!"Node '{id}' is not eligible to run"
  | notRunning id status => s!"Node '{id}' is {status.name}, not running"
  | runHasFailed id => s!"Run already failed; '{id}' cannot change"
  | outcomeMissing id => s!"Decision '{id}' needs an outcome to complete"

namespace Tracker

def ofWorkflow (w : Workflow) (clock : Clock) : Tracker :=
  let plan := Plan.ofWorkflow w
  ⟨plan, .initial w.id plan.ids, none, clock⟩

def eligible (t : Tracker) : List String := t.plan.eligible t.record

/-- The reading that the clock gives next. -/
def now (t : Tracker) : Int := t.clock.reading t.clock.taken

/-- Changes the record with the next reading of the clock, which is then taken. -/
def timed (t : Tracker) (f : Int → Record → Record) : Tracker :=
  { t with record := f t.now t.record, clock := { t.clock with taken := t.clock.taken + 1 } }

def mapRecord (t : Tracker) (f : Record → Record) : Tracker := { t with record := f t.record }

/-- Moves the run to a state, and notes it. -/
def setRun (t : Tracker) (status : RunStatus) (detail : Option String) : Tracker :=
  t.timed fun time r =>
    { r with status := status, events := r.events ++ [⟨time, .run r.status status, detail⟩] }

/-- Moves a node to a state, and notes it. -/
def setNode (t : Tracker) (id : String) (status : NodeStatus) (detail : Option String) : Tracker :=
  t.timed fun time r =>
    let event : Event := ⟨time, .node id (r.slot id).status status, detail⟩
    { r.updateSlot id fun s => { s with status := status } with events := r.events ++ [event] }

/-- Completes the run if nothing runs and nothing may begin. -/
def checkFinished (t : Tracker) : Tracker :=
  if t.record.runningNode.isNone && t.eligible.isEmpty then
    let t := t.timed fun time r => { r with finalResult := t.lastResult, finishedAt := some time }
    t.setRun .completed none
  else t

/-- Moves the run from pending to running. -/
def launch (t : Tracker) : Tracker :=
  (t.setRun .running none).timed fun time r => { r with startedAt := some time }

/-- Starts the run. One in which nothing may begin is complete at once. -/
def start (t : Tracker) : Except Refusal Tracker :=
  if t.record.status = .pending then .ok t.launch.checkFinished
  else .error (.cannotStart t.record.status)

/-- Cancels the run. A node that is running may still complete or fail. -/
def cancel (t : Tracker) (reason : Option String) : Except Refusal Tracker :=
  if t.record.isFinal then .error (.cannotCancel t.record.status)
  else .ok ((t.setRun .cancelled reason).timed fun time r => { r with finishedAt := some time })

/-- The round that a loop begins, out of all. -/
def roundDetail (t : Tracker) (id : String) : Option String :=
  if t.plan.kind? id = some .loop then
    some s!"iteration {(t.record.slot id).iterations + 1}/{t.plan.rounds id}"
  else none

/-- Marks a node running, in a run that has started. -/
def enter (t : Tracker) (id : String) : Tracker :=
  let t := t.setNode id .running (t.roundDetail id)
  let t := if (t.record.slot id).startedAt.isNone then
      t.timed fun time r => r.updateSlot id fun s => { s with startedAt := some time }
    else t
  t.mapRecord fun r =>
    { r with
      visited := if r.visited.contains id then r.visited else r.visited ++ [id]
      current := some id }

/-- Begins a node, and starts the run if it is still pending. -/
def begin (t : Tracker) (id : String) : Except Refusal Tracker :=
  if (t.record.slot? id).isNone then .error (.unknownNode id)
  else if t.record.isFinal then .error (.runIsOver id t.record.status)
  else if !t.eligible.contains id then .error (.notEligible id)
  else
    let t := if t.record.status = .pending then t.launch else t
    .ok (t.enter id)

/-- The refusal of a report on a node that is not running. -/
def requireRunning (t : Tracker) (id : String) : Except Refusal Unit :=
  match t.record.slot? id with
  | none => .error (.unknownNode id)
  | some s =>
    if s.status ≠ .running then .error (.notRunning id s.status)
    else if t.record.status = .failed then .error (.runHasFailed id)
    else .ok ()

/-- Closes a node that has run for the last time. -/
def close (t : Tracker) (id : String) (result : Option String) : Tracker :=
  let t := t.setNode id .completed (t.record.slot id).selectedHandle
  let t := t.timed fun time r => r.updateSlot id fun s => { s with completedAt := some time }
  let t := { t with lastResult := result }
  if t.record.status = .running then t.checkFinished else t

/-- Sends a loop back that has not run often enough, and closes any other node. -/
def leave (t : Tracker) (id : String) (result : Option String) : Tracker :=
  if t.plan.kind? id = some .loop then
    let t := t.mapRecord fun r => r.updateSlot id fun s => { s with iterations := s.iterations + 1 }
    let done := (t.record.slot id).iterations
    let total := t.plan.rounds id
    if done < total then t.setNode id .pending (some s!"iteration {done}/{total} done")
    else t.close id result
  else t.close id result

/-- Completes a node. A decision has to say which branch it takes. -/
def complete (t : Tracker) (id : String) (result : Option String) (outcome : Option Bool) :
    Except Refusal Tracker := do
  t.requireRunning id
  let selected ←
    if t.plan.kind? id = some .decision then
      match outcome with
      | none => throw (.outcomeMissing id)
      | some b => pure (some (branchHandle b))
    else pure (t.record.slot id).selectedHandle
  let t := t.mapRecord fun r =>
    { r.updateSlot id fun s => { s with selectedHandle := selected, result := result } with current := none }
  return t.leave id result

/-- Fails a node, and the run with it. -/
def fail (t : Tracker) (id : String) (error : String) : Except Refusal Tracker := do
  t.requireRunning id
  let t := t.timed fun time r =>
    { r.updateSlot id fun s => { s with error := some error, completedAt := some time } with current := none }
  let t := t.setNode id .failed (some error)
  if t.record.status = .running then
    let t := t.mapRecord fun r => { r with error := some s!"Node '{id}' failed: {error}" }
    let t := t.setRun .failed (some error)
    return t.timed fun time r => { r with finishedAt := some time }
  else return t

/-- A call on the tracker. -/
inductive Call where
  | start
  | cancel (reason : Option String)
  | begin (id : String)
  | complete (id : String) (result : Option String) (outcome : Option Bool)
  | fail (id : String) (error : String)

def call (t : Tracker) : Call → Except Refusal Tracker
  | .start => t.start
  | .cancel reason => t.cancel reason
  | .begin id => t.begin id
  | .complete id result outcome => t.complete id result outcome
  | .fail id error => t.fail id error

/-- The tracker after a call, which changes nothing if it is refused. -/
def after (t : Tracker) (c : Call) : Tracker :=
  match t.call c with
  | .ok t => t
  | .error _ => t

end Tracker
end Runbook.Run
