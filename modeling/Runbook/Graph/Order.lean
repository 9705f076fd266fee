import Runbook.Workflow.Basic

/-! Putting a graph into sequence. A node is placed once all its predecessors are; nodes that become free
together keep their order in the node list, and earlier ones are served first. Nodes on a cycle, and those
behind one, are never free and stay out. -/
namespace Runbook.Graph

/-- The nodes whose id is in neither `seen` nor an earlier node. -/
def firstsFrom (seen : List String) : List Node → List Node
  | [] => []
  | n :: rest =>
    if seen.contains n.id then firstsFrom seen rest else n :: firstsFrom (n.id :: seen) rest

/-- The first node of each id. -/
def firsts (nodes : List Node) : List Node := firstsFrom [] nodes

/-- The edges that join ids of a list. -/
def links (ids : List String) (edges : List Edge) : List Edge :=
  edges.filter fun e => ids.contains e.source && ids.contains e.target

/-- A number for each id of a list. -/
abbrev Counts := List (String × Int)

namespace Counts

/-- The number of an id, 0 for an id that has none. -/
def get (counts : Counts) (id : String) : Int :=
  match counts with
  | [] => 0
  | (key, n) :: rest => if key = id then n else get rest id

/-- Adds to the number of an id that has one. -/
def add (counts : Counts) (id : String) (amount : Int) : Counts :=
  counts.map fun (key, n) => if key = id then (key, n + amount) else (key, n)

/-- Zero for each id. -/
def zero (ids : List String) : Counts := ids.map fun id => (id, 0)

theorem get_add (counts : Counts) (id other : String) (amount : Int) :
    (counts.add id amount).get other =
      if id = other ∧ other ∈ counts.map Prod.fst then counts.get other + amount else counts.get other := by
  induction counts with
  | nil => simp [add, get]
  | cons entry rest ih =>
    simp only [add] at ih
    grind [add, get]

end Counts

/-- How many edges enter each id. -/
def inDegrees (ids : List String) (links : List Edge) : Counts :=
  links.foldl (fun counts e => counts.add e.target 1) (.zero ids)

/-- A sweep over a graph: the edges still open at each id, the ids that are free, and those that are
placed, in order. -/
structure Sweep where
  degree : Counts
  queue : List String
  placed : List String

namespace Sweep

def start (ids : List String) (links : List Edge) : Sweep :=
  let degree := inDegrees ids links
  ⟨degree, ids.filter fun id => degree.get id = 0, []⟩

/-- Closes one edge into an id, and notes the id if that was the last one. -/
def close (state : Counts × List String) (id : String) : Counts × List String :=
  let degree := state.1.add id (-1)
  (degree, if degree.get id = 0 then state.2 ++ [id] else state.2)

/-- Places the id at the head of the queue and frees those that waited for it alone. -/
def step (ids : List String) (links : List Edge) (s : Sweep) : Sweep :=
  match s.queue with
  | [] => s
  | current :: waiting =>
    let targets := (links.filter (·.source == current)).map (·.target)
    let (degree, released) := targets.foldl close (s.degree, [])
    ⟨degree, waiting ++ ids.filter (released.contains ·), s.placed ++ [current]⟩

/-- A number of steps. -/
def run (ids : List String) (links : List Edge) : Nat → Sweep → Sweep
  | 0, s => s
  | n + 1, s => run ids links n (s.step ids links)

/-- The sweep after a step for each id, which is all there is to do: no id is placed twice. -/
def finish (ids : List String) (links : List Edge) : Sweep := (start ids links).run ids links ids.length

end Sweep

/-- The sequence of a graph, and the nodes that a cycle keeps out of it. -/
structure Linearization where
  order : List Node
  excluded : List Node

namespace Linearization

def ids (l : Linearization) : List String := l.order.map (·.id)

def excludedIds (l : Linearization) : List String := l.excluded.map (·.id)

def hasCycle (l : Linearization) : Bool := !l.excluded.isEmpty

end Linearization

/-- Puts nodes into sequence under edges. -/
def arrange (nodes : List Node) (edges : List Edge) : Linearization :=
  let unique := firsts nodes
  let ids := unique.map (·.id)
  let placed := (Sweep.finish ids (links ids edges)).placed
  ⟨placed.filterMap fun id => unique.find? (·.id == id), unique.filter fun n => !placed.contains n.id⟩

end Runbook.Graph

/-- The sequence of a workflow's nodes. -/
def Runbook.Workflow.linearize (w : Runbook.Workflow) : Runbook.Graph.Linearization :=
  Runbook.Graph.arrange w.nodes w.edges
