import Runbook.Workflow.Basic

/-! The ids that chains of edges reach. An id counts whether or not a node has it. -/
namespace Runbook.Graph

/-- A search: the ids found, and those still to look at. -/
structure Search where
  seen : List String
  stack : List String

namespace Search

/-- Looks at the top of the stack; an id that is new puts the ends of its edges there, the last on top. -/
def step (edges : List Edge) (s : Search) : Search :=
  match s.stack with
  | [] => s
  | current :: rest =>
    if s.seen.contains current then ⟨s.seen, rest⟩
    else
      let targets := (edges.filter (·.source == current)).map (·.target)
      ⟨s.seen ++ [current], targets.reverse ++ rest⟩

/-- A number of steps. -/
def run (edges : List Edge) : Nat → Search → Search
  | 0, s => s
  | n + 1, s => run edges n (s.step edges)

end Search

/-- The ids that can be reached from some ids. Each start and each edge puts one id on the stack at most
once, so that many steps empty it. -/
def reachable (edges : List Edge) (starts : List String) : List String :=
  (Search.run edges (starts.length + edges.length) ⟨[], starts.reverse⟩).seen

end Runbook.Graph
