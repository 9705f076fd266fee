import Runbook.Run.Tracker

/-! Simulated runs: a driver that takes the first node that may begin, and reports for it what a script
says. -/
namespace Runbook.Run

/-- What becomes of the nodes. A decision without an outcome is true, a node without a result gets one that
names it, and a node with a failure fails. -/
structure Script where
  outcomes : List (String × Bool)
  failures : List (String × String)
  results : List (String × String)

namespace Script

def outcome (s : Script) (id : String) : Bool := (s.outcomes.lookup id).getD true

def result (s : Script) (n : Node) : String :=
  (s.results.lookup n.id).getD (n.kind.name ++ ":" ++ n.label)

end Script

/-- The first node that may begin begins, and fails or completes. -/
def Tracker.drive (t : Tracker) (script : Script) (n : Node) : Tracker :=
  let t := t.after (.begin n.id)
  match script.failures.lookup n.id with
  | some error => t.after (.fail n.id error)
  | none =>
    let outcome := if n.kind = .decision then some (script.outcome n.id) else none
    t.after (.complete n.id (some (script.result n)) outcome)

/-- A driver's limits: how many nodes may begin, and when it gives up. It asks `stop` before each node, with
the number of times that it asked before. -/
structure Limits where
  maxSteps : Int
  stop : Nat → Record → Bool

/-- Drives a run for at most `budget` more nodes, after `asked` of them. -/
def Tracker.driveAll (script : Script) (limits : Limits) : Nat → Nat → Tracker → Tracker
  | budget, asked, t =>
    if t.record.isFinal then t
    else if limits.stop asked t.record then t.after (.cancel (some "cancelled by driver"))
    else
      match t.eligible.head?.bind t.plan.node? with
      | none => t
      | some n =>
        match budget with
        | 0 => t.after (.cancel (some s!"step limit {limits.maxSteps} reached"))
        | budget + 1 => driveAll script limits budget (asked + 1) (t.drive script n)

/-- The record of a simulated run. -/
def simulate (w : Workflow) (script : Script) (limits : Limits) (clock : Clock) : Record :=
  let t := (Tracker.ofWorkflow w clock).after .start
  (t.driveAll script limits limits.maxSteps.toNat 0).record

end Runbook.Run
