import Runbook.Workflow.Basic

/-! Kinds and targets by the names that callers give. -/
namespace Runbook

/-- A value that should name a kind or a target and names none. -/
inductive UnknownName where
  | kind (given : Value)
  | target (given : Value)

def UnknownName.message : UnknownName → String
  | .kind given => given.literal ++ " is not a valid NodeType"
  | .target given => given.literal ++ " is not a valid ExportTarget"

def NodeKind.ofValue : Value → Except UnknownName NodeKind
  | .str s => match NodeKind.ofName? s with
    | some kind => .ok kind
    | none => .error (.kind (.str s))
  | v => .error (.kind v)

def Target.ofValue : Value → Except UnknownName Target
  | .str s => match Target.ofName? s with
    | some target => .ok target
    | none => .error (.target (.str s))
  | v => .error (.target v)

end Runbook
