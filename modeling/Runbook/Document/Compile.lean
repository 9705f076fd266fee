import Runbook.Document.Section
import Runbook.Text.Digest
import Runbook.Text.Torn
import Runbook.Workflow.File

/-! Compiling: a workflow's nodes in sequence, the document over them, and what a caller needs to show
problems and to tell documents apart. A caller is given a document together with its digest, so a document
that has no bytes is not given to any. -/
namespace Runbook.Document

/-- The first sixteen digits of a document's digest, which is taken of its bytes. -/
def fingerprint (document : String) : Except Text.Torn String :=
  (Text.encodeUtf8 document).map fun bytes => String.ofList ((Text.Digest.sha256 bytes).toList.take 16)

structure Compiled where
  target : Target
  order : List String
  excluded : List String
  warnings : List String
  document : String

namespace Compiled

def digest (c : Compiled) : Except Text.Torn String := fingerprint c.document

/-- Whether every node is in the sequence. -/
def complete (c : Compiled) : Bool := c.excluded.isEmpty

/-- What a caller is given. -/
def toValue (c : Compiled) : Except Text.Torn Value :=
  c.digest.map fun digest =>
    .record [("target", .str c.target.name), ("order", .texts c.order), ("excluded", .texts c.excluded),
      ("warnings", .texts c.warnings), ("document_hash", .str digest), ("document", .str c.document)]

end Compiled

/-- The settings of the compiler in a configuration. -/
structure Preferences where
  defaultTarget : Target
  warnOnCycles : Bool

/-- The target that a setting names, and the command target where it names none. -/
def preferredTarget : Option Value → Target
  | some (.str s) => (Target.ofName? s).getD .command
  | _ => .command

def Preferences.ofEntries (settings : Entries) : Preferences where
  defaultTarget := preferredTarget (settings.text? "default_target")
  warnOnCycles := match settings.text? "warn_on_cycles" with
    | some v => v.isTrue
    | none => true

/-- Why there are no preferences: they cannot be read, or the default target, which names none, has too many
digits for the warning that shows it. -/
inductive PreferenceFault (ε : Type) where
  | unread (cause : ε)
  | tooManyDigits

/-- Nothing but the default is left for the target of a document. -/
def usesDefault (w : Workflow) (asked : Option Target) : Bool := asked.isNone && w.exportTarget.isNone

/-- Whether the default target of some settings can be shown. -/
def showsDefault (settings : Entries) : Bool := (settings.text? "default_target").all Value.hasShortIntegers

/-- The preferences with which a workflow is compiled. -/
def preferencesFor {ε : Type} (w : Workflow) (asked : Option Target) (settings : Except ε Entries) :
    Except (PreferenceFault ε) Preferences := do
  let settings ← settings.mapError .unread
  if usesDefault w asked && !showsDefault settings then throw .tooManyDigits
  else return .ofEntries settings

/-- The target of a document: the one that is asked for, or else the workflow's own, or else the preferred
one. The preferences are wanted only in the last case, so only there does their failure count. -/
def resolveTarget {ε : Type} (w : Workflow) (asked : Option Target)
    (preferences : Except ε Preferences) : Except ε Target :=
  match asked, w.exportTarget with
  | some t, _ => .ok t
  | none, some t => .ok t
  | none, none => preferences.map (·.defaultTarget)

/-- The warnings on nodes that a cycle keeps out. -/
def cycleWarnings {ε : Type} (excluded : List String) (preferences : Except ε Preferences) :
    Except ε (List String) :=
  if excluded.isEmpty then .ok []
  else preferences.map fun p =>
    if p.warnOnCycles then ["Cycle detected, nodes " ++ ", ".intercalate excluded ++ " excluded"] else []

/-- Compiles a workflow. -/
def compile {ε : Type} (w : Workflow) (asked : Option Target) (preferences : Except ε Preferences) :
    Except ε Compiled := do
  let target ← resolveTarget w asked preferences
  let linear := w.linearize
  let warnings ← cycleWarnings linear.excludedIds preferences
  return ⟨target, linear.ids, linear.excludedIds, warnings, render w target linear.order⟩

end Runbook.Document
