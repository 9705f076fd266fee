import Runbook.Json.Reader
import Runbook.Json.Writer
import Runbook.Store.Basic
import Runbook.Workflow.Decode
import Runbook.Workflow.Encode
import Runbook.Yaml.Reader
import Runbook.Yaml.Writer

/-! Files of workflows: YAML or JSON by their suffix, in UTF-8, where the end of a line may be marked in any
of the three ways. -/
namespace Runbook

/-- Why data from a source is no workflow. -/
inductive LoadProblem where
  | notUtf8 (fault : Text.Utf8Fault)
  | notYaml
  | notJson (text : List Char) (fault : Json.Fault)
  | notMap (typeName : String)
  | invalid (faults : List Fault)

/-- A problem with the data from a source. -/
structure LoadFault where
  source : String
  problem : LoadProblem

/-- A step of a path as messages show it. -/
def Step.text : Step → String
  | .key name => name
  | .index i => toString i

/-- A fault on a line of its own, below the path to its place. -/
def Fault.text (f : Fault) : String :=
  ".".intercalate (f.path.map Step.text) ++ "\n  " ++ f.cause.message

def LoadProblem.message : LoadProblem → String
  | .notUtf8 fault => fault.message
  | .notYaml => Yaml.Fault.malformed.message
  | .notJson text fault => fault.message text
  | .notMap typeName => s!"expected a mapping, got {typeName}"
  | .invalid faults =>
    Text.joinLines (s!"{faults.length} validation error(s)" :: faults.map Fault.text)

def LoadFault.message (f : LoadFault) : String := s!"Could not load workflow '{f.source}': {f.problem.message}"

/-- Why a file gives no workflow. Besides what is wrong with its data, the file may be missing or not be
readable, and it may hold a scalar that has the form of a number or a time but is none. -/
inductive FileFault where
  | missing (path : Path)
  | unreadable (cause : Store.Fault)
  | badScalar (fault : Yaml.Fault)
  | badNumber (text : List Char) (fault : Json.Fault)
  | rejected (fault : LoadFault)

/-- A workflow from data; `now` is the time it gets where it names none. -/
def Workflow.ofData (now : Int) (source : String) (v : Value) : Except LoadFault Workflow :=
  match v with
  | .map entries => match Workflow.ofEntries now entries with
    | .ok w => .ok w
    | .faulty faults => .error ⟨source, .invalid faults⟩
  | v => .error ⟨source, .notMap v.typeName⟩

namespace FileFault

/-- The fault of a text that is no YAML. -/
def ofYaml (source : String) : Yaml.Fault → FileFault
  | .malformed => .rejected ⟨source, .notYaml⟩
  | f => .badScalar f

/-- The fault of a text that is no JSON. -/
def ofJson (source : String) (text : List Char) : Json.Fault → FileFault
  | .malformed problem position => .rejected ⟨source, .notJson text (.malformed problem position)⟩
  | f => .badNumber text f

end FileFault

/-- The data in a text of a file. -/
def Path.parse (p : Path) (text : List Char) : Except FileFault Value :=
  if p.isYaml then (Yaml.read text).mapError (FileFault.ofYaml p.text)
  else (Json.read text).mapError (FileFault.ofJson p.text text)

/-- The text of a file. -/
def Store.readText (s : Store) (p : Path) : Except FileFault (List Char) :=
  match s.read p with
  | .error f => .error (.unreadable f)
  | .ok bytes => match Text.decodeUtf8 bytes with
    | .error f => .error (.rejected ⟨p.text, .notUtf8 f⟩)
    | .ok text => .ok (Text.unifyLines text)

/-- The workflow in a file. -/
def Workflow.load (s : Store) (now : Int) (p : Path) : Except FileFault Workflow :=
  match s.holds p with
  | .error f => .error (.unreadable f)
  | .ok false => .error (.missing p)
  | .ok true => do
    let text ← s.readText p
    let v ← p.parse text
    (Workflow.ofData now p.text v).mapError .rejected

/-- Why a workflow is not saved: its settings nest too deep, an integer in it has too many digits to be
written, or the file cannot be written. -/
inductive SaveFault where
  | notEncoded (cause : EncodeFault)
  | tooManyDigits
  | unwritable (cause : Store.Fault)
  deriving DecidableEq, Repr

/-- The message on a fault of the workflow; the store has its own. -/
def SaveFault.message? : SaveFault → Option String
  | notEncoded cause => some cause.message
  | tooManyDigits => some Json.writtenDigitsMessage
  | unwritable _ => none

mutual

/-- Whether every integer in a value has few enough digits to be written. -/
def Value.hasShortIntegers : Value → Bool
  | .int n => Decimal.width n.natAbs ≤ Json.digitLimit
  | .list items => Value.itemsHaveShortIntegers items
  | .map entries => Value.entriesHaveShortIntegers entries
  | _ => true

def Value.itemsHaveShortIntegers : List Value → Bool
  | [] => true
  | v :: rest => v.hasShortIntegers && Value.itemsHaveShortIntegers rest

def Value.entriesHaveShortIntegers : List (Value × Value) → Bool
  | [] => true
  | (k, v) :: rest => k.hasShortIntegers && v.hasShortIntegers && Value.entriesHaveShortIntegers rest

end

/-- The text that a file of a path has for a value. -/
def Path.print (p : Path) (v : Value) : String :=
  if p.isYaml then Yaml.write v else Json.Form.stored.text v ++ "\n"

/-- The text of a workflow's file, by a serializer with some limit. -/
def Workflow.fileTextWithin (limit : Nat) (w : Workflow) (p : Path) : Except SaveFault String := do
  let v ← (w.encodeWithin limit).mapError .notEncoded
  if v.hasShortIntegers then return p.print v else throw .tooManyDigits

/-- The text of a workflow's file. -/
def Workflow.fileText (w : Workflow) (p : Path) : Except SaveFault String := w.fileTextWithin Settings.depthLimit p

/-- Writes a workflow's file, by a serializer with some limit. -/
def Workflow.saveWithin (limit : Nat) (w : Workflow) (s : Store) (p : Path) : Except SaveFault Store := do
  let text ← w.fileTextWithin limit p
  (s.writeText p text).mapError .unwritable

/-- Writes a workflow's file. -/
def Workflow.save (w : Workflow) (s : Store) (p : Path) : Except SaveFault Store :=
  w.saveWithin Settings.depthLimit s p

end Runbook
