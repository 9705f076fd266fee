import Runbook.Check.Rules
import Runbook.Cli.Words
import Runbook.Config.Basic
import Runbook.Document.Compile
import Runbook.Run.Simulate
import Runbook.Workflow.Edit
import Runbook.Workflow.File

/-! The commands: what each is called, which words it takes, and what it writes. -/
namespace Runbook.Cli

/-- What goes on outside of the words: the files, where ids and times come from, and the configuration. -/
structure Session where
  store : Store
  mint : Mint
  config : Config

/-- What ends a command early, besides a word that does not fit. Among that are texts without bytes, which
can be no output, and no record in JSON. -/
inductive Escape where
  | config (f : Config.Fault)
  | longSetting
  | file (f : FileFault)
  | store (f : Store.Fault)
  | save (f : SaveFault)
  | torn (t : Text.Torn)
  | tornRecord

def Escape.ofPreferences : Document.PreferenceFault Config.Fault → Escape
  | .unread f => .config f
  | .tooManyDigits => .longSetting

/-- What a command leaves: its exit status, its two outputs, the fault of a file that could not be loaded, and
what ended it early. -/
structure Outcome where
  code : Nat
  out : String
  err : String
  rejected : Option LoadFault
  escape : Option Escape

/-- A line of output. -/
def line (s : String) : String := s ++ "\n"

namespace Outcome

def success (out : String) : Outcome := ⟨0, out, "", none, none⟩

/-- Errors and warnings are shown in any case. -/
def failure (err : String) : Outcome := ⟨1, "", Text.escapeHalves err, none, none⟩

def escaped (e : Escape) : Outcome := ⟨1, "", "", none, some e⟩

def after (o : Outcome) (err : String) : Outcome := { o with err := Text.escapeHalves err ++ o.err }

/-- Prints one message after another, each with a line end. The first one without bytes ends the command. -/
def printed (messages : List String) (code : Nat) : Outcome :=
  match messages with
  | [] => ⟨code, "", "", none, none⟩
  | m :: rest =>
    if Text.isWhole m then
      let o := printed rest code
      { o with out := line m ++ o.out }
    else escaped (.torn (.ofText m))

end Outcome

/-- A command takes one argument at most. -/
inductive Command where
  | compile
  | validate
  | order
  | simulate
  | new
  | templates
  | version
  deriving DecidableEq, Repr

def targetSwitch : Switch := .choice "--target" (some 't') (Target.all.map Target.name)
def outputSwitch : Switch := .value "--output" (some 'o')
def strictSwitch : Switch := .flag "--strict" none
def formatSwitch : Switch := .choice "--format" (some 'f') ["text", "json", "markdown"]
def outcomeSwitch : Switch := .value "--outcome" none
def failSwitch : Switch := .value "--fail" none
def jsonSwitch : Switch := .flag "--json" none
def descriptionSwitch : Switch := .value "--description" (some 'd')
def forceSwitch : Switch := .flag "--force" (some 'f')
def verboseSwitch : Switch := .flag "--verbose" (some 'v')

namespace Command

def all : List Command := [compile, validate, order, simulate, new, templates, version]

def name : Command → String
  | compile => "compile"
  | validate => "validate"
  | order => "order"
  | simulate => "simulate"
  | new => "new"
  | templates => "templates"
  | version => "version"

def ofName? (s : String) : Option Command := all.find? (·.name == s)

def argument : Command → Option String
  | compile | validate | order | simulate => some "FILE"
  | new => some "NAME"
  | templates | version => none

def switches : Command → List Switch
  | compile => [targetSwitch, outputSwitch, strictSwitch, .help]
  | validate => [formatSwitch, .help]
  | order | templates | version => [.help]
  | simulate => [outcomeSwitch, failSwitch, jsonSwitch, .help]
  | new => [descriptionSwitch, outputSwitch, forceSwitch, .help]

end Command

/-- A text filled up with blanks behind it. -/
def padEnd (width : Nat) (s : String) : String := s ++ String.ofList (List.replicate (width - s.length) ' ')

/-- A text filled up with blanks before it. -/
def padStart (width : Nat) (s : String) : String := String.ofList (List.replicate (width - s.length) ' ') ++ s

/-- The end of a command on a file that gives no workflow. -/
def loadFailure (f : FileFault) : Outcome :=
  match f with
  | .missing p => .failure (line s!"Error: Workflow file not found: {p.text}")
  | .rejected fault => { Outcome.failure (line ("Error: " ++ fault.message)) with rejected := some fault }
  | f => .escaped (.file f)

/-- Loads a workflow and goes on with it. -/
def withWorkflow (s : Session) (file : String) (next : Workflow → Outcome × Session) : Outcome × Session :=
  match Workflow.load s.store s.mint.now (Path.ofText file) with
  | .ok w => next w
  | .error f => (loadFailure f, s)

/-- Compiles a workflow with the preferences of a session. -/
def Session.compile (s : Session) (w : Workflow) (asked : Option Target) :
    Except Escape (Document.Compiled × String) := do
  let settings := (s.config.load s.store none).1.map Config.compilerSettings
  let c ← (Document.compile w asked (Document.preferencesFor w asked settings)).mapError .ofPreferences
  let digest ← c.digest.mapError .torn
  return (c, digest)

/-- Writes a document to a file, in folders that are made for it. The words of a command line are texts with
bytes, and so is what is said of the file. -/
def writeDocument (s : Session) (c : Document.Compiled) (digest output : String) : Outcome × Session :=
  let p := Path.ofText output
  match s.store.makeFolders p.parent with
  | .error f => (.escaped (.store f), s)
  | .ok store => match store.writeText p c.document with
    | .error f => (.escaped (.store f), { s with store := store })
    | .ok store =>
      (.success (line s!"Wrote {c.target.name} document to {p.text} ({digest})"), { s with store := store })

def runCompile (s : Session) (words : Words) (w : Workflow) : Outcome × Session :=
  let report := w.check
  if words.has strictSwitch && !report.valid then (.failure (line report.text), s)
  else
    match s.compile w ((words.value? targetSwitch).bind Target.ofName?) with
    | .error e => (.escaped e, s)
    | .ok (c, digest) =>
      let warnings := String.join (c.warnings.map fun m => line ("Warning: " ++ m))
      let (o, s) := match Config.given (words.value? outputSwitch) with
        | some output => writeDocument s c digest output
        | none => (.success (line c.document), s)
      (o.after warnings, s)

/-- A report in the format that is asked for. -/
def reportText (words : Words) (report : Check.Report) : String :=
  match words.value? formatSwitch with
  | some "json" => Json.Form.stored.text report.toValue
  | some "markdown" => report.markdown
  | _ => report.text

def runValidate (words : Words) (w : Workflow) : Outcome :=
  let report := w.check
  .printed [reportText words report] (if report.valid then 0 else 1)

def runOrder (w : Workflow) : Outcome :=
  let linear := w.linearize
  let places := linear.order.zipIdx.map fun (n, i) =>
    s!"{padStart 3 (toString (i + 1))}. {n.id} [{n.kind.name}] {n.label}"
  let excluded :=
    if linear.hasCycle then ["", "Excluded (cycle): " ++ ", ".intercalate linear.excludedIds] else []
  .printed (places ++ excluded) 0

/-- Pairs by their first part, of which the last one counts. -/
def setPair (pairs : List (String × String)) (key value : String) : List (String × String) :=
  match pairs with
  | [] => [(key, value)]
  | (k, v) :: rest => if k = key then (k, value) :: rest else (k, v) :: setPair rest key value

/-- The pairs that the values of a switch write. -/
def readPairs (words : Words) (s : Switch) : Except UsageFault (List (String × String)) :=
  (words.values s).foldlM (fun pairs given =>
    match Words.splitEquals given.toList with
    | (_, none) => .error (.notPair s given)
    | (key, some value) =>
      let trim (cs : List Char) : String := Text.trim Text.isBlank (String.ofList cs)
      .ok (setPair pairs (trim key) (trim value))) []

/-- The outcomes of decisions, in any case. -/
def readOutcomes (words : Words) : Except UsageFault (List (String × Bool)) := do
  let pairs ← readPairs words outcomeSwitch
  pairs.mapM fun (id, value) =>
    let word := Text.lower value
    if word = "true" then .ok (id, true)
    else if word = "false" then .ok (id, false)
    else .error (.notOutcome outcomeSwitch id)

/-- The most nodes that a simulation begins. -/
def stepLimit : Nat := 10000

/-- One node of a simulated run. -/
def slotText (id : String) (slot : Run.Slot) : String :=
  let branch := match Check.Report.present slot.selectedHandle with
    | some handle => " branch=" ++ handle
    | none => ""
  let rounds := if 0 < slot.iterations then s!" iterations={slot.iterations}" else ""
  let error := match Check.Report.present slot.error with
    | some error => " error=" ++ error
    | none => ""
  "  " ++ id ++ ": " ++ slot.status.name ++ branch ++ rounds ++ error

/-- A simulated run, in messages. -/
def recordMessages (r : Run.Record) : List String :=
  let path := " -> ".intercalate r.visited
  let visited := if path = "" then "(none)" else path
  let error := match Check.Report.present r.error with
    | some error => ["Error: " ++ error]
    | none => []
  ["Status: " ++ r.status.name, "Visited: " ++ visited] ++ r.slots.map (fun (id, slot) => slotText id slot) ++
    error

/-- A simulated run in lines. -/
def recordText (r : Run.Record) : String := String.join ((recordMessages r).map line)

/-- What is printed of a simulated run, in JSON or in lines. -/
def showRecord (r : Run.Record) (json : Bool) : Outcome :=
  let text := Json.Form.report.text r.toValue
  if !json then .printed (recordMessages r) (if r.status = .failed then 1 else 0)
  else if Text.isWhole text then .success (line text)
  else .escaped .tornRecord

def runSimulate (now : Int) (words : Words) (w : Workflow) : Except UsageFault Outcome := do
  let outcomes ← readOutcomes words
  let failures ← readPairs words failSwitch
  let r := Run.simulate w ⟨outcomes, failures, []⟩ ⟨stepLimit, fun _ _ => false⟩ (.still now)
  return showRecord r (words.has jsonSwitch)

/-- The file of a new workflow, by its name. -/
def defaultFile (name : String) : String :=
  String.ofList ((Text.lower name).toList.map fun c => if c = ' ' then '_' else c) ++ ".yaml"

def runNew (s : Session) (words : Words) (name : String) : Outcome × Session :=
  let (w, mint) := Workflow.create s.mint name (words.value? descriptionSwitch)
  let s := { s with mint := mint }
  let p := Path.ofText ((Config.given (words.value? outputSwitch)).getD (defaultFile name))
  match s.store.holds p with
  | .error f => (.escaped (.store f), s)
  | .ok there =>
    if there && !words.has forceSwitch then
      (.failure (line s!"Error: {p.text} already exists. Use --force to overwrite."), s)
    else match w.save s.store p with
      | .error f => (.escaped (.save f), s)
      | .ok store =>
        (.success (line s!"Created workflow '{name}' ({w.id}) at {p.text}"), { s with store := store })

def runTemplates : Outcome :=
  let templateLine (t : Template) : String :=
    line s!"  {padEnd 16 t.label} {padEnd 10 t.kind.name} {t.description}"
  let groupText (g : Category × List Template) : String :=
    line (g.1.name ++ ":") ++ String.join (g.2.map templateLine)
  .success (String.join (Template.grouped.map groupText))

def runVersion : Outcome := .success (line "wfkit v0.1.0")

end Runbook.Cli
