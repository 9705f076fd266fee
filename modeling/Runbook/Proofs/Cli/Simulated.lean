import Runbook.Cli.Run
import Runbook.Proofs.Cli.Words
import Runbook.Proofs.Json.Whole
import Runbook.Proofs.Workflow.Decoded

/-!
# Simulated runs on a command line

The pairs of a command line make a script, in which what is said last of a node counts
(`lookup_putPairs`). The command loads the file, walks the workflow by this script, and writes
the record. Its exit status tells whether the run failed if the record is written in lines; a
record in JSON is left with the status 0. Either is left with 1 if what is to be written has no
bytes (`run_simulate`).
-/

namespace Runbook

/-! ## Scripts that say the same -/

namespace Run

/-- Two scripts say the same of every node. -/
structure Script.Same (a b : Script) : Prop where
  outcomes : ∀ id, a.outcomes.lookup id = b.outcomes.lookup id
  failures : ∀ id, a.failures.lookup id = b.failures.lookup id
  results : ∀ id, a.results.lookup id = b.results.lookup id

variable {a b : Script}

theorem Tracker.drive_of_same (h : a.Same b) (t : Tracker) (n : Node) : t.drive a n = t.drive b n := by
  simp only [drive, Script.outcome, Script.result, h.outcomes, h.failures, h.results]

theorem Tracker.driveAll_of_same (h : a.Same b) (limits : Limits) (budget asked : Nat) (t : Tracker) :
    t.driveAll a limits budget asked = t.driveAll b limits budget asked := by
  induction budget generalizing asked t with
  | zero => rw [driveAll, driveAll]
  | succ budget ih =>
      rw [driveAll, driveAll]
      simp only [drive_of_same h, ih]

/-- **A run depends on what its script says of each node**, however the script says it. -/
theorem simulate_of_same (h : a.Same b) (w : Workflow) (limits : Limits) (clock : Clock) :
    simulate w a limits clock = simulate w b limits clock := by
  rw [simulate, simulate, Tracker.driveAll_of_same h]

end Run

namespace Cli

/-! ## Pairs -/

/-- A pair as the value of a switch. -/
def writtenPair (p : String × String) : String := p.1 ++ "=" ++ p.2

/-- A text without the blanks around it. -/
def trimmed (text : String) : String := Text.trim Text.isBlank text

/-- A pair without the blanks around its parts. -/
def trimmedPair (p : String × String) : String × String := (trimmed p.1, trimmed p.2)

section Pairs

variable {pairs found : List (String × String)} {key value id : String}

theorem lookup_setPair (pairs : List (String × String)) (key value id : String) :
    (setPair pairs key value).lookup id = ((key, value) :: pairs).lookup id := by
  induction pairs with
  | nil => rfl
  | cons e rest ih =>
      rw [setPair]
      by_cases hkey : e.1 = key
      · rw [if_pos hkey, hkey, List.lookup_cons, List.lookup_cons, List.lookup_cons, hkey]
        cases id == key <;> rfl
      · rw [if_neg hkey, List.lookup_cons, ih, List.lookup_cons, List.lookup_cons, List.lookup_cons]
        by_cases hid : id = key
        · have hne : (id == e.1) = false := beq_false_of_ne fun h => hkey (h.symm.trans hid)
          rw [hne, beq_iff_eq.mpr hid]
        · rw [beq_false_of_ne hid]

theorem forall_mem_setPair {P : String → Prop} (hvalue : P value) (h : ∀ e ∈ pairs, P e.2) :
    ∀ e ∈ setPair pairs key value, P e.2 := by
  induction pairs with
  | nil => exact List.forall_mem_cons.mpr ⟨hvalue, List.forall_mem_nil _⟩
  | cons e rest ih =>
      obtain ⟨hfirst, hrest⟩ := List.forall_mem_cons.mp h
      rw [setPair]
      split
      · exact List.forall_mem_cons.mpr ⟨hvalue, hrest⟩
      · exact List.forall_mem_cons.mpr ⟨hfirst, ih hrest⟩

/-- Pairs, each put in after the ones before it. -/
def putPairs (found pairs : List (String × String)) : List (String × String) :=
  pairs.foldl (fun found p => setPair found (trimmed p.1) (trimmed p.2)) found

theorem lookup_putPairs : (putPairs found pairs).lookup id = ((pairs.map trimmedPair).reverse ++ found).lookup id := by
  induction pairs generalizing found with
  | nil => rfl
  | cons p rest ih =>
      rw [putPairs, List.foldl_cons, ← putPairs, ih, List.lookup_append, lookup_setPair, ← List.lookup_append,
        List.map_cons, List.reverse_cons, List.append_assoc]
      rfl

theorem forall_mem_putPairs {P : String → Prop} (hpairs : ∀ p ∈ pairs, P (trimmed p.2)) (h : ∀ e ∈ found, P e.2) :
    ∀ e ∈ putPairs found pairs, P e.2 := by
  induction pairs generalizing found with
  | nil => exact h
  | cons p rest ih =>
      obtain ⟨hfirst, hrest⟩ := List.forall_mem_cons.mp hpairs
      exact ih hrest (forall_mem_setPair hfirst h)

/-- Pairs are read as they are written. -/
theorem readPairs_eq {w : Words} {s : Switch} (hvalues : w.values s = pairs.map writtenPair)
    (hids : ∀ p ∈ pairs, '=' ∉ p.1.toList) : readPairs w s = .ok (putPairs [] pairs) := by
  rw [readPairs, hvalues]
  clear hvalues
  generalize [] = found
  induction pairs generalizing found with
  | nil => rfl
  | cons p rest ih =>
      obtain ⟨hfirst, hrest⟩ := List.forall_mem_cons.mp hids
      have hword : (writtenPair p).toList = p.1.toList ++ '=' :: p.2.toList := by simp [writtenPair]
      rw [List.map_cons, List.foldlM_cons, hword, Words.splitEquals_append hfirst]
      simp only [String.ofList_toList]
      exact ih hrest _

end Pairs

/-! ## What a command line says of a run -/

/-- A text that says true or false, in any case. -/
def SaysTruth (text : String) : Prop := Text.lower (trimmed text) = "true" ∨ Text.lower (trimmed text) = "false"

/-- Which of them it says. -/
def truth (text : String) : Bool := Text.lower (trimmed text) = "true"

/-- A command line that simulates a file: pairs for the outcomes of decisions and for failures, in this
order among each other, and whether the record is asked for in JSON. -/
structure Simulates (words : List String) (file : String) (outcomes failures : List (String × String))
    (json : Bool) : Prop where
  spelled : ∃ w, Spells Command.simulate.switches words w ∧ w.others = [file] ∧ w.has .help = false ∧
    w.values outcomeSwitch = outcomes.map writtenPair ∧ w.values failSwitch = failures.map writtenPair ∧
    w.has jsonSwitch = json
  outcomeIds : ∀ p ∈ outcomes, '=' ∉ p.1.toList
  failureIds : ∀ p ∈ failures, '=' ∉ p.1.toList
  truths : ∀ p ∈ outcomes, SaysTruth p.2

/-- The script of such a command line. What is said last of a node stands first. -/
def saidScript (outcomes failures : List (String × String)) : Run.Script where
  outcomes := (outcomes.map fun p => (trimmed p.1, truth p.2)).reverse
  failures := (failures.map trimmedPair).reverse
  results := []

section Run

variable {w : Words} {outcomes failures : List (String × String)}

theorem lookup_map_snd {α β : Type} (f : α → β) (pairs : List (String × α)) (id : String) :
    (pairs.map fun e => (e.1, f e.2)).lookup id = (pairs.lookup id).map f := by
  induction pairs with
  | nil => rfl
  | cons e rest ih =>
      rw [List.map_cons, List.lookup_cons, List.lookup_cons, ih]
      cases id == e.1 <;> rfl

/-- The outcomes are read as they are written. -/
theorem readOutcomes_eq (hvalues : w.values outcomeSwitch = outcomes.map writtenPair)
    (hids : ∀ p ∈ outcomes, '=' ∉ p.1.toList) (htruths : ∀ p ∈ outcomes, SaysTruth p.2) :
    readOutcomes w = .ok ((putPairs [] outcomes).map fun e => (e.1, Text.lower e.2 = "true")) := by
  rw [readOutcomes, readPairs_eq hvalues hids]
  have htrue : ∀ e ∈ putPairs [] outcomes, Text.lower e.2 = "true" ∨ Text.lower e.2 = "false" :=
    forall_mem_putPairs (P := fun value => Text.lower value = "true" ∨ Text.lower value = "false") htruths
      (List.forall_mem_nil _)
  refine mapM_eq_ok_iff.mpr (List.forall₂_map_right_iff.mpr (List.forall₂_same.mpr fun e he => ?_))
  rcases htrue e he with h | h <;> simp [h]

theorem same_saidScript : Run.Script.Same
    ⟨(putPairs [] outcomes).map fun e => (e.1, Text.lower e.2 = "true"), putPairs [] failures, []⟩
    (saidScript outcomes failures) where
  outcomes id := by
    rw [lookup_map_snd (fun value => decide (Text.lower value = "true")), lookup_putPairs, List.append_nil,
      ← lookup_map_snd, List.map_reverse, List.map_map]
    rfl
  failures id := by rw [lookup_putPairs, List.append_nil]; rfl
  results id := rfl

/-- The record of the run that a command line asks for. -/
def saidRecord (now : Int) (workflow : Workflow) (outcomes failures : List (String × String)) : Run.Record :=
  Run.simulate workflow (saidScript outcomes failures) ⟨stepLimit, fun _ _ => false⟩ (.still now)

theorem runSimulate_eq (houtcomes : w.values outcomeSwitch = outcomes.map writtenPair)
    (hfailures : w.values failSwitch = failures.map writtenPair) (hids : ∀ p ∈ outcomes, '=' ∉ p.1.toList)
    (hids' : ∀ p ∈ failures, '=' ∉ p.1.toList) (htruths : ∀ p ∈ outcomes, SaysTruth p.2) (now : Int)
    (workflow : Workflow) :
    runSimulate now w workflow = .ok (showRecord (saidRecord now workflow outcomes failures) (w.has jsonSwitch)) := by
  rw [runSimulate, readOutcomes_eq houtcomes hids htruths, readPairs_eq hfailures hids', saidRecord,
    ← Run.simulate_of_same same_saidScript]
  rfl

end Run

/-- Each switch of a spelled command line is one of the command's. -/
theorem Spells.mem_switches {switches : List Switch} {words : List String} {w : Words}
    (h : Spells switches words w) : ∀ e ∈ w.given, e.1 ∈ switches := by
  induction h with
  | nil | dashes => exact List.forall_mem_nil _
  | flag hs _ _ ih | behind hs _ _ _ ih | attached hs _ _ _ ih => exact List.forall_mem_cons.mpr ⟨hs, ih⟩
  | other _ _ ih => exact ih

/-- No value can be a wrong choice where no switch has choices. -/
theorem badChoice?_eq_none {w : Words} (h : ∀ e ∈ w.given, e.1.choices = []) : w.badChoice? = none := by
  rw [Words.badChoice?, List.findSome?_eq_none_iff]
  rintro ⟨s, v⟩ he
  rw [Option.bind_eq_none_iff]
  intro _ _
  rw [if_pos (by rw [h _ he]; rfl)]

/-- The words of a simulation are read, and its file is loaded and walked. -/
theorem runWords_simulate {s : Session} {words : List String} {file : String}
    {outcomes failures : List (String × String)} {json : Bool}
    (hwords : Simulates words file outcomes failures json) (hfile : s.store.isFolder (Path.ofText file) = false) :
    runWords s .simulate words = withWorkflow s file fun workflow =>
      (showRecord (saidRecord s.mint.now workflow outcomes failures) json, s) := by
  obtain ⟨w, hspells, hothers, hhelp, houtcomes, hfailures, rfl⟩ := hwords.spelled
  have hchoices : ∀ e ∈ w.given, e.1.choices = [] := fun e he => by
    have hswitches : ∀ s ∈ Command.simulate.switches, s.choices = [] := by decide
    exact hswitches _ (hspells.mem_switches e he)
  have hargument : readArgument s .simulate w = .ok file := by
    simp [readArgument, Command.argument, hothers, hfile]
  rw [runWords, hspells.read_eq Command.simulate.longNames]
  simp only [hhelp, badChoice?_eq_none hchoices, hargument, runCommand, Bool.false_eq_true, if_false,
    runSimulate_eq houtcomes hfailures hwords.outcomeIds hwords.failureIds hwords.truths]

/-- A command's words come after its name, and the configuration is read before them. -/
theorem run_command {s : Session} {c : Command} {words : List String} {v : Value} {config : Config}
    (hconfig : s.config.clear.load s.store none = (.ok v, config)) :
    run s (c.name :: words) = runWords { s with config := config } c words := by
  have hread : Words.read globalSwitches false (c.name :: words) = .ok ⟨[], c.name :: words⟩ := by
    cases c <;> rfl
  have hname : Command.ofName? c.name = some c := by cases c <;> decide
  rw [run, hread]
  simp only [List.isEmpty_cons, Words.has, List.any_nil, hname, hconfig, Bool.false_eq_true, if_false]

theorem code_loadFailure (f : FileFault) : (loadFailure f).code = 1 := by cases f <;> rfl

/-! ## What is printed of a run -/

theorem isWhole_line (m : String) : Text.isWhole (line m) = Text.isWhole m := by
  rw [line, Text.isWhole_append, show Text.isWhole "\n" = true by decide, Bool.and_true]

namespace Outcome

variable {messages : List String} {code : Nat}

/-- Messages that have bytes are all printed. -/
theorem printed_of_whole (h : messages.all Text.isWhole = true) :
    printed messages code = ⟨code, String.join (messages.map line), "", none, none⟩ := by
  induction messages with
  | nil => rfl
  | cons m rest ih =>
      rw [List.all_cons, Bool.and_eq_true] at h
      rw [printed, if_pos h.1, ih h.2, List.map_cons, String.join_cons]

/-- A message without bytes makes the command fail. -/
theorem code_printed_of_torn (h : messages.all Text.isWhole = false) : (printed messages code).code = 1 := by
  induction messages with
  | nil => cases h
  | cons m rest ih =>
      rw [printed]
      split
      case isTrue hwhole =>
        rw [List.all_cons, hwhole, Bool.true_and] at h
        exact ih h
      case isFalse => rfl

end Outcome

/-- What is printed of a record, if it has bytes. -/
def printedText (r : Run.Record) (json : Bool) : String :=
  if json then line (Json.Form.report.text r.toValue) else recordText r

theorem isWhole_recordText (r : Run.Record) : Text.isWhole (recordText r) = (recordMessages r).all Text.isWhole := by
  rw [recordText, Text.isWhole_join, List.all_map]
  exact congrArg (recordMessages r).all (funext isWhole_line)

theorem showRecord_of_whole {r : Run.Record} {json : Bool} (h : Text.isWhole (printedText r json) = true) :
    (showRecord r json).out = printedText r json ∧
      (showRecord r json).code = if r.status = .failed ∧ json = false then 1 else 0 := by
  cases json with
  | true =>
      rw [printedText, if_pos rfl, isWhole_line] at h
      simp [showRecord, printedText, h, Outcome.success]
  | false =>
      rw [printedText, if_neg Bool.false_ne_true, isWhole_recordText] at h
      simp [showRecord, printedText, Outcome.printed_of_whole h, recordText]

theorem code_showRecord_of_torn {r : Run.Record} {json : Bool} (h : Text.isWhole (printedText r json) = false) :
    (showRecord r json).code = 1 := by
  cases json with
  | true =>
      rw [printedText, if_pos rfl, isWhole_line] at h
      simp [showRecord, h, Outcome.escaped]
  | false =>
      rw [printedText, if_neg Bool.false_ne_true, isWhole_recordText] at h
      exact Outcome.code_printed_of_torn h

/-- A session in a folder with one file, which holds a workflow with one node. -/
def singleNode : Session where
  store := ⟨[(["f.json"], .file (Text.utf8Bytes
    "\x7b\"id\": \"w\", \"name\": \"W\", \"nodes\": [\x7b\"id\": \"start\", \"type\": \"trigger\"\x7d]\x7d"))]⟩
  mint := ⟨0, 0⟩
  config := .ofSelected none

end Cli

end Runbook
