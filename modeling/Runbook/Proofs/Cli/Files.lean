import Runbook.Proofs.Cli.Simulated
import Runbook.Proofs.Document.Redrawn
import Runbook.Proofs.Store.Kept

/-!
# What a command line does to files

A command line whose words fit invokes a command (`invocation?`), and running it comes down to running that
command, unless the configuration stops it first (`run_of_command?`). Only two commands write, to one path each,
and do so last: `Safe` says that what runs leaves every other file, and every file if it fails. A strict
compilation and a validation of a file both ask that its workflow is valid. They part where a text that is
written has no bytes: the one needs a document that has (`Compiles`), the other a report that has. Main
statement: `files_are_safe`.
-/

namespace Runbook

/-! ## A configuration that was read -/

/-- What was read is read again. -/
theorem Config.load_load {c : Config} {s : Store} {asked : Option String} {v : Value}
    (h : (c.load s asked).1 = .ok v) : ((c.load s asked).2.load s asked).1 = .ok v := by
  cases hcached : c.cache.lookup (c.path asked).resolved with
  | some w =>
      have hload : c.load s asked = (.ok w, c) := by simp only [load, hcached]
      rw [hload] at h ⊢
      rw [hload]
      exact h
  | none =>
      cases hread : readFile s (c.path asked) with
      | error f =>
          simp only [load, hcached, hread] at h
          cases h
      | ok w =>
          have hload : c.load s asked =
              (.ok w, { c with cache := ((c.path asked).resolved, w) :: c.cache }) := by
            simp only [load, hcached, hread]
          rw [hload] at h ⊢
          have hagain : (((c.path asked).resolved, w) :: c.cache).lookup (c.path asked).resolved = some w :=
            List.lookup_cons_self
          simp only [load, path] at hagain ⊢
          rw [hagain]
          exact h

/-- A workflow is saved by writing one file. -/
theorem Workflow.exists_writeText_of_save {w : Workflow} {s s' : Store} {p : Path} (h : w.save s p = .ok s') :
    ∃ text, s.writeText p text = .ok s' := by
  unfold save saveWithin at h
  cases htext : w.fileTextWithin Settings.depthLimit p with
  | error f =>
      rw [htext] at h
      cases h
  | ok text =>
      rw [htext] at h
      cases hwrite : s.writeText p text with
      | error f =>
          simp only [bind, Except.bind, hwrite, Except.mapError] at h
          cases h
      | ok store =>
          simp only [bind, Except.bind, hwrite, Except.mapError] at h
          obtain rfl := Except.ok.inj h
          exact ⟨text, hwrite⟩

namespace Cli

/-! ## Invocations -/

/-- The words of a command, if they fit and do not ask for help. -/
def Command.reading? (c : Command) (given : List String) : Option Words :=
  match Words.read c.switches true given with
  | .error _ => none
  | .ok words => if words.has .help || words.badChoice?.isSome then none else some words

/-- The command that a command line names, and what comes after the name. -/
def command? (given : List String) : Option (Command × List String) :=
  match Words.read globalSwitches false given with
  | .error _ => none
  | .ok words =>
    if words.has .help then none
    else match words.others with
      | [] => none
      | name :: rest => (Command.ofName? name).map fun c => (c, rest)

/-- The command that a command line invokes, with its words, if all words fit and do not ask for help. -/
def invocation? (given : List String) : Option (Command × Words) :=
  (command? given).bind fun (c, rest) => (c.reading? rest).map fun words => (c, words)

/-- The path that a command writes to, if it writes. -/
def Command.target (c : Command) (words : Words) (argument : String) : Option Path :=
  match c with
  | .compile => (Config.given (words.value? outputSwitch)).map Path.ofText
  | .new => some (Path.ofText ((Config.given (words.value? outputSwitch)).getD (defaultFile argument)))
  | _ => none

/-- The path that a command line writes to, if it writes. -/
def target? (given : List String) : Option Path :=
  (invocation? given).bind fun (c, words) => c.target words (words.others.headD "")

/-- Runs a command on its words. -/
def runInvocation (s : Session) (c : Command) (words : Words) : Outcome × Session :=
  match readArgument s c words with
  | .error f => (usageFailure (some c) f, s)
  | .ok argument => runCommand s c words argument

variable {s : Session} {c : Command} {given : List String} {words : Words}

theorem runWords_of_reading? (h : c.reading? given = some words) :
    runWords s c given = runInvocation s c words := by
  rw [Command.reading?] at h
  cases hread : Words.read c.switches true given with
  | error f =>
      rw [hread] at h
      cases h
  | ok read =>
      simp only [hread] at h
      split at h
      case isTrue => cases h
      case isFalse hfits =>
        obtain rfl := Option.some.inj h
        obtain ⟨hhelp, hchoice⟩ : read.has .help = false ∧ read.badChoice? = none := by simpa using hfits
        simp only [runWords, hread, hhelp, hchoice, Bool.false_eq_true, if_false, runInvocation]
        cases readArgument s c read <;> rfl

theorem runWords_of_not_reading? (h : c.reading? given = none) : (runWords s c given).2 = s := by
  rw [Command.reading?] at h
  cases hread : Words.read c.switches true given with
  | error f => simp only [runWords, hread]
  | ok read =>
      simp only [hread] at h
      by_cases hhelp : read.has .help = true
      · simp only [runWords, hread, hhelp, if_true]
      · obtain ⟨f, hf⟩ := Option.ne_none_iff_exists'.mp (show read.badChoice? ≠ none by simpa [hhelp] using h)
        simp only [runWords, hread, hhelp, hf, Bool.false_eq_true, if_false]

/-- A command line that names no command changes no file. -/
theorem store_run_of_not_command? (h : command? given = none) : (run s given).2.store = s.store := by
  rw [command?] at h
  cases hread : Words.read globalSwitches false given with
  | error f => simp only [run, hread]
  | ok read =>
      simp only [hread] at h
      by_cases hempty : given.isEmpty = true
      · simp only [run, hread, if_pos hempty]
      by_cases hhelp : read.has .help = true
      · simp only [run, hread, if_neg hempty, if_pos hhelp]
      rw [if_neg hhelp] at h
      cases hothers : read.others with
      | nil => simp only [run, hread, if_neg hempty, if_neg hhelp, hothers]
      | cons name rest =>
          have hname : Command.ofName? name = none := by simpa [hothers] using h
          simp only [run, hread, if_neg hempty, if_neg hhelp, hothers, hname]

/-- **A command line that names a command**: the configuration cannot be read, or the command does with its
words what it does, and if it reads the configuration again it reads the same. -/
theorem run_of_command? {rest : List String} (h : command? given = some (c, rest)) :
    (∃ f, (s.config.clear.load s.store none).1 = .error f ∧
      run s given = (.escaped (.config f), { s with config := s.config.clear })) ∨
    ∃ config, (∀ v, (s.config.clear.load s.store none).1 = .ok v → (config.load s.store none).1 = .ok v) ∧
      run s given = runWords { s with config := config } c rest := by
  rw [command?] at h
  cases hread : Words.read globalSwitches false given with
  | error f =>
      rw [hread] at h
      cases h
  | ok read =>
      simp only [hread] at h
      by_cases hhelp : read.has .help = true
      · rw [if_pos hhelp] at h
        cases h
      rw [if_neg hhelp] at h
      cases hothers : read.others with
      | nil =>
          rw [hothers] at h
          cases h
      | cons name after =>
          simp only [hothers] at h
          obtain ⟨c', hname, heq⟩ := Option.map_eq_some_iff.mp h
          obtain ⟨rfl, rfl⟩ := Prod.mk.inj heq
          have hempty : ¬ given.isEmpty = true := by
            intro hnil
            rw [List.isEmpty_iff.mp hnil] at hread
            obtain rfl := Except.ok.inj hread
            cases hothers
          simp only [run, hread, if_neg hempty, if_neg hhelp, hothers, hname]
          by_cases hverbose : read.has verboseSwitch = true
          · exact .inr ⟨_, fun v hv => hv, if_pos hverbose⟩
          · rw [if_neg hverbose]
            cases hload : s.config.clear.load s.store none with
            | mk loaded config =>
                cases loaded with
                | error f => exact .inl ⟨f, rfl, rfl⟩
                | ok v =>
                    refine .inr ⟨config, fun w hw => ?_, rfl⟩
                    have hagain := Config.load_load (congrArg Prod.fst hload)
                    rw [hload] at hagain
                    exact hagain.trans hw

/-! ## Files -/

/-- What runs leaves all files, or it succeeds and leaves all but the one at the path that it writes to. -/
inductive Safe (store : Store) (target : Option Path) (r : Outcome × Session) : Prop
  | same (h : store.SameFiles r.2.store)
  | written {p : Path} {names : List String} (hcode : r.1.code = 0) (htarget : target = some p)
    (hlocate : r.2.store.locate p = .ok names)
    (hothers : ∀ other, other ≠ names → r.2.store.file? other = store.file? other)

section Safe

variable {target : Option Path} {w : Workflow}

theorem safe_of_store_eq {r : Outcome × Session} (h : r.2.store = s.store) : Safe s.store target r :=
  .same (h ▸ .refl _)

theorem safe_withWorkflow {file : String} {next : Workflow → Outcome × Session}
    (h : ∀ w, Safe s.store target (next w)) : Safe s.store target (withWorkflow s file next) := by
  rw [withWorkflow]
  split
  · exact h _
  · exact safe_of_store_eq rfl

/-- A document is written last, after the folders for it are made. -/
theorem safe_writeDocument (s : Session) (d : Document.Compiled) (digest output : String) :
    Safe s.store (some (Path.ofText output)) (writeDocument s d digest output) := by
  simp only [writeDocument]
  split
  case h_1 => exact safe_of_store_eq rfl
  case h_2 folders hfolders =>
    have hmade := Store.sameFiles_makeFolders hfolders
    split
    case h_1 => exact .same hmade
    case h_2 store hwrite =>
      obtain ⟨names, hlocate, hothers⟩ := Store.exists_locate_write hwrite
      exact .written rfl rfl hlocate fun other hne => (hothers other hne).trans (hmade other)

theorem safe_runCompile (s : Session) (words : Words) (w : Workflow) :
    Safe s.store ((Config.given (words.value? outputSwitch)).map Path.ofText) (runCompile s words w) := by
  simp only [runCompile]
  split
  case isTrue => exact safe_of_store_eq rfl
  case isFalse =>
    split
    case h_1 => exact safe_of_store_eq rfl
    case h_2 d digest hcompiled =>
      cases Config.given (words.value? outputSwitch) with
      | none => exact safe_of_store_eq rfl
      | some output =>
          cases safe_writeDocument s d digest output with
          | same h => exact .same h
          | written hcode htarget hlocate hothers => exact .written hcode htarget hlocate hothers

theorem safe_runNew (s : Session) (words : Words) (name : String) :
    Safe s.store (some (Path.ofText ((Config.given (words.value? outputSwitch)).getD (defaultFile name))))
      (runNew s words name) := by
  simp only [runNew]
  split
  case h_1 => exact safe_of_store_eq rfl
  case h_2 there _ =>
    split
    case isTrue => exact safe_of_store_eq rfl
    case isFalse =>
      split
      case h_1 => exact safe_of_store_eq rfl
      case h_2 store hsave =>
        obtain ⟨text, hwrite⟩ := Workflow.exists_writeText_of_save hsave
        obtain ⟨names, hlocate, hothers⟩ := Store.exists_locate_write hwrite
        exact .written rfl rfl hlocate hothers

/-- **What each command does to files.** -/
theorem safe_runCommand (s : Session) (c : Command) (words : Words) (argument : String) :
    Safe s.store (c.target words argument) (runCommand s c words argument) := by
  cases c with
  | compile => exact safe_withWorkflow fun w => safe_runCompile s words w
  | validate | order => exact safe_withWorkflow fun w => safe_of_store_eq rfl
  | simulate =>
      refine safe_withWorkflow fun w => ?_
      split <;> exact safe_of_store_eq rfl
  | new => exact safe_runNew s words argument
  | templates | version => exact safe_of_store_eq rfl

theorem readArgument_eq {argument : String} (h : readArgument s c words = .ok argument) :
    argument = words.others.headD "" := by
  unfold readArgument at h
  split at h
  case h_1 hothers =>
    rw [hothers]
    exact (Except.ok.inj h).symm
  case h_2 | h_3 => cases h
  case h_4 first others hothers =>
    split at h
    case isTrue => cases h
    case isFalse =>
      split at h
      case isTrue =>
        rw [hothers]
        exact (Except.ok.inj h).symm
      case isFalse => cases h

theorem safe_runInvocation (s : Session) (c : Command) (words : Words) :
    Safe s.store (c.target words (words.others.headD "")) (runInvocation s c words) := by
  rw [runInvocation]
  split
  case h_1 => exact safe_of_store_eq rfl
  case h_2 argument hargument =>
    rw [← readArgument_eq hargument]
    exact safe_runCommand s c words argument

end Safe

/-- **What a command line does to files.** -/
theorem safe_run (s : Session) (given : List String) : Safe s.store (target? given) (run s given) := by
  cases hcommand : command? given with
  | none => exact safe_of_store_eq (store_run_of_not_command? hcommand)
  | some found =>
      obtain ⟨c, rest⟩ := found
      rcases run_of_command? hcommand with ⟨f, -, hrun⟩ | ⟨config, -, hrun⟩
      · rw [hrun]
        exact safe_of_store_eq rfl
      · rw [hrun]
        cases hwords : c.reading? rest with
        | none =>
            have hsame := runWords_of_not_reading? (s := { s with config := config }) hwords
            have hstore : (runWords { s with config := config } c rest).2.store = s.store := by rw [hsame]
            exact safe_of_store_eq hstore
        | some words =>
            have htarget : target? given = c.target words (words.others.headD "") := by
              simp [target?, invocation?, hcommand, hwords]
            rw [htarget, runWords_of_reading? hwords]
            exact safe_runInvocation { s with config := config } c words

/-! ## Strict compilation -/

/-- The target that a command line asks for. -/
def askedTarget (words : Words) : Option Target := (words.value? targetSwitch).bind Target.ofName?

/-- What a workflow needs in order to be compiled: a default target that is used can be shown, and the document
has bytes. -/
structure Compiles (config : Value) (asked : Option Target) (w : Workflow) : Prop where
  shown : Document.usesDefault w asked = true → Document.showsDefault (Config.compilerSettings config) = true
  whole : Text.isWhole (Document.render w ((asked.or w.exportTarget).getD
    (Document.Preferences.ofEntries (Config.compilerSettings config)).defaultTarget) w.linearize.order) = true

section Strict

variable {argument : String} {w : Workflow} {v : Value}

theorem out_loadFailure (f : FileFault) : (loadFailure f).out = "" := by cases f <;> rfl

/-- Documents are compiled wherever the preferences can be read. -/
theorem exists_compile {ε : Type} (w : Workflow) (asked : Option Target) (p : Document.Preferences) :
    ∃ d, Document.compile w asked (.ok p : Except ε Document.Preferences) = .ok d ∧
      d.document = Document.render w ((asked.or w.exportTarget).getD p.defaultTarget) w.linearize.order := by
  have htarget : Document.resolveTarget w asked (.ok p : Except ε _) =
      .ok ((asked.or w.exportTarget).getD p.defaultTarget) := by
    unfold Document.resolveTarget
    cases asked <;> cases w.exportTarget <;> rfl
  have hsome : Document.compile w asked (.ok p : Except ε _) =
      Document.compile w (some ((asked.or w.exportTarget).getD p.defaultTarget)) (.ok p) := by
    unfold Document.compile
    rw [htarget]
    rfl
  obtain ⟨warnings, hwarnings⟩ := Document.exists_cycleWarnings_iff.mpr (.inr ⟨p, rfl⟩)
  exact ⟨_, hsome.trans (Document.compile_some_eq_ok_iff.mpr ⟨warnings, hwarnings, rfl⟩), rfl⟩

/-- A compilation that needs the preferences fails as they do. -/
theorem compile_of_usesDefault {ε : Type} {asked : Option Target} {f : ε}
    (h : Document.usesDefault w asked = true) : Document.compile w asked (.error f) = .error f := by
  have htarget : Document.resolveTarget w asked (.error f) = .error f := by
    simp only [Document.usesDefault, Bool.and_eq_true, Option.isNone_iff_eq_none] at h
    simp only [Document.resolveTarget, h.1, h.2, Except.map]
  rw [Document.compile, htarget]
  rfl

/-- A document has a digest iff it has bytes. -/
theorem exists_digest_iff {d : Document.Compiled} :
    (∃ digest, d.digest = .ok digest) ↔ Text.isWhole d.document = true := by
  rw [Document.Compiled.digest, Document.fingerprint, Text.encodeUtf8]
  cases Text.isWhole d.document <;> simp [Except.map]

/-- **When a session compiles a workflow.** -/
theorem exists_session_compile_iff (hconfig : (s.config.load s.store none).1 = .ok v) (asked : Option Target) :
    (∃ r, s.compile w asked = .ok r) ↔ Compiles v asked w := by
  have hpreferences : Document.preferencesFor w asked ((s.config.load s.store none).1.map Config.compilerSettings) =
      if Document.usesDefault w asked && !Document.showsDefault (Config.compilerSettings v)
      then .error .tooManyDigits else .ok (.ofEntries (Config.compilerSettings v)) := by
    rw [hconfig]
    rfl
  rw [Session.compile, hpreferences]
  by_cases hlong : (Document.usesDefault w asked && !Document.showsDefault (Config.compilerSettings v)) = true
  · rw [if_pos hlong]
    simp only [Bool.and_eq_true, Bool.not_eq_true'] at hlong
    rw [compile_of_usesDefault hlong.1]
    refine iff_of_false (by simp [bind, Except.bind, Except.mapError]) fun h => ?_
    rw [h.shown hlong.1] at hlong
    cases hlong.2
  · obtain ⟨d, hd, hdocument⟩ := @exists_compile (Document.PreferenceFault Config.Fault) w asked
      (.ofEntries (Config.compilerSettings v))
    have hdigest : (∃ digest, d.digest = .ok digest) ↔ Compiles v asked w := by
      rw [exists_digest_iff, hdocument]
      exact ⟨fun hwhole => ⟨fun huses => by simpa [huses] using hlong, hwhole⟩, Compiles.whole⟩
    rw [if_neg hlong, hd, ← hdigest]
    simp only [bind, Except.bind, Except.mapError]
    cases d.digest <;> simp [pure, Except.pure]

/-- The file of a command holds a workflow. -/
def Holds (s : Session) (words : Words) (w : Workflow) : Prop :=
  ∃ file, readArgument s .validate words = .ok file ∧ Workflow.load s.store s.mint.now (Path.ofText file) = .ok w

/-- A command on the workflow of a file, which says by its exit status whether that has a property. -/
theorem code_withWorkflow {file : String} {next : Workflow → Outcome × Session} {P : Workflow → Prop}
    (hfile : readArgument s .validate words = .ok file) (hnext : ∀ w, (next w).1.code = 0 ↔ P w) :
    (withWorkflow s file next).1.code = 0 ↔ ∃ w, Holds s words w ∧ P w := by
  rw [withWorkflow]
  cases hload : Workflow.load s.store s.mint.now (Path.ofText file) with
  | error f =>
      refine iff_of_false (by simp [code_loadFailure]) ?_
      rintro ⟨w, ⟨file', hfile', hload'⟩, -⟩
      obtain rfl := Except.ok.inj (hfile.symm.trans hfile')
      rw [hload] at hload'
      cases hload'
  | ok w =>
      refine (hnext w).trans ⟨fun hw => ⟨w, ⟨file, hfile, hload⟩, hw⟩, ?_⟩
      rintro ⟨w', ⟨file', hfile', hload'⟩, hw⟩
      obtain rfl := Except.ok.inj (hfile.symm.trans hfile')
      obtain rfl := Except.ok.inj (hload.symm.trans hload')
      exact hw

theorem not_holds_of_error {f : UsageFault} (h : readArgument s .validate words = .error f) : ¬ Holds s words w := by
  rintro ⟨file, hfile, -⟩
  rw [h] at hfile
  cases hfile

/-- A validation succeeds on a valid workflow, if the report on it can be printed. -/
theorem code_runValidate (words : Words) (w : Workflow) : (runValidate words w).code = 0 ↔
    w.check.valid = true ∧ Text.isWhole (reportText words w.check) = true := by
  rw [runValidate, Outcome.printed]
  cases Text.isWhole (reportText words w.check) <;> cases w.check.valid <;> simp [Outcome.printed, Outcome.escaped]

theorem code_validate : (runInvocation s .validate words).1.code = 0 ↔
    ∃ w, Holds s words w ∧ w.check.valid = true ∧ Text.isWhole (reportText words w.check) = true := by
  rw [runInvocation]
  cases hfile : readArgument s .validate words with
  | error f =>
      refine iff_of_false (by simp [usageFailure]) ?_
      rintro ⟨w, hw, -⟩
      exact not_holds_of_error hfile hw
  | ok file => exact code_withWorkflow hfile fun w => code_runValidate words w

/-- A strict compilation without a file for its document fails on what is not valid or cannot be compiled,
and then writes nothing. -/
theorem runCompile_strict (hconfig : (s.config.load s.store none).1 = .ok v)
    (hstrict : words.has strictSwitch = true) (houtput : Config.given (words.value? outputSwitch) = none)
    (w : Workflow) :
    ((runCompile s words w).1.code = 0 ↔ w.check.valid = true ∧ Compiles v (askedTarget words) w) ∧
      ((runCompile s words w).1.code ≠ 0 → (runCompile s words w).1.out = "") := by
  have hcompile : (∃ r, s.compile w (askedTarget words) = .ok r) ↔ Compiles v (askedTarget words) w :=
    exists_session_compile_iff hconfig _
  rw [runCompile, hstrict, houtput, ← askedTarget]
  cases w.check.valid with
  | false => exact ⟨iff_of_false Nat.one_ne_zero (by simp), fun _ => rfl⟩
  | true =>
      cases hresult : s.compile w (askedTarget words) with
      | error e =>
          have hnone : ¬ Compiles v (askedTarget words) w := by simp [← hcompile, hresult]
          exact ⟨iff_of_false Nat.one_ne_zero fun h => hnone h.2, fun _ => rfl⟩
      | ok r => exact ⟨iff_of_true rfl ⟨rfl, hcompile.mp ⟨r, hresult⟩⟩, fun hcode => absurd rfl hcode⟩

theorem code_compile (hconfig : (s.config.load s.store none).1 = .ok v)
    (hstrict : words.has strictSwitch = true) (houtput : Config.given (words.value? outputSwitch) = none) :
    ((runInvocation s .compile words).1.code = 0 ↔
      ∃ w, Holds s words w ∧ w.check.valid = true ∧ Compiles v (askedTarget words) w) ∧
      ((runInvocation s .compile words).1.code ≠ 0 → (runInvocation s .compile words).1.out = "") := by
  have hargument : readArgument s .compile words = readArgument s .validate words := rfl
  rw [runInvocation, hargument]
  cases hfile : readArgument s .validate words with
  | error f =>
      refine ⟨iff_of_false (by simp [usageFailure]) ?_, fun _ => rfl⟩
      rintro ⟨w, hw, -⟩
      exact not_holds_of_error hfile hw
  | ok file =>
      have hcompile := runCompile_strict hconfig hstrict houtput
      refine ⟨code_withWorkflow hfile fun w => (hcompile w).1, fun hcode => ?_⟩
      simp only [runCommand, withWorkflow] at hcode ⊢
      split at hcode
      case h_1 w hload => exact (hcompile w).2 hcode
      case h_2 f hload => exact out_loadFailure f

/-- A command line that invokes a command runs it, if the configuration can be read. -/
theorem run_of_invocation? {v : Value} (h : invocation? given = some (c, words))
    (hconfig : (s.config.clear.load s.store none).1 = .ok v) :
    ∃ config, (config.load s.store none).1 = .ok v ∧
      run s given = runInvocation { s with config := config } c words := by
  obtain ⟨⟨c', rest⟩, hcommand, hmap⟩ := Option.bind_eq_some_iff.mp h
  obtain ⟨words', hwords, heq⟩ := Option.map_eq_some_iff.mp hmap
  obtain ⟨rfl, rfl⟩ := Prod.mk.inj heq
  rcases run_of_command? hcommand with ⟨f, hf, -⟩ | ⟨config, hagain, hrun⟩
  · rw [hconfig] at hf
    cases hf
  · exact ⟨config, hagain v hconfig, hrun.trans (runWords_of_reading? hwords)⟩

end Strict

/-- A command line that compiles strictly, with no file for the document. -/
structure CompilesStrictly (given : List String) (words : Words) : Prop where
  invoked : invocation? given = some (.compile, words)
  strict : words.has strictSwitch = true
  printed : Config.given (words.value? outputSwitch) = none

/-- **Strictness is validity**: what a strict compilation and the validation of the same file need in order to
succeed, and that they agree where nothing else is wanting. A strict compilation that fails shows no
document. -/
theorem strict_iff_validates {given' : List String} {words' : Words} {v : Value}
    (hconfig : (s.config.clear.load s.store none).1 = .ok v) (hcompile : CompilesStrictly given words)
    (hvalidate : invocation? given' = some (.validate, words')) (hothers : words'.others = words.others) :
    ((run s given).1.code = 0 ↔
      ∃ w, Holds s words w ∧ w.check.valid = true ∧ Compiles v (askedTarget words) w) ∧
    ((run s given').1.code = 0 ↔
      ∃ w, Holds s words w ∧ w.check.valid = true ∧ Text.isWhole (reportText words' w.check) = true) ∧
    ((∀ w, Holds s words w →
        Compiles v (askedTarget words) w ∧ Text.isWhole (reportText words' w.check) = true) →
      ((run s given).1.code = 0 ↔ (run s given').1.code = 0)) ∧
    ((run s given).1.code ≠ 0 → (run s given).1.out = "") := by
  obtain ⟨config, hagain, hrun⟩ := run_of_invocation? hcompile.invoked hconfig
  obtain ⟨config', -, hrun'⟩ := run_of_invocation? hvalidate hconfig
  have hholds : ∀ w, Holds s words' w ↔ Holds s words w := fun w => by
    simp only [Holds, readArgument, hothers]
  obtain ⟨hcode, hout⟩ := code_compile (s := { s with config := config }) hagain hcompile.strict hcompile.printed
  have hcode' : (runInvocation { s with config := config' } .validate words').1.code = 0 ↔
      ∃ w, Holds s words' w ∧ w.check.valid = true ∧ Text.isWhole (reportText words' w.check) = true :=
    code_validate
  simp only [hholds] at hcode'
  rw [hrun, hrun']
  refine ⟨hcode, hcode', fun hwhole => ?_, hout⟩
  rw [hcode, hcode']
  exact exists_congr fun w => and_congr_right fun hw => and_congr_right fun _ =>
    iff_of_true (hwhole w hw).1 (hwhole w hw).2

/-- **No command line damages a file.** One that fails leaves every file byte for byte as it was, and so does
one that has no path to write to; any other leaves every file but the one at that path. If the configuration
can be read, a strict compilation with no file for the document succeeds iff the workflow is valid and can be
compiled, and the validation of the same file iff the workflow is valid and the report on it can be printed.
So the two agree on a file if its document and its report have bytes and the default target, if it is used,
can be shown. A strict compilation that fails shows no document. -/
theorem files_are_safe (s : Session) (given : List String) :
    let r := run s given
    (r.1.code ≠ 0 → s.store.SameFiles r.2.store) ∧
    (target? given = none → s.store.SameFiles r.2.store) ∧
    (∀ p, target? given = some p → ∀ names, r.2.store.locate p ≠ .ok names →
      r.2.store.file? names = s.store.file? names) ∧
    ∀ (v : Value) (words : Words) (given' : List String) (words' : Words),
      (s.config.clear.load s.store none).1 = .ok v → CompilesStrictly given words →
      invocation? given' = some (.validate, words') → words'.others = words.others →
      (r.1.code = 0 ↔
        ∃ w, Holds s words w ∧ w.check.valid = true ∧ Compiles v (askedTarget words) w) ∧
      ((run s given').1.code = 0 ↔
        ∃ w, Holds s words w ∧ w.check.valid = true ∧ Text.isWhole (reportText words' w.check) = true) ∧
      ((∀ w, Holds s words w →
          Compiles v (askedTarget words) w ∧ Text.isWhole (reportText words' w.check) = true) →
        (r.1.code = 0 ↔ (run s given').1.code = 0)) ∧
      (r.1.code ≠ 0 → r.1.out = "") := by
  intro r
  have hsafe := safe_run s given
  refine ⟨fun hfails => ?_, fun hnone => ?_, fun p hp names hnames => ?_, fun _ _ _ _ => strict_iff_validates⟩
  · cases hsafe with
    | same hsame => exact hsame
    | written hcode _ _ _ => exact absurd hcode hfails
  · cases hsafe with
    | same hsame => exact hsame
    | written _ htarget _ _ =>
        rw [htarget] at hnone
        cases hnone
  · cases hsafe with
    | same hsame => exact hsame names
    | written _ htarget hlocate hothers =>
        obtain rfl := Option.some.inj (htarget.symm.trans hp)
        refine hothers names fun heq => hnames ?_
        rw [heq]
        exact hlocate

/-- A session in a folder with one file, whose workflow has two nodes of the same id. -/
def sameIds : Session where
  store := ⟨[(["f.json"], .file (Text.utf8Bytes
    ("\x7b\"id\": \"w\", \"name\": \"W\", \"nodes\": [\x7b\"id\": \"a\", \"type\": \"trigger\"\x7d, " ++
      "\x7b\"id\": \"a\", \"type\": \"output\"\x7d]\x7d")))]⟩
  mint := ⟨0, 0⟩
  config := .ofSelected none

/-- A strict compilation that is refused, as the validation is. -/
theorem files_are_safe_of_sameIds :
    (run sameIds ["compile", "--strict", "f.json"]).1.code = 1 ∧
      (run sameIds ["validate", "f.json"]).1.code ≠ 0 ∧
      (run sameIds ["compile", "--strict", "f.json"]).1.out = "" ∧
      sameIds.store.SameFiles (run sameIds ["compile", "--strict", "f.json"]).2.store := by
  have hcode : (run sameIds ["compile", "--strict", "f.json"]).1.code = 1 := by decide +kernel
  have hfails : (run sameIds ["compile", "--strict", "f.json"]).1.code ≠ 0 := by
    rw [hcode]
    decide
  have hconfig : (sameIds.config.clear.load sameIds.store none).1 = .ok (.map []) := rfl
  have hcompile : CompilesStrictly ["compile", "--strict", "f.json"] ⟨[(strictSwitch, "")], ["f.json"]⟩ :=
    ⟨rfl, by decide, by decide⟩
  have hvalidate : invocation? ["validate", "f.json"] = some (.validate, ⟨[], ["f.json"]⟩) := rfl
  have hshown : (Workflow.load sameIds.store 0 (Path.ofText "f.json")).toOption.all (fun w =>
      Text.isWhole (Document.render w (w.exportTarget.getD .command) w.linearize.order) &&
        Text.isWhole (reportText ⟨[], ["f.json"]⟩ w.check)) = true := by decide +kernel
  have hsafe := files_are_safe sameIds ["compile", "--strict", "f.json"]
  obtain ⟨-, -, hagree, hout⟩ := hsafe.2.2.2 _ _ _ _ hconfig hcompile hvalidate rfl
  have hiff := hagree fun w hw => by
    obtain ⟨file, hfile, hload⟩ := hw
    obtain rfl := Except.ok.inj hfile
    rw [show Workflow.load sameIds.store 0 (Path.ofText "f.json") = .ok w from hload] at hshown
    simp only [Except.toOption, Option.all_some, Bool.and_eq_true] at hshown
    exact ⟨⟨fun _ => rfl, hshown.1⟩, hshown.2⟩
  exact ⟨hcode, fun hvalid => hfails (hiff.mpr hvalid), hout hfails, hsafe.1 hfails⟩

/-- A session in a folder with one file, whose workflow has half of a surrogate pair for a name. -/
def tornName : Session where
  store := ⟨[(["f.json"], .file (Text.utf8Bytes "\x7b\"id\": \"w\", \"name\": \"\\ud800\"\x7d"))]⟩
  mint := ⟨0, 0⟩
  config := .ofSelected none

/-- A strict compilation that fails, though the validation does not. -/
theorem strict_fails_of_tornName :
    (run tornName ["validate", "f.json"]).1.code = 0 ∧
      (run tornName ["compile", "--strict", "f.json"]).1.code = 1 := by decide +kernel

end Cli

end Runbook
