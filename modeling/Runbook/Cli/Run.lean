import Runbook.Cli.Command

/-! Running a command line. The words before the command are read first, then the configuration, then the
words of the command; the first of these that fails ends the run. -/
namespace Runbook.Cli

def programName : String := "wfkit"

/-- How the program, or one of its commands, is called. -/
def usage : Option Command → String
  | none => s!"Usage: {programName} [OPTIONS] COMMAND [ARGS]..."
  | some c =>
    s!"Usage: {programName} {c.name} [OPTIONS]" ++ (c.argument.map fun a => " " ++ a).getD ""

def calledAs : Option Command → String
  | none => programName
  | some c => programName ++ " " ++ c.name

/-- The end of a run whose words do not fit. -/
def usageFailure (c : Option Command) (f : UsageFault) : Outcome :=
  let err := line (usage c) ++ line s!"Try '{calledAs c} --help' for help." ++ line "" ++
    line ("Error: " ++ f.message)
  ⟨2, "", err, none, none⟩

def globalSwitches : List Switch := [verboseSwitch, .help]

/-- The argument of a command, which is its only other word; a file may not be a folder. -/
def readArgument (s : Session) (c : Command) (words : Words) : Except UsageFault String :=
  match c.argument, words.others with
  | none, [] => .ok ""
  | none, others => .error (.extraArguments others)
  | some name, [] => .error (.argumentMissing name)
  | some name, first :: others =>
    if name = "FILE" && first != "" && s.store.isFolder (Path.ofText first) then
      .error (.isFolder name first)
    else if others.isEmpty then .ok first
    else .error (.extraArguments others)

/-- Runs a command on its argument. -/
def runCommand (s : Session) (c : Command) (words : Words) (argument : String) : Outcome × Session :=
  match c with
  | .compile => withWorkflow s argument (runCompile s words)
  | .validate => withWorkflow s argument fun w => (runValidate words w, s)
  | .order => withWorkflow s argument fun w => (runOrder w, s)
  | .simulate => withWorkflow s argument fun w =>
    match runSimulate s.mint.now words w with
    | .ok o => (o, s)
    | .error f => (usageFailure (some c) f, s)
  | .new => runNew s words argument
  | .templates => (runTemplates, s)
  | .version => (runVersion, s)

/-- Reads the words of a command and runs it. -/
def runWords (s : Session) (c : Command) (given : List String) : Outcome × Session :=
  match Words.read c.switches true given with
  | .error f => (usageFailure (some c) f, s)
  | .ok words =>
    if words.has .help then (.success (line (usage (some c))), s)
    else
      match words.badChoice?, readArgument s c words with
      | some f, _ => (usageFailure (some c) f, s)
      | none, .error f => (usageFailure (some c) f, s)
      | none, .ok argument => runCommand s c words argument

/-- The fault of a name that no command has. One with a dash in front is read as a switch first. -/
def unknownCommand (name : String) (rest : List String) : UsageFault :=
  match Words.read globalSwitches false (name :: rest) with
  | .error f => f
  | .ok _ => .noSuchCommand name (Text.closeMatches name (Command.all.map Command.name))

/-- Runs a command line. -/
def run (s : Session) (given : List String) : Outcome × Session :=
  let s := { s with config := s.config.clear }
  match Words.read globalSwitches false given with
  | .error f => (usageFailure none f, s)
  | .ok words =>
    if given.isEmpty then ({ Outcome.failure (line (usage none)) with code := 2 }, s)
    else if words.has .help then (.success (line (usage none)), s)
    else
      match words.others with
      | [] => (usageFailure none .commandMissing, s)
      | name :: rest =>
        match Command.ofName? name with
        | none => (usageFailure none (unknownCommand name rest), s)
        | some c =>
          if words.has verboseSwitch then runWords s c rest
          else
            match s.config.load s.store none with
            | (.error f, _) => (.escaped (.config f), s)
            | (.ok _, config) => runWords { s with config := config } c rest

end Runbook.Cli
