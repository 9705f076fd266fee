import Runbook.Text.Quoted
import Runbook.Text.Similar

/-! The words of a command line. Switches have a long name after two dashes, and some a letter after one;
letters may stand in a row, and a value follows its switch or stands in the same word. Two dashes alone end
the switches. -/
namespace Runbook.Cli

structure Switch where
  long : String
  short : Option Char
  takesValue : Bool
  choices : List String
  deriving DecidableEq, Repr

namespace Switch

def flag (long : String) (short : Option Char) : Switch := ⟨long, short, false, []⟩

def value (long : String) (short : Option Char) : Switch := ⟨long, short, true, []⟩

/-- A switch whose value is one of a few. -/
def choice (long : String) (short : Option Char) (choices : List String) : Switch :=
  ⟨long, short, true, choices⟩

/-- The switch that every command has. -/
def help : Switch := flag "--help" none

/-- The names of a switch, between quotes. -/
def shown (s : Switch) : String :=
  " / ".intercalate ((s.long :: (s.short.map fun c => String.ofList ['-', c]).toList).map fun n => s!"'{n}'")

end Switch

/-- What is wrong with the words of a command line. -/
inductive UsageFault where
  | noSuchSwitch (name : String) (close : List String)
  | valueMissing (name : String)
  | valueRefused (name : String)
  | noSuchCommand (name : String) (close : List String)
  | commandMissing
  | argumentMissing (name : String)
  | extraArguments (arguments : List String)
  | notChosen (switch : Switch) (value : String)
  | isFolder (argument path : String)
  | notPair (switch : Switch) (given : String)
  | notOutcome (switch : Switch) (id : String)
  deriving DecidableEq, Repr

/-- Names that may be meant. -/
def hint : List String → String
  | [] => ""
  | [name] => s!" Did you mean {Text.quote name}?"
  | names => " (Did you mean one of: " ++ ", ".intercalate (names.map Text.quote) ++ "?)"

def UsageFault.message : UsageFault → String
  | .noSuchSwitch name close => s!"No such option {Text.quote name}." ++ hint close
  | .valueMissing name => s!"Option {Text.quote name} requires an argument."
  | .valueRefused name => s!"Option {Text.quote name} does not take a value."
  | .noSuchCommand name close => s!"No such command {Text.quote name}." ++ hint close
  | .commandMissing => "Missing command."
  | .argumentMissing name => s!"Missing argument '{name}'."
  | .extraArguments [a] => s!"Got unexpected extra argument ({a})"
  | .extraArguments as => "Got unexpected extra arguments (" ++ " ".intercalate as ++ ")"
  | .notChosen s v =>
    s!"Invalid value for {s.shown}: {Text.quote v} is not one of " ++
      ", ".intercalate (s.choices.map Text.quote) ++ "."
  | .isFolder argument path =>
    s!"Invalid value for '{argument}': File {Text.quote path} is a directory."
  | .notPair s given => s!"Invalid value for {s.long}: expected NODE_ID=VALUE, got {Text.quote given}"
  | .notOutcome s id => s!"Invalid value for {s.long}: outcome for '{id}' must be true or false"

/-- Switches with their values, empty for one that takes none, in order; and the other words. -/
structure Words where
  given : List (Switch × String)
  others : List String

namespace Words

def add (w : Words) (given : List (Switch × String)) : Words := { w with given := given ++ w.given }

/-- The text before the first equals sign, and the text after it, if there is one. -/
def splitEquals (word : List Char) : List Char × Option (List Char) :=
  let before := word.takeWhile (· != '=')
  match word.drop before.length with
  | [] => (before, none)
  | _ :: after => (before, some after)

/-- What a word gives: switches, and one that still needs a value, with the name it was called by. -/
structure Reading where
  given : List (Switch × String)
  waiting : Option (Switch × String)

/-- Letters after one dash. The first that takes a value takes the rest of the word, if there is any. -/
def readLetters (switches : List Switch) : List Char → Except UsageFault Reading
  | [] => .ok ⟨[], none⟩
  | c :: rest =>
    let name := String.ofList ['-', c]
    match switches.find? (·.short == some c) with
    | none => .error (.noSuchSwitch name [])
    | some s =>
      if s.takesValue then
        if rest.isEmpty then .ok ⟨[], some (s, name)⟩ else .ok ⟨[(s, String.ofList rest)], none⟩
      else (readLetters switches rest).map fun r => { r with given := (s, "") :: r.given }

/-- A word that starts with a dash. -/
def readWord (switches : List Switch) (word : List Char) : Except UsageFault Reading :=
  let (before, attached) := splitEquals word
  let name := String.ofList before
  match switches.find? (·.long == name) with
  | some s =>
    match s.takesValue, attached with
    | true, some v => .ok ⟨[(s, String.ofList v)], none⟩
    | true, none => .ok ⟨[], some (s, name)⟩
    | false, some _ => .error (.valueRefused name)
    | false, none => .ok ⟨[(s, "")], none⟩
  | none =>
    if ['-', '-'].isPrefixOf word then
      .error (.noSuchSwitch name (Text.closeMatches name (switches.map (·.long))))
    else readLetters switches (word.drop 1)

/-- Reads words. Switches may stand behind other words only where `mixed` says so. -/
def read (switches : List Switch) (mixed : Bool) : List String → Except UsageFault Words
  | [] => .ok ⟨[], []⟩
  | word :: rest =>
    if word = "--" then .ok ⟨[], rest⟩
    else if ['-'].isPrefixOf word.toList && word != "-" then
      match readWord switches word.toList with
      | .error f => .error f
      | .ok ⟨given, none⟩ => (read switches mixed rest).map (·.add given)
      | .ok ⟨given, some (s, name)⟩ =>
        match rest with
        | [] => .error (.valueMissing name)
        | v :: rest => (read switches mixed rest).map (·.add (given ++ [(s, v)]))
    else if mixed then
      (read switches mixed rest).map fun w => { w with others := word :: w.others }
    else .ok ⟨[], word :: rest⟩

/-- Whether a switch is given. -/
def has (w : Words) (s : Switch) : Bool := w.given.any (·.1 == s)

/-- The values of a switch. -/
def values (w : Words) (s : Switch) : List String := (w.given.filter (·.1 == s)).map (·.2)

/-- The last value of a switch. -/
def value? (w : Words) (s : Switch) : Option String := (w.values s).getLast?

/-- The first switch whose last value is none of its choices. -/
def badChoice? (w : Words) : Option UsageFault :=
  w.given.findSome? fun (s, _) =>
    (w.value? s).bind fun v =>
      if s.choices.isEmpty || s.choices.contains v then none else some (.notChosen s v)

end Words
end Runbook.Cli
