import Runbook.Store.Basic
import Runbook.Text.Lines
import Runbook.Yaml.Reader

/-! Configuration. A file is read once and kept until the cache is cleared, whatever becomes of the file
meanwhile; a read that fails is not kept. -/
namespace Runbook

/-- Which file is selected, if one is, and the files that were read, by where they are. -/
structure Config where
  selected : Option String
  cache : List (Path × Value)

namespace Config

/-- Why a configuration cannot be read. -/
inductive Fault where
  | unreadable (cause : Store.Fault)
  | notUtf8 (fault : Text.Utf8Fault)
  | notYaml (fault : Yaml.Fault)

def ofSelected (selected : Option String) : Config := ⟨selected, []⟩

/-- The file that is read if none is selected. -/
def defaultName : String := "wfkit.yaml"

/-- A path that is there and not empty. -/
def given : Option String → Option String
  | some s => if s = "" then none else some s
  | none => none

/-- The file to read: the one that is asked for, or the selected one, or the default. -/
def path (c : Config) (asked : Option String) : Path :=
  Path.ofText (((given asked).or (given c.selected)).getD defaultName)

def clear (c : Config) : Config := { c with cache := [] }

/-- A value, or an empty map for one that says nothing. -/
def orEmpty (v : Value) : Value := if v.isTrue then v else .map []

/-- What a file says now. One that is missing says nothing. -/
def readFile (s : Store) (p : Path) : Except Fault Value :=
  match s.holds p with
  | .error f => .error (.unreadable f)
  | .ok false => .ok (.map [])
  | .ok true => match s.read p with
    | .error f => .error (.unreadable f)
    | .ok bytes => match Text.decodeUtf8 bytes with
      | .error f => .error (.notUtf8 f)
      | .ok text => match Yaml.read (Text.unifyLines text) with
        | .error f => .error (.notYaml f)
        | .ok v => .ok (orEmpty v)

/-- What a file says, as it did when it was first read. -/
def load (c : Config) (s : Store) (asked : Option String) : Except Fault Value × Config :=
  let p := c.path asked
  match c.cache.lookup p.resolved with
  | some v => (.ok v, c)
  | none => match readFile s p with
    | .error f => (.error f, c)
    | .ok v => (.ok v, { c with cache := (p.resolved, v) :: c.cache })

/-- The keys of a dotted path. -/
def keys : List Char → List (List Char)
  | [] => [[]]
  | '.' :: rest => [] :: keys rest
  | c :: rest => match keys rest with
    | [] => [[c]]
    | key :: more => (c :: key) :: more

/-- The map at the end of some keys, and an empty one where there is none. -/
def descend : Value → List String → Entries
  | .map entries, [] => entries
  | .map entries, key :: rest => match Entries.text? entries key with
    | some v => descend v rest
    | none => []
  | _, _ => []

/-- A section of a configuration, by its dotted path. -/
def sectionAt (v : Value) (dotted : String) : Entries :=
  descend v ((keys dotted.toList).map String.ofList)

/-- Defaults under the settings of a section. -/
def withDefaults (defaults : Settings) (settings : Entries) : Entries :=
  settings.foldl (fun entries (k, v) => entries.insert k v) (defaults.map fun (k, v) => (.str k, v))

/-- The settings of the compiler. -/
def compilerSettings (v : Value) : Entries :=
  withDefaults [("default_target", .str "command"), ("warn_on_cycles", .bool true)] (sectionAt v "compiler")

/-- The settings of the log. -/
def loggingSettings (v : Value) : Entries := withDefaults [("level", .str "WARNING")] (sectionAt v "logging")

end Config
end Runbook
