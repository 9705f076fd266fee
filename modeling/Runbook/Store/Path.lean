import Runbook.Text.Lowercase

/-! Paths: names between slashes. A name that is empty or a single dot says nothing and is left out. -/
namespace Runbook

/-- A path, which starts at the root or at the current folder. -/
structure Path where
  absolute : Bool
  names : List String
  deriving DecidableEq, Repr

namespace Path

/-- The parts of a text between slashes. -/
def parts : List Char → List (List Char)
  | [] => [[]]
  | '/' :: rest => [] :: parts rest
  | c :: rest => match parts rest with
    | [] => [[c]]
    | part :: more => (c :: part) :: more

/-- A name that leads somewhere. -/
def isName (name : List Char) : Bool := !name.isEmpty && name != ['.']

def ofText (text : String) : Path :=
  let cs := text.toList
  ⟨cs.head? == some '/', ((parts cs).filter isName).map String.ofList⟩

/-- The path as it is shown; the current folder is a dot. -/
def text (p : Path) : String :=
  let names := "/".intercalate p.names
  if p.absolute then "/" ++ names else if p.names.isEmpty then "." else names

/-- The steps from the current folder; an empty name leads to the root. -/
def steps (p : Path) : List String := if p.absolute then "" :: p.names else p.names

/-- The folder that a path is in. -/
def parent (p : Path) : Path := { p with names := p.names.dropLast }

/-- The last name, empty where there is none. -/
def name (p : Path) : String := p.names.getLast?.getD ""

/-- The end of a name from its last dot on, unless the dot is at either end. -/
def suffix (p : Path) : String :=
  let reversed := p.name.toList.reverse
  let ending := reversed.takeWhile (· != '.')
  if ending.isEmpty || reversed.length ≤ ending.length + 1 then ""
  else String.ofList ('.' :: ending.reverse)

/-- Whether the file of a path holds YAML, by its suffix in any case. Any other holds JSON. -/
def isYaml (p : Path) : Bool :=
  let s := Text.lower p.suffix
  s == ".yaml" || s == ".yml"

/-- The names of a path without steps up; `..` takes away the name before it. -/
def resolved (p : Path) : Path :=
  { p with names := p.names.foldl (fun names n => if n = ".." then names.dropLast else names ++ [n]) [] }

end Path
end Runbook
