import Runbook.Store.Path
import Runbook.Text.Utf8

/-! A store of files: folders and files by the steps that lead to them from the current folder, which is
always there. The root is there only if it was put there. -/
namespace Runbook

inductive Entry where
  | file (bytes : List UInt8)
  | folder
  deriving DecidableEq

/-- What a path leads to, for each path without steps up, in the order in which they were made. -/
structure Store where
  entries : List (List String × Entry)

namespace Store

/-- Why the store refuses an operation. -/
inductive Fault where
  | missing
  | isFolder
  | notFolder
  | alreadyThere
  | nameTooLong
  deriving DecidableEq, Repr

def empty : Store := ⟨[]⟩

/-- The entry of names without steps up. -/
def find? (s : Store) (names : List String) : Option Entry :=
  match names with
  | [] => some .folder
  | _ => s.entries.lookup names

/-- The most bytes of a name. -/
def nameLimit : Nat := 255

/-- Follows one name from a folder. The last name of a path may lead to nothing. -/
def follow (s : Store) (names : List String) (next : String) : Except Fault (List String) :=
  match s.find? names with
  | none => .error .missing
  | some (.file _) => .error .notFolder
  | some .folder =>
    if next = ".." then .ok (if names = [""] then names else names.dropLast)
    else if nameLimit < next.utf8ByteSize then .error .nameTooLong
    else .ok (names ++ [next])

/-- Where a path leads. -/
def locate (s : Store) (p : Path) : Except Fault (List String) := p.steps.foldlM s.follow []

/-- The entry that a path leads to. -/
def entry (s : Store) (p : Path) : Except Fault Entry :=
  match s.locate p with
  | .error f => .error f
  | .ok names => match s.find? names with
    | some e => .ok e
    | none => .error .missing

/-- Whether a path leads to something. Of names that are too long nobody can tell. -/
def holds (s : Store) (p : Path) : Except Fault Bool :=
  match s.entry p with
  | .ok _ => .ok true
  | .error .nameTooLong => .error .nameTooLong
  | .error _ => .ok false

def isFolder (s : Store) (p : Path) : Bool :=
  match s.entry p with
  | .ok .folder => true
  | _ => false

/-- The bytes of a file. -/
def read (s : Store) (p : Path) : Except Fault (List UInt8) :=
  match s.entry p with
  | .ok (.file bytes) => .ok bytes
  | .ok .folder => .error .isFolder
  | .error f => .error f

/-- Gives names an entry, in the old place if they have one. -/
def setEntry (entries : List (List String × Entry)) (names : List String) (e : Entry) :
    List (List String × Entry) :=
  match entries with
  | [] => [(names, e)]
  | (key, old) :: rest => if key = names then (key, e) :: rest else (key, old) :: setEntry rest names e

/-- Writes a file, in a folder that is there. -/
def write (s : Store) (p : Path) (bytes : List UInt8) : Except Fault Store :=
  match s.locate p with
  | .error f => .error f
  | .ok names => match s.find? names with
    | some .folder => .error .isFolder
    | _ => .ok ⟨setEntry s.entries names (.file bytes)⟩

def writeText (s : Store) (p : Path) (text : String) : Except Fault Store := s.write p (Text.utf8Bytes text)

/-- Makes one folder, in a folder that is there. -/
def makeFolder (s : Store) (p : Path) : Except Fault Store :=
  match s.locate p with
  | .error f => .error f
  | .ok names => match s.find? names with
    | some _ => .error .alreadyThere
    | none => .ok ⟨setEntry s.entries names .folder⟩

/-- Makes one folder, unless it is there. -/
def makeFolderOnce (s : Store) (p : Path) : Except Fault Store :=
  match s.makeFolder p with
  | .ok s => .ok s
  | .error f => if s.isFolder p then .ok s else .error f

/-- Makes a folder, with at most `fuel` of the folders that it is in, as far as they are not there. -/
def makeFoldersFrom : Nat → Store → Path → Except Fault Store
  | fuel, s, p =>
    match s.makeFolderOnce p, fuel with
    | .error .missing, fuel + 1 => do
      let s ← makeFoldersFrom fuel s p.parent
      s.makeFolderOnce p
    | result, _ => result

/-- Makes a folder and the folders that it is in. -/
def makeFolders (s : Store) (p : Path) : Except Fault Store := makeFoldersFrom p.names.length s p

/-- Removes a file. -/
def delete (s : Store) (p : Path) : Store :=
  match s.locate p with
  | .error _ => s
  | .ok names => ⟨s.entries.filter fun (key, _) => key ≠ names⟩

end Store
end Runbook
