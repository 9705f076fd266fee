import Runbook.Cli.Run
import Std.Time.DateTime.Timestamp

/-! The program. It copies into a store what a command line may look at, runs the command line on the store,
and writes back what changed. -/
namespace Runbook.Main

/-- Names that a command line may use for files. -/
def candidates (given : List String) (selected : Option String) : List String :=
  let attached := given.filterMap fun word => ((Cli.Words.splitEquals word.toList).2).map String.ofList
  let short := given.map fun word => String.ofList (word.toList.drop 2)
  let texts := given ++ attached ++ short
  (Config.ofSelected selected |>.path none).text :: texts ++ texts.map Cli.defaultFile

/-- The entry of a path in the file system, if there is one. -/
def look (p : Path) : IO (Option Entry) := do
  try
    let bytes ← IO.FS.readBinFile p.text
    return some (.file bytes.toList)
  catch
    | .noFileOrDirectory .. => return none
    | .inappropriateType .. => return some .folder
    | _ => return none

/-- The starts of a path, from the shortest one on. -/
def starts (p : Path) : List Path := (List.range (p.names.length + 1)).map fun n => ⟨p.absolute, p.names.take n⟩

def gather (names : List String) : IO Store := do
  let paths := (names.map Path.ofText).flatMap starts
  let mut store := Store.empty
  for p in paths do
    if let some e ← look p then
      store := ⟨Store.setEntry store.entries p.steps e⟩
  return store

/-- Writes what a store holds and another one did not. -/
def writeBack (before after : Store) : IO Unit := do
  for (names, e) in after.entries do
    if before.find? names != some e then
      let text := "/".intercalate names
      match e with
      | .folder => IO.FS.createDirAll text
      | .file bytes => IO.FS.writeBinFile text ⟨bytes.toArray⟩

/-- What is said of a run that ended early. -/
def escapeText : Cli.Escape → String
  | .config (.unreadable _) | .file (.unreadable _) | .store _ => "Error: a file or folder cannot be used"
  | .save f => "Error: " ++ f.message?.getD "a file or folder cannot be used"
  | .torn t => "Error: " ++ t.message
  | .tornRecord => "Error: the record cannot be put into JSON"
  | .longSetting => "Error: " ++ Json.writtenDigitsMessage
  | .config (.notUtf8 f) => "Error: " ++ f.message
  | .config (.notYaml f) | .file (.badScalar f) => "Error: " ++ f.message
  | .file (.badNumber text f) => "Error: " ++ f.message text
  | .file (.missing p) => "Error: no such file: " ++ p.text
  | .file (.rejected f) => "Error: " ++ f.message

end Runbook.Main

open Runbook in
/-- Runs a command line on the current folder. -/
def main (given : List String) : IO UInt32 := do
  let selected ← IO.getEnv "WFKIT_CONFIG_PATH"
  let now ← Std.Time.Timestamp.now
  let drawn ← IO.rand 0 0xffffe
  let store ← Main.gather (Main.candidates given selected)
  let mint : Mint := ⟨now.toMillisecondsSinceUnixEpoch.val, drawn⟩
  let (outcome, session) := Cli.run ⟨store, mint, .ofSelected selected⟩ given
  Main.writeBack store session.store
  IO.print outcome.out
  IO.eprint outcome.err
  if let some e := outcome.escape then IO.eprintln (Main.escapeText e)
  return UInt32.ofNat outcome.code
