/-
The command line: looks up what an invocation may touch, runs it, and puts what it changed where it
belongs. Pages go to the output and the journal to the error output.
-/
import LedgerTotals.Program

namespace LedgerTotals

/-- what stands at a path on the disk -/
def look (path : String) : IO (Option Node) := do
  try
    let bytes ← IO.FS.readBinFile path
    return some (.file bytes.toList)
  catch
    | .noFileOrDirectory .. => return none
    | .inappropriateType .. => return some .directory
    | e => throw e

/-- the files with what stands on the disk at a path, if it is not there yet -/
def addStage (files : Files) (path : String) : IO Files := do
  match files.target path with
  | .free place =>
    match ← look path with
    | some node => return files.put place node
    | none => return files
  | _ => return files

/-- the paths that lead to a path, and the path itself -/
def stages (path : String) : List String :=
  let parts := Path.parts path
  (List.range parts.length).map fun i => Path.ofParts (parts.take (i + 1))

/-- the files on the disk at some paths, with the directories on the way to them -/
def readDisk (paths : List String) : IO Files :=
  (paths.flatMap stages).foldlM addStage .empty

def writeDisk (before after : Files) : IO Unit :=
  (Files.changes before after).forM fun (place, bytes) => do
    match Path.parent? place.text with
    | some above => IO.FS.createDirAll above
    | none => pure ()
    IO.FS.writeBinFile place.text ⟨bytes.toArray⟩

def settingsDirectory : IO (Option String) := do
  match ← IO.getEnv "XDG_CONFIG_HOME" with
  | some directory => if Path.isAbsolute directory then return some directory
  | none => pure ()
  return (← IO.getEnv "HOME").map fun home => Path.join home ".config"

def runOnDisk (args : List String) : IO UInt32 := do
  let around : Surroundings :=
    ⟨← settingsDirectory, ← IO.getEnv "ROLLUP_CONFIG", ← IO.getEnv "RUST_LOG"⟩
  let files ← readDisk (Program.paths around args)
  let outcome := Program.run around args files
  writeDisk files outcome.files
  IO.eprint outcome.complaint
  outcome.journal.forM fun e => IO.eprintln e.line
  IO.print outcome.printed
  return UInt32.ofNat outcome.status

end LedgerTotals

def main (args : List String) : IO UInt32 := do
  try
    LedgerTotals.runOnDisk args
  catch e =>
    IO.eprintln s!"error: {e}"
    return 1
