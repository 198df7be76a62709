import EventVm.CommandLine.Commands

/-!
# Program

Carries out the command line on the files that it names.
-/

open EventVm

namespace EventVm.Main

/-- Fuel for more instructions than any run will see. -/
def fuel : Nat := 1000000000000000000

/-- Adds the file or folder at a place, if there is one. -/
def add (s : FileStore) (p : Place) : IO FileStore := do
  try
    let path ← IO.FS.realPath p.path
    if ← path.isDir then return { s with folders := p :: s.folders }
    let bytes ← IO.FS.readBinFile path
    return { s with files := (p, bytes.toList) :: s.files }
  catch _ => return s

/-- The files that a command line is about, with the folders on the way to them. -/
def gather (paths : List String) : IO FileStore :=
  paths.foldlM (fun s path => ((Place.start path).trail (Path.steps path)).foldlM add s) ⟨[], []⟩

/-- Writes the files that have changed. -/
def save (before after : FileStore) : IO Unit := do
  for (p, bytes) in after.files do
    if before.at? p ≠ some bytes then
      IO.FS.writeBinFile p.path (ByteArray.mk bytes.toArray)

end EventVm.Main

def main (args : List String) : IO UInt32 := do
  let before ← Main.gather (CommandLine.paths args)
  match CommandLine.execute Main.fuel before args with
  | none =>
    (← IO.getStderr).putStrLn "Out of fuel"
    return 1
  | some (result, after) =>
    Main.save before after
    (← IO.getStdout).putStr result.output
    (← IO.getStderr).putStr (result.report.getD CommandLine.Topic.program.text)
    return UInt32.ofNat result.code
