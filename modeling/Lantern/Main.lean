import Lantern.CommandLine

/-!
# The program

Reads the files a run wants, runs the command, and carries out what it decided. The program starts no
other programs, so no assembler and no linker is at hand.
-/

namespace Lantern

/-- Adds what is at a path to a file tree. -/
def loadPath (t : FileTree) (path : String) : IO FileTree := do
  let here := (t.makeDirs (Path.dir path)).1
  try
    let bytes ← IO.FS.readBinFile path
    return ((here.writeBytes path bytes.toList).toOption).getD t
  catch _ =>
    try
      if ← (← IO.FS.realPath path).isDir then return (t.makeDirs path).1 else return t
    catch _ => return t

/-- Writes the files that a run made or changed. -/
def storeChanges (before after : FileTree) : IO Unit := do
  for (path, content) in after.files do
    unless before.files.contains (path, content) do
      IO.FS.createDirAll (Path.dir path)
      IO.FS.writeFile path content

/-- A machine without tools. -/
def bareMachine : CommandLine.Machine :=
  { os := "linux", arch := "amd64", tools := fun _ _ t => (t, ⟨"", some .notFound⟩) }

end Lantern

open Lantern in
/-- Runs the command. -/
def main (args : List String) : IO UInt32 := do
  let files ← (CommandLine.wanted args).foldlM loadPath FileTree.empty
  let result := CommandLine.run bareMachine args files
  storeChanges files result.files
  IO.print result.stdout
  IO.eprint result.stderr
  return UInt32.ofNat result.exit
