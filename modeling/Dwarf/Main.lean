import Dwarf.Command.Run
/-!
# The command line

Reads the files that the arguments name, and prints the report on them.
-/

namespace Dwarf

/-- The contents of a file, or the reason why they cannot be had. -/
def readContents (path : String) : IO (Except String Bytes) := do
  try
    let bytes ← IO.FS.readBinFile path
    return .ok bytes.data.toList
  catch
    | .noFileOrDirectory .. => return .error Command.noSuchFile
    | e => return .error (toString e)

end Dwarf

open Dwarf in
/-- Run the command and print its report. -/
def main (args : List String) : IO UInt32 := do
  let mut files : List (String × Except String Bytes) := []
  for path in Command.paths args do
    files := (path, ← readContents path) :: files
  let read (path : String) : Except String Bytes :=
    (files.lookup path).getD (.error Command.noSuchFile)
  let report := Command.report read args
  let setting ← IO.getEnv "RUST_LOG"
  (← IO.getStdout).putStr report.text
  for line in Command.messages setting report do
    IO.eprintln line
  return UInt32.ofNat (Command.status report)
