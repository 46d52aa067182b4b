import Douro.Command.Report

/-!
# The program `douro`

Reads the file that the command line names, and does what the report of the command asks for.
-/

namespace Douro

namespace Command

/-- Why a command ends in the middle, in words. -/
def Crash.message : Crash → String
  | directory => "a directory is not a file"
  | notJson => "the file is not JSON"
  | schema _ => "the file does not hold a program tree"
  | noOutline => "the tree lacks a part"
  | failure cause => cause.message

/-- How many calls the program takes inside each other. -/
def callLimit : Nat := 200

/-- What stands at a path of the file system. -/
def findEntry (path : Path) : IO Entry := do
  try
    return .file (← IO.FS.readFile path.text)
  catch
    | .noFileOrDirectory .. => return .missing
    | _ => return .directory

/-- The part of the file system that a command line reads. -/
def findDisk (args : List String) : IO Disk := do
  match (Options.read args).toOption.bind inputPath? with
  | none => return []
  | some path =>
    match ← findEntry path with
    | .file content => return [(path.text, content)]
    | .directory => return [(path.text ++ "/", "")]
    | .missing => return []

end Command

end Douro

open Douro Command in
/-- The program. -/
def main (args : List String) : IO UInt32 := do
  let report := run callLimit (← findDisk args) args
  for (name, content) in report.written do
    IO.FS.writeFile name content
  IO.print report.stdout
  IO.eprint report.stderr
  match report.outcome with
  | .exit code => return code.toUInt32
  | .crash cause =>
    IO.eprintln cause.message
    return 1
