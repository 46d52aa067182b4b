import Douro.Command.Options
import Douro.Command.Path
import Douro.Json.Reading
import Douro.Json.Writing
import Douro.Machine.Program
import Douro.Tree.Outline
import Douro.Tree.Schema

/-!
# The command line

A command line runs a program from its source, writes the tree of a program to a file, or runs such
a file. What it does is a function of its words, of the files it finds and of the budget that the
machine has for nested calls: it gives a report of what it prints, of the files it writes and of how
it ends.

* `Disk`: files by name.
* `Command.run`: the report of a command line.
-/

namespace Douro

namespace Command

/-! ## Files -/

/-- What stands at a path. -/
inductive Entry where
  | file (content : String)
  | directory
  | missing

/-- The content of files by the text of their paths. -/
abbrev Disk := List (String × String)

namespace Disk

/-- Is the path one of a directory, because a file is under it or because it only leads upwards? -/
def isDirectory (disk : Disk) (path : Path) : Bool :=
  path.isUpward ||
    disk.any fun file => (path.text ++ "/").toList.isPrefixOf file.1.toList

/-- What stands at a path. -/
def entry (disk : Disk) (path : Path) : Entry :=
  match disk.lookup path.text with
  | some content => .file content
  | none => if disk.isDirectory path then .directory else .missing

/-- Write a file, over an older one of its name. -/
def write (disk : Disk) (name content : String) : Disk :=
  match disk with
  | [] => [(name, content)]
  | (key, old) :: rest =>
    if key = name then (key, content) :: rest else (key, old) :: write rest name content

end Disk

/-! ## Reports -/

/-- Why a command ends in the middle. -/
inductive Crash where
  /-- A directory in the place of a file. -/
  | directory
  /-- A tree file that is not JSON. -/
  | notJson
  /-- A tree file that is not a tree. -/
  | schema (error : SchemaError)
  /-- A tree that lacks a part has no outline. -/
  | noOutline
  /-- A failure that is not a fault of the program. -/
  | failure (failure : Failure)

/-- How a command ends. -/
inductive Outcome where
  | exit (code : Nat)
  | crash (cause : Crash)

/-- What a command does. -/
structure Report where
  outcome : Outcome
  stdout : String
  stderr : String
  /-- The files it writes, in order. -/
  written : List (String × String)

namespace Report

/-- A command that only prints something and ends. -/
def message (code : Nat) (stdout stderr : String) : Report := ⟨.exit code, stdout, stderr, []⟩

/-- A command that ends in the middle before it does anything. -/
def crashed (cause : Crash) : Report := ⟨.crash cause, "", "", []⟩

end Report

/-! ## Texts -/

/-- The words of a command line in short. -/
def usageText : String :=
  "usage: douro [-h] [-v] [--dump] [--emit-ast DOURO_FILE | --ast AST_JSON_FILE]\n" ++
  "             [program]\n"

/-- The words of a command line in full. -/
def helpText : String :=
  usageText ++
  "\nDouro language interpreter\n" ++
  "\npositional arguments:\n" ++
  "  program               Douro program file (.douro) to execute\n" ++
  "\noptions:\n" ++
  "  -h, --help            show this help message and exit\n" ++
  "  -v                    increase debug verbosity (can be repeated)\n" ++
  "  --dump                print the source and its AST before running\n" ++
  "  --emit-ast DOURO_FILE\n" ++
  "                        emit AST JSON for the given .douro file\n" ++
  "  --ast AST_JSON_FILE   execute AST from a JSON file\n"

/-- Each text on a line of its own. -/
def linesText (lines : List String) : String := String.join (lines.map (· ++ "\n"))

/-- The line under an outline. -/
def ruler : String := "============"

/-- The file of the log. -/
def logName : String := "debug.txt"

/-! ## What a command does -/

/-- Report a wrong command line. -/
def refuse (error : UsageError) : Report :=
  .message 2 "" (usageText ++ "douro: error: " ++ error.message ++ "\n")

/-- The content of a file, or the report that there is none. -/
def readFile (disk : Disk) (path : Path) : Except Report String :=
  match disk.entry path with
  | .file content => .ok (fileText content)
  | .directory => .error (.crashed .directory)
  | .missing => .error (.message 1 "" ("Error: file " ++ path.text ++ " not found\n"))

/-- The program of a source, or the report of its fault. -/
def readProgram (source : String) : Except Report Node :=
  match Node.ofSource source with
  | .ok program => .ok program
  | .error error => .error (.message 1 "" ("Syntax error: " ++ error.diagnostic.text ++ "\n"))

/-- Run a program after `shown` has been printed. Only a log that is wanted is written. -/
def runAfter (budget : Nat) (shown : String) (verbosity : Nat) (program : Node) : Report :=
  let ending := runFresh budget verbosity program
  let stdout := shown ++ linesText ending.machine.printed.toList
  let written :=
    if 0 < verbosity then [(logName, linesText ending.machine.log.lines)] else []
  match ending.failure? with
  | none => ⟨.exit 0, stdout, "", written⟩
  | some failure =>
    match failure.diagnostic? with
    | some fault => ⟨.exit 1, stdout, "Runtime error: " ++ fault.text ++ "\n", written⟩
    | none => ⟨.crash (.failure failure), stdout, "", written⟩

/-- The outline of a program as it is shown before a run. -/
def shownOutline (program : Node) : Except Report String :=
  match program.outline? with
  | some lines => .ok (linesText (lines ++ [ruler]))
  | none => .error (.crashed .noOutline)

/-- Write the tree of a program to a file beside its source. -/
def emitTree (disk : Disk) (path : Path) : Except Report Report := do
  let program ← readProgram (← readFile disk path)
  let target := (path.addSuffix ".ast.json").text
  return ⟨.exit 0, target ++ "\n", "", [(target, Json.text .indented program.toJson)]⟩

/-- The tree in a file. -/
def readTree (content : String) : Except Report Node :=
  match Json.read? content with
  | none => .error (.crashed .notJson)
  | some json =>
    match Node.ofJson json with
    | .ok program => .ok program
    | .error error => .error (.crashed (.schema error))

/-- Run the tree in a file. -/
def runTree (budget : Nat) (disk : Disk) (path : Path) (options : Options) :
    Except Report Report := do
  let program ← readTree (← readFile disk path)
  let shown ← if options.dump then shownOutline program else pure ""
  return runAfter budget shown options.verbosity program

/-- Run the program in a file. -/
def runProgramFile (budget : Nat) (disk : Disk) (path : Path) (options : Options) :
    Except Report Report := do
  let source ← readFile disk path
  let program ← readProgram source
  let shown ← if options.dump then (source ++ "\n" ++ ·) <$> shownOutline program else pure ""
  return runAfter budget shown options.verbosity program

/-- The text of an option that was given and is not empty. -/
def given? (value : Option String) : Option String := value.filter (· != "")

/-- The path that a command reads. -/
def inputPath? (options : Options) : Option Path :=
  (((given? options.emitTree).or (given? options.runTree)).or (given? options.program)).map
    Path.ofText

/-- Do what the options ask for. -/
def perform (budget : Nat) (disk : Disk) (options : Options) : Except Report Report :=
  match given? options.emitTree, given? options.runTree, given? options.program with
  | some name, _, _ => emitTree disk (Path.ofText name)
  | none, some name, _ => runTree budget disk (Path.ofText name) options
  | none, none, some name => runProgramFile budget disk (Path.ofText name) options
  | none, none, none => .error (refuse .missingProgram)

/-- The report of a command line. -/
def run (budget : Nat) (disk : Disk) (args : List String) : Report :=
  match Options.read args with
  | .error .help => .message 0 helpText ""
  | .error (.usage error) => refuse error
  | .ok options =>
    match perform budget disk options with
    | .ok report => report
    | .error report => report

/-- The files after a command. -/
def after (disk : Disk) (report : Report) : Disk :=
  report.written.foldl (fun disk file => disk.write file.1 file.2) disk

end Command

end Douro
