import Douro.Text.Digit
import Douro.Text.Quoted

/-!
# Command line options

Flags may stand anywhere among the other words. A long flag may be cut short as long as it stays
clear which one is meant, and takes a value behind an equals sign or from the next word. Short flags
may share a dash. Behind a double dash no word is a flag. A word with a dash that is a number, or
that has a blank in it, is not a flag either.

* `Word.classify`: what a word is, by itself.
* `Options.read`: the options of a command line, or help, or what is wrong with it.
-/

namespace Douro

namespace Command

/-! ## Flags -/

/-- The flags. -/
inductive Flag where
  | help
  | verbose
  | dump
  | emitTree
  | runTree
deriving DecidableEq

namespace Flag

/-- How a flag is named in messages. -/
def title : Flag → String
  | help => "-h/--help"
  | verbose => "-v"
  | dump => "--dump"
  | emitTree => "--emit-ast"
  | runTree => "--ast"

/-- Does a flag need a value? -/
def takesValue : Flag → Bool
  | emitTree | runTree => true
  | help | verbose | dump => false

/-- The long names. -/
def longNames : List (String × Flag) :=
  [("--help", help), ("--dump", dump), ("--emit-ast", emitTree), ("--ast", runTree)]

/-- The flag of a letter behind a single dash. -/
def ofLetter? (letter : Char) : Option Flag :=
  if letter = 'h' then some help else if letter = 'v' then some verbose else none

end Flag

/-! ## Errors -/

/-- What is wrong with a command line. -/
inductive UsageError where
  | ambiguous (word : String) (names : List String)
  | expectedValue (flag : Flag)
  | ignoredValue (flag : Flag) (value : String)
  | conflict (flag other : Flag)
  | unrecognized (words : List String)
  | missingProgram
deriving DecidableEq

namespace UsageError

/-- The error in words. -/
def message : UsageError → String
  | ambiguous word names =>
    "ambiguous option: " ++ word ++ " could match " ++ String.intercalate ", " names
  | expectedValue flag => "argument " ++ flag.title ++ ": expected one argument"
  | ignoredValue flag value =>
    "argument " ++ flag.title ++ ": ignored explicit argument " ++ Text.quoted value
  | conflict flag other =>
    "argument " ++ flag.title ++ ": not allowed with argument " ++ other.title
  | unrecognized words => "unrecognized arguments: " ++ String.intercalate " " words
  | missingProgram => "missing program file; or use --emit-ast/--ast"

end UsageError

/-! ## Words -/

/-- What a word of a command line is. -/
inductive Word where
  /-- A word that is not a flag. -/
  | plain (text : String)
  /-- The double dash. -/
  | separator
  /-- A long flag, with the value behind its equals sign. -/
  | long (flag : Flag) (value : Option String)
  /-- A short flag, with what stands behind its letter. -/
  | short (flag : Flag) (more : Option String)
  /-- A word that looks like a flag and is none. -/
  | unknown (text : String)
deriving DecidableEq

namespace Word

/-- The word as it was given; of a flag only its name is kept. -/
def text : Word → String
  | plain text | unknown text => text
  | separator => "--"
  | long flag _ | short flag _ => flag.title

/-- Does the word look like a flag? -/
def isFlag : Word → Bool
  | long .. | short .. | unknown _ => true
  | plain _ | separator => false

/-- The text before the first equals sign, and the text behind it if there is one. -/
def splitValue (cs : List Char) : List Char × Option String :=
  match cs.dropWhile (· != '=') with
  | [] => (cs, none)
  | _ :: value => (cs.takeWhile (· != '='), some (String.ofList value))

/-- Are these digits, or digits with a point before the last of them? A line feed may follow. -/
def isNumber (cs : List Char) : Bool :=
  let body := if cs.getLast? = some '\n' then cs.dropLast else cs
  match body.dropWhile Text.isDigit with
  | [] => !body.isEmpty
  | '.' :: fraction => !fraction.isEmpty && fraction.all Text.isDigit
  | _ => false

/-- A word with a dash that names no flag. -/
def classifyOther (text : String) (behindDash : List Char) : Word :=
  if isNumber behindDash || text.toList.contains ' ' then plain text else unknown text

/-- A word with two dashes: a long name or the start of exactly one. -/
def classifyLong (text : String) (behindDash : List Char) : Except UsageError Word :=
  let (name, value) := splitValue text.toList
  match Flag.longNames.lookup (String.ofList name) with
  | some flag => .ok (long flag value)
  | none =>
    match Flag.longNames.filter fun entry => name.isPrefixOf entry.1.toList with
    | [] => .ok (classifyOther text behindDash)
    | [(_, flag)] => .ok (long flag value)
    | entries => .error (.ambiguous text (entries.map Prod.fst))

/-- What stands behind the letter of a short flag; an equals sign right there does not count. -/
def shortRest : List Char → Option String
  | [] => none
  | '=' :: cs => some (String.ofList cs)
  | cs => some (String.ofList cs)

/-- What a word is. -/
def classify (text : String) : Except UsageError Word :=
  match text.toList with
  | '-' :: '-' :: cs => classifyLong text ('-' :: cs)
  | '-' :: letter :: cs =>
    match Flag.ofLetter? letter with
    | some flag => .ok (short flag (shortRest cs))
    | none => .ok (classifyOther text (letter :: cs))
  | _ => .ok (plain text)

/-- The words of a command line. Behind a double dash every word is plain. -/
def classifyAll : List String → Except UsageError (List Word)
  | [] => .ok []
  | text :: texts =>
    if text = "--" then .ok (separator :: texts.map plain)
    else do
      let word ← classify text
      return word :: (← classifyAll texts)

end Word

/-! ## Options -/

/-- What a command line asks for. -/
structure Options where
  verbosity : Nat
  dump : Bool
  emitTree : Option String
  runTree : Option String
  program : Option String
deriving DecidableEq

/-- Why reading a command line stops early. -/
inductive Stop where
  | help
  | usage (error : UsageError)
deriving DecidableEq

namespace Options

/-- Nothing is asked for. -/
def initial : Options := ⟨0, false, none, none, none⟩

/-- Take a flag that needs no value. -/
def setFlag (options : Options) : Flag → Except Stop Options
  | .help => .error .help
  | .verbose => .ok { options with verbosity := options.verbosity + 1 }
  | .dump => .ok { options with dump := true }
  | .emitTree => .error (.usage (.expectedValue .emitTree))
  | .runTree => .error (.usage (.expectedValue .runTree))

/-- Take the value of a flag that needs one. The two of them exclude each other. -/
def setValue (options : Options) (flag : Flag) (value : String) : Except Stop Options :=
  match flag with
  | .emitTree =>
    if options.runTree.isSome then .error (.usage (.conflict .emitTree .runTree))
    else .ok { options with emitTree := some value }
  | .runTree =>
    if options.emitTree.isSome then .error (.usage (.conflict .runTree .emitTree))
    else .ok { options with runTree := some value }
  | flag => .error (.usage (.ignoredValue flag value))

/-- The flags of a word with a single dash; every letter has to be one. -/
def letters (flag : Flag) : List Char → Except UsageError (List Flag)
  | [] => .ok [flag]
  | letter :: more =>
    match Flag.ofLetter? letter with
    | some next => do return flag :: (← letters next more)
    | none => .error (.ignoredValue flag (String.ofList (letter :: more)))

/-- Take the flags of a word with a single dash, after all its letters have been looked at. -/
def setShort (options : Options) (flag : Flag) : Option String → Except Stop Options
  | none => options.setFlag flag
  | some more =>
    if more = "" then .error (.usage (.ignoredValue flag more))
    else
      match letters flag more.toList with
      | .ok flags => flags.foldlM setFlag options
      | .error error => .error (.usage error)

/-- The program among the last words, none of which looks like a flag, and the words too many. The
program may have a double dash before it or behind it. -/
def lastWords (options : Options) (words : List Word) : Options × List String :=
  match options.program, words with
  | none, .separator :: .plain program :: rest
  | none, .plain program :: .separator :: rest
  | none, .plain program :: rest => ({ options with program := some program }, rest.map Word.text)
  | none, .separator :: rest => (options, rest.map Word.text)
  | _, rest => (options, rest.map Word.text)

/-- Take words from left to right. The first plain word is the program; words that nobody takes are
gathered in `extra`. -/
def takeWords (options : Options) (extra : List String) (words : List Word) :
    Except Stop (Options × List String) :=
  if words.any Word.isFlag then
    match words with
    | [] => .ok (options, extra)
    | .long flag (some value) :: rest => do takeWords (← options.setValue flag value) extra rest
    | .long flag none :: rest =>
      if flag.takesValue then
        match rest with
        | .plain value :: rest => do takeWords (← options.setValue flag value) extra rest
        | _ => .error (.usage (.expectedValue flag))
      else do takeWords (← options.setFlag flag) extra rest
    | .short flag more :: rest => do takeWords (← options.setShort flag more) extra rest
    | .plain text :: rest =>
      if options.program.isNone then takeWords { options with program := some text } extra rest
      else takeWords options (extra ++ [text]) rest
    | word :: rest => takeWords options (extra ++ [word.text]) rest
  else
    let (options, more) := options.lastWords words
    .ok (options, extra ++ more)

/-- The options of a command line. -/
def read (args : List String) : Except Stop Options :=
  match Word.classifyAll args with
  | .error error => .error (.usage error)
  | .ok words => do
    let (options, extra) ← takeWords initial [] words
    if extra = [] then .ok options else .error (.usage (.unrecognized extra))

end Options

end Command

end Douro
