import Douro.Proofs.Command.Options
import Douro.Proofs.Command.Path
import Douro.Proofs.Scope
import Douro.Proofs.Tree.Storage

/-!
# Emitting a tree and running it is running the program

A command that emits the tree of a program writes one file beside it and leaves all others alone. A
command that runs this file ends as one that runs the program does, with the same output, the same
messages and the same log, because the program is read back from the file as it was.

* `Names`, `treePath`: words for files, and the file of a tree.
* `emission_unreadable`, `emission_readable`: what emitting a tree does.
* `run_unreadable`, `run_readable`, `run_tree`: what running a program or a tree does.
* `emission_preserves_runs`: emitting and running.
-/

namespace Douro

namespace Command

/-! ## Files -/

namespace Disk

theorem write_eq_insert (disk : Disk) (name content : String) :
    disk.write name content = Scope.insert disk name content := by
  induction disk with
  | nil => rfl
  | cons file disk ih =>
    obtain ⟨key, old⟩ := file
    rw [write, Scope.insert, ih]

theorem entry_write_self (disk : Disk) (path : Path) (content : String) :
    (disk.write path.text content).entry path = .file content := by
  have hlookup : (disk.write path.text content).lookup path.text = some content := by
    rw [write_eq_insert]
    exact Scope.get?_insert_self disk path.text content
  rw [entry, hlookup]

/-- A file stays as it is when one of another name is written. -/
theorem entry_write_of_ne {disk : Disk} {path : Path} {content : String}
    (h : disk.entry path = .file content) {name : String} (hne : path.text ≠ name)
    (other : String) : (disk.write name other).entry path = .file content := by
  have hlookup : (disk.write name other).lookup path.text = disk.lookup path.text := by
    rw [write_eq_insert]
    exact Scope.get?_insert_of_ne disk other hne
  unfold entry at h ⊢
  rw [hlookup]
  split at h
  · exact h
  · split at h <;> cases h

end Disk

/-! ## Words that name files -/

/-- The word leads to a file, and is not taken for a flag. A path without steps is never one of a
file. -/
structure Names (word : String) (path : Path) : Prop where
  plain : IsPlain word
  leads : Path.ofText word = path
  steps : path.steps ≠ []

/-- The path of the tree of a program. -/
def treePath (path : Path) : Path := path.addSuffix ".ast.json"

namespace Names

variable {word : String} {path : Path} (h : Names word path)
include h

theorem ne_empty : word ≠ "" := by
  rintro rfl
  exact h.steps (h.leads ▸ rfl)

theorem given? : given? (some word) = some word := by
  simp [Command.given?, h.ne_empty]

theorem text_treePath : (treePath path).text = path.text ++ ".ast.json" :=
  Path.text_addSuffix h.steps ".ast.json"

theorem steps_treePath : (treePath path).steps ≠ [] := by
  obtain ⟨root, steps, name, rfl⟩ := Path.exists_concat h.steps
  simp [treePath, Path.addSuffix_concat]

/-- The word of a program with the suffix behind it names the file of its tree. -/
theorem suffixed (hend : Path.EndsInName word) : Names (word ++ ".ast.json") (treePath path) where
  plain := by
    obtain ⟨c, cs, hc⟩ : ∃ c cs, word.toList = c :: cs :=
      List.exists_cons_of_ne_nil fun hnil => h.ne_empty (String.toList_inj.mp hnil)
    have hplain := h.plain
    rw [IsPlain, hc] at hplain
    rwa [IsPlain, String.toList_append, hc]
  leads := by
    rw [Path.ofText_append hend (by decide), h.leads]
    rfl
  steps := h.steps_treePath

/-- The text of its path names the file of a tree. -/
theorem shown (hplain : IsPlain (treePath path).text) :
    Names (treePath path).text (treePath path) where
  plain := hplain
  leads := by
    have hnamed := Path.named_ofText word
    rw [h.leads] at hnamed
    exact (hnamed.addSuffix (by decide)).ofText_text
  steps := h.steps_treePath

end Names

/-! ## Command lines that name a file -/

/-- What a command does that emits the tree of a program. -/
def emission (budget : Nat) (disk : Disk) (counts : List Nat) (word : String) : Report :=
  run budget disk (verboseWords counts ++ ["--emit-ast", word])

/-- The report of a command line whose words have been read. -/
theorem run_eq {budget : Nat} {disk : Disk} {args : List String} {options : Options}
    {report : Report} (hread : Options.read args = .ok options)
    (hperform : perform budget disk options = .ok report ∨
      perform budget disk options = .error report) :
    run budget disk args = report := by
  rw [run, hread]
  rcases hperform with h | h <;> simp only [h]

section Files

variable {budget : Nat} {disk : Disk} {word content : String} {path : Path}

theorem given?_none : given? none = none := rfl

theorem readFile_of_entry (h : disk.entry path = .file content) :
    readFile disk path = .ok (fileText content) := by
  rw [readFile, h]

theorem perform_emitTree (hword : Names word path) (verbosity : Nat) :
    perform budget disk ⟨verbosity, false, some word, none, none⟩ = emitTree disk path := by
  simp only [perform, hword.given?, hword.leads]

theorem perform_runTree (hword : Names word path) (verbosity : Nat) :
    perform budget disk ⟨verbosity, false, none, some word, none⟩ =
      runTree budget disk path ⟨verbosity, false, none, some word, none⟩ := by
  simp only [perform, hword.given?, hword.leads, given?_none]

theorem perform_program (hword : Names word path) (verbosity : Nat) :
    perform budget disk ⟨verbosity, false, none, none, some word⟩ =
      runProgramFile budget disk path ⟨verbosity, false, none, none, some word⟩ := by
  simp only [perform, hword.given?, hword.leads, given?_none]

variable (budget) (hword : Names word path) (hfile : disk.entry path = .file content)
  (counts : List Nat)
include hword hfile

section Unreadable

variable {error : SourceError} (h : Node.ofSource (fileText content) = .error error)
include h

theorem emission_unreadable :
    emission budget disk counts word =
      ⟨.exit 1, "", "Syntax error: " ++ error.diagnostic.text ++ "\n", []⟩ := by
  refine run_eq (Options.read_emitTree counts hword.plain) (.inr ?_)
  rw [perform_emitTree hword, emitTree, readFile_of_entry hfile]
  simp only [bind, Except.bind, readProgram, h]
  rfl

theorem run_unreadable :
    run budget disk (verboseWords counts ++ [word]) =
      ⟨.exit 1, "", "Syntax error: " ++ error.diagnostic.text ++ "\n", []⟩ := by
  refine run_eq (Options.read_program counts hword.plain) (.inr ?_)
  rw [perform_program hword, runProgramFile, readFile_of_entry hfile]
  simp only [bind, Except.bind, readProgram, h]
  rfl

end Unreadable

section Readable

variable {program : Node} (h : Node.ofSource (fileText content) = .ok program)
include h

/-- The tree of a program is written to the file beside it. -/
theorem emission_readable :
    emission budget disk counts word = ⟨.exit 0, path.text ++ ".ast.json" ++ "\n", "",
      [(path.text ++ ".ast.json", Json.text .indented program.toJson)]⟩ := by
  refine run_eq (Options.read_emitTree counts hword.plain) (.inl ?_)
  rw [perform_emitTree hword, emitTree, readFile_of_entry hfile, ← hword.text_treePath]
  simp only [bind, Except.bind, readProgram, h]
  rfl

theorem run_readable :
    run budget disk (verboseWords counts ++ [word]) =
      runAfter budget "" (verbosityOf counts) program := by
  refine run_eq (Options.read_program counts hword.plain) (.inl ?_)
  rw [perform_program hword, runProgramFile, readFile_of_entry hfile]
  simp only [bind, Except.bind, readProgram, h]
  rfl

end Readable

theorem run_tree {program : Node} (h : readTree (fileText content) = .ok program) :
    run budget disk (verboseWords counts ++ ["--ast", word]) =
      runAfter budget "" (verbosityOf counts) program := by
  refine run_eq (Options.read_runTree counts hword.plain) (.inl ?_)
  rw [perform_runTree hword, runTree, readFile_of_entry hfile]
  simp only [bind, Except.bind, h]
  rfl

end Files

/-! ## Emitting and running -/

section Emission

variable (budget : Nat) {disk : Disk} {word content : String} {path : Path}
  (hword : Names word path) (hfile : disk.entry path = .file content) (counts : List Nat)
  {program : Node} (h : Node.ofSource (fileText content) = .ok program)
include hword hfile h

theorem after_emission :
    after disk (emission budget disk counts word) =
      disk.write (treePath path).text (Json.text .indented program.toJson) := by
  rw [emission_readable budget hword hfile counts h, hword.text_treePath]
  rfl

/-- The tree that has been emitted is run as its program is. -/
theorem run_tree_after_emission {tree : String} (htree : Names tree (treePath path))
    (counts' : List Nat) :
    run budget (after disk (emission budget disk counts word))
        (verboseWords counts' ++ ["--ast", tree]) =
      runAfter budget "" (verbosityOf counts') program := by
  rw [after_emission budget hword hfile counts h]
  exact run_tree budget htree (Disk.entry_write_self disk _ _) counts' (readTree_stored h .indented)

/-- The program itself is run after the emission as before. -/
theorem run_after_emission (counts' : List Nat) :
    run budget (after disk (emission budget disk counts word)) (verboseWords counts' ++ [word]) =
      runAfter budget "" (verbosityOf counts') program := by
  have hne : path.text ≠ (treePath path).text :=
    (Path.text_addSuffix_ne hword.steps (by decide)).symm
  rw [after_emission budget hword hfile counts h]
  exact run_readable budget hword (Disk.entry_write_of_ne hfile hne _) counts' h

end Emission

/-- A program file that can be read is emitted to the file beside it, and a command that runs that
file does what one does that runs the program: the outcome, the output, the messages and the log are
the same, at every verbosity and with every budget for nested calls. A program file that cannot be
read is reported alike by both commands, and no file is written. -/
theorem emission_preserves_runs (budget : Nat) {disk : Disk} {word content : String} {path : Path}
    (hword : Names word path) (hfile : disk.entry path = .file content) (counts : List Nat) :
    (∀ error, Node.ofSource (fileText content) = .error error →
      emission budget disk counts word =
          ⟨.exit 1, "", "Syntax error: " ++ error.diagnostic.text ++ "\n", []⟩ ∧
        ∀ counts', run budget disk (verboseWords counts' ++ [word]) =
          emission budget disk counts word) ∧
    (∀ program, Node.ofSource (fileText content) = .ok program →
      emission budget disk counts word = ⟨.exit 0, path.text ++ ".ast.json" ++ "\n", "",
          [(path.text ++ ".ast.json", Json.text .indented program.toJson)]⟩ ∧
        ∀ counts', run budget disk (verboseWords counts' ++ [word]) =
            runAfter budget "" (verbosityOf counts') program ∧
          run budget (after disk (emission budget disk counts word))
              (verboseWords counts' ++ [word]) =
            run budget disk (verboseWords counts' ++ [word]) ∧
          ∀ tree, Names tree (treePath path) →
            run budget (after disk (emission budget disk counts word))
                (verboseWords counts' ++ ["--ast", tree]) =
              run budget disk (verboseWords counts' ++ [word])) ∧
    (Path.EndsInName word → Names (word ++ ".ast.json") (treePath path)) ∧
    (IsPlain (treePath path).text → Names (treePath path).text (treePath path)) := by
  refine ⟨fun error h => ?_, fun program h => ?_, hword.suffixed, hword.shown⟩
  · have hemission := emission_unreadable budget hword hfile counts h
    refine ⟨hemission, fun counts' => ?_⟩
    rw [hemission, run_unreadable budget hword hfile counts' h]
  · refine ⟨emission_readable budget hword hfile counts h, fun counts' => ?_⟩
    have hrun := run_readable budget hword hfile counts' h
    refine ⟨hrun, ?_, fun tree htree => ?_⟩
    · rw [hrun, run_after_emission budget hword hfile counts h]
    · rw [hrun, run_tree_after_emission budget hword hfile counts h htree]

/-- A function that divides by zero on its second line. -/
def dividingProgram : Node :=
  .program [.assign "f" (.literal (.function ["n"] [.expression (.binary "/"
    (.lookup "n" ⟨some 2, some 1⟩) (.numeral "0") ⟨some 2, some 2⟩)])),
    .expression (.call "f" [.numeral "7"] ⟨some 3, some 1⟩)]

/-- A file with line ends of two characters, whose program fails at a position, and a file that
cannot be read. One call is under way at a time. -/
theorem emission_preserves_runs_at_division :
    let disk : Disk := [("lib/f.douro", "f=function(n)(\r\nn/0)\r\nf(7)"), ("g.douro", "f(7) ~")]
    let emitted := emission 1 disk [0] "lib/./f.douro"
    let failed : Report :=
      ⟨.exit 1, "", "Runtime error: ArithmeticError: division by zero at 2:2\n",
        [("debug.txt", "execute Assign\nexecute ExprStmt\ncall f(7)\n")]⟩
    (emitted.outcome = .exit 0 ∧ emitted.written =
        [("lib/f.douro.ast.json", Json.text .indented dividingProgram.toJson)]) ∧
      run 1 disk ["-v", "lib/./f.douro"] = failed ∧
      run 1 (after disk emitted) ["-v", "--ast", "lib/./f.douro.ast.json"] = failed ∧
      run 1 (after disk emitted) ["-v", "--ast", "lib/f.douro.ast.json"] = failed ∧
      emission 1 disk [1] "g.douro" =
        ⟨.exit 1, "",
          "Syntax error: " ++ (SourceError.lexical ⟨'~', ⟨1, 6⟩⟩).diagnostic.text ++ "\n", []⟩ := by
  intro disk emitted failed
  have hword : Names "lib/./f.douro" ⟨"", ["lib", "f.douro"]⟩ := ⟨by decide, by decide, by decide⟩
  have hend : Path.EndsInName "lib/./f.douro" :=
    ⟨"lib/.".toList, "f.douro".toList, by decide, by decide, .inr rfl⟩
  have hfile : disk.entry ⟨"", ["lib", "f.douro"]⟩ = .file "f=function(n)(\r\nn/0)\r\nf(7)" := rfl
  have hscan : scanSource (fileText "f=function(n)(\r\nn/0)\r\nf(7)") = .ok
      [⟨.identifier, "f", 1, 1⟩, ⟨.punctuation, "=", 1, 2⟩, ⟨.keyword, "function", 1, 3⟩,
        ⟨.punctuation, "(", 1, 11⟩, ⟨.identifier, "n", 1, 12⟩, ⟨.punctuation, ")", 1, 13⟩,
        ⟨.punctuation, "(", 1, 14⟩, ⟨.newline, "\n", 1, 15⟩, ⟨.identifier, "n", 2, 1⟩,
        ⟨.operator, "/", 2, 2⟩, ⟨.number, "0", 2, 3⟩, ⟨.punctuation, ")", 2, 4⟩,
        ⟨.newline, "\n", 2, 5⟩, ⟨.identifier, "f", 3, 1⟩, ⟨.punctuation, "(", 3, 2⟩,
        ⟨.number, "7", 3, 3⟩, ⟨.punctuation, ")", 3, 4⟩] := by
    with_unfolding_all rfl
  have hread : Node.ofSource (fileText "f=function(n)(\r\nn/0)\r\nf(7)") = .ok dividingProgram := by
    rw [Node.ofSource, hscan]
    rfl
  have hrun : runAfter 1 "" 1 dividingProgram = failed := by with_unfolding_all rfl
  obtain ⟨-, hok, hsuffixed, hshown⟩ := emission_preserves_runs 1 hword hfile [0]
  obtain ⟨hemission, hruns⟩ := hok _ hread
  obtain ⟨hprogram, -, htrees⟩ := hruns [0]
  have hdirect : run 1 disk ["-v", "lib/./f.douro"] = failed := hprogram.trans hrun
  have hword' : Names "g.douro" ⟨"", ["g.douro"]⟩ := ⟨by decide, by decide, by decide⟩
  have hfile' : disk.entry ⟨"", ["g.douro"]⟩ = .file "f(7) ~" := rfl
  have hscan' : scanSource (fileText "f(7) ~") = .error ⟨'~', ⟨1, 6⟩⟩ := by with_unfolding_all rfl
  have herror : Node.ofSource (fileText "f(7) ~") = .error (.lexical ⟨'~', ⟨1, 6⟩⟩) := by
    rw [Node.ofSource, hscan']
  exact ⟨⟨congrArg Report.outcome hemission, congrArg Report.written hemission⟩, hdirect,
    (htrees _ (hsuffixed hend)).trans hdirect, (htrees _ (hshown (by decide))).trans hdirect,
    ((emission_preserves_runs 1 hword' hfile' [1]).1 _ herror).1⟩

end Command

end Douro
