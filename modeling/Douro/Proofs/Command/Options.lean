import Mathlib.Algebra.Ring.Nat
import Douro.Command.Options

/-!
# Command lines that ask for one thing

A command line may start with any number of words of letters `v`, each of which asks for as much
more verbosity as it has letters. Behind them stands what the command line asks for.

* `verboseWords`, `verbosityOf`: such words, and how many letters they have.
* `takeWords_verbose`: what they ask for, whatever stands behind them.
* `read_emitTree`, `read_runTree`, `read_program`: the three command lines that name a file.
-/

namespace Douro

namespace Command

/-- A word that is not taken for a flag, whatever stands before it. -/
def IsPlain (text : String) : Prop := text.toList.head? ≠ some '-'

instance (text : String) : Decidable (IsPlain text) := inferInstanceAs (Decidable (_ ≠ _))

/-- A dash and one letter `v` more than `more`. -/
def verboseWord (more : Nat) : String := String.ofList ('-' :: 'v' :: List.replicate more 'v')

/-- Words that ask for verbosity. -/
def verboseWords (counts : List Nat) : List String := counts.map verboseWord

/-- How many letters `v` such words have. -/
def verbosityOf (counts : List Nat) : Nat := (counts.map (· + 1)).sum

/-! ## Words -/

namespace Word

/-- What a word of letters `v` is. -/
def verbose (more : Nat) : Word := .short .verbose (shortRest (List.replicate more 'v'))

theorem classify_plain {text : String} (h : IsPlain text) : classify text = .ok (plain text) := by
  unfold classify
  split
  · rename_i heq
    exact absurd (by rw [heq]; rfl) h
  · rename_i heq
    exact absurd (by rw [heq]; rfl) h
  · rfl

theorem classify_verboseWord (more : Nat) : classify (verboseWord more) = .ok (verbose more) := by
  rw [classify, verboseWord, String.toList_ofList]
  rfl

theorem classifyAll_cons {text : String} {word : Word} (h : classify text = .ok word)
    (hs : text ≠ "--") (texts : List String) :
    classifyAll (text :: texts) = (classifyAll texts).map (word :: ·) := by
  rw [classifyAll, if_neg hs, h]
  cases classifyAll texts <;> rfl

theorem classifyAll_verboseWords (counts : List Nat) {texts : List String} {words : List Word}
    (h : classifyAll texts = .ok words) :
    classifyAll (verboseWords counts ++ texts) = .ok (counts.map verbose ++ words) := by
  induction counts with
  | nil => exact h
  | cons more counts ih =>
    have hs : verboseWord more ≠ "--" := by
      intro heq
      have := congrArg String.toList heq
      rw [verboseWord, String.toList_ofList] at this
      cases this
    have hall : classifyAll (verboseWord more :: (verboseWords counts ++ texts)) = _ :=
      classifyAll_cons (classify_verboseWord more) hs _
    rw [ih] at hall
    exact hall

theorem classifyAll_plain {name : String} (h : IsPlain name) :
    classifyAll [name] = .ok [plain name] := by
  have hs : name ≠ "--" := by
    rintro rfl
    exact h rfl
  rw [classifyAll_cons (classify_plain h) hs]
  rfl

end Word

/-! ## Options -/

namespace Options

theorem letters_replicate (more : Nat) :
    letters .verbose (List.replicate more 'v') = .ok (List.replicate (more + 1) .verbose) := by
  induction more with
  | zero => rfl
  | succ more ih =>
    have hletter : Flag.ofLetter? 'v' = some .verbose := rfl
    simp only [List.replicate_succ (n := more), letters, hletter, ih]
    rfl

theorem foldlM_setFlag (options : Options) (count : Nat) :
    (List.replicate count Flag.verbose).foldlM setFlag options =
      .ok { options with verbosity := options.verbosity + count } := by
  induction count generalizing options with
  | zero => rfl
  | succ count ih =>
    rw [List.replicate_succ, List.foldlM_cons]
    refine (ih { options with verbosity := options.verbosity + 1 }).trans ?_
    simp [Nat.add_assoc, Nat.add_comm 1 count]

/-- A word of letters `v` asks for as much more verbosity as it has letters. -/
theorem setShort_verbose (options : Options) (more : Nat) :
    options.setShort .verbose (Word.shortRest (List.replicate more 'v')) =
      .ok { options with verbosity := options.verbosity + (more + 1) } := by
  cases more with
  | zero => rfl
  | succ more =>
    have hrest : Word.shortRest (List.replicate (more + 1) 'v') =
        some (String.ofList (List.replicate (more + 1) 'v')) := rfl
    have hne : String.ofList (List.replicate (more + 1) 'v') ≠ "" := by
      intro heq
      have := congrArg String.toList heq
      rw [String.toList_ofList] at this
      cases this
    rw [hrest, setShort, if_neg hne, String.toList_ofList, letters_replicate]
    exact foldlM_setFlag options (more + 2)

theorem takeWords_verbose (options : Options) (extra : List String) (counts : List Nat)
    (words : List Word) :
    takeWords options extra (counts.map Word.verbose ++ words) =
      takeWords { options with verbosity := options.verbosity + verbosityOf counts } extra
        words := by
  induction counts generalizing options with
  | nil => rfl
  | cons more counts ih =>
    -- The word itself is a flag, so words are taken one by one up to here.
    rw [List.map_cons, List.cons_append, Word.verbose, takeWords, if_pos (by simp [Word.isFlag]),
      setShort_verbose]
    refine (ih _).trans ?_
    simp [verbosityOf, Nat.add_assoc]

/-- The options of words behind those that ask for verbosity. -/
theorem read_verboseWords (counts : List Nat) {texts : List String} {words : List Word}
    {options : Options} (hwords : Word.classifyAll texts = .ok words)
    (htake : takeWords { initial with verbosity := verbosityOf counts } [] words =
      .ok (options, [])) :
    read (verboseWords counts ++ texts) = .ok options := by
  have hall := takeWords_verbose initial [] counts words
  rw [show initial.verbosity + verbosityOf counts = verbosityOf counts from Nat.zero_add _, htake]
    at hall
  rw [read, Word.classifyAll_verboseWords counts hwords]
  simp only [hall, bind, Except.bind]
  rfl

theorem read_emitTree (counts : List Nat) {name : String} (h : IsPlain name) :
    read (verboseWords counts ++ ["--emit-ast", name]) =
      .ok ⟨verbosityOf counts, false, some name, none, none⟩ := by
  have hflag : Word.classify "--emit-ast" = .ok (.long .emitTree none) := rfl
  have hwords := Word.classifyAll_cons hflag (by decide) [name]
  rw [Word.classifyAll_plain h] at hwords
  exact read_verboseWords counts hwords rfl

theorem read_runTree (counts : List Nat) {name : String} (h : IsPlain name) :
    read (verboseWords counts ++ ["--ast", name]) =
      .ok ⟨verbosityOf counts, false, none, some name, none⟩ := by
  have hflag : Word.classify "--ast" = .ok (.long .runTree none) := rfl
  have hwords := Word.classifyAll_cons hflag (by decide) [name]
  rw [Word.classifyAll_plain h] at hwords
  exact read_verboseWords counts hwords rfl

theorem read_program (counts : List Nat) {name : String} (h : IsPlain name) :
    read (verboseWords counts ++ [name]) =
      .ok ⟨verbosityOf counts, false, none, none, some name⟩ :=
  read_verboseWords counts (Word.classifyAll_plain h) rfl

end Options

end Command

end Douro
