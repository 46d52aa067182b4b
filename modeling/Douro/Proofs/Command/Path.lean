import Douro.Command.Path

/-!
# The path of a file beside another one

The path that a text names has steps that count and hold no slash, so its text names it again. A
suffix without a slash goes to the last step, whether it is put to the path or to the text.

* `Named`: the paths that texts name.
* `Named.ofText_text`: the text of such a path names it.
* `text_addSuffix`, `ofText_append`: a suffix of a path and of its texts.
-/

namespace Douro

namespace Path

/-! ## Suffixes of paths -/

theorem addSuffix_concat (root : String) (steps : List String) (name suffix : String) :
    addSuffix ⟨root, steps ++ [name]⟩ suffix = ⟨root, steps ++ [name ++ suffix]⟩ := by
  simp [addSuffix]

/-- A path with a step has a last one. -/
theorem exists_concat {path : Path} (h : path.steps ≠ []) :
    ∃ root steps name, path = ⟨root, steps ++ [name]⟩ :=
  ⟨path.root, path.steps.dropLast, path.steps.getLast h, by
    rw [List.dropLast_concat_getLast h]⟩

theorem intercalate_concat_append (steps : List String) (name suffix : String) :
    String.intercalate "/" (steps ++ [name ++ suffix]) =
      String.intercalate "/" (steps ++ [name]) ++ suffix := by
  by_cases h : steps = []
  · simp [h]
  · simp [String.intercalate_append_of_ne_nil h, String.append_assoc]

/-- The text of a path with a suffix. -/
theorem text_addSuffix {path : Path} (h : path.steps ≠ []) (suffix : String) :
    (path.addSuffix suffix).text = path.text ++ suffix := by
  obtain ⟨root, steps, name, rfl⟩ := exists_concat h
  have hsteps : ∀ step, ¬ (root = "" ∧ steps ++ [step] = []) := by simp
  rw [addSuffix_concat, text, text, if_neg (hsteps _), if_neg (hsteps _),
    intercalate_concat_append, String.append_assoc]

/-- A suffix changes the text of a path. -/
theorem text_addSuffix_ne {path : Path} (h : path.steps ≠ []) {suffix : String} (hs : suffix ≠ "") :
    (path.addSuffix suffix).text ≠ path.text := by
  rw [text_addSuffix h]
  simpa using hs

/-! ## Roots -/

section Roots

variable {cs : List Char}

theorem rootOf_relative (h : cs.head? ≠ some '/') : rootOf cs = "" := by
  unfold rootOf
  split <;> simp_all

theorem rootOf_slash (h : cs.head? ≠ some '/') : rootOf ('/' :: cs) = "/" := by
  unfold rootOf
  split <;> simp_all

theorem rootOf_slashes (h : cs.head? ≠ some '/') : rootOf ('/' :: '/' :: cs) = "//" := by
  unfold rootOf
  split <;> grind

/-- How many slashes a text starts with, and its root. -/
theorem rootOf_cases (cs : List Char) :
    (cs.head? ≠ some '/' ∧ rootOf cs = "") ∨
    (∃ rest, cs = '/' :: rest ∧ rest.head? ≠ some '/' ∧ rootOf cs = "/") ∨
    (∃ rest, cs = '/' :: '/' :: rest ∧ rest.head? ≠ some '/' ∧ rootOf cs = "//") ∨
    ∃ rest, cs = '/' :: '/' :: '/' :: rest ∧ rootOf cs = "/" := by
  fun_cases rootOf cs with
  | case1 rest => exact .inr (.inr (.inr ⟨rest, rfl, rfl⟩))
  | case2 rest hne =>
    refine .inr (.inr (.inl ⟨rest, rfl, fun h => ?_, rfl⟩))
    obtain ⟨more, rfl⟩ := List.head?_eq_some_iff.mp h
    exact hne more rfl
  | case3 rest hne hne' =>
    refine .inr (.inl ⟨rest, rfl, fun h => ?_, rfl⟩)
    obtain ⟨more, rfl⟩ := List.head?_eq_some_iff.mp h
    exact hne' more rfl
  | case4 cs hne hne' hne'' =>
    refine .inl ⟨fun h => ?_, rfl⟩
    obtain ⟨more, rfl⟩ := List.head?_eq_some_iff.mp h
    exact hne'' more rfl

theorem rootOf_append (cs : List Char) {suffix : List Char} (h : '/' ∉ suffix) :
    rootOf (cs ++ suffix) = rootOf cs := by
  -- A third slash would make one root of two.
  have hhead : ∀ {rest : List Char}, rest.head? ≠ some '/' → (rest ++ suffix).head? ≠ some '/' := by
    intro rest hr
    cases rest with
    | nil => exact fun hs => h (List.mem_of_head? hs)
    | cons c rest => exact hr
  obtain ⟨hr, hroot⟩ | ⟨rest, rfl, hr, hroot⟩ | ⟨rest, rfl, hr, hroot⟩ | ⟨rest, rfl, hroot⟩ :=
    rootOf_cases cs
  · rw [hroot, rootOf_relative (hhead hr)]
  · rw [hroot]
    exact rootOf_slash (hhead hr)
  · rw [hroot]
    exact rootOf_slashes (hhead hr)
  · rfl

end Roots

/-! ## Suffixes of texts -/

theorem counts_append {step : List Char} (h : counts step = true) (suffix : List Char) :
    counts (step ++ suffix) = true := by
  match step with
  | [c] => simp_all [counts]
  | c :: d :: cs => simp [counts]

/-- A text that ends in the name of a file: a step that counts stands behind the last slash. -/
def EndsInName (text : String) : Prop :=
  ∃ front last, '/' ∉ last ∧ counts last = true ∧
    (text.toList = last ∨ text.toList = front ++ '/' :: last)

/-- More behind such a text goes to its last step. -/
theorem EndsInName.splitOn {text : String} (h : EndsInName text) :
    ∃ steps last, counts last = true ∧ ∀ more, '/' ∉ more →
      (text.toList ++ more).splitOn '/' = steps ++ [last ++ more] := by
  obtain ⟨front, last, hlast, hcounts, ht⟩ := h
  have hone : ∀ more, '/' ∉ more → (last ++ more).splitOn '/' = [last ++ more] := fun more hm =>
    List.splitOn_eq_singleton (by simp [hlast, hm])
  rcases ht with ht | ht
  · exact ⟨[], last, hcounts, fun more hm => by rw [ht, hone more hm, List.nil_append]⟩
  · refine ⟨front.splitOn '/', last, hcounts, fun more hm => ?_⟩
    rw [ht, List.append_assoc, List.cons_append, List.splitOn_append_cons_self, hone more hm]

/-- A suffix without a slash may be put to the text of a path. -/
theorem ofText_append {text suffix : String} (h : EndsInName text) (hs : '/' ∉ suffix.toList) :
    ofText (text ++ suffix) = (ofText text).addSuffix suffix := by
  obtain ⟨steps, last, hcounts, hsplit⟩ := h.splitOn
  have hplain := hsplit [] List.not_mem_nil
  rw [List.append_nil, List.append_nil] at hplain
  have hmore := counts_append hcounts suffix.toList
  rw [ofText, ofText, String.toList_append, rootOf_append _ hs, hplain, hsplit _ hs]
  simp [hcounts, hmore, addSuffix_concat]

/-! ## Texts of paths -/

/-- A path that some text names. -/
structure Named (path : Path) : Prop where
  root : path.root ∈ ["", "/", "//"]
  steps : ∀ step ∈ path.steps, counts step.toList = true ∧ '/' ∉ step.toList

theorem slash_not_mem_of_mem_splitOn {cs step : List Char} (h : step ∈ cs.splitOn '/') :
    '/' ∉ step := by
  induction cs generalizing step with
  | nil =>
    rw [List.splitOn_nil, List.mem_singleton] at h
    rw [h]
    exact List.not_mem_nil
  | cons c cs ih =>
    obtain ⟨first, steps, hs⟩ := List.exists_cons_of_ne_nil (List.splitOn_ne_nil '/' cs)
    rw [hs] at ih
    rw [List.splitOn_cons_eq_if_modifyHead, hs] at h
    split at h
    · rcases List.mem_cons.mp h with rfl | h
      · exact List.not_mem_nil
      · exact ih h
    · rename_i hc
      rcases List.mem_cons.mp h with rfl | h
      · rw [List.mem_cons, not_or]
        exact ⟨fun heq => hc (beq_iff_eq.mpr heq.symm), ih List.mem_cons_self⟩
      · exact ih (List.mem_cons_of_mem _ h)

theorem named_ofText (text : String) : (ofText text).Named where
  root := by
    obtain ⟨-, h⟩ | ⟨_, -, -, h⟩ | ⟨_, -, -, h⟩ | ⟨_, -, h⟩ := rootOf_cases text.toList <;>
      simp [ofText, h]
  steps := by
    intro step hs
    obtain ⟨cs, hcs, rfl⟩ := List.mem_map.mp hs
    rw [String.toList_ofList]
    obtain ⟨hmem, hcounts⟩ := List.mem_filter.mp hcs
    exact ⟨hcounts, slash_not_mem_of_mem_splitOn hmem⟩

theorem Named.addSuffix {path : Path} (h : path.Named) {suffix : String}
    (hs : '/' ∉ suffix.toList) : (path.addSuffix suffix).Named := by
  by_cases hne : path.steps = []
  · rwa [Path.addSuffix, hne]
  obtain ⟨root, steps, name, rfl⟩ := exists_concat hne
  rw [addSuffix_concat]
  refine ⟨h.root, fun step hstep => ?_⟩
  rcases List.mem_append.mp hstep with hstep | hstep
  · exact h.steps step (List.mem_append_left _ hstep)
  · obtain ⟨hcounts, hslash⟩ := h.steps name (by simp)
    rw [List.mem_singleton.mp hstep, String.toList_append]
    exact ⟨counts_append hcounts _, by simp [hslash, hs]⟩

theorem splitOn_slash_cons (cs : List Char) : ('/' :: cs).splitOn '/' = [] :: cs.splitOn '/' :=
  List.splitOn_append_cons_self [] cs

/-- The text of a path that has steps: its root, and its steps with slashes between them. -/
theorem Named.steps_text {root : String} {steps : List String} (h : Named ⟨root, steps⟩)
    (hne : steps ≠ []) : ∃ cs : List Char, (Path.text ⟨root, steps⟩).toList = root.toList ++ cs ∧
      cs.head? ≠ some '/' ∧ ((cs.splitOn '/').filter counts).map String.ofList = steps := by
  have hcounts : ∀ step ∈ steps, counts step.toList = true := fun step hs => (h.steps step hs).1
  have hslash : ∀ step ∈ steps, '/' ∉ step.toList := fun step hs => (h.steps step hs).2
  refine ⟨['/'].intercalate (steps.map String.toList), ?_, ?_, ?_⟩
  · rw [text, if_neg (by simp [hne]), String.toList_append, String.toList_intercalate]
    rfl
  · obtain ⟨first, rest, rfl⟩ := List.exists_cons_of_ne_nil hne
    obtain ⟨c, cs, hc⟩ : ∃ c cs, first.toList = c :: cs := by
      cases hf : first.toList with
      | nil => simpa [hf, counts] using hcounts first List.mem_cons_self
      | cons c cs => exact ⟨c, cs, rfl⟩
    have hfirst := hslash first List.mem_cons_self
    rw [hc, List.mem_cons, not_or] at hfirst
    have hhead : (['/'].intercalate ((first :: rest).map String.toList)).head? = some c := by
      cases rest <;> simp [hc]
    rw [hhead]
    exact fun heq => hfirst.1 (Option.some.inj heq).symm
  · rw [List.splitOn_intercalate '/' (by simpa using hslash) (by simpa using hne),
      List.filter_eq_self.mpr (by simpa using hcounts), List.map_map]
    simp [Function.comp_def]

/-- The text of a path names it. -/
theorem Named.ofText_text {path : Path} (h : path.Named) : ofText path.text = path := by
  obtain ⟨root, steps⟩ := path
  have hroot := h.root
  simp only [List.mem_cons, List.not_mem_nil, or_false] at hroot
  by_cases hne : steps = []
  · subst hne
    rcases hroot with rfl | rfl | rfl <;> rfl
  obtain ⟨cs, ht, hhead, hs⟩ := h.steps_text hne
  rw [ofText, ht]
  rcases hroot with rfl | rfl | rfl
  · simp [rootOf_relative hhead, hs]
  · simp [rootOf_slash hhead, splitOn_slash_cons, hs, counts]
  · simp [rootOf_slashes hhead, splitOn_slash_cons, hs, counts]

end Path

end Douro
