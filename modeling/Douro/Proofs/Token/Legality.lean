import Douro.Proofs.Token.Partition
import Douro.Proofs.Token.Writing

/-!
# Characters that no token can hold

Whether a character can stand at its offset depends on the text around it. Most characters are known
wherever they stand, and inside a comment anything goes. A point is known only inside a number: behind
the digits of a number that has no fraction yet, and before a digit. `IsIllegalAt` says this offset by
offset, without cutting the text into tokens.

* `pending`: the name or the number that a text ends with, one character after the other.
* `Clear.lexeme`: what one lexeme does: its characters are legal, and the next one starts afresh.
* `scan_legality`: what a scan finds: no illegal character, or the first one.
* `lexical_errors_are_first`: a source has no tokens exactly if it has an illegal offset, and the error
  tells the first one.
-/

namespace Douro

/-! ## Illegal offsets -/

/-- The characters that a text may have anywhere. -/
def IsKnown (c : Char) : Prop :=
  c ∈ [' ', '\t', '\n', '#', '_', '+', '-', '*', '/', '=', '(', ')', ',', ';'] ∨
    c.isAlpha = true ∨ Text.isDigit c = true

/-- What a text ends with and what might go on behind it. -/
inductive Pending where
  | nothing
  | name
  /-- A number without a fraction. -/
  | whole
  /-- A number up to its point or behind it. -/
  | fraction
deriving DecidableEq

/-- One character more. The digits of a name are in ASCII, so another digit starts a number. -/
def Pending.next (pending : Pending) (c : Char) : Pending :=
  if Lexeme.isNameStart c ∨ pending = name ∧ Lexeme.isNameRest c then name
  else if Text.isDigit c then if pending = fraction then fraction else whole
  else if c = '.' ∧ pending = whole then fraction
  else nothing

/-- What a text ends with. -/
def pending (before : List Char) : Pending := before.foldl Pending.next .nothing

/-- The text ends inside a comment. -/
def InComment (before : List Char) : Prop := '#' ∈ before.reverse.takeWhile (· != '\n')

/-- The point stands directly behind the digits of a number without a fraction, and a digit stands
directly behind the point. -/
def IsPoint (before : List Char) (c : Char) (behind : List Char) : Prop :=
  c = '.' ∧ pending before = .whole ∧ ∃ d ∈ behind.head?, Text.isDigit d = true

/-- The character `c` cannot stand between `before` and `behind`. -/
def IsIllegal (before : List Char) (c : Char) (behind : List Char) : Prop :=
  ¬ InComment before ∧ ¬ IsKnown c ∧ ¬ IsPoint before c behind

/-- The character at an offset of a text cannot stand there. -/
def IsIllegalAt (text : List Char) (offset : Nat) : Prop :=
  ∃ c behind, text.drop offset = c :: behind ∧ IsIllegal (text.take offset) c behind

/-! ## Characters -/

theorem isNameRest_of_isNameStart {c : Char} (h : Lexeme.isNameStart c = true) :
    Lexeme.isNameRest c = true := by
  simp only [Lexeme.isNameStart, Lexeme.isNameRest, Char.isAlphanum, Bool.or_eq_true] at h ⊢
  exact h.imp_left .inl

theorem Text.isDigit_of_ascii {c : Char} (h : c.isDigit = true) : isDigit c = true := by
  simp only [Char.isDigit, Bool.and_eq_true, decide_eq_true_eq, ge_iff_le,
    UInt32.le_iff_toNat_le] at h
  change 48 ≤ c.toNat ∧ c.toNat ≤ 57 at h
  rw [isDigit, digitValue?, digitZeros, List.find?_cons_of_pos (by simp; omega)]
  rfl

theorem isKnown_of_isNameRest {c : Char} (h : Lexeme.isNameRest c = true) : IsKnown c := by
  simp only [Lexeme.isNameRest, Char.isAlphanum, Bool.or_eq_true, beq_iff_eq] at h
  rcases h with (h | h) | rfl
  · exact .inr (.inl h)
  · exact .inr (.inr (Text.isDigit_of_ascii h))
  · exact .inl (by decide)

/-- A character that starts no lexeme is not known. -/
theorem not_isKnown_of_lexeme? {c : Char} {cs : List Char} (h : lexeme? c cs = none) :
    ¬ IsKnown c := by
  unfold lexeme? at h
  rintro (hc | hc | hc)
  · simp only [List.mem_cons, List.not_mem_nil, or_false] at hc
    rcases hc with rfl | rfl | rfl | rfl | rfl | rfl | rfl | rfl | rfl | rfl | rfl | rfl | rfl | rfl <;>
      cases h
  · have hname : Lexeme.isNameStart c = true := by rw [Lexeme.isNameStart, hc, Bool.true_or]
    simp only [hname, if_true] at h
    repeat' split at h
    all_goals cases h
  · simp only [hc, if_true] at h
    repeat' split at h
    all_goals cases h

/-! ## What a text ends with -/

theorem pending_append (before cs : List Char) :
    pending (before ++ cs) = cs.foldl Pending.next (pending before) := List.foldl_append

namespace Pending

variable {p : Pending} {c : Char} {cs ds rest : List Char}

/-- What is pending does not go on in the text behind it. -/
def Ends : Pending → List Char → Prop
  | nothing, _ => True
  | name, rest => ∀ c ∈ rest.head?, Lexeme.isNameRest c = false
  | whole, rest => (∀ c ∈ rest.head?, Text.isDigit c = false) ∧
    ∀ c more, rest = '.' :: c :: more → Text.isDigit c = false
  | fraction, rest => ∀ c ∈ rest.head?, Text.isDigit c = false

theorem foldl_next_name (h : IsName cs) (p : Pending) : cs.foldl next p = name := by
  cases cs with
  | nil => exact h.elim
  | cons c cs =>
    obtain ⟨hc, hcs⟩ := h
    rw [List.foldl_cons, next, if_pos (.inl hc)]
    clear hc
    induction cs with
    | nil => rfl
    | cons d cs ih =>
      rw [List.forall_mem_cons] at hcs
      rw [List.foldl_cons, next, if_pos (.inr ⟨rfl, hcs.1⟩), ih hcs.2]

/-- A number goes on with digits as it is. -/
theorem foldl_next_digits (hp : p = whole ∨ p = fraction) (hds : ∀ d ∈ ds, Text.isDigit d = true) :
    ds.foldl next p = p := by
  induction ds with
  | nil => rfl
  | cons d ds ih =>
    rw [List.forall_mem_cons] at hds
    have hnext : p.next d = p := by
      rw [next, Text.isNameStart_of_isDigit hds.1, hds.1]
      rcases hp with rfl | rfl <;> simp
    rw [List.foldl_cons, hnext, ih hds.2]

/-- Digits behind something that has ended are a number. -/
theorem Ends.foldl_next_digits (h : p.Ends (ds ++ rest)) (hne : ds ≠ [])
    (hds : ∀ d ∈ ds, Text.isDigit d = true) : ds.foldl next p = whole := by
  obtain ⟨d, ds, rfl⟩ := List.exists_cons_of_ne_nil hne
  rw [List.forall_mem_cons] at hds
  have hnext : p.next d = whole := by
    rw [next, Text.isNameStart_of_isDigit hds.1, hds.1]
    cases p with
    | nothing => simp
    | name => simp [h d rfl]
    | whole => simp
    | fraction =>
      have hd := h d rfl
      rw [hds.1] at hd
      cases hd
  rw [List.foldl_cons, hnext, Pending.foldl_next_digits (.inl rfl) hds.2]

/-- Nothing goes on with a character that belongs neither to a name nor to a number. -/
theorem foldl_next_apart (hne : cs ≠ []) (hcs : ∀ c ∈ cs, Lexeme.isNameRest c = false ∧
    Text.isDigit c = false ∧ c ≠ '.') (p : Pending) : cs.foldl next p = nothing := by
  have hnext : ∀ c ∈ cs, ∀ p : Pending, p.next c = nothing := by
    intro c hc p
    obtain ⟨hname, hdigit, hpoint⟩ := hcs c hc
    have hstart : Lexeme.isNameStart c = false := by
      rw [← Bool.not_eq_true]
      intro hs
      rw [isNameRest_of_isNameStart hs] at hname
      cases hname
    simp [next, hstart, hname, hdigit, hpoint]
  rw [← List.dropLast_concat_getLast hne, List.foldl_append]
  exact hnext _ (List.getLast_mem hne) _

end Pending

/-! ## Comments -/

section Comments

variable {before cs : List Char}

theorem inComment_concat (before : List Char) (c : Char) :
    InComment (before ++ [c]) ↔ c ≠ '\n' ∧ (c = '#' ∨ InComment before) := by
  by_cases hc : c = '\n'
  · simp [InComment, hc]
  · simp [InComment, hc, eq_comm (a := '#')]

theorem not_inComment_append (h : ¬ InComment before) (hcs : '#' ∉ cs) :
    ¬ InComment (before ++ cs) := by
  induction cs using List.reverseRecOn with
  | nil => simpa using h
  | append_singleton cs c ih =>
    rw [List.mem_append, not_or, List.mem_singleton] at hcs
    rw [← List.append_assoc, inComment_concat]
    rintro ⟨-, rfl | hin⟩
    · exact hcs.2 rfl
    · exact ih hcs.1 hin

/-- A comment goes on up to the end of its line. -/
theorem inComment_append (hcs : '\n' ∉ cs) : InComment (before ++ '#' :: cs) := by
  induction cs using List.reverseRecOn with
  | nil => exact (inComment_concat before '#').mpr ⟨by decide, .inl rfl⟩
  | append_singleton cs c ih =>
    rw [List.mem_append, not_or, List.mem_singleton] at hcs
    rw [← List.cons_append, ← List.append_assoc, inComment_concat]
    exact ⟨Ne.symm hcs.2, .inr (ih hcs.1)⟩

end Comments

/-! ## Legal pieces of a text -/

/-- No character of the piece is illegal where it stands. -/
def Legal (before piece behind : List Char) : Prop :=
  ∀ front c more, piece = front ++ c :: more → ¬ IsIllegal (before ++ front) c (more ++ behind)

section Pieces

variable {before piece piece' behind : List Char}

theorem legal_nil (before behind : List Char) : Legal before [] behind := by
  intro front c more h
  simp at h

theorem legal_of_known (h : ∀ c ∈ piece, IsKnown c) : Legal before piece behind := by
  rintro front c more rfl ⟨-, hknown, -⟩
  exact hknown (h c (by simp))

theorem Legal.append (h : Legal before piece (piece' ++ behind))
    (h' : Legal (before ++ piece) piece' behind) : Legal before (piece ++ piece') behind := by
  intro front c more hpieces
  rcases List.append_eq_append_iff.mp hpieces with ⟨rest, rfl, hrest⟩ | ⟨rest, rfl, hrest⟩
  · rw [← List.append_assoc]
    exact h' rest c more hrest
  · cases rest with
    | nil =>
      have hfirst := h' [] c more hrest.symm
      rwa [List.append_nil, List.append_nil] at hfirst
    | cons d rest =>
      rw [List.cons_append] at hrest
      obtain ⟨rfl, rfl⟩ := List.cons.inj hrest
      rw [List.append_assoc]
      exact h front c rest rfl

theorem legal_point {d : Char} (h : pending before = .whole) (hd : Text.isDigit d = true) :
    Legal before ['.'] (d :: behind) := by
  rintro front c more hpiece ⟨-, -, hpoint⟩
  obtain ⟨rfl, rfl, rfl⟩ : front = [] ∧ c = '.' ∧ more = [] := by
    cases front with
    | nil => simpa [eq_comm] using hpiece
    | cons e front => simp at hpiece
  exact hpoint ⟨rfl, by simpa using h, d, rfl, hd⟩

end Pieces

/-! ## One lexeme -/

private theorem not_mem_of_class {p : Char → Bool} {cs : List Char} {d : Char}
    (h : ∀ c ∈ cs, p c = true) (hd : p d = false) : d ∉ cs := by
  intro hm
  rw [h d hm] at hd
  cases hd

/-- A lexeme starts behind `before`: nothing goes on from there, and a comment is over unless its line
ends here. -/
structure Clear (before rest : List Char) : Prop where
  ends : (pending before).Ends rest
  comment : InComment before → rest = [] ∨ ∃ more, rest = '\n' :: more

section Lexemes

variable {before piece behind : List Char}

/-- At the end of a line everything is over. -/
theorem clear_of_lineEnd {rest : List Char} (h : rest = [] ∨ ∃ more, rest = '\n' :: more) :
    Clear before rest := by
  refine ⟨?_, fun _ => h⟩
  have hhead : ∀ c ∈ rest.head?, c = '\n' := by
    rcases h with rfl | ⟨more, rfl⟩
    · nofun
    · rintro c ⟨⟩
      rfl
  have hdigit : ∀ c ∈ rest.head?, Text.isDigit c = false := fun c hc => hhead c hc ▸ by decide
  cases pending before with
  | nothing => trivial
  | name => exact fun c hc => hhead c hc ▸ by decide
  | whole =>
    refine ⟨hdigit, ?_⟩
    rintro c more rfl
    cases hhead '.' rfl
  | fraction => exact hdigit

/-- Outside a comment, a piece that belongs neither to a name nor to a number leaves nothing. -/
theorem clear_of_apart (hne : piece ≠ []) (hpiece : ∀ c ∈ piece, Lexeme.isNameRest c = false ∧
    Text.isDigit c = false ∧ c ≠ '.') (hc : ¬ InComment (before ++ piece)) :
    Clear (before ++ piece) behind := by
  refine ⟨?_, fun hin => absurd hin hc⟩
  rw [pending_append, Pending.foldl_next_apart hne hpiece]
  trivial

/-- A piece that is neither the end of a line nor a comment stands outside comments. -/
theorem Clear.outside (h : Clear before (piece ++ behind)) (hne : piece ≠ []) (hfeed : '\n' ∉ piece)
    (hmark : '#' ∉ piece) : ¬ InComment (before ++ piece) := by
  refine not_inComment_append (fun hin => ?_) hmark
  obtain ⟨c, cs, rfl⟩ := List.exists_cons_of_ne_nil hne
  rcases h.comment hin with heq | ⟨more, heq⟩
  · cases heq
  · obtain ⟨rfl, -⟩ := List.cons.inj heq
    exact hfeed List.mem_cons_self

/-- The characters of a number are legal, its point too. -/
theorem Clear.numeral (h : Clear before (piece ++ behind)) (hpiece : IsNumeral piece)
    (hc : TokenKind.number.IsComplete piece behind) :
    Legal before piece behind ∧ Clear (before ++ piece) behind := by
  have hends := h.ends
  have hknown : ∀ {ds before behind}, (∀ d ∈ ds, Text.isDigit d = true) → Legal before ds behind :=
    fun hds => legal_of_known fun d hd => .inr (.inr (hds d hd))
  cases hpiece with
  | whole hne hds =>
    have hout := h.outside hne (not_mem_of_class hds (by decide)) (not_mem_of_class hds (by decide))
    refine ⟨hknown hds, ?_, fun hin => absurd hin hout⟩
    rw [pending_append, hends.foldl_next_digits hne hds]
    exact ⟨hc.1, hc.2 (not_mem_point hds)⟩
  | @fraction ds fs hne hds hne' hfs =>
    obtain ⟨f, fs, rfl⟩ := List.exists_cons_of_ne_nil hne'
    have hwhole : pending (before ++ ds) = .whole := by
      rw [List.append_assoc] at hends
      rw [pending_append, hends.foldl_next_digits hne hds]
    have hout := h.outside (List.append_ne_nil_of_left_ne_nil hne _)
      (by simp [not_mem_of_class hds (by decide : Text.isDigit '\n' = false),
        not_mem_of_class hfs (by decide : Text.isDigit '\n' = false)])
      (by simp [not_mem_of_class hds (by decide : Text.isDigit '#' = false),
        not_mem_of_class hfs (by decide : Text.isDigit '#' = false)])
    refine ⟨?_, ?_, fun hin => absurd hin hout⟩
    · have hpoint : Legal (before ++ ds) ['.'] ((f :: fs) ++ behind) :=
        legal_point hwhole (hfs f List.mem_cons_self)
      exact (hknown hds).append (hpoint.append (hknown hfs))
    · rw [← List.append_assoc, pending_append, hwhole, List.foldl_cons]
      show (List.foldl Pending.next .fraction (f :: fs)).Ends behind
      rw [Pending.foldl_next_digits (.inr rfl) hfs]
      exact hc.1

/-- The characters of a name are legal. -/
theorem Clear.name (h : Clear before (piece ++ behind)) (hpiece : IsName piece)
    (hc : TokenKind.identifier.IsComplete piece behind) :
    Legal before piece behind ∧ Clear (before ++ piece) behind := by
  have hrest : ∀ c ∈ piece, Lexeme.isNameRest c = true := by
    cases piece with
    | nil => nofun
    | cons c cs => exact List.forall_mem_cons.mpr ⟨isNameRest_of_isNameStart hpiece.1, hpiece.2⟩
  have hne : piece ≠ [] := by
    rintro rfl
    exact hpiece
  have hout := h.outside hne (not_mem_of_class hrest (by decide)) (not_mem_of_class hrest (by decide))
  refine ⟨legal_of_known fun c hc => isKnown_of_isNameRest (hrest c hc), ?_, fun hin => absurd hin hout⟩
  rw [pending_append, Pending.foldl_next_name hpiece]
  exact hc

/-- Operators and marks are legal. -/
theorem Clear.mark {c : Char} (h : Clear before ([c] ++ behind))
    (hc : c ∈ ['+', '-', '*', '/'] ++ ['=', '(', ')', ',', ';']) :
    Legal before [c] behind ∧ Clear (before ++ [c]) behind := by
  have hclass : (['+', '-', '*', '/'] ++ ['=', '(', ')', ',', ';']).all fun c => decide
      (c ∈ [' ', '\t', '\n', '#', '_', '+', '-', '*', '/', '=', '(', ')', ',', ';'] ∧
      (Lexeme.isNameRest c = false ∧ Text.isDigit c = false ∧ c ≠ '.') ∧ '\n' ∉ [c] ∧ '#' ∉ [c]) := by
    decide
  obtain ⟨hknown, hapart, hfeed, hmark⟩ := of_decide_eq_true (List.all_eq_true.mp hclass c hc)
  have hne : [c] ≠ [] := List.cons_ne_nil _ _
  exact ⟨legal_of_known (List.forall_mem_singleton.mpr (.inl hknown)),
    clear_of_apart hne (List.forall_mem_singleton.mpr hapart) (h.outside hne hfeed hmark)⟩

/-- A complete lexeme of some kind is legal, and nothing goes on behind it. -/
theorem Clear.token (h : Clear before (piece ++ behind)) {kind : TokenKind} (hk : kind.IsLexeme piece)
    (hc : kind.IsComplete piece behind) :
    Legal before piece behind ∧ Clear (before ++ piece) behind := by
  cases kind with
  | number => exact h.numeral hk hc
  | identifier | keyword => exact h.name hk hc
  | operator =>
    obtain ⟨c, rfl, hm⟩ := hk
    exact h.mark (List.mem_append_left _ hm)
  | punctuation =>
    obtain ⟨c, rfl, hm⟩ := hk
    exact h.mark (List.mem_append_right _ hm)
  | newline =>
    cases hk
    have hapart : Lexeme.isNameRest '\n' = false ∧ Text.isDigit '\n' = false ∧ '\n' ≠ '.' := by decide
    refine ⟨legal_of_known (List.forall_mem_singleton.mpr (.inl (by decide))),
      clear_of_apart (List.cons_ne_nil _ _) (List.forall_mem_singleton.mpr hapart) ?_⟩
    rw [inComment_concat]
    exact fun hin => hin.1 rfl

/-- Blanks and comments are legal, and nothing goes on behind them. -/
theorem Clear.ignored (h : Clear before (piece ++ behind)) (hne : piece ≠ [])
    (hp : (∀ c ∈ piece, c = ' ' ∨ c = '\t') ∨ IsComment piece behind) :
    Legal before piece behind ∧ Clear (before ++ piece) behind := by
  rcases hp with hblank | ⟨⟨text, rfl, htext⟩, hbehind⟩
  · have hout := h.outside hne (fun hm => by simpa using hblank _ hm) (fun hm => by simpa using hblank _ hm)
    refine ⟨legal_of_known fun c hc => .inl ?_, clear_of_apart hne (fun c hc => ?_) hout⟩
    · rcases hblank c hc with rfl | rfl <;> decide
    · rcases hblank c hc with rfl | rfl <;> decide
  · refine ⟨?_, clear_of_lineEnd hbehind⟩
    rintro front c more hpiece ⟨hout, hknown, -⟩
    cases front with
    | nil =>
      obtain ⟨rfl, -⟩ := List.cons.inj hpiece
      exact hknown (.inl (by decide))
    | cons d front =>
      obtain ⟨rfl, rfl⟩ := List.cons.inj hpiece
      exact hout (inComment_append fun hm => htext (List.mem_append_left _ hm))

/-- One lexeme: its characters are legal, and nothing goes on behind it. -/
theorem Clear.lexeme {c : Char} {more : List Char} {kind : Option TokenKind}
    (h : Clear before (c :: more ++ behind)) (hl : lexeme? c (more ++ behind) = some ⟨kind, more⟩) :
    Legal before (c :: more) behind ∧ Clear (before ++ c :: more) behind := by
  cases kind with
  | none => exact h.ignored (List.cons_ne_nil _ _) (isIgnored_of_lexeme? hl rfl)
  | some kind =>
    have hk := (spells_of_lexeme? hl).isLexeme
    rw [String.toList_ofList] at hk
    exact h.token hk (isComplete_of_lexeme? hl rfl)

/-- A character that starts no lexeme is illegal where a lexeme starts. -/
theorem Clear.isIllegal {c : Char} (h : Clear before (c :: behind)) (hl : lexeme? c behind = none) :
    IsIllegal before c behind := by
  have hknown := not_isKnown_of_lexeme? hl
  refine ⟨fun hin => ?_, hknown, ?_⟩
  · rcases h.comment hin with heq | ⟨more, heq⟩
    · cases heq
    · obtain ⟨rfl, -⟩ := List.cons.inj heq
      exact hknown (.inl (by decide))
  · rintro ⟨rfl, hwhole, d, hd, hdigit⟩
    obtain ⟨more, rfl⟩ : ∃ more, behind = d :: more := by
      cases behind with
      | nil => cases hd
      | cons e more =>
        cases hd
        exact ⟨more, rfl⟩
    have hends := h.ends
    rw [hwhole] at hends
    rw [hends.2 d more rfl] at hdigit
    cases hdigit

end Lexemes

/-! ## A whole text -/

/-- What a scan has to do with illegal characters, if its text stands behind `before`: it finds none, or
the first one. -/
def FindsFirst (before cs : List Char) : Except LexicalError (List Token) → Prop
  | .ok _ => Legal before cs []
  | .error error => ∃ front behind, cs = front ++ error.found :: behind ∧
    error.place = Place.start.after (before ++ front) ∧
    IsIllegal (before ++ front) error.found behind ∧ Legal before front (error.found :: behind)

theorem scan_legality {place : Place} {before cs : List Char}
    (hplace : place = Place.start.after before) (h : Clear before cs) :
    FindsFirst before cs (scan place cs) := by
  fun_induction scan place cs generalizing before with
  | case1 place => exact legal_nil _ _
  | case2 place c cs hl =>
    refine ⟨[], cs, rfl, ?_, ?_, legal_nil _ _⟩
    · rw [List.append_nil, hplace]
    · rw [List.append_nil]
      exact h.isIllegal hl
  | case3 place c cs kind more hl ih =>
    obtain ⟨behind, rfl⟩ := prefix_of_lexeme? hl
    rw [List.drop_left] at ih ⊢
    obtain ⟨hlegal, hclear⟩ := h.lexeme hl
    have hnext := ih (by simp only [hplace, Place.after, List.foldl_append]) hclear
    cases hscan : scan (place.after (c :: more)) behind with
    | ok tokens =>
      rw [hscan] at hnext
      have hall : Legal before (c :: more ++ behind) [] := Legal.append (by simpa using hlegal) hnext
      exact hall
    | error error =>
      rw [hscan] at hnext
      obtain ⟨front, rest, rfl, herror, hillegal, hfront⟩ := hnext
      refine ⟨c :: more ++ front, rest, by simp, ?_, ?_, hlegal.append hfront⟩
      · rw [herror, List.append_assoc]
      · rwa [List.append_assoc] at hillegal

theorem clear_start (cs : List Char) : Clear [] cs := ⟨trivial, nofun⟩

/-! ## Offsets -/

theorem isIllegalAt_length {front behind : List Char} {c : Char} (h : IsIllegal front c behind) :
    IsIllegalAt (front ++ c :: behind) front.length :=
  ⟨c, behind, List.drop_left, by rwa [List.take_left]⟩

/-- A piece at the start of a text is legal offset by offset. -/
theorem Legal.not_isIllegalAt {piece behind : List Char} (h : Legal [] piece behind) {offset : Nat}
    (ho : offset < piece.length) : ¬ IsIllegalAt (piece ++ behind) offset := by
  rintro ⟨c, rest, hrest, hillegal⟩
  rw [List.drop_append_of_le_length (Nat.le_of_lt ho), List.drop_eq_getElem_cons ho,
    List.cons_append] at hrest
  obtain ⟨rfl, rfl⟩ := List.cons.inj hrest
  rw [List.take_append_of_le_length (Nat.le_of_lt ho)] at hillegal
  refine h (piece.take offset) _ _ ?_ hillegal
  rw [← List.drop_eq_getElem_cons ho, List.take_append_drop]

/-- Up to the first character that is illegal, a text has tokens. -/
theorem scan_of_legal {front behind : List Char} {c : Char} (h : Legal [] front (c :: behind))
    (hc : ¬ IsKnown c) : ∃ tokens, scan Place.start front = .ok tokens := by
  have hfirst : FindsFirst [] front (scan Place.start front) := scan_legality rfl (clear_start front)
  cases hscan : scan Place.start front with
  | ok tokens => exact ⟨tokens, rfl⟩
  | error error =>
    rw [hscan] at hfirst
    obtain ⟨before, more, rfl, -, ⟨hout, hknown, hpoint⟩, -⟩ := hfirst
    refine absurd ⟨hout, hknown, ?_⟩ (h before error.found more rfl)
    -- A point that has nothing behind it is not followed by a digit in the longer text either.
    rintro ⟨hfound, hwhole, d, hd, hdigit⟩
    cases more with
    | nil =>
      cases hd
      exact hc (.inr (.inr hdigit))
    | cons e more => exact hpoint ⟨hfound, hwhole, d, hd, hdigit⟩

/-! ## Sources -/

theorem Text.return_not_mem_normaliseLineEnds (cs : List Char) : '\r' ∉ normaliseLineEnds cs := by
  rw [normaliseLineEnds, List.mem_map]
  rintro ⟨c, -, hc⟩
  unfold returnToFeed at hc
  split at hc
  · cases hc
  · next hne => exact hne hc

/-- A source has no tokens exactly if its text, once its line ends are made alike, has an illegal offset.
The error quotes the character at the least illegal offset and tells the line and the column of it, and
the text before it has tokens. -/
theorem lexical_errors_are_first (source : String) :
    let text := Text.normaliseLineEnds source.toList
    ((∃ error, scanSource source = .error error) ↔ ∃ offset, IsIllegalAt text offset) ∧
    ∀ error, scanSource source = .error error → ∃ offset, IsIllegalAt text offset ∧
      (∀ earlier < offset, ¬ IsIllegalAt text earlier) ∧
      text[offset]? = some error.found ∧
      error.message = "unexpected character " ++ Text.quoted (String.ofList [error.found]) ∧
      error.place.line = 1 + (text.take offset).count '\n' ∧
      error.place.column = 1 + ((text.take offset).reverse.takeWhile (· != '\n')).length ∧
      ∃ tokens, scanSource (String.ofList (text.take offset)) = .ok tokens := by
  intro text
  have hreturn : '\r' ∉ text := Text.return_not_mem_normaliseLineEnds source.toList
  have hfirst : FindsFirst [] text (scanSource source) := scan_legality rfl (clear_start text)
  cases hscan : scanSource source with
  | ok tokens =>
    rw [hscan] at hfirst
    refine ⟨iff_of_false (by rintro ⟨error, ⟨⟩⟩) ?_, nofun⟩
    rintro ⟨offset, hillegal⟩
    by_cases ho : offset < text.length
    · exact Legal.not_isIllegalAt hfirst ho (by rwa [List.append_nil])
    · obtain ⟨c, behind, hdrop, -⟩ := hillegal
      rw [List.drop_eq_nil_of_le (by omega)] at hdrop
      cases hdrop
  | error error =>
    rw [hscan] at hfirst
    obtain ⟨front, behind, htext, hplace, hillegal, hlegal⟩ := hfirst
    rw [List.nil_append] at hplace hillegal
    rw [htext] at hreturn ⊢
    refine ⟨iff_of_true ⟨error, rfl⟩ ⟨_, isIllegalAt_length hillegal⟩, ?_⟩
    rintro _ ⟨⟩
    refine ⟨front.length, isIllegalAt_length hillegal, fun earlier he => hlegal.not_isIllegalAt he,
      by simp, rfl, ?_, ?_, ?_⟩
    · rw [List.take_left, hplace, Place.line_after]
      rfl
    · rw [List.take_left, hplace, Place.column_after]
    · rw [List.take_left, scanSource, String.toList_ofList, Text.normaliseLineEnds_of_no_return
        fun hm => hreturn (List.mem_append_left _ hm)]
      exact scan_of_legal hlegal hillegal.2.1

/-- A point in a comment is legal, and so is one behind a digit that belongs to no name. The second point
of a number is not. -/
theorem lexical_errors_are_first_in_numbers :
    scanSource "# .\r\nx1٣.5 + 2.5.1" = .error ⟨'.', ⟨2, 12⟩⟩ ∧
    ∃ offset, IsIllegalAt "# .\nx1٣.5 + 2.5.1".toList offset ∧
      ∃ tokens, scanSource (String.ofList ("# .\nx1٣.5 + 2.5.1".toList.take offset)) = .ok tokens := by
  have hscan : scanSource "# .\r\nx1٣.5 + 2.5.1" = .error ⟨'.', ⟨2, 12⟩⟩ := by with_unfolding_all rfl
  have htext : Text.normaliseLineEnds "# .\r\nx1٣.5 + 2.5.1".toList = "# .\nx1٣.5 + 2.5.1".toList := rfl
  obtain ⟨offset, hillegal, -, -, -, -, -, htokens⟩ := (lexical_errors_are_first _).2 _ hscan
  rw [htext] at hillegal htokens
  exact ⟨hscan, offset, hillegal, htokens⟩

end Douro
