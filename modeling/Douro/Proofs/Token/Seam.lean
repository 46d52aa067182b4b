import Douro.Proofs.Token.Spelling

/-!
# Sources behind each other

No token reaches over the end of a line. So a source with another one behind it, on a line of its
own, is scanned into the tokens of the first, a newline and the tokens of the second, further down.

* `Text.lineEndCount`: how many lines end in a text.
* `Place.down`, `Token.down`: the same place and the same token some lines further down.
* `scan_down`: a text that starts further down has the same tokens, further down.
* `scan_lineEnd`: a text up to the end of a line, and the text behind it.
* `scanSource_behind`: a source with another one behind it.
-/

namespace Douro

/-! ## Line ends -/

namespace Text

/-- How many lines end in a text. A carriage return and a line feed together end one. -/
def lineEndCount : List Char → Nat
  | [] => 0
  | '\r' :: '\n' :: cs => lineEndCount cs + 1
  | c :: cs => lineEndCount cs + if c = '\r' ∨ c = '\n' then 1 else 0

/-- Both ways to make line ends alike give the same. -/
theorem normaliseLineEnds_eq_unifyLineEnds (cs : List Char) :
    normaliseLineEnds cs = unifyLineEnds cs := by
  fun_induction unifyLineEnds cs with
  | case1 => rfl
  | case2 cs ih => simpa [normaliseLineEnds, mergeReturnPairs, returnToFeed] using ih
  | case3 cs hne ih =>
    rw [normaliseLineEnds, mergeReturnPairs.eq_3 _ _ (by simpa using hne)]
    simpa [normaliseLineEnds, returnToFeed] using ih
  | case4 c cs hne hc ih =>
    rw [normaliseLineEnds, mergeReturnPairs.eq_3 _ _ hne]
    simpa [normaliseLineEnds, returnToFeed, show c ≠ '\r' from hc] using ih

/-- Every line end is one line feed. -/
theorem count_unifyLineEnds (cs : List Char) : (unifyLineEnds cs).count '\n' = lineEndCount cs := by
  fun_induction unifyLineEnds cs with
  | case1 => rfl
  | case2 cs ih => simp [lineEndCount, ih]
  | case3 cs hne ih =>
    rw [lineEndCount.eq_3 _ _ (by simpa using hne)]
    simp [ih]
  | case4 c cs hne hc ih =>
    rw [lineEndCount.eq_3 _ _ hne, List.count_cons, ih]
    simp [show c ≠ '\r' from hc]

/-- A line feed is a line end for itself or the second half of one. -/
theorem unifyLineEnds_append_feed (cs : List Char) :
    ∃ front, unifyLineEnds (cs ++ ['\n']) = front ++ ['\n'] ∧
      (unifyLineEnds cs = front ∨ unifyLineEnds cs = front ++ ['\n']) := by
  fun_induction unifyLineEnds cs with
  | case1 => exact ⟨[], rfl, .inl rfl⟩
  | case2 cs ih =>
    obtain ⟨front, hfront, hcs⟩ := ih
    exact ⟨'\n' :: front, congrArg ('\n' :: ·) hfront,
      hcs.imp (congrArg ('\n' :: ·)) (congrArg ('\n' :: ·))⟩
  | case3 cs hne ih =>
    cases cs with
    | nil => exact ⟨[], rfl, .inr rfl⟩
    | cons c cs =>
      obtain ⟨front, hfront, hcs⟩ := ih
      refine ⟨'\n' :: front, ?_, hcs.imp (congrArg ('\n' :: ·)) (congrArg ('\n' :: ·))⟩
      rw [List.cons_append, unifyLineEnds.eq_3 _ (by rintro _ ⟨⟩; exact hne _ rfl), hfront]
      rfl
  | case4 c cs hne hc ih =>
    obtain ⟨front, hfront, hcs⟩ := ih
    refine ⟨c :: front, ?_, hcs.imp (congrArg (c :: ·)) (congrArg (c :: ·))⟩
    rw [List.cons_append, unifyLineEnds.eq_4 _ _ (fun _ h => (hc h).elim) hc, hfront]
    rfl

/-- What stands behind a line feed belongs to no line end before it. -/
theorem unifyLineEnds_append (cs more : List Char) :
    unifyLineEnds (cs ++ '\n' :: more) = unifyLineEnds (cs ++ ['\n']) ++ unifyLineEnds more := by
  fun_induction unifyLineEnds cs with
  | case1 => rfl
  | case2 cs ih => exact congrArg ('\n' :: ·) ih
  | case3 cs hne ih =>
    cases cs with
    | nil => rfl
    | cons c cs =>
      have hreturn : ∀ more, unifyLineEnds ('\r' :: (c :: cs ++ '\n' :: more)) =
          '\n' :: unifyLineEnds (c :: cs ++ '\n' :: more) :=
        fun more => unifyLineEnds.eq_3 _ (by rintro _ ⟨⟩; exact hne _ rfl)
      show unifyLineEnds ('\r' :: (c :: cs ++ '\n' :: more)) =
        unifyLineEnds ('\r' :: (c :: cs ++ '\n' :: [])) ++ unifyLineEnds more
      rw [hreturn, hreturn, ih]
      rfl
  | case4 c cs hne hc ih =>
    rw [List.cons_append, List.cons_append, unifyLineEnds.eq_4 _ _ (fun _ h => (hc h).elim) hc,
      unifyLineEnds.eq_4 _ _ (fun _ h => (hc h).elim) hc, ih]
    rfl

end Text

/-! ## Further down -/

/-- The place some lines further down. -/
def Place.down (lines : Nat) (place : Place) : Place := ⟨place.line + lines, place.column⟩

/-- The token some lines further down. -/
def Token.down (lines : Nat) (token : Token) : Token := { token with line := token.line + lines }

/-- The error some lines further down. -/
def LexicalError.down (lines : Nat) (error : LexicalError) : LexicalError :=
  { error with place := error.place.down lines }

section Down

variable (lines : Nat)

theorem Place.after_down (place : Place) (cs : List Char) :
    (place.down lines).after cs = (place.after cs).down lines := by
  have hnext : ∀ (place : Place) c, (place.down lines).next c = (place.next c).down lines := by
    intro place c
    unfold next
    split
    · exact congrArg (Place.mk · 1) (Nat.add_right_comm ..)
    · rfl
  induction cs generalizing place with
  | nil => rfl
  | cons c cs ih =>
    show ((place.down lines).next c).after cs = _
    rw [hnext, ih]
    rfl

theorem Place.token?_down (place : Place) (kind : Option TokenKind) (cs : List Char) :
    (place.down lines).token? kind cs = (place.token? kind cs).map (Token.down lines) := by
  cases kind with
  | none => rfl
  | some kind => simp [token?, down, Token.down]

/-- A text that starts further down has the same tokens, further down. -/
theorem scan_down (place : Place) (cs : List Char) :
    scan (place.down lines) cs =
      ((scan place cs).map (List.map (Token.down lines))).mapError (LexicalError.down lines) := by
  fun_induction scan place cs with
  | case1 place => rw [scan]; rfl
  | case2 place c cs hl =>
    rw [scan, hl]
    rfl
  | case3 place c cs kind more hl ih =>
    rw [scan, hl]
    simp only [Place.after_down, ih, Place.token?_down]
    cases scan (place.after (c :: more)) (cs.drop more.length) with
    | error e => rfl
    | ok tokens => cases place.token? kind (c :: more) <;> rfl

end Down

/-! ## Up to the end of a line -/

theorem Place.line_after (place : Place) (cs : List Char) :
    (place.after cs).line = place.line + cs.count '\n' := by
  induction cs generalizing place with
  | nil => rfl
  | cons c cs ih =>
    show ((place.next c).after cs).line = _
    rw [ih, List.count_cons]
    by_cases hc : c = '\n'
    · simp [next, hc, Nat.add_comm, Nat.add_left_comm]
    · simp [next, hc]

/-- Behind a line feed a new line starts. -/
theorem Place.after_feed (place : Place) (cs : List Char) :
    place.after (cs ++ ['\n']) = ⟨place.line + cs.count '\n' + 1, 1⟩ := by
  rw [← line_after, after, List.foldl_append]
  rfl

private theorem takeWhile_lineEnd {p : Char → Bool} (hp : p '\n' = false) (cs rest : List Char) :
    (cs ++ '\n' :: rest).takeWhile p = cs.takeWhile p := by
  induction cs with
  | nil => simp [hp]
  | cons c cs ih => simp only [List.cons_append, List.takeWhile_cons, ih]

private theorem dropWhile_lineEnd {p : Char → Bool} (hp : p '\n' = false) (cs rest : List Char) :
    (cs ++ '\n' :: rest).dropWhile p = cs.dropWhile p ++ '\n' :: rest := by
  induction cs with
  | nil => simp [hp]
  | cons c cs ih =>
    simp only [List.cons_append, List.dropWhile_cons, ih]
    split <;> rfl

private theorem fraction_lineEnd (cs rest : List Char) :
    Lexeme.fraction (cs ++ '\n' :: rest) = Lexeme.fraction cs := by
  cases cs with
  | nil => rfl
  | cons c cs =>
    by_cases hc : c = '.'
    · subst hc
      cases cs with
      | nil => rfl
      | cons d cs =>
        simp only [List.cons_append, Lexeme.fraction, takeWhile_lineEnd (p := Text.isDigit) (by decide)]
    · simp [Lexeme.fraction, hc]

/-- No lexeme goes on behind a line feed, unless it is one. -/
theorem lexeme?_lineEnd (c : Char) (cs rest : List Char) :
    lexeme? c (cs ++ '\n' :: rest) = lexeme? c cs := by
  have hnumber : Lexeme.numberRest (cs ++ '\n' :: rest) = Lexeme.numberRest cs := by
    rw [Lexeme.numberRest, takeWhile_lineEnd (by decide), dropWhile_lineEnd (by decide),
      fraction_lineEnd, Lexeme.numberRest]
  rw [lexeme?, lexeme?, takeWhile_lineEnd (p := Lexeme.isGap) (by decide),
    takeWhile_lineEnd (p := (· != '\n')) (by decide),
    takeWhile_lineEnd (p := Lexeme.isNameRest) (by decide), hnumber]

/-- A lexeme takes characters from the front. -/
theorem prefix_of_lexeme? {c : Char} {cs more : List Char} {kind : Option TokenKind}
    (h : lexeme? c cs = some ⟨kind, more⟩) : more <+: cs := by
  have hfraction : ∀ cs : List Char, Lexeme.fraction cs <+: cs := by
    intro cs
    unfold Lexeme.fraction
    split
    · next d ds =>
      split
      · simpa using List.takeWhile_prefix Text.isDigit
      · exact List.nil_prefix
    · exact List.nil_prefix
  have hnumber : Lexeme.numberRest cs <+: cs := by
    have h := (List.prefix_append_right_inj (cs.takeWhile Text.isDigit)).mpr
      (hfraction (cs.dropWhile Text.isDigit))
    rwa [List.takeWhile_append_dropWhile] at h
  unfold lexeme? at h
  repeat' split at h
  all_goals cases h
  all_goals first | exact List.takeWhile_prefix _ | exact hnumber | exact List.nil_prefix

/-- The newline of a line that ends at a place. -/
def Place.newline (place : Place) : Token := ⟨.newline, "\n", place.line, place.column⟩

/-- The tokens of a text up to the end of a line, the newline, and the tokens behind it. -/
theorem scan_lineEnd (place : Place) (cs rest : List Char) :
    scan place (cs ++ '\n' :: rest) = do
      let tokens ← scan place cs
      let more ← scan (place.after (cs ++ ['\n'])) rest
      return tokens ++ (place.after cs).newline :: more := by
  induction hn : cs.length using Nat.strongRecOn generalizing place cs with
  | ind n ih =>
  cases cs with
  | nil =>
    have hl : lexeme? '\n' rest = some ⟨some .newline, []⟩ := rfl
    rw [List.nil_append, scan, scan, hl]
    show (scan (place.next '\n') rest >>= fun tokens => _) = scan (place.next '\n') rest >>= fun more => _
    rfl
  | cons c cs =>
    rw [List.cons_append, scan, lexeme?_lineEnd, scan]
    cases hl : lexeme? c cs with
    | none => rfl
    | some lexeme =>
      obtain ⟨kind, more⟩ := lexeme
      obtain ⟨left, rfl⟩ := prefix_of_lexeme? hl
      have hlt : left.length < n := by
        rw [← hn, List.length_cons, List.length_append]
        omega
      have hafter : ∀ cs, place.after (c :: (more ++ cs)) = (place.after (c :: more)).after cs :=
        fun cs => List.foldl_append
      simp only [List.append_assoc, List.cons_append, List.drop_left, hafter, ih _ hlt _ _ rfl]
      cases scan (place.after (c :: more)) left with
      | error e => rfl
      | ok tokens =>
        cases scan ((place.after (c :: more)).after (left ++ ['\n'])) rest with
        | error e => rfl
        | ok tokens' => exact congrArg Except.ok (List.append_assoc ..).symm

/-- Tokens start between the start of the text and its end. -/
theorem scan_line {place : Place} {cs : List Char} {tokens : List Token}
    (h : scan place cs = .ok tokens) :
    ∀ token ∈ tokens, place.line ≤ token.line ∧ token.line ≤ place.line + cs.count '\n' := by
  fun_induction scan place cs generalizing tokens with
  | case1 place =>
    cases h
    exact List.forall_mem_nil _
  | case2 place c cs hl => cases h
  | case3 place c cs kind more hl ih =>
    obtain ⟨left, rfl⟩ := prefix_of_lexeme? hl
    rw [List.drop_left] at h ih
    cases hr : scan (place.after (c :: more)) left with
    | error e => rw [hr] at h; cases h
    | ok tokens' =>
      rw [hr] at h
      cases h
      intro token ht
      rcases List.mem_append.mp ht with ht | ht
      · cases kind with
        | none => cases ht
        | some kind =>
          rw [List.mem_singleton.mp ht]
          show (place.line : Int) ≤ place.line ∧ (place.line : Int) ≤ _
          omega
      · have := ih hr token ht
        rw [Place.line_after] at this
        rw [← List.cons_append, List.count_append]
        omega

theorem scanSource_line {source : String} {tokens : List Token} (h : scanSource source = .ok tokens) :
    ∀ token ∈ tokens, 1 ≤ token.line := fun token ht => (scan_line h token ht).1

/-! ## Sources -/

/-- The outcome of scanning some lines further down. -/
def scanDown (lines : Nat) (source : String) : Except LexicalError (List Token) :=
  ((scanSource source).map (List.map (Token.down lines))).mapError (LexicalError.down lines)

/-- The line feed between two sources ends a line whose text is `front`. If the first source ends with
a carriage return, the line feed belongs to it, and so does its newline. -/
theorem exists_front (source : String) :
    let lines := Text.lineEndCount (source ++ "\n").toList
    ∃ (front : List Char) (newline : Token), newline.kind = .newline ∧ newline.line = lines ∧
      lines = front.count '\n' + 1 ∧
      (scanSource source = scan Place.start front ∨
        scanSource source = (scan Place.start front).map (· ++ [newline])) ∧
      ∀ more, scanSource (source ++ "\n" ++ more) = do
        let tokens ← scan Place.start front
        let tokens' ← scanDown lines more
        return tokens ++ newline :: tokens' := by
  intro lines
  obtain ⟨front, hfront, hsource⟩ := Text.unifyLineEnds_append_feed source.toList
  have hlines : lines = front.count '\n' + 1 := by
    show Text.lineEndCount _ = _
    rw [← Text.count_unifyLineEnds, String.toList_append]
    show (Text.unifyLineEnds (source.toList ++ ['\n'])).count '\n' = _
    rw [hfront, List.count_append]
    rfl
  refine ⟨front, (Place.start.after front).newline, rfl, ?_, hlines, ?_, fun more => ?_⟩
  · simp only [Place.newline, Place.line_after, hlines, Place.start]
    omega
  · rw [scanSource, Text.normaliseLineEnds_eq_unifyLineEnds]
    refine hsource.imp (fun h => by rw [h]) fun h => ?_
    rw [h, scan_lineEnd, scan]
    cases scan Place.start front <;> rfl
  · have hstart : Place.start.after (front ++ ['\n']) = Place.start.down lines := by
      rw [Place.after_feed, hlines, Place.start, Place.down, Nat.add_assoc]
    rw [scanDown, scanSource, scanSource, Text.normaliseLineEnds_eq_unifyLineEnds,
      Text.normaliseLineEnds_eq_unifyLineEnds, String.toList_append, String.toList_append,
      ← scan_down, ← hstart, ← scan_lineEnd, List.append_assoc]
    show scan _ (Text.unifyLineEnds (source.toList ++ '\n' :: more.toList)) = _
    rw [Text.unifyLineEnds_append, hfront, List.append_assoc]
    rfl

/-- A source with another one behind it is scanned into the tokens of the first, a newline, and the
tokens of the second further down. The newline may be the last token of the first source. -/
theorem scanSource_behind {source : String} {tokens : List Token} (h : scanSource source = .ok tokens)
    (more : String) :
    let lines := Text.lineEndCount (source ++ "\n").toList
    (∀ token ∈ tokens, token.line ≤ lines) ∧
    ∃ seam newline, newline.kind = .newline ∧
      (seam = [newline] ∨ seam = [] ∧ ∃ front, tokens = front ++ [newline]) ∧
      scanSource (source ++ "\n" ++ more) = (scanDown lines more).map (tokens ++ seam ++ ·) := by
  intro lines
  obtain ⟨front, newline, hkind, hline, hlines, hsource, hboth⟩ := exists_front source
  have hfront : ∀ tokens, scan Place.start front = .ok tokens → ∀ token ∈ tokens, token.line ≤ lines := by
    intro tokens hscan token ht
    have hle := (scan_line hscan token ht).2
    have hlines : lines = front.count '\n' + 1 := hlines
    simp only [Place.start] at hle
    omega
  cases hscan : scan Place.start front with
  | error e =>
    rw [hscan] at hsource
    rcases hsource with hsource | hsource <;> rw [hsource] at h <;> cases h
  | ok tokens' =>
    rw [hscan] at hsource
    rw [hboth, hscan]
    rcases hsource with hsource | hsource <;> rw [hsource] at h <;> cases h
    · refine ⟨hfront _ hscan, _, newline, hkind, .inl rfl, ?_⟩
      cases scanDown lines more with
      | error e => rfl
      | ok tokens => exact congrArg Except.ok (by simp)
    · refine ⟨?_, _, newline, hkind, .inr ⟨rfl, tokens', rfl⟩, ?_⟩
      · intro token ht
        rcases List.mem_append.mp ht with ht | ht
        · exact hfront _ hscan token ht
        · rw [List.mem_singleton.mp ht]
          exact Int.le_of_eq hline
      · cases scanDown lines more with
        | error e => rfl
        | ok tokens => exact congrArg Except.ok (by simp)

end Douro
