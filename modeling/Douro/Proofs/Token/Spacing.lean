import Mathlib.Data.List.Chain
import Mathlib.Data.List.TakeWhile
import Douro.Proofs.Token.Seam
import Douro.Proofs.Token.Writing

/-!
# How little space words need

Words are scanned back whatever blanks stand between them, and behind any comment at the end of a line.
Most neighbours need no blank at all. Only a name or a keyword in front of a name, a keyword or a number,
and a number in front of a number, might be read as one word.

* `Word.MayFuse`: the neighbours that a blank has to part.
* `Piece`: a word with the blanks and the comment before it.
* `Piece.scan`: one piece gives the token of its word.
* `spaced_words_are_scanned_back`: words that are written with enough space are scanned back.
-/

namespace Douro

/-! ## Pieces of a text -/

/-- The two words might be read as one if nothing stands between them. -/
def Word.MayFuse (left right : Word) : Prop :=
  (left.kind = .identifier ∨ left.kind = .keyword) ∧
      (right.kind = .identifier ∨ right.kind = .keyword ∨ right.kind = .number) ∨
    left.kind = .number ∧ right.kind = .number

/-- A word and what is written before it. -/
structure Piece where
  blanks : List Char
  comment : List Char
  word : Word

namespace Piece

/-- The characters of a piece. -/
def chars (piece : Piece) : List Char :=
  piece.blanks ++ (piece.comment ++ piece.word.text.toList)

/-- A comment without a line end. -/
def IsRemark (comment : List Char) : Prop := ∃ text, comment = '#' :: text ∧ '\n' ∉ text ∧ '\r' ∉ text

/-- The word is spelled like one of its kind. Only blanks stand before it, and if it ends a line, maybe a
comment. -/
structure Fits (piece : Piece) : Prop where
  blank : ∀ c ∈ piece.blanks, c = ' ' ∨ c = '\t'
  comment : piece.comment = [] ∨ piece.word.kind = .newline ∧ IsRemark piece.comment
  spelled : piece.word.Spelled

/-- The text of some pieces, one behind the other. -/
def text (pieces : List Piece) : String := String.ofList (pieces.flatMap chars)

/-- Neighbours that might fuse have a blank between them. -/
def Spaced (pieces : List Piece) : Prop :=
  pieces.IsChain fun left right => left.word.MayFuse right.word → right.blanks ≠ []

end Piece

/-! ## The first character of a word -/

section FirstCharacter

variable {kind : TokenKind} {text : String} {c : Char} {more : List Char}

theorem TokenKind.Spells.isNameStart (h : kind.Spells text) (ht : text.toList = c :: more)
    (hk : kind = .identifier ∨ kind = .keyword) : Lexeme.isNameStart c = true := by
  rcases hk with rfl | rfl
  · obtain ⟨hname, -⟩ := h
    rw [ht] at hname
    exact hname.1
  · rcases h with rfl | rfl <;> cases ht <;> rfl

/-- Operators, marks and line feeds go on with no word. -/
theorem TokenKind.Spells.endsBefore (h : kind.Spells text) (ht : text.toList = c :: more)
    (hk : kind ≠ .identifier ∧ kind ≠ .keyword ∧ kind ≠ .number) (left : TokenKind) :
    left.EndsBefore c := by
  have hclass : ∀ text ∈ ["+", "-", "*", "/", "=", "(", ")", ",", ";", "\n"], text.toList.all
      fun c => decide ((Text.isDigit c = false ∧ c ≠ '.') ∧ Lexeme.isNameRest c = false) := by decide
  have hmem : text ∈ ["+", "-", "*", "/", "=", "(", ")", ",", ";", "\n"] := by
    cases kind with
    | number => exact absurd rfl hk.2.2
    | identifier => exact absurd rfl hk.1
    | keyword => exact absurd rfl hk.2.1
    | operator => exact List.mem_append_left ["=", "(", ")", ",", ";", "\n"] h
    | punctuation =>
      exact List.mem_append_right ["+", "-", "*", "/"] (List.mem_append_left ["\n"] h)
    | newline =>
      cases h
      decide
  have hc := List.all_eq_true.mp (hclass text hmem) c (by rw [ht]; exact List.mem_cons_self)
  obtain ⟨hnumber, hname⟩ := of_decide_eq_true hc
  cases left with
  | number => exact hnumber
  | identifier | keyword => exact hname
  | operator | punctuation | newline => trivial

/-- A word that does not fuse with the one before it starts with a character that cannot go on with
that one. -/
theorem Word.endsBefore_of_not_mayFuse {left right : Word} (h : right.Spelled)
    (ht : right.text.toList = c :: more) (hf : ¬ left.MayFuse right) : left.kind.EndsBefore c := by
  by_cases hname : right.kind = .identifier ∨ right.kind = .keyword
  · have hstart := TokenKind.Spells.isNameStart h ht hname
    cases hl : left.kind with
    | number =>
      refine ⟨?_, ?_⟩
      · rw [← Bool.not_eq_true]
        intro hd
        rw [Text.isNameStart_of_isDigit hd] at hstart
        cases hstart
      · rintro rfl
        cases hstart
    | identifier => exact absurd (.inl ⟨.inl hl, hname.imp_right .inl⟩) hf
    | keyword => exact absurd (.inl ⟨.inr hl, hname.imp_right .inl⟩) hf
    | operator | punctuation | newline => trivial
  rw [not_or] at hname
  by_cases hnumber : right.kind = .number
  · cases hl : left.kind with
    | number => exact absurd (.inr ⟨hl, hnumber⟩) hf
    | identifier => exact absurd (.inl ⟨.inl hl, .inr (.inr hnumber)⟩) hf
    | keyword => exact absurd (.inl ⟨.inr hl, .inr (.inr hnumber)⟩) hf
    | operator | punctuation | newline => trivial
  · exact TokenKind.Spells.endsBefore h ht ⟨hname.1, hname.2, hnumber⟩ _

end FirstCharacter

/-! ## One piece -/

/-- A comment gives no token. -/
theorem scan_comment {text : List Char} (h : '\n' ∉ text) (rest : List Char) (place : Place) :
    scan place ('#' :: text ++ '\n' :: rest) = scan (place.after ('#' :: text)) ('\n' :: rest) := by
  have htext : text.takeWhile (· != '\n') = text := by
    rw [List.takeWhile_eq_self_iff]
    intro c hc
    simp only [bne_iff_ne, ne_eq]
    rintro rfl
    exact h hc
  have hl : lexeme? '#' (text ++ '\n' :: rest) = some ⟨none, text⟩ := by
    rw [lexeme?_lineEnd]
    show some (Lexeme.mk none (text.takeWhile (· != '\n'))) = _
    rw [htext]
  rw [List.cons_append, scan, hl]
  simp only [List.drop_left, Place.token?]
  cases scan (place.after ('#' :: text)) ('\n' :: rest) <;> rfl

namespace Piece

variable {piece : Piece} {rest : List Char}

/-- What stands in a piece behind its blanks does not start with a blank. -/
theorem Fits.not_isGap (h : piece.Fits) :
    ∀ c ∈ (piece.comment ++ piece.word.text.toList ++ rest).head?, Lexeme.isGap c = false := by
  obtain ⟨d, more, ht⟩ := TokenKind.Spells.exists_cons h.spelled
  rcases h.comment with hnone | ⟨-, text, hcomment, -⟩
  · rw [hnone, ht]
    rintro c ⟨⟩
    exact TokenKind.Spells.not_isGap h.spelled ht
  · rw [hcomment]
    rintro c ⟨⟩
    rfl

/-- One piece gives the token of its word, unless what stands behind it goes on with that word. -/
theorem Fits.scan (h : piece.Fits) (hrest : ∀ c ∈ rest.head?, piece.word.kind.EndsBefore c)
    (place : Place) : ∃ token next, token.word = piece.word ∧
      Douro.scan place (piece.chars ++ rest) = (Douro.scan next rest).map (token :: ·) := by
  have hword := scan_word h.spelled hrest
  have hblanks : ∃ next, Douro.scan place (piece.chars ++ rest) =
      Douro.scan next (piece.comment ++ piece.word.text.toList ++ rest) := by
    rw [chars, List.append_assoc]
    by_cases hne : piece.blanks = []
    · exact ⟨place, by rw [hne, List.nil_append]⟩
    · refine ⟨_, scan_gap hne (fun c hc => ?_) h.not_isGap place⟩
      rcases h.blank c hc with rfl | rfl <;> rfl
  obtain ⟨next, hscan⟩ := hblanks
  rw [hscan]
  rcases h.comment with hnone | ⟨hkind, text, hcomment, hfeed, -⟩
  · rw [hnone, List.nil_append]
    exact ⟨_, _, rfl, hword next⟩
  · have htext : piece.word.text.toList = ['\n'] := by
      have hspelled := h.spelled
      rw [Word.Spelled, hkind] at hspelled
      rw [show piece.word.text = "\n" from hspelled]
      rfl
    rw [hcomment, List.append_assoc, htext, List.singleton_append, scan_comment hfeed]
    rw [htext] at hword
    exact ⟨_, _, rfl, hword _⟩

/-- A piece behind another word starts with a character that cannot go on with that word. -/
theorem Fits.endsBefore (h : piece.Fits) {left : Word}
    (hspace : left.MayFuse piece.word → piece.blanks ≠ []) :
    ∀ c ∈ (piece.chars ++ rest).head?, left.kind.EndsBefore c := by
  have hblank : ∀ d ∈ [' ', '\t', '#'], left.kind.EndsBefore d := by
    intro d hd
    have hclass : (Text.isDigit d = false ∧ d ≠ '.') ∧ Lexeme.isNameRest d = false := by
      simp only [List.mem_cons, List.not_mem_nil, or_false] at hd
      rcases hd with rfl | rfl | rfl <;> decide
    cases left.kind with
    | number => exact hclass.1
    | identifier | keyword => exact hclass.2
    | operator | punctuation | newline => trivial
  rw [chars]
  cases hb : piece.blanks with
  | cons b blanks =>
    rintro c ⟨⟩
    rcases h.blank b (by rw [hb]; exact List.mem_cons_self) with rfl | rfl
    · exact hblank ' ' (by decide)
    · exact hblank '\t' (by decide)
  | nil =>
    obtain ⟨d, more, ht⟩ := TokenKind.Spells.exists_cons h.spelled
    rcases h.comment with hnone | ⟨-, text, hcomment, -⟩
    · rw [hnone, ht]
      rintro c ⟨⟩
      exact Word.endsBefore_of_not_mayFuse h.spelled ht fun hf => hspace hf hb
    · rw [hcomment]
      rintro c ⟨⟩
      exact hblank '#' (by decide)

theorem Fits.no_return (h : piece.Fits) : '\r' ∉ piece.chars := by
  rw [chars, List.mem_append, List.mem_append]
  rintro (hm | hm | hm)
  · simpa using h.blank _ hm
  · rcases h.comment with hnone | ⟨-, text, hcomment, -, hreturn⟩
    · rw [hnone] at hm
      cases hm
    · rw [hcomment, List.mem_cons] at hm
      exact hm.elim (by decide) hreturn
  · exact TokenKind.Spells.no_return h.spelled hm

end Piece

/-! ## Whole texts -/

theorem scan_pieces {pieces : List Piece} (h : ∀ piece ∈ pieces, piece.Fits)
    (hspaced : Piece.Spaced pieces) (place : Place) :
    ∃ tokens, scan place (pieces.flatMap Piece.chars) = .ok tokens ∧
      tokens.map Token.word = pieces.map Piece.word := by
  induction pieces generalizing place with
  | nil => exact ⟨[], by rw [List.flatMap_nil, scan], rfl⟩
  | cons piece pieces ih =>
    rw [List.forall_mem_cons] at h
    have hrest : ∀ c ∈ (pieces.flatMap Piece.chars).head?, piece.word.kind.EndsBefore c := by
      cases pieces with
      | nil => simp
      | cons next pieces =>
        rw [List.flatMap_cons]
        exact (h.2 next List.mem_cons_self).endsBefore (List.isChain_cons_cons.mp hspaced).1
    obtain ⟨token, next, htoken, hscan⟩ := h.1.scan hrest place
    obtain ⟨tokens, htokens, hwords⟩ := ih h.2 hspaced.tail next
    refine ⟨token :: tokens, ?_, ?_⟩
    · rw [List.flatMap_cons, hscan, htokens]
      rfl
    · rw [List.map_cons, List.map_cons, htoken, hwords]

/-- Spelled words are scanned back, whatever blanks stand before them and whatever comments stand before
the ends of lines, if neighbours that might fuse have a blank between them. -/
theorem spaced_words_are_scanned_back {pieces : List Piece} (h : ∀ piece ∈ pieces, piece.Fits)
    (hspaced : Piece.Spaced pieces) :
    ∃ tokens, scanSource (Piece.text pieces) = .ok tokens ∧
      tokens.map Token.word = pieces.map Piece.word := by
  have hreturn : '\r' ∉ pieces.flatMap Piece.chars := by
    rw [List.mem_flatMap]
    rintro ⟨piece, hp, hm⟩
    exact (h piece hp).no_return hm
  rw [scanSource, Piece.text, String.toList_ofList, Text.normaliseLineEnds_of_no_return hreturn]
  exact scan_pieces h hspaced _

/-- A number in front of a keyword needs no blank, a keyword in front of a number does, and so do two
numbers. The comment goes up to the end of its line. -/
theorem spaced_words_are_scanned_back_of_line :
    Piece.text [⟨[], [], ⟨.number, "1"⟩⟩, ⟨[], [], ⟨.keyword, "print"⟩⟩, ⟨['\t'], [], ⟨.number, "٣.5"⟩⟩,
      ⟨[' '], [], ⟨.number, "2"⟩⟩, ⟨[], ['#', '1'], ⟨.newline, "\n"⟩⟩, ⟨[], [], ⟨.identifier, "x"⟩⟩] =
        "1print\t٣.5 2#1\nx" ∧
    ∃ tokens, scanSource "1print\t٣.5 2#1\nx" = .ok tokens ∧ tokens.map Token.word =
      [⟨.number, "1"⟩, ⟨.keyword, "print"⟩, ⟨.number, "٣.5"⟩, ⟨.number, "2"⟩, ⟨.newline, "\n"⟩,
        ⟨.identifier, "x"⟩] := by
  have hscan : scanSource "1 print ٣.5 2\nx" = .ok
      [⟨.number, "1", 1, 1⟩, ⟨.keyword, "print", 1, 3⟩, ⟨.number, "٣.5", 1, 9⟩, ⟨.number, "2", 1, 13⟩,
        ⟨.newline, "\n", 1, 14⟩, ⟨.identifier, "x", 2, 1⟩] := by with_unfolding_all rfl
  have hspelled := scanSource_spelled hscan
  simp only [List.forall_mem_cons, List.not_mem_nil, false_imp_iff, implies_true, and_true] at hspelled
  obtain ⟨h1, h2, h3, h4, h5, h6⟩ := hspelled
  have htext : Piece.text [⟨[], [], ⟨.number, "1"⟩⟩, ⟨[], [], ⟨.keyword, "print"⟩⟩,
      ⟨['\t'], [], ⟨.number, "٣.5"⟩⟩, ⟨[' '], [], ⟨.number, "2"⟩⟩, ⟨[], ['#', '1'], ⟨.newline, "\n"⟩⟩,
      ⟨[], [], ⟨.identifier, "x"⟩⟩] = "1print\t٣.5 2#1\nx" := by decide
  refine ⟨htext, htext ▸ spaced_words_are_scanned_back ?_ ?_⟩
  · simp only [List.forall_mem_cons, List.not_mem_nil, false_imp_iff, implies_true, and_true]
    exact ⟨⟨nofun, .inl rfl, h1⟩, ⟨nofun, .inl rfl, h2⟩, ⟨by simp, .inl rfl, h3⟩, ⟨by simp, .inl rfl, h4⟩,
      ⟨nofun, .inr ⟨rfl, ['1'], rfl, by decide, by decide⟩, h5⟩, ⟨nofun, .inl rfl, h6⟩⟩
  · simp [Piece.Spaced, Word.MayFuse]

end Douro
