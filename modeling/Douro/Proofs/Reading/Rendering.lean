import Douro.Proofs.Reading.Acceptance
import Douro.Proofs.Reading.Relocation
import Douro.Proofs.Tree.Writing

/-!
# What is written down is read back

Reading goes on with an expression as long as operators follow. So an expression is read as a factor,
as the first factors of a term or as the first terms of a sum, by its level, and the operators that
are taken behind it depend on what stands there. A `print` at its end would take any operator, so
none may follow.

* `ReadAs`: how the tokens of an expression are read, whatever stands behind them.
* `readAs_words`: the words of an expression are read at its level.
* `ofSource_write`: the source of a program, in any style, is read as that program.
-/

namespace Douro

namespace Reading

/-- Where the tokens of words are. -/
def origin : Position := ⟨some 0, some 0⟩

theorem relocates_origin : Relocates (fun token => token.word.token) fun _ => origin :=
  ⟨fun _ => rfl, fun _ => rfl, fun _ => rfl⟩

/-! ## Reading at a level -/

section Next

variable {mode : LineMode} {token : Token} {rest : List Token} {kind : TokenKind} {text : String}

theorem settle_cons (h : token.Is kind text) (hk : kind.isFixed = true) :
    settle mode (token :: rest) = token :: rest :=
  settle_gap (gap_nil mode) (h.kind_ne_newline hk)

theorem accept?_cons (h : token.Is kind text) (hk : kind.isFixed = true) :
    accept? mode text (token :: rest) = some rest :=
  accept?_of_gap (gap_nil mode) (h.kind_ne_newline hk) (h.answers hk)

theorem expect_cons (h : token.Is kind text) (hk : kind.isFixed = true) :
    expect mode text (token :: rest) = .ok (token, rest) :=
  expect_of_gap (gap_nil mode) (h.kind_ne_newline hk) (h.answers hk)

end Next

theorem Starts.of_counted {tokens : List Token} (h : Starts .counted tokens) (mode : LineMode) :
    Starts mode tokens := by
  obtain ⟨gap, token, rest, rfl, rfl, ht⟩ := h
  exact ⟨[], token, rest, rfl, gap_nil mode, ht⟩

/-- No factor follows. -/
def NoFactor (mode : LineMode) (tokens : List Token) : Prop :=
  ∀ op rest, settle mode tokens = op :: rest → addsFactor op = false

/-- With `rest` behind them, the tokens are read at a level: as a factor, or as the left operand of
the factors or the terms that follow. -/
def LevelReads (mode : LineMode) (tokens : List Token) (node : Node) (rest : List Token) :
    Level → Prop
  | .factor => Reads (.factor mode) (tokens ++ rest) node rest
  | .product => ∀ node' rest', Reads (.moreFactors mode node) rest node' rest' →
    Reads (.term mode) (tokens ++ rest) node' rest'
  | .sum => NoFactor mode rest → ∀ node' rest', Reads (.moreTerms mode node) rest node' rest' →
    Reads (.expression mode) (tokens ++ rest) node' rest'

/-- The tokens are read at a level, with anything behind them that is no call and, if they are greedy,
no operator. -/
structure ReadAs (level : Level) (tokens : List Token) (node : Node) (greedy : Bool) : Prop where
  starts : Starts .counted tokens
  reads {mode : LineMode} {rest : List Token} : accept? mode "(" rest = none →
    (greedy = true → Stops mode rest) → LevelReads mode tokens node rest level

namespace ReadAs

variable {level : Level} {tokens left right : List Token} {node a b : Node} {greedy : Bool}
  {op : Token}

theorem term_of_factor (h : ReadAs .factor tokens node greedy) :
    ReadAs .product tokens node greedy :=
  ⟨h.starts, fun hcall hstop _ _ hm => .term (h.reads hcall hstop) hm⟩

theorem expression_of_term (h : ReadAs .product tokens node greedy) :
    ReadAs .sum tokens node greedy :=
  ⟨h.starts, fun hcall hstop hfactor _ _ hm =>
    .expression (h.reads hcall hstop _ _ (.lastFactor hfactor)) hm⟩

/-- What is read at a level is read at every looser one. -/
theorem loosen {level' : Level} (h : ReadAs level tokens node greedy)
    (hl : level'.tightness ≤ level.tightness) : ReadAs level' tokens node greedy := by
  cases level with
  | factor =>
    cases level' with
    | factor => exact h
    | product => exact h.term_of_factor
    | sum => exact h.term_of_factor.expression_of_term
  | product =>
    cases level' with
    | factor => simp [Level.tightness] at hl
    | product => exact h
    | sum => exact h.expression_of_term
  | sum =>
    cases level' with
    | sum => exact h
    | _ => simp [Level.tightness] at hl

/-- Where no operator follows, the tokens are an expression. -/
theorem expression (h : ReadAs .sum tokens node greedy) {mode : LineMode} {rest : List Token}
    (hr : Stops mode rest) : Reads (.expression mode) (tokens ++ rest) node rest :=
  h.reads hr.tail.noCall (fun _ => hr) (fun op more hs => (hr op more hs).not_addsFactor) _ _
    (.lastTerm fun op more hs => (hr op more hs).not_addsTerm)

theorem times (hop : IsOperator ["*", "/"] op) (hl : ReadAs .product left a false)
    (hr : ReadAs .factor right b greedy) :
    ReadAs .product (left ++ op :: right) (.binary op.text a b op.position) greedy where
  starts := hl.starts.append _
  reads {mode rest} hcall hstop node' rest' hm := by
    have hsettle : settle mode (op :: (right ++ rest)) = op :: (right ++ rest) :=
      settle_gap (gap_nil mode) hop.kind_ne_newline
    have hsign : accept? mode "(" (op :: (right ++ rest)) = none :=
      accept?_none_of_gap (gap_nil mode) hop.kind_ne_newline (hop.not_answers (by decide))
    have hmore := Reads.nextFactor hsettle hop.addsFactor (hr.reads hcall hstop) hm
    simpa using hl.reads hsign nofun _ _ hmore

theorem plus (hop : IsOperator ["+", "-"] op) (hl : ReadAs .sum left a false)
    (hr : ReadAs .product right b greedy) :
    ReadAs .sum (left ++ op :: right) (.binary op.text a b op.position) greedy where
  starts := hl.starts.append _
  reads {mode rest} hcall hstop hfactor node' rest' hm := by
    have hsettle : settle mode (op :: (right ++ rest)) = op :: (right ++ rest) :=
      settle_gap (gap_nil mode) hop.kind_ne_newline
    have hsign : accept? mode "(" (op :: (right ++ rest)) = none :=
      accept?_none_of_gap (gap_nil mode) hop.kind_ne_newline (hop.not_answers (by decide))
    have hsum : NoFactor mode (op :: (right ++ rest)) := by
      intro op' more hs
      rw [hsettle] at hs
      cases hs
      rw [addsFactor, hop.not_answers (by decide), hop.not_answers (by decide), Bool.or_false]
    have hterm := hr.reads hcall hstop _ _ (.lastFactor hfactor)
    simpa using hl.reads hsign (absurd · Bool.false_ne_true) hsum _ _ (.nextTerm hsettle hop.addsTerm hterm hm)

theorem group (h : ReadAs .sum tokens node greedy) :
    ReadAs .factor ((Word.mark "(").token :: (tokens ++ [(Word.mark ")").token])) node false where
  starts := ⟨[], _, _, rfl, rfl, .inr (.inr (.inr (.inr ⟨rfl, rfl⟩)))⟩
  reads {mode rest} _ _ := by
    have hopen : (Word.mark "(").token.Is .punctuation "(" := ⟨rfl, rfl⟩
    have hcloses : Closes ((Word.mark ")").token :: rest) rest :=
      ⟨[], _, rfl, gap_nil _, rfl, rfl⟩
    obtain ⟨_, hclose⟩ := hcloses.expect
    rw [LevelReads, List.cons_append, List.append_assoc]
    exact .group (settle_cons hopen rfl) nofun nofun (hopen.not_answers (by decide))
      (hopen.not_answers (by decide)) (hopen.answers rfl) (h.expression hcloses.stops) hclose

theorem print (h : ReadAs .sum tokens node greedy) :
    ReadAs .factor (Word.token ⟨.keyword, "print"⟩ :: tokens) (.print node) true where
  starts := ⟨[], _, _, rfl, rfl, .inr (.inr (.inl ⟨rfl, rfl⟩))⟩
  reads {mode rest} _ hstop := by
    have hword : (Word.token ⟨.keyword, "print"⟩).Is .keyword "print" := ⟨rfl, rfl⟩
    exact .print (settle_cons hword rfl) nofun nofun
      (hword.answers rfl) (h.expression (hstop rfl))

end ReadAs

/-! ## Lists -/

/-- A closing parenthesis, as it is written. -/
private theorem closes_mark (rest : List Token) : Closes ((Word.mark ")").token :: rest) rest :=
  ⟨[], _, rfl, gap_nil _, rfl, rfl⟩

section Arguments

variable {tokensOf : Node → List Token} {read : Node → Node} {args : List Node}

private theorem reads_moreArguments (h : ∀ arg ∈ args, ReadAs .sum (tokensOf arg) (read arg) true)
    (rest : List Token) :
    Stops .ignored ((args.map tokensOf).flatMap ((Word.mark ",").token :: ·) ++
      (Word.mark ")").token :: rest) ∧
    Reads .moreArguments ((args.map tokensOf).flatMap ((Word.mark ",").token :: ·) ++
      (Word.mark ")").token :: rest) (args.map read) rest := by
  have hcloses := closes_mark rest
  induction args with
  | nil =>
    obtain ⟨_, hclose⟩ := hcloses.expect
    exact ⟨hcloses.stops, .lastArgument hcloses.accept?_comma hclose⟩
  | cons arg args ih =>
    rw [List.forall_mem_cons] at h
    obtain ⟨hstops, hmore⟩ := ih h.2
    have hcomma : (Word.mark ",").token.Is .punctuation "," := ⟨rfl, rfl⟩
    simp only [List.map_cons, List.flatMap_cons, List.cons_append, List.append_assoc]
    exact ⟨stops_gap (gap_nil _) (hcomma.kind_ne_newline rfl) (isStop_of_mark hcomma (by decide)),
      .nextArgument (accept?_cons hcomma rfl) (h.1.expression hstops) hmore⟩

theorem reads_arguments (h : ∀ arg ∈ args, ReadAs .sum (tokensOf arg) (read arg) true)
    (rest : List Token) :
    Reads .arguments (separated (Word.mark ",").token (args.map tokensOf) ++
      (Word.mark ")").token :: rest) (args.map read) rest := by
  cases args with
  | nil => exact .noArguments (closes_mark rest).accept?_close
  | cons arg args =>
    rw [List.forall_mem_cons] at h
    obtain ⟨hstops, hmore⟩ := reads_moreArguments h.2 rest
    have hstarts := (h.1.starts.of_counted .ignored).append
      ((args.map tokensOf).flatMap ((Word.mark ",").token :: ·) ++ (Word.mark ")").token :: rest)
    rw [List.map_cons, separated, List.append_assoc]
    exact .someArguments hstarts.accept?_close (h.1.expression hstops) hmore

end Arguments

section Parameters

/-- The token of a parameter. -/
private def nameToken (name : String) : Token := Word.token ⟨.identifier, name⟩

private theorem reads_moreParameters {seen names : List String} (h : (seen ++ names).Nodup)
    (rest : List Token) :
    Reads (.moreParameters seen) ((names.map fun name => [nameToken name]).flatMap
      ((Word.mark ",").token :: ·) ++ (Word.mark ")").token :: rest) (seen ++ names) rest := by
  induction names generalizing seen with
  | nil =>
    obtain ⟨_, hclose⟩ := (closes_mark rest).expect
    rw [List.append_nil]
    exact .lastParameter (closes_mark rest).accept?_comma hclose
  | cons name names ih =>
    have hcomma : (Word.mark ",").token.Is .punctuation "," := ⟨rfl, rfl⟩
    have hseen : name ∉ seen := fun hm =>
      (List.nodup_append.mp h).2.2 name hm name List.mem_cons_self rfl
    have hname : ∀ tokens, parameter seen (nameToken name :: tokens) = .ok (name, tokens) := fun _ =>
      parameter_of_gap (gap_nil _) rfl hseen
    rw [List.append_cons seen] at h
    have hread := ih h
    rw [← List.append_cons seen] at hread
    simp only [List.map_cons, List.flatMap_cons, List.cons_append, List.nil_append]
    exact .nextParameter (accept?_cons hcomma rfl) (hname _) hread

theorem reads_parameters {names : List String} (h : names.Nodup) (rest : List Token) :
    Reads .parameters ((Word.mark "(").token :: (separated (Word.mark ",").token
      (names.map fun name => [Word.token ⟨.identifier, name⟩]) ++ (Word.mark ")").token :: rest))
      names rest := by
  have hopen : (Word.mark "(").token.Is .punctuation "(" := ⟨rfl, rfl⟩
  have hexpect : ∀ tokens, expect .ignored "(" ((Word.mark "(").token :: tokens) =
      .ok ((Word.mark "(").token, tokens) := fun _ => expect_cons hopen rfl
  cases names with
  | nil => exact .noParameters (hexpect _) (closes_mark rest).accept?_close
  | cons name names =>
    have hkind : (nameToken name).kind = .identifier := rfl
    have hname : ∀ tokens, parameter [] (nameToken name :: tokens) = .ok (name, tokens) := fun _ =>
      parameter_of_gap (gap_nil _) hkind List.not_mem_nil
    have hclose : ∀ tokens, accept? .ignored ")" (nameToken name :: tokens) = none := fun _ =>
      accept?_none_of_gap (gap_nil _) nofun (Token.not_answers_of_kind hkind rfl (by decide))
    exact .someParameters (hexpect _) (hclose _) (hname _) (reads_moreParameters h rest)

end Parameters

section Blocks

/-- The tokens are read as a statement, up to where a statement can end. -/
structure StatementReads (tokens : List Token) (node : Node) : Prop where
  starts : Starts .counted tokens
  reads {rest : List Token} : EndsStatement rest → Reads .statement (tokens ++ rest) node rest

variable {tokensOf : Node → List Token} {read : Node → Node} {closed : Bool} {rest : List Token}

/-- The first statement of a block whose other statements are read. -/
private theorem reads_block_cons {body : List Node} {tokens : List Token} {node : Node}
    (h : StatementReads tokens node) (hrest : BehindBlock closed rest)
    (hbody : Reads (.block closed) ((body.map tokensOf).flatMap (Word.newline.token :: ·) ++ rest)
      (body.map read) rest) :
    Reads (.block closed)
      (tokens ++ ((body.map tokensOf).flatMap (Word.newline.token :: ·) ++ rest))
      (node :: body.map read) rest := by
  cases body with
  | nil =>
    exact (h.reads hrest.endsStatement).block_cons h.starts (.inl ⟨rfl, rfl, hrest⟩)
  | cons next body =>
    have hsep : Separates Word.newline.token := .inl rfl
    refine (h.reads ?_).block_cons h.starts (.inr ⟨_, _, rfl, hsep, hbody⟩)
    rintro token more ⟨⟩
    exact .inl hsep

theorem reads_block {body : List Node} (h : ∀ s ∈ body, StatementReads (tokensOf s) (read s))
    (hrest : BehindBlock closed rest) :
    Reads (.block closed) (separated Word.newline.token (body.map tokensOf) ++ rest)
      (body.map read) rest := by
  have hmore : ∀ more : List Node, (∀ s ∈ more, StatementReads (tokensOf s) (read s)) →
      Reads (.block closed) ((more.map tokensOf).flatMap (Word.newline.token :: ·) ++ rest)
        (more.map read) rest := by
    intro more
    induction more with
    | nil =>
      have hnil : ∀ token ∈ ([] : List Token), Separates token := nofun
      exact fun _ => hrest.reads_separators hnil
    | cons s more ih =>
      intro h
      rw [List.forall_mem_cons] at h
      have hblock := reads_block_cons h.1 hrest (ih h.2)
      have hsep : ∀ token ∈ [Word.newline.token], Separates token :=
        List.forall_mem_singleton.mpr (.inl rfl)
      simpa using hblock.block_separators hsep
  cases body with
  | nil => exact hmore [] h
  | cons s body =>
    rw [List.forall_mem_cons] at h
    rw [List.map_cons, separated, List.append_assoc]
    exact reads_block_cons h.1 hrest (hmore body h.2)

end Blocks

/-! ## Factors -/

namespace ReadAs

theorem numeral (text : String) :
    ReadAs .factor [Word.token ⟨.number, text⟩] (.numeral text) false where
  starts := ⟨[], _, _, rfl, rfl, .inl rfl⟩
  reads {mode rest} _ _ := .number (settle_gap (gap_nil mode) (by nofun)) rfl

theorem lookup (name : String) :
    ReadAs .factor [Word.token ⟨.identifier, name⟩] (.lookup name origin) false where
  starts := ⟨[], _, _, rfl, rfl, .inr (.inl rfl)⟩
  reads {mode rest} hcall _ := .lookup (settle_gap (gap_nil mode) (by nofun)) rfl hcall

theorem call (name : String) {args : List Node} {tokensOf : Node → List Token} {read : Node → Node}
    (h : ∀ arg ∈ args, ReadAs .sum (tokensOf arg) (read arg) true) :
    ReadAs .factor (Word.token ⟨.identifier, name⟩ :: (Word.mark "(").token ::
      (separated (Word.mark ",").token (args.map tokensOf) ++ [(Word.mark ")").token]))
      (.call name (args.map read) origin) false where
  starts := ⟨[], _, _, rfl, rfl, .inr (.inl rfl)⟩
  reads {mode rest} _ _ := by
    have hopen : (Word.mark "(").token.Is .punctuation "(" := ⟨rfl, rfl⟩
    rw [LevelReads, List.cons_append, List.cons_append, List.append_assoc]
    exact .call (settle_gap (gap_nil mode) (by nofun)) rfl (accept?_cons hopen rfl)
      (reads_arguments h rest)

theorem function {params : List String} {body : List Node} {tokensOf : Node → List Token}
    {read : Node → Node} (hp : params.Nodup)
    (hb : ∀ s ∈ body, StatementReads (tokensOf s) (read s)) :
    ReadAs .factor (Word.token ⟨.keyword, "function"⟩ :: (Word.mark "(").token ::
      (separated (Word.mark ",").token (params.map fun name => [Word.token ⟨.identifier, name⟩]) ++
        (Word.mark ")").token :: (Word.mark "(").token ::
          (separated Word.newline.token (body.map tokensOf) ++ [(Word.mark ")").token])))
      (.literal (.function params (body.map read))) false where
  starts := ⟨[], _, _, rfl, rfl, .inr (.inr (.inr (.inl ⟨rfl, rfl⟩)))⟩
  reads {mode rest} _ _ := by
    have hword : (Word.token ⟨.keyword, "function"⟩).Is .keyword "function" := ⟨rfl, rfl⟩
    have hopen : (Word.mark "(").token.Is .punctuation "(" := ⟨rfl, rfl⟩
    have hclose : (Word.mark ")").token.Is .punctuation ")" := ⟨rfl, rfl⟩
    have hblock : Reads (.block true) (separated Word.newline.token (body.map tokensOf) ++
        (Word.mark ")").token :: rest) (body.map read) ((Word.mark ")").token :: rest) :=
      reads_block hb (.inr ⟨rfl, _, _, rfl, hclose⟩)
    simp only [LevelReads, List.cons_append, List.append_assoc, List.nil_append]
    exact .function (settle_cons hword rfl) nofun nofun (hword.not_answers (by decide))
      (hword.answers rfl) (reads_parameters hp _) (expect_cons hopen rfl) hblock
      (expect_cons hclose rfl)

/-! ## Operands -/

variable {level : Level} {words : List Word} {node : Node} {greedy : Bool}

theorem enclosed (h : ReadAs level (words.map Word.token) node greedy) :
    ReadAs .factor ((Word.enclosed words).map Word.token) node false := by
  simpa [Word.enclosed] using (h.loosen (Nat.zero_le _)).group

/-- A greedy reading asks for more. -/
theorem greedily (h : ReadAs level (words.map Word.token) node greedy) :
    ReadAs level (words.map Word.token) node true :=
  ⟨h.starts, fun hcall hstop => h.reads hcall fun _ => hstop rfl⟩

end ReadAs

end Reading

/-! ## Trees -/

namespace Style

open Reading

variable (style : Style)

theorem not_needed_of_not_encloses {needed : Bool} {node : Node}
    (h : style.encloses needed node = false) : needed = false := by
  cases needed with
  | false => rfl
  | true =>
    rw [style.encloses_needed] at h
    cases h

section Operands

variable {node read : Node} {words : List Word} {op : String} {level : Level}
  (h : ReadAs node.level (words.map Word.token) read (style.endsInPrint node))
include h

/-- In any place, a tree is read as an expression. -/
theorem readAs_place (needed : Bool) :
    ReadAs .sum ((style.place needed node words).map Word.token) read true := by
  unfold place
  split
  · exact (h.enclosed.loosen (Nat.zero_le _)).greedily
  · exact (h.loosen (Nat.zero_le _)).greedily

/-- A left operand is read at the level of its operator, and is not greedy. -/
theorem readAs_left (hl : level.tightness ≤ (Level.ofOperator op).tightness) :
    ReadAs level ((style.place (style.enclosedLeft op node) node words).map Word.token) read
      false := by
  cases henclosed : style.encloses (style.enclosedLeft op node) node with
  | true =>
    rw [place, henclosed, if_pos rfl]
    exact h.enclosed.loosen level.tightness_le_factor
  | false =>
    have hneeded := style.not_needed_of_not_encloses henclosed
    rw [enclosedLeft, Bool.or_eq_false_iff] at hneeded
    rw [place, henclosed, if_neg Bool.false_ne_true, ← hneeded.2]
    exact h.loosen (Nat.le_trans hl (Node.tightness_of_not_sumUnderProduct hneeded.1))

/-- A right operand is read at a level above its operator. -/
theorem readAs_right (hl : level.tightness ≤ (Level.ofOperator op).tightness + 1) :
    ReadAs level ((style.place (node.enclosedRight op) node words).map Word.token) read
      (!style.encloses (node.enclosedRight op) node && style.endsInPrint node) := by
  cases henclosed : style.encloses (node.enclosedRight op) node with
  | true =>
    rw [place, henclosed, if_pos rfl]
    exact h.enclosed.loosen level.tightness_le_factor
  | false =>
    have hneeded := style.not_needed_of_not_encloses henclosed
    rw [place, henclosed, if_neg Bool.false_ne_true, Bool.not_false, Bool.true_and]
    exact h.loosen (Nat.le_trans hl (Node.tightness_of_not_enclosedRight hneeded))

end Operands

/-- Both operands and the operator between them. -/
theorem readAs_binary {op : String} {left right a b : Node} {words words' : List Word}
    (hop : op ∈ ["+", "-", "*", "/"])
    (hl : ReadAs left.level (words.map Word.token) a (style.endsInPrint left))
    (hr : ReadAs right.level (words'.map Word.token) b (style.endsInPrint right)) :
    ReadAs (Level.ofOperator op)
      ((style.place (style.enclosedLeft op left) left words ++
        ⟨.operator, op⟩ :: style.place (right.enclosedRight op) right words').map Word.token)
      (.binary op a b origin)
      (!style.encloses (right.enclosedRight op) right && style.endsInPrint right) := by
  rw [List.map_append, List.map_cons]
  by_cases hproduct : op = "*" ∨ op = "/"
  · have hlevel : Level.ofOperator op = .product := if_pos hproduct
    have hsign : IsOperator ["*", "/"] (Word.token ⟨.operator, op⟩) :=
      ⟨op, by simpa using hproduct, rfl, rfl⟩
    rw [hlevel]
    exact .times hsign (style.readAs_left hl (Nat.le_of_eq (by rw [hlevel])))
      (style.readAs_right hr (Nat.le_of_eq (by rw [hlevel]; rfl)))
  · have hlevel : Level.ofOperator op = .sum := if_neg hproduct
    have hsign : IsOperator ["+", "-"] (Word.token ⟨.operator, op⟩) := by
      refine ⟨op, ?_, rfl, rfl⟩
      rw [not_or] at hproduct
      simpa [hproduct] using hop
    rw [hlevel]
    exact .plus hsign (style.readAs_left hl (Nat.zero_le _))
      (style.readAs_right hr (Nat.le_of_eq (by rw [hlevel]; rfl)))

mutual

/-- The words of an expression are read at its level. -/
theorem readAs_words : {node : Node} → IsSourceExpression node →
    ReadAs node.level ((style.words node).map Word.token) (node.mapPosition fun _ => origin)
      (style.endsInPrint node)
  | _, .numeral _ => .numeral _
  | _, .lookup _ => .lookup _
  | .call name args _, .call _ hargs => by
    have hread := ReadAs.call name fun arg ha =>
      style.readAs_place (readAs_words (hargs arg ha)) false
    simpa [words, argumentWords_eq_map, Word.enclosed, map_separated, Node.mapPosition,
      Node.mapPositionAll_eq_map, Function.comp_def, Node.level, endsInPrint] using hread
  | _, .print h => by
    have hread := (style.readAs_place (readAs_words h) false).print
    simpa only [words, List.map_cons, Node.mapPosition, Node.level, endsInPrint] using hread
  | _, .binary hop hleft hright => by
    rw [words]
    exact style.readAs_binary hop (readAs_words hleft) (readAs_words hright)
  | _, .function _ hparams hbody => by
    have hread := ReadAs.function hparams fun s hs => statementReads_words (hbody s hs)
    simpa [words, statementWords_eq_map, Word.enclosed, map_separated, Node.mapPosition,
      Node.mapPositionAll_eq_map, Function.comp_def, Node.level, endsInPrint] using hread

/-- The words of a statement are read as that statement. -/
theorem statementReads_words : {node : Node} → IsSourceStatement node →
    StatementReads ((style.words node).map Word.token) (node.mapPosition fun _ => origin)
  | .assign name _, .assign _ h => by
    have hread := style.readAs_place (readAs_words h) false
    have hequals : (Word.mark "=").token.Is .punctuation "=" := ⟨rfl, rfl⟩
    rw [words, Node.mapPosition, List.map_cons, List.map_cons]
    exact ⟨⟨[], _, _, rfl, rfl, .inr (.inl rfl)⟩, fun hrest =>
      .assign rfl (hequals.answers rfl) (hread.expression hrest.stops)⟩
  | _, .expression h => by
    have hread := style.readAs_place (readAs_words h) false
    rw [words, Node.mapPosition]
    refine ⟨hread.starts, fun hrest => ?_⟩
    have hexpr := hread.expression hrest.stops
    exact .evaluate (hexpr.not_assigns hrest) hexpr

end

/-! ## Sources -/

/-- Programs that are written down are read back. -/
theorem ofSource_write {program : Node} (h : IsSourceProgram program) :
    ∃ read, Node.ofSource (style.write program) = .ok read ∧ read.Alike program := by
  cases program with
  | program body =>
    obtain ⟨tokens, hscan, hwords⟩ := scanSource_spellOut (style.spelled_of_program h)
    have hblock : Reads (.block false) ((style.words (.program body)).map Word.token)
        (body.map (Node.mapPosition fun _ => origin)) [] := by
      have hread := reads_block (fun s hs => style.statementReads_words (h s hs))
        (.inl rfl : BehindBlock false [])
      simpa [words, statementWords_eq_map, map_separated, Function.comp_def] using hread
    have hmoved := ofTokens_relocated relocates_origin tokens
    rw [← Function.comp_def, ← List.map_map, hwords, ofTokens_eq_ok_iff.mpr ⟨_, rfl, hblock⟩] at hmoved
    cases hread : Node.ofTokens tokens with
    | error e =>
      rw [hread] at hmoved
      cases hmoved
    | ok read =>
      rw [hread] at hmoved
      refine ⟨read, ?_, .of_mapPosition (f := fun _ => origin) (g := fun _ => origin) ?_⟩
      · rw [Node.ofSource, write, hscan]
        simp only [hread]
        rfl
      · rw [Node.mapPosition, Node.mapPositionAll_eq_map]
        exact (Except.ok.inj hmoved).symm
  | _ => exact h.elim

end Style

/-- A program is read back from both its sources, up to positions: from the one that encloses every
expression and from the one that encloses only what has to be. -/
theorem renderings_read_back {program : Node} (h : IsSourceProgram program) :
    (∃ read, Node.ofSource (Style.full.write program) = .ok read ∧ read.Alike program) ∧
      ∃ read, Node.ofSource (Style.minimal.write program) = .ok read ∧ read.Alike program :=
  ⟨Style.full.ofSource_write h, Style.minimal.ofSource_write h⟩

example : Style.minimal.write (.program [
    .expression (.binary "*" (.binary "-" (.numeral "1") (.binary "-" (.numeral "2") (.numeral "3")
      .unknown) .unknown) (.numeral "4") .unknown),
    .expression (.binary "+" (.print (.numeral "1")) (.numeral "2") .unknown)]) =
    "( 1 - ( 2 - 3 ) ) * 4 \n ( print 1 ) + 2 " := by decide

/-- A product of a sum and of a difference with a difference on its right, and a `print` on the left
of a sum, in the body of a function that is an operand. -/
def nestedProgram : Node :=
  .program [.assign "a" (.numeral "2.5"), .expression (.binary "+" (.print (.call "a"
    [.binary "*" (.binary "+" (.lookup "a" .unknown) (.lookup "a" .unknown) .unknown)
      (.binary "-" (.lookup "a" .unknown) (.binary "-" (.lookup "a" .unknown) (.lookup "a" .unknown)
        .unknown) .unknown) .unknown] .unknown))
    (.literal (.function ["a"] [.expression (.print (.lookup "a" .unknown)), .assign "a"
      (.lookup "a" .unknown)])) .unknown)]

theorem renderings_read_back_nested :
    IsSourceProgram nestedProgram ∧
    (∃ read, Node.ofSource (Style.full.write nestedProgram) = .ok read ∧ read.Alike nestedProgram) ∧
      ∃ read, Node.ofSource (Style.minimal.write nestedProgram) = .ok read ∧
        read.Alike nestedProgram := by
  have hname : TokenKind.identifier.Spells "a" := ⟨⟨by decide, nofun⟩, by decide, by decide⟩
  have ha : IsSourceExpression (.lookup "a" .unknown) := .lookup hname
  have hnumeral : IsSourceExpression (.numeral "2.5") :=
    .numeral (@IsNumeral.fraction ['2'] ['5'] (List.cons_ne_nil _ _)
      (List.forall_mem_singleton.mpr rfl) (List.cons_ne_nil _ _) (List.forall_mem_singleton.mpr rfl))
  have hproduct : IsSourceExpression (.binary "*" (.binary "+" (.lookup "a" .unknown)
      (.lookup "a" .unknown) .unknown) (.binary "-" (.lookup "a" .unknown) (.binary "-"
        (.lookup "a" .unknown) (.lookup "a" .unknown) .unknown) .unknown) .unknown) :=
    .binary (by decide) (.binary (by decide) ha ha) (.binary (by decide) ha (.binary (by decide) ha ha))
  have h : IsSourceProgram nestedProgram := by
    simp only [nestedProgram, IsSourceProgram, List.forall_mem_cons]
    refine ⟨.assign hname hnumeral, .expression (.binary (by decide) (.print (.call hname ?_))
      (.function ?_ (by decide) ?_)), List.forall_mem_nil _⟩
    · simpa using hproduct
    · simpa using hname
    · simpa using ⟨.expression (.print ha), .assign hname ha⟩
  exact ⟨h, renderings_read_back h⟩

end Douro
