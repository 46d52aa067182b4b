import Douro.Proofs.Reading.Sources
import Douro.Proofs.Token.Legality
import Douro.Proofs.Tree.Position
import Douro.Tree.Outline

/-!
# Outlines tell trees apart

Every node of an outline has a line of its own, the line says what the node says itself, and the
lines of its parts follow, one level deeper. So the first line that is no deeper than a node's own
ends the lines of the node, and the lines give back the tree but for its positions.

* `Headline`: what the line of a node says; `Headline.text_inj`: headlines that a source can say
  differ in their texts.
* `Node.outlineAt_eq`: an outline is a headline and the outlines of the parts.
* `Node.IsDrawn`: the trees that headlines and parts determine, among them those of sources.
* `Node.IsDrawn.erased_eq`: such trees with the same lines are equal up to positions.
* `outlines_tell_programs_apart`: so are the programs of sources with the same outline.
-/

namespace Douro

/-! ## Where lists come apart -/

/-- Lists that are cut where a property first fails have the same parts. -/
theorem append_inj_of_stop {α : Type} {p : α → Prop} {xs ys xs' ys' : List α}
    (hxs : ∀ x ∈ xs, p x) (hys : ∀ y ∈ ys.head?, ¬ p y) (hxs' : ∀ x ∈ xs', p x)
    (hys' : ∀ y ∈ ys'.head?, ¬ p y) (h : xs ++ ys = xs' ++ ys') : xs = xs' ∧ ys = ys' := by
  induction xs generalizing xs' with
  | nil =>
    cases xs' with
    | nil => exact ⟨rfl, h⟩
    | cons x xs' =>
      have hhead : ys.head? = some x := congrArg List.head? h
      exact absurd (hxs' x List.mem_cons_self) (hys x hhead)
  | cons x xs ih =>
    rw [List.forall_mem_cons] at hxs
    cases xs' with
    | nil =>
      have hhead : ys'.head? = some x := (congrArg List.head? h).symm
      exact absurd hxs.1 (hys' x hhead)
    | cons x' xs' =>
      obtain ⟨rfl, htail⟩ := List.cons.inj h
      obtain ⟨rfl, rfl⟩ := ih hxs.2 (List.forall_mem_cons.mp hxs').2 htail
      exact ⟨rfl, rfl⟩

section Intercalate

variable {sep : String} {c : Char} {cs : List Char} {items items' : List String}

/-- The characters of texts with a separator before each of them. -/
private def led (sep : String) (items : List String) : List Char :=
  items.flatMap fun item => sep.toList ++ item.toList

private theorem head?_led (hsep : sep.toList = c :: cs) (items : List String) :
    ∀ d ∈ (led sep items).head?, ¬ d ≠ c := by
  cases items <;> simp [led, hsep]

private theorem led_inj (hsep : sep.toList = c :: cs) (h : ∀ item ∈ items, c ∉ item.toList)
    (h' : ∀ item ∈ items', c ∉ item.toList) (heq : led sep items = led sep items') :
    items = items' := by
  induction items generalizing items' with
  | nil =>
    cases items' with
    | nil => rfl
    | cons item' items' => simp [led, hsep] at heq
  | cons item items ih =>
    cases items' with
    | nil => simp [led, hsep] at heq
    | cons item' items' =>
      rw [List.forall_mem_cons] at h h'
      simp only [led, List.flatMap_cons, List.append_assoc, List.append_cancel_left_eq] at heq
      obtain ⟨hitem, hrest⟩ := append_inj_of_stop (fun d hd => ne_of_mem_of_not_mem hd h.1)
        (head?_led hsep items) (fun d hd => ne_of_mem_of_not_mem hd h'.1) (head?_led hsep items') heq
      rw [String.toList_inj.mp hitem, ih h.2 h'.2 hrest]

private theorem toList_intercalate_cons (first : String) (others : List String) :
    (sep.intercalate (first :: others)).toList = first.toList ++ led sep others := by
  induction others generalizing first with
  | nil => simp [led]
  | cons other others ih => simp [ih, led]

/-- Texts can be told from their row, if none is empty and none holds the first character of what
stands between them. -/
theorem intercalate_inj (hsep : sep.toList = c :: cs)
    (h : ∀ item ∈ items, item ≠ "" ∧ c ∉ item.toList)
    (h' : ∀ item ∈ items', item ≠ "" ∧ c ∉ item.toList)
    (heq : sep.intercalate items = sep.intercalate items') : items = items' := by
  have hlist := congrArg String.toList heq
  cases items with
  | nil =>
    cases items' with
    | nil => rfl
    | cons first' others' =>
      rw [toList_intercalate_cons] at hlist
      simp [h'] at hlist
  | cons first others =>
    cases items' with
    | nil =>
      rw [toList_intercalate_cons] at hlist
      simp [h] at hlist
    | cons first' others' =>
      rw [toList_intercalate_cons, toList_intercalate_cons] at hlist
      rw [List.forall_mem_cons] at h h'
      obtain ⟨hfirst, hothers⟩ := append_inj_of_stop
        (fun d hd => ne_of_mem_of_not_mem hd h.1.2) (head?_led hsep others)
        (fun d hd => ne_of_mem_of_not_mem hd h'.1.2) (head?_led hsep others') hlist
      rw [String.toList_inj.mp hfirst,
        led_inj hsep (fun item hi => (h.2 item hi).2) (fun item hi => (h'.2 item hi).2) hothers]

theorem not_mem_intercalate {d : Char} (hsep : d ∉ sep.toList)
    (h : ∀ item ∈ items, d ∉ item.toList) : d ∉ (sep.intercalate items).toList := by
  cases items with
  | nil => simp
  | cons first others =>
    rw [List.forall_mem_cons] at h
    rw [toList_intercalate_cons, List.mem_append, led, List.mem_flatMap]
    rintro (hd | ⟨item, hi, hd⟩)
    · exact h.1 hd
    · exact (List.mem_append.mp hd).elim hsep (h.2 item hi)

end Intercalate

/-! ## What names and numerals are made of -/

theorem TokenKind.Spells.ne_empty {name : String} (h : TokenKind.identifier.Spells name) :
    name ≠ "" := by
  rintro rfl
  exact h.1

theorem TokenKind.Spells.not_mem {name : String} (h : TokenKind.identifier.Spells name) {c : Char}
    (hc : Lexeme.isNameRest c = false) : c ∉ name.toList := by
  obtain ⟨h, -⟩ := h
  cases hcs : name.toList with
  | nil => nofun
  | cons d ds =>
    rw [hcs] at h
    intro hm
    have hall : ∀ e ∈ d :: ds, Lexeme.isNameRest e = true :=
      List.forall_mem_cons.mpr ⟨isNameRest_of_isNameStart h.1, h.2⟩
    rw [hall c hm] at hc
    cases hc

theorem feed_not_mem_numeral {cs : List Char} (h : IsNumeral cs) : '\n' ∉ cs := by
  have hdigit : ∀ d : Char, Text.isDigit d = true → d ≠ '\n' := by
    rintro d hd rfl
    revert hd
    decide
  intro hm
  cases h with
  | whole _ hds => exact hdigit _ (hds _ hm) rfl
  | fraction _ hds _ hfs =>
    rcases List.mem_append.mp hm with hm | hm
    · exact hdigit _ (hds _ hm) rfl
    · rcases List.mem_cons.mp hm with hm | hm
      · cases hm
      · exact hdigit _ (hfs _ hm) rfl

/-! ## Headlines -/

/-- What the line of a node says. -/
inductive Headline where
  | program
  | assign (name : String)
  | expression
  | numeral (text : String)
  | function (params : List String)
  | lookup (name : String)
  | call (name : String)
  | print
  | binary (op : String)

namespace Headline

/-- The line, apart from its level. -/
def text : Headline → String
  | program => "program:"
  | assign name => "assign: " ++ name
  | expression => "expr:"
  | numeral text => "number: " ++ text
  | function params => "function (" ++ String.intercalate ", " params ++ ") =>"
  | lookup name => "lookup: " ++ name
  | call name => "call: " ++ name
  | print => "print:"
  | binary op => "binary: " ++ op

/-- The characters up to the first blank. -/
def word : Headline → String
  | program => "program:"
  | assign _ => "assign:"
  | expression => "expr:"
  | numeral _ => "number:"
  | function _ => "function"
  | lookup _ => "lookup:"
  | call _ => "call:"
  | print => "print:"
  | binary _ => "binary:"

/-- The characters from the first blank on. -/
def detail : Headline → String
  | program | expression | print => ""
  | assign text | numeral text | lookup text | call text | binary text => " " ++ text
  | function params => " (" ++ String.intercalate ", " params ++ ") =>"

/-- A headline that a source can say. -/
def Legal : Headline → Prop
  | program | expression | print => True
  | numeral text => TokenKind.number.Spells text
  | assign name | lookup name | call name => TokenKind.identifier.Spells name
  | function params => ∀ name ∈ params, TokenKind.identifier.Spells name
  | binary op => op ∈ ["+", "-", "*", "/"]

/-- The tree of a headline and the trees below it, at no positions. -/
def node : Headline → List Node → Node
  | program, body => .program body
  | assign name, [expr] => .assign name expr
  | expression, [expr] => .expression expr
  | numeral text, _ => .numeral text
  | function params, body => .literal (.function params body)
  | lookup name, _ => .lookup name .unknown
  | call name, args => .call name args .unknown
  | print, [expr] => .print expr
  | binary op, [left, right] => .binary op left right .unknown
  | _, _ => .absent

variable {headline headline' : Headline}

theorem text_eq (headline : Headline) : headline.text = headline.word ++ headline.detail := by
  rw [← String.toList_inj]
  cases headline <;> simp [text, word, detail]

theorem text_ne_empty (headline : Headline) : headline.text ≠ "" := by
  cases headline <;> simp [text]

theorem head?_text (headline : Headline) : ∀ c ∈ headline.text.toList.head?, ¬ c = ' ' := by
  cases headline <;> simp [text]

theorem not_mem_word (headline : Headline) {c : Char} (hc : c = ' ' ∨ c = '\n') :
    c ∉ headline.word.toList := by
  rcases hc with rfl | rfl <;> cases headline <;> simp [word]

theorem head?_detail (headline : Headline) : ∀ c ∈ headline.detail.toList.head?, ¬ c ≠ ' ' := by
  cases headline <;> simp [detail]

/-- Different headlines that a source can say differ in their texts. -/
theorem text_inj (h : headline.Legal) (h' : headline'.Legal) (heq : headline.text = headline'.text) :
    headline = headline' := by
  have hlist : headline.word.toList ++ headline.detail.toList =
      headline'.word.toList ++ headline'.detail.toList := by
    simpa only [text_eq, String.toList_append] using congrArg String.toList heq
  obtain ⟨hword, hdetail⟩ := append_inj_of_stop
    (fun c hc => ne_of_mem_of_not_mem hc (headline.not_mem_word (.inl rfl))) headline.head?_detail
    (fun c hc => ne_of_mem_of_not_mem hc (headline'.not_mem_word (.inl rfl))) headline'.head?_detail
    hlist
  rw [String.toList_inj] at hword hdetail
  -- The nine words differ, so that equal words leave two headlines of the same form.
  cases headline <;> cases headline' <;> simp [word] at hword
  case function.function params params' =>
    have hparams : String.intercalate ", " params = String.intercalate ", " params' := by
      simpa [detail] using hdetail
    rw [intercalate_inj rfl (fun name hn => ⟨(h name hn).ne_empty, (h name hn).not_mem rfl⟩)
      (fun name hn => ⟨(h' name hn).ne_empty, (h' name hn).not_mem rfl⟩) hparams]
  all_goals simp_all [detail]

theorem feed_not_mem_text (h : headline.Legal) : '\n' ∉ headline.text.toList := by
  have hdetail : '\n' ∉ headline.detail.toList := by
    cases headline with
    | program | expression | print => simp [detail]
    | assign name | lookup name | call name => simpa [detail] using h.not_mem rfl
    | numeral text => simpa [detail] using feed_not_mem_numeral h
    | function params =>
      have hparams : '\n' ∉ (String.intercalate ", " params).toList :=
        not_mem_intercalate (by decide) fun name hn => (h name hn).not_mem rfl
      simpa [detail] using hparams
    | binary op =>
      simp only [Legal, List.mem_cons, List.not_mem_nil, or_false] at h
      rcases h with rfl | rfl | rfl | rfl <;> simp [detail]
  rw [text_eq, String.toList_append, List.mem_append, not_or]
  exact ⟨headline.not_mem_word (.inr rfl), hdetail⟩

end Headline

/-! ## Lines -/

namespace Node

/-- What the line of a node says. -/
def headline? : Node → Option Headline
  | absent => none
  | program _ => some .program
  | assign name _ => some (.assign name)
  | expression _ => some .expression
  | numeral text => some (.numeral text)
  | literal value => headline? value
  | lookup name _ => some (.lookup name)
  | call name _ _ => some (.call name)
  | print _ => some .print
  | binary op _ _ _ => some (.binary op)
  | number value => some (.numeral value.toPlain)
  | function params _ => some (.function params)

/-- The nodes whose lines stand below a node. -/
def parts : Node → List Node
  | absent | numeral _ | lookup .. | number _ => []
  | program body | function _ body => body
  | assign _ expr | expression expr | print expr => [expr]
  | literal value => parts value
  | call _ args _ => args
  | binary _ left right _ => [left, right]

/-- The lines of a node are its own and those of its parts. -/
theorem outlineAt_eq (depth : Nat) : (node : Node) →
    outlineAt depth node = node.headline?.bind fun headline =>
      (outlineAll (depth + 1) node.parts).map (outlineLine depth headline.text :: ·)
  | absent | numeral _ | lookup .. | number _ => rfl
  | literal value => outlineAt_eq depth value
  | program body | function _ body | call _ body _ => by
    simp only [outlineAt, headline?, parts, Headline.text]
    cases outlineAll (depth + 1) body <;> rfl
  | assign _ expr | expression expr | print expr => by
    simp only [outlineAt, headline?, parts, Headline.text, outlineAll]
    cases outlineAt (depth + 1) expr <;> simp
  | binary _ left right _ => by
    simp only [outlineAt, headline?, parts, Headline.text, outlineAll]
    cases outlineAt (depth + 1) left <;> cases outlineAt (depth + 1) right <;> simp

/-- A line tells its level and what it says. -/
theorem outlineLine_inj {depth depth' : Nat} {headline headline' : Headline}
    (h : outlineLine depth headline.text = outlineLine depth' headline'.text) :
    depth = depth' ∧ headline.text = headline'.text := by
  have hlist := congrArg String.toList h
  simp only [outlineLine, String.toList_append, String.toList_ofList] at hlist
  obtain ⟨hblanks, htext⟩ := append_inj_of_stop (fun c => List.eq_of_mem_replicate)
    headline.head?_text (fun c => List.eq_of_mem_replicate) headline'.head?_text hlist
  have hlength := congrArg List.length hblanks
  simp only [List.length_replicate] at hlength
  exact ⟨by omega, String.toList_inj.mp htext⟩

/-- A line of a headline at a level or deeper. -/
def IsLineFrom (depth : Nat) (line : String) : Prop :=
  ∃ (level : Nat) (headline : Headline), depth ≤ level ∧ headline.Legal ∧
    line = outlineLine level headline.text

theorem IsLineFrom.of_succ {depth : Nat} {line : String} (h : IsLineFrom (depth + 1) line) :
    IsLineFrom depth line := by
  obtain ⟨level, headline, hle, h⟩ := h
  exact ⟨level, headline, by omega, h⟩

theorem isLineFrom_outlineLine {depth depth' : Nat} {headline : Headline} (h : headline.Legal) :
    IsLineFrom depth (outlineLine depth' headline.text) ↔ depth ≤ depth' := by
  constructor
  · rintro ⟨level, other, hle, -, heq⟩
    rwa [(outlineLine_inj heq).1]
  · exact fun hle => ⟨depth', headline, hle, h, rfl⟩

theorem IsLineFrom.ne_empty {depth : Nat} {line : String} (h : IsLineFrom depth line) :
    line ≠ "" := by
  obtain ⟨level, headline, -, -, rfl⟩ := h
  simp [outlineLine, headline.text_ne_empty]

theorem IsLineFrom.feed_not_mem {depth : Nat} {line : String} (h : IsLineFrom depth line) :
    '\n' ∉ line.toList := by
  obtain ⟨level, headline, -, h, rfl⟩ := h
  simp [outlineLine, Headline.feed_not_mem_text h]

/-- The node has a line at a level, and all its other lines are deeper. -/
def HasLines (depth : Nat) (node : Node) : Prop :=
  ∃ (headline : Headline) (below : List String), headline.Legal ∧
    outlineAt depth node = some (outlineLine depth headline.text :: below) ∧
    ∀ line ∈ below, IsLineFrom (depth + 1) line

theorem outlineAll_cons {depth : Nat} {node : Node} {nodes : List Node} {lines rest : List String}
    (h : outlineAt depth node = some lines) (hrest : outlineAll depth nodes = some rest) :
    outlineAll depth (node :: nodes) = some (lines ++ rest) := by
  rw [outlineAll, h, hrest]
  rfl

/-- The lines of nodes at a level: the first one stands at the level, and none is less deep. -/
theorem exists_outlineAll {depth : Nat} {nodes : List Node}
    (h : ∀ node ∈ nodes, node.HasLines depth) :
    ∃ lines, outlineAll depth nodes = some lines ∧ (∀ line ∈ lines, IsLineFrom depth line) ∧
      ∀ line ∈ lines.head?, ¬ IsLineFrom (depth + 1) line := by
  induction nodes with
  | nil => exact ⟨[], rfl, nofun, nofun⟩
  | cons node nodes ih =>
    rw [List.forall_mem_cons] at h
    obtain ⟨headline, below, hl, hnode, hbelow⟩ := h.1
    obtain ⟨rest, hnodes, hrest, -⟩ := ih h.2
    refine ⟨_, outlineAll_cons hnode hnodes, ?_, ?_⟩
    · rw [List.forall_mem_append, List.forall_mem_cons]
      have hfirst := (isLineFrom_outlineLine hl).mpr (Nat.le_refl depth)
      exact ⟨⟨hfirst, fun line h => (hbelow line h).of_succ⟩, hrest⟩
    · rintro line ⟨⟩
      rw [isLineFrom_outlineLine hl]
      omega

/-! ## Trees from lines -/

/-- The tree without its positions. -/
def erased (node : Node) : Node := node.mapPosition fun _ => .unknown

/-- The tree is determined, but for its positions, by what its line says and by its parts. -/
inductive IsDrawn : Node → Prop
  | intro {node : Node} {headline : Headline} : node.headline? = some headline → headline.Legal →
    node.erased = headline.node (node.parts.map erased) → (∀ part ∈ node.parts, IsDrawn part) →
    IsDrawn node

theorem IsDrawn.hasLines {node : Node} (h : IsDrawn node) (depth : Nat) : node.HasLines depth := by
  induction h generalizing depth with
  | @intro node headline hheadline hl _ _ ih =>
    obtain ⟨lines, hlines, hfrom, -⟩ := exists_outlineAll fun part hp => ih part hp (depth + 1)
    refine ⟨headline, lines, hl, ?_, hfrom⟩
    rw [outlineAt_eq, hheadline, Option.bind_some, hlines, Option.map_some]

/-- The lines of a row of trees: those of the first tree end where the level is reached again. -/
theorem exists_outlineAll_cons {depth : Nat} {node : Node} {nodes : List Node}
    (h : ∀ part ∈ node :: nodes, IsDrawn part) :
    ∃ first below rest, outlineAt depth node = some (first :: below) ∧
      outlineAll depth nodes = some rest ∧
      outlineAll depth (node :: nodes) = some (first :: (below ++ rest)) ∧
      (∀ line ∈ below, IsLineFrom (depth + 1) line) ∧
      ∀ line ∈ rest.head?, ¬ IsLineFrom (depth + 1) line := by
  rw [List.forall_mem_cons] at h
  obtain ⟨headline, below, -, hnode, hbelow⟩ := h.1.hasLines depth
  obtain ⟨rest, hnodes, -, hrest⟩ := exists_outlineAll fun part hp => (h.2 part hp).hasLines depth
  exact ⟨_, below, rest, hnode, hnodes, outlineAll_cons hnode hnodes, hbelow, hrest⟩

/-- Rows of trees are told by their lines, if their members are. -/
theorem map_erased_eq {depth : Nat} {nodes nodes' : List Node} (h : ∀ node ∈ nodes, IsDrawn node)
    (h' : ∀ node ∈ nodes', IsDrawn node)
    (htold : ∀ node ∈ nodes, ∀ node', IsDrawn node' →
      outlineAt depth node = outlineAt depth node' → node.erased = node'.erased)
    (heq : outlineAll depth nodes = outlineAll depth nodes') :
    nodes.map erased = nodes'.map erased := by
  induction nodes generalizing nodes' with
  | nil =>
    cases nodes' with
    | nil => rfl
    | cons node' nodes' =>
      obtain ⟨_, _, _, -, -, hlines', -⟩ := @exists_outlineAll_cons depth _ _ h'
      rw [hlines'] at heq
      cases heq
  | cons node nodes ih =>
    obtain ⟨first, below, rest, hnode, hnodes, hlines, hbelow, hrest⟩ := exists_outlineAll_cons h
    rw [hlines] at heq
    cases nodes' with
    | nil => cases heq
    | cons node' nodes' =>
      obtain ⟨first', below', rest', hnode', hnodes', hlines', hbelow', hrest'⟩ :=
        exists_outlineAll_cons h'
      rw [hlines'] at heq
      obtain ⟨rfl, htail⟩ := List.cons.inj (Option.some.inj heq)
      -- Both first trees end where a line stands at their own level again.
      obtain ⟨rfl, rfl⟩ := append_inj_of_stop hbelow hrest hbelow' hrest' htail
      rw [List.forall_mem_cons] at h h' htold
      rw [List.map_cons, List.map_cons, htold.1 node' h'.1 (hnode.trans hnode'.symm),
        ih h.2 h'.2 htold.2 (hnodes.trans hnodes'.symm)]

/-- Trees of the same lines are equal up to their positions. -/
theorem IsDrawn.erased_eq {depth : Nat} {node node' : Node} (h : IsDrawn node) (h' : IsDrawn node')
    (heq : outlineAt depth node = outlineAt depth node') : node.erased = node'.erased := by
  induction h generalizing depth node' with
  | @intro node headline hheadline hl herased hparts ih =>
    cases h' with
    | @intro _ headline' hheadline' hl' herased' hparts' =>
      obtain ⟨below, hbelow, -⟩ := exists_outlineAll fun part hp => (hparts part hp).hasLines (depth + 1)
      obtain ⟨below', hbelow', -⟩ :=
        exists_outlineAll fun part hp => (hparts' part hp).hasLines (depth + 1)
      rw [outlineAt_eq, outlineAt_eq, hheadline, hheadline', Option.bind_some, Option.bind_some,
        hbelow, hbelow', Option.map_some, Option.map_some] at heq
      obtain ⟨hline, rfl⟩ := List.cons.inj (Option.some.inj heq)
      obtain rfl := Headline.text_inj hl hl' (outlineLine_inj hline).2
      rw [herased, herased', map_erased_eq hparts hparts' (fun part hp _ => ih part hp)
        (hbelow.trans hbelow'.symm)]

/-! ## Trees of sources -/

theorem erased_parts (nodes : List Node) :
    mapPositionAll (fun _ => .unknown) nodes = nodes.map erased := mapPositionAll_eq_map _ nodes

mutual

theorem isDrawn_of_expression : {node : Node} → IsSourceExpression node → IsDrawn node
  | _, .numeral h => .intro rfl h rfl nofun
  | _, .lookup h => .intro rfl h rfl nofun
  | _, .call h hargs => .intro rfl h (by rw [erased, mapPosition, erased_parts]; rfl)
    fun arg ha => isDrawn_of_expression (hargs arg ha)
  | _, .print h => .intro rfl trivial rfl
    (List.forall_mem_singleton.mpr (isDrawn_of_expression h))
  | _, .binary hop hleft hright => .intro rfl hop rfl (List.forall_mem_cons.mpr
    ⟨isDrawn_of_expression hleft, List.forall_mem_singleton.mpr (isDrawn_of_expression hright)⟩)
  | _, .function hparams _ hbody => .intro rfl hparams
    (by rw [erased, mapPosition, mapPosition, erased_parts]; rfl)
    fun statement hs => isDrawn_of_statement (hbody statement hs)

theorem isDrawn_of_statement : {node : Node} → IsSourceStatement node → IsDrawn node
  | _, .assign hname h => .intro rfl hname rfl
    (List.forall_mem_singleton.mpr (isDrawn_of_expression h))
  | _, .expression h => .intro rfl trivial rfl
    (List.forall_mem_singleton.mpr (isDrawn_of_expression h))

end

theorem isDrawn_of_program {node : Node} (h : IsSourceProgram node) : IsDrawn node := by
  cases node with
  | program body =>
    refine .intro rfl trivial ?_ fun statement hs => isDrawn_of_statement (h statement hs)
    rw [erased, mapPosition, erased_parts]
    rfl
  | _ => exact h.elim

/-! ## Positions leave no trace -/

section Positions

variable (f : Position → Position)

mutual

theorem outlineAt_mapPosition (depth : Nat) : (node : Node) →
    outlineAt depth (mapPosition f node) = outlineAt depth node
  | absent | numeral _ | lookup .. | number _ => rfl
  | literal value => outlineAt_mapPosition depth value
  | program body | function _ body => by
    simp only [mapPosition, outlineAt, outlineAll_mapPosition (depth + 1) body]
  | call _ args _ => by simp only [mapPosition, outlineAt, outlineAll_mapPosition (depth + 1) args]
  | assign _ expr | expression expr | print expr => by
    simp only [mapPosition, outlineAt, outlineAt_mapPosition (depth + 1) expr]
  | binary _ left right _ => by
    simp only [mapPosition, outlineAt, outlineAt_mapPosition (depth + 1) left,
      outlineAt_mapPosition (depth + 1) right]

theorem outlineAll_mapPosition (depth : Nat) : (nodes : List Node) →
    outlineAll depth (mapPositionAll f nodes) = outlineAll depth nodes
  | [] => rfl
  | node :: nodes => by
    simp only [mapPositionAll, outlineAll, outlineAt_mapPosition depth node,
      outlineAll_mapPosition depth nodes]

end

end Positions

theorem Alike.outline?_eq {node node' : Node} (h : node.Alike node') :
    node.outline? = node'.outline? := by
  rw [outline?, ← outlineAt_mapPosition (fun _ => .unknown), h, outlineAt_mapPosition, outline?]

/-- A tree of a source has an outline of lines that can be told apart in a text. -/
theorem IsDrawn.exists_outline {node : Node} (h : IsDrawn node) :
    ∃ lines, node.outline? = some lines ∧ ∀ line ∈ lines, line ≠ "" ∧ '\n' ∉ line.toList := by
  obtain ⟨headline, below, hl, hlines, hbelow⟩ := h.hasLines 0
  refine ⟨_, hlines, List.forall_mem_cons.mpr ⟨?_, fun line hm => ?_⟩⟩
  · have hfirst := (isLineFrom_outlineLine hl).mpr (Nat.le_refl 0)
    exact ⟨hfirst.ne_empty, hfirst.feed_not_mem⟩
  · exact ⟨(hbelow line hm).ne_empty, (hbelow line hm).feed_not_mem⟩

end Node

open Node in
/-- Every program of a source has an outline, and two of them have the same outline exactly if they
are equal up to positions. -/
theorem outlines_tell_programs_apart {source source' : String} {program program' : Node}
    (h : Node.ofSource source = .ok program) (h' : Node.ofSource source' = .ok program') :
    ∃ lines lines', program.outline? = some lines ∧ program'.outline? = some lines' ∧
      (String.intercalate "\n" lines = String.intercalate "\n" lines' ↔ program.Alike program') := by
  have hd := isDrawn_of_program (Reading.ofSource_isSourceProgram h)
  have hd' := isDrawn_of_program (Reading.ofSource_isSourceProgram h')
  obtain ⟨lines, hlines, hsafe⟩ := hd.exists_outline
  obtain ⟨lines', hlines', hsafe'⟩ := hd'.exists_outline
  refine ⟨lines, lines', hlines, hlines', fun htext => ?_, fun halike => ?_⟩
  · obtain rfl := intercalate_inj rfl hsafe hsafe' htext
    exact hd.erased_eq hd' (hlines.trans hlines'.symm)
  · rw [halike.outline?_eq, hlines'] at hlines
    rw [Option.some.inj hlines]

/-- Two groupings of the same operands, whose outlines differ only in the levels of their lines. -/
theorem outlines_tell_groupings_apart :
    ∃ program program', Node.ofSource "a - b - c" = .ok program ∧
      Node.ofSource "a - (b - c)" = .ok program' ∧ ¬ program.Alike program' ∧
      ∃ lines lines', program.outline? = some lines ∧ program'.outline? = some lines' ∧
        (String.intercalate "\n" lines = String.intercalate "\n" lines' ↔
          program.Alike program') := by
  have hscan : scanSource "a - b - c" = .ok
      [⟨.identifier, "a", 1, 1⟩, ⟨.operator, "-", 1, 3⟩, ⟨.identifier, "b", 1, 5⟩,
        ⟨.operator, "-", 1, 7⟩, ⟨.identifier, "c", 1, 9⟩] := by
    with_unfolding_all rfl
  have hscan' : scanSource "a - (b - c)" = .ok
      [⟨.identifier, "a", 1, 1⟩, ⟨.operator, "-", 1, 3⟩, ⟨.punctuation, "(", 1, 5⟩,
        ⟨.identifier, "b", 1, 6⟩, ⟨.operator, "-", 1, 8⟩, ⟨.identifier, "c", 1, 10⟩,
        ⟨.punctuation, ")", 1, 11⟩] := by
    with_unfolding_all rfl
  have hread : Node.ofSource "a - b - c" = .ok (.program [.expression (.binary "-"
      (.binary "-" (.lookup "a" ⟨some 1, some 1⟩) (.lookup "b" ⟨some 1, some 5⟩)
        ⟨some 1, some 3⟩) (.lookup "c" ⟨some 1, some 9⟩) ⟨some 1, some 7⟩)]) := by
    rw [Node.ofSource, hscan]
    rfl
  have hread' : Node.ofSource "a - (b - c)" = .ok (.program [.expression (.binary "-"
      (.lookup "a" ⟨some 1, some 1⟩) (.binary "-" (.lookup "b" ⟨some 1, some 6⟩)
        (.lookup "c" ⟨some 1, some 10⟩) ⟨some 1, some 8⟩) ⟨some 1, some 3⟩)]) := by
    rw [Node.ofSource, hscan']
    rfl
  refine ⟨_, _, hread, hread', ?_, outlines_tell_programs_apart hread hread'⟩
  simp [Node.Alike, Node.mapPosition, Node.mapPositionAll]

end Douro
