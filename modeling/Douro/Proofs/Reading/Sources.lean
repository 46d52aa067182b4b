import Douro.Proofs.Reading.Budget
import Douro.Proofs.Reading.Grammar
import Douro.Proofs.Tree.Writing

/-!
# What a source says

A tree that is read from spelled tokens is one that a source can say: its names and numerals are
spelled, its operators are the four, and no function has a parameter twice.

* `Reads.isSaid`: the trees of a phrase are ones that a source can say.
* `ofSource_isSourceProgram`: the program of a source is one that a source can say.
-/

namespace Douro

namespace Reading

/-- Names that can stand together as parameters. -/
def AreParameters (names : List String) : Prop :=
  (∀ name ∈ names, TokenKind.identifier.Spells name) ∧ names.Nodup

theorem AreParameters.nil : AreParameters [] := ⟨nofun, List.nodup_nil⟩

/-- What a phrase gives is what a source can say; if the phrase goes on with something, provided
that this is. -/
def Phrase.IsSaid : (phrase : Phrase) → phrase.Result → Prop
  | parameters, names => AreParameters names
  | moreParameters seen, names => AreParameters seen → AreParameters names
  | block _, nodes => ∀ node ∈ nodes, IsSourceStatement node
  | statement, node => IsSourceStatement node
  | expression _, node | term _, node | factor _, node => IsSourceExpression node
  | moreTerms _ left, node | moreFactors _ left, node =>
    IsSourceExpression left → IsSourceExpression node
  | arguments, nodes | moreArguments, nodes => ∀ node ∈ nodes, IsSourceExpression node

section Spelled

variable {mode : LineMode} {tokens rest : List Token} {token : Token} {name word : String}
  {seen : List String}

private theorem spells_of_kind {kind : TokenKind} (h : token.Spelled) (hk : token.kind = kind) :
    kind.Spells token.text := hk ▸ h

private theorem spelled_behind_settle (h : ∀ token ∈ tokens, token.Spelled)
    (hs : settle mode tokens = token :: rest) : ∀ token ∈ rest, token.Spelled :=
  spelled_of_suffix h (suffix_of_cons (cons_suffix_of_settle hs))

private theorem spelled_behind_expect (h : ∀ token ∈ tokens, token.Spelled)
    (he : expect mode word tokens = .ok (token, rest)) : ∀ token ∈ rest, token.Spelled :=
  spelled_of_suffix h (suffix_of_cons (expect_suffix he))

private theorem spelled_behind_accept? (h : ∀ token ∈ tokens, token.Spelled)
    (ha : accept? mode word tokens = some rest) : ∀ token ∈ rest, token.Spelled := by
  obtain ⟨_, hs⟩ := accept?_suffix ha
  exact spelled_of_suffix h (suffix_of_cons hs)

private theorem spelled_behind_parameter (h : ∀ token ∈ tokens, token.Spelled)
    (hp : parameter seen tokens = .ok (name, rest)) : ∀ token ∈ rest, token.Spelled := by
  obtain ⟨gap, token, rfl, -⟩ := parameter_name h hp
  exact spelled_of_suffix h (suffix_of_cons (List.suffix_append gap _))

/-- A parameter that is read can stand behind those in `seen`. -/
private theorem AreParameters.concat (hseen : AreParameters seen)
    (h : ∀ token ∈ tokens, token.Spelled) (hp : parameter seen tokens = .ok (name, rest)) :
    AreParameters (seen ++ [name]) := by
  obtain ⟨gap, token, rfl, -, hk, rfl, hnew⟩ := parameter_name h hp
  have hspells := spells_of_kind (h token (by simp)) hk
  constructor
  · rw [List.forall_mem_append, List.forall_mem_singleton]
    exact ⟨hseen.1, hspells⟩
  · refine List.nodup_append.mpr ⟨hseen.2, by simp, fun name hname other hother => ?_⟩
    rw [List.mem_singleton.mp hother]
    exact fun heq => hnew (heq ▸ hname)

private theorem operator_mem {signs : List String} (h : IsOperator signs token) :
    token.text ∈ signs := by
  obtain ⟨sign, hs, -, ht⟩ := h
  rwa [ht]

end Spelled

/-- What is read from spelled tokens is what a source can say. -/
theorem Reads.isSaid {phrase : Phrase} {tokens rest : List Token} {result : phrase.Result}
    (hr : Reads phrase tokens result rest) (h : ∀ token ∈ tokens, token.Spelled) :
    phrase.IsSaid result := by
  induction hr with
  | noParameters _ _ => exact .nil
  | someParameters he _ hp _ ih =>
    have h₁ := spelled_behind_expect h he
    exact ih (spelled_behind_parameter h₁ hp) (AreParameters.nil.concat h₁ hp)
  | nextParameter ha hp _ ih =>
    intro hseen
    have h₁ := spelled_behind_accept? h ha
    exact ih (spelled_behind_parameter h₁ hp) (hseen.concat h₁ hp)
  | lastParameter _ _ | lastTerm _ | lastFactor _ => exact id
  | emptyBlock _ | noArguments _ | lastArgument _ _ => exact nofun
  | lastStatement _ _ _ ih =>
    exact List.forall_mem_singleton.mpr (ih (spelled_of_suffix h (List.dropWhile_suffix _)))
  | nextStatement _ hs _ _ _ ih ih' =>
    have h₁ := spelled_of_suffix h (List.dropWhile_suffix isSeparator)
    exact List.forall_mem_cons.mpr ⟨ih h₁, ih' (spelled_of_suffix h₁ hs.suffix)⟩
  | assign hk _ _ ih =>
    rw [List.forall_mem_cons, List.forall_mem_cons] at h
    exact .assign (spells_of_kind h.1 hk) (ih h.2.2)
  | evaluate _ _ ih => exact .expression (ih h)
  | expression ht _ ih ih' | term ht _ ih ih' =>
    exact ih' (spelled_of_suffix h ht.suffix) (ih h)
  | nextTerm hs hop ht _ ih ih' =>
    intro hleft
    have h₁ := spelled_behind_settle h hs
    have hsign := operator_mem ((addsTerm_iff (spelled_of_settle h hs)).mp hop)
    exact ih' (spelled_of_suffix h₁ ht.suffix)
      (.binary (List.mem_append_left ["*", "/"] hsign) hleft (ih h₁))
  | nextFactor hs hop ht _ ih ih' =>
    intro hleft
    have h₁ := spelled_behind_settle h hs
    have hsign := operator_mem ((addsFactor_iff (spelled_of_settle h hs)).mp hop)
    exact ih' (spelled_of_suffix h₁ ht.suffix)
      (.binary (List.mem_append_right ["+", "-"] hsign) hleft (ih h₁))
  | number hs hk => exact .numeral (spells_of_kind (spelled_of_settle h hs) hk)
  | call hs hk ha _ ih =>
    have h₁ := spelled_behind_settle h hs
    exact .call (spells_of_kind (spelled_of_settle h hs) hk) (ih (spelled_behind_accept? h₁ ha))
  | lookup hs hk _ => exact .lookup (spells_of_kind (spelled_of_settle h hs) hk)
  | print hs _ _ _ _ ih => exact .print (ih (spelled_behind_settle h hs))
  | function hs _ _ _ _ hp ho _ _ ih ih' =>
    have h₁ := spelled_behind_settle h hs
    have h₂ := spelled_of_suffix h₁ hp.suffix
    obtain ⟨hnames, hnodup⟩ := ih h₁
    exact .function hnames hnodup (ih' (spelled_behind_expect h₂ ho))
  | group hs _ _ _ _ _ _ _ ih => exact ih (spelled_behind_settle h hs)
  | someArguments _ he _ ih ih' =>
    exact List.forall_mem_cons.mpr ⟨ih h, ih' (spelled_of_suffix h he.suffix)⟩
  | nextArgument ha he _ ih ih' =>
    have h₁ := spelled_behind_accept? h ha
    exact List.forall_mem_cons.mpr ⟨ih h₁, ih' (spelled_of_suffix h₁ he.suffix)⟩

/-- The program of a source is one that a source can say. -/
theorem ofSource_isSourceProgram {source : String} {program : Node}
    (h : Node.ofSource source = .ok program) : IsSourceProgram program := by
  obtain ⟨tokens, hscan, hread⟩ := ofSource_eq_ok_iff.mp h
  obtain ⟨body, rfl, hr⟩ := ofTokens_eq_ok_iff.mp hread
  exact hr.isSaid (scanSource_spelled hscan)

end Reading

end Douro
