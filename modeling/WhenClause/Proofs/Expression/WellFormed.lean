import WhenClause.Proofs.Expression.Nodes
import WhenClause.Proofs.Expression.Placement

set_option autoImplicit false

/-! # Expressions that texts are read as

All nodes of what a text is read as are regular (`Expression.parse_regular`): no word spells a
comparison, the symbols of the comparisons stand between two operands, and behind the words `and`
and `or` the parser takes no chain. -/

namespace WhenClause

open WhenClause.Parser WhenClause.Lexer

namespace Expression

/-! ## Operators -/

/-- A node of a logical operator is regular with any operands. -/
theorem regular_logical {op : Operator} (hop : op.isLogical = true) (operands : List Expression)
    (negated : Bool) : (Expression.invocation op.name operands negated []).Regular := by
  intro op' hname
  refine ⟨rfl, fun hcomparison => ?_⟩
  have hsame : some op' = some op := by
    rw [← Operator.ofName?_name op', ← Operator.ofName?_name op, hname]
  cases hsame
  rw [hop] at hcomparison
  cases hcomparison

/-- A node of any operator is regular with two operands. -/
theorem regular_binary (name : String) (left right : Expression) (negated : Bool) :
    (Expression.invocation name [left, right] negated []).Regular := fun _ _ => ⟨rfl, fun _ => rfl⟩

/-- A negation is as regular as what it negates. -/
theorem regular_negate {e : Expression} (h : ∀ n ∈ e.nodes, n.Regular) :
    ∀ n ∈ e.negate.nodes, n.Regular := by
  unfold negate
  split
  · rw [nodes, List.forall_mem_cons] at h ⊢
    exact h
  · rw [nodes, List.forall_mem_cons]
    exact ⟨trivial, h⟩

theorem nodes_operator (op : Operator) (operands : List Expression) :
    (operator op operands).nodes = operator op operands :: nodesOfItems operands := by
  rw [operator, call, nodes, nodesOfChain, List.append_nil]

/-- Operands with operators of a level between them. -/
theorem regular_tree (l : Level) {first : Expression} {more : List (Operator × Expression)}
    (hfirst : ∀ n ∈ first.nodes, n.Regular)
    (hmore : ∀ n ∈ nodesOfItems (more.map Prod.snd), n.Regular) :
    ∀ n ∈ (Grammar.tree l first more).nodes, n.Regular := by
  induction more generalizing first with
  | nil => cases l <;> exact hfirst
  | cons pair more ih =>
      have hlogical : ∀ op : Operator, op.isLogical = true →
          ∀ n ∈ (operator op (first :: (pair :: more).map Prod.snd)).nodes, n.Regular := by
        intro op hop
        rw [nodes_operator]
        exact List.forall_mem_cons.mpr ⟨regular_logical hop _ false,
          List.forall_mem_append.mpr ⟨hfirst, hmore⟩⟩
      obtain ⟨hsecond, hrest⟩ := List.forall_mem_append.mp hmore
      have hbinary : ∀ n ∈ (operator pair.1 [first, pair.2]).nodes, n.Regular := by
        rw [nodes_operator, nodesOfItems, nodesOfItems, nodesOfItems, List.append_nil]
        exact List.forall_mem_cons.mpr ⟨regular_binary _ _ _ false,
          List.forall_mem_append.mpr ⟨hfirst, hsecond⟩⟩
      cases l with
      | or => exact hlogical .or rfl
      | and => exact hlogical .and rfl
      | equality | relational => exact ih hbinary hrest

end Expression

/-! ## What derives is regular -/

namespace Grammar

open Expression

/-- A dotted name that begins with a word names no comparison. -/
theorem isLogical_of_dottedName {first : String} (h : isWord first = true) (parts : List String)
    {op : Operator} (hname : op.name = dottedName first parts) : op.isLogical = true := by
  obtain ⟨c, more, hfirst, hc, -⟩ := isWord_cons h
  have hlead : op.name.toList.head?.any startsWord = true := by
    rw [hname, toList_dottedName, hfirst]
    simpa using hc
  cases op with
  | and => rfl
  | or => rfl
  | _ => exact absurd hlead (by decide +kernel)

def Phrase.nodes : Phrase → List Expression
  | .level _ e | .unary e | .primary e => e.nodes
  | .more _ pairs => nodesOfItems (pairs.map Prod.snd)
  | .items _ es | .arguments es => nodesOfItems es
  | .entries es => nodesOfEntries es
  | .dotted _ => []
  | .chain steps => nodesOfChain steps

theorem nodes_operand (l : Level) (e : Expression) : (operand l e).nodes = e.nodes := by
  cases l <;> rfl

/-- **Words and symbols make regular nodes only**, wherever all words are spelled as words. -/
theorem Derives.regular {inside : Bool} {p : Phrase} {ts rest : List Token}
    (h : Derives unchained inside p ts rest) (hts : ∀ t ∈ ts, Spelled t) :
    (∀ n ∈ p.nodes, n.Regular) ∧ ∀ t ∈ rest, Spelled t := by
  -- The tokens behind a phrase are some of those it starts with, and so are spelled as words too.
  induction h with
  | level _ _ ihfirst ihmore =>
      obtain ⟨hfirst, hmid⟩ := ihfirst hts
      obtain ⟨hmore, hrest⟩ := ihmore hmid
      rw [nodes_operand] at hfirst
      exact ⟨regular_tree _ hfirst hmore, hrest⟩
  | noMore => exact ⟨List.forall_mem_nil _, hts⟩
  | more _ _ _ ihe ihmore =>
      obtain ⟨-, hts⟩ := List.forall_mem_cons.mp hts
      obtain ⟨he, hmid⟩ := ihe hts
      obtain ⟨hmore, hrest⟩ := ihmore hmid
      rw [nodes_operand] at he
      exact ⟨List.forall_mem_append.mpr ⟨he, hmore⟩, hrest⟩
  | negation _ _ ih =>
      obtain ⟨he, hrest⟩ := ih (List.forall_mem_cons.mp hts).2
      exact ⟨regular_negate he, hrest⟩
  | term _ _ ih => exact ih hts
  | literal _ =>
      exact ⟨List.forall_mem_singleton.mpr trivial, (List.forall_mem_cons.mp hts).2⟩
  | group _ _ _ ih =>
      obtain ⟨he, hrest⟩ := ih (List.forall_mem_cons.mp hts).2
      exact ⟨he, (List.forall_mem_cons.mp hrest).2⟩
  | emptySequence _ _ =>
      obtain ⟨-, hts⟩ := List.forall_mem_cons.mp hts
      exact ⟨List.forall_mem_singleton.mpr trivial, (List.forall_mem_cons.mp hts).2⟩
  | sequence _ _ ih =>
      obtain ⟨hitems, hrest⟩ := ih (List.forall_mem_cons.mp hts).2
      exact ⟨List.forall_mem_cons.mpr ⟨trivial, hitems⟩, hrest⟩
  | emptyRecord _ _ =>
      obtain ⟨-, hts⟩ := List.forall_mem_cons.mp hts
      exact ⟨List.forall_mem_singleton.mpr trivial, (List.forall_mem_cons.mp hts).2⟩
  | record _ _ ih =>
      obtain ⟨hentries, hrest⟩ := ih (List.forall_mem_cons.mp hts).2
      exact ⟨List.forall_mem_cons.mpr ⟨trivial, hentries⟩, hrest⟩
  | @call _ first parts es steps _ _ _ _ _ _ ht _ _ _ _ hadmits ihparts ihargs ihsteps =>
      obtain ⟨hword, hts⟩ := List.forall_mem_cons.mp hts
      obtain ⟨-, hargs⟩ := ihparts hts
      obtain ⟨hargs, hmid⟩ := ihargs (List.forall_mem_cons.mp hargs).2
      obtain ⟨hsteps, hrest⟩ := ihsteps hmid
      have hroot : (Expression.invocation (dottedName first parts) es false steps).Regular := by
        intro op hname
        have hlogical := isLogical_of_dottedName (hword first ht) parts hname
        refine ⟨?_, fun hcomparison => ?_⟩
        · by_contra hsteps
          have hnone := hadmits hsteps
          rw [← hname, Operator.ofName?_name] at hnone
          cases hnone
        · rw [hlogical] at hcomparison
          cases hcomparison
      exact ⟨List.forall_mem_cons.mpr ⟨hroot, List.forall_mem_append.mpr ⟨hargs, hsteps⟩⟩, hrest⟩
  | word _ _ _ ihparts =>
      exact ⟨List.forall_mem_singleton.mpr trivial, (ihparts (List.forall_mem_cons.mp hts).2).2⟩
  | lastItem _ _ ih =>
      obtain ⟨he, hrest⟩ := ih hts
      exact ⟨List.forall_mem_append.mpr ⟨he, List.forall_mem_nil _⟩,
        (List.forall_mem_cons.mp hrest).2⟩
  | item _ _ _ ih ihmore =>
      obtain ⟨he, hmid⟩ := ih hts
      obtain ⟨hmore, hrest⟩ := ihmore (List.forall_mem_cons.mp hmid).2
      exact ⟨List.forall_mem_append.mpr ⟨he, hmore⟩, hrest⟩
  | noArguments _ => exact ⟨List.forall_mem_nil _, (List.forall_mem_cons.mp hts).2⟩
  | arguments _ ih => exact ih hts
  | lastEntry _ _ _ _ ih =>
      obtain ⟨-, hts⟩ := List.forall_mem_cons.mp hts
      obtain ⟨he, hrest⟩ := ih (List.forall_mem_cons.mp hts).2
      exact ⟨List.forall_mem_append.mpr ⟨he, List.forall_mem_nil _⟩,
        (List.forall_mem_cons.mp hrest).2⟩
  | entry _ _ _ _ _ ih ihmore =>
      obtain ⟨-, hts⟩ := List.forall_mem_cons.mp hts
      obtain ⟨he, hmid⟩ := ih (List.forall_mem_cons.mp hts).2
      obtain ⟨hmore, hrest⟩ := ihmore (List.forall_mem_cons.mp hmid).2
      exact ⟨List.forall_mem_append.mpr ⟨he, hmore⟩, hrest⟩
  | noPart => exact ⟨List.forall_mem_nil _, hts⟩
  | part _ _ _ ih =>
      obtain ⟨-, hts⟩ := List.forall_mem_cons.mp hts
      exact ih (List.forall_mem_cons.mp hts).2
  | noStep => exact ⟨List.forall_mem_nil _, hts⟩
  | property _ _ _ ih =>
      obtain ⟨-, hts⟩ := List.forall_mem_cons.mp hts
      exact ih (List.forall_mem_cons.mp hts).2
  | method _ _ _ _ _ ihargs ihsteps =>
      obtain ⟨-, hts⟩ := List.forall_mem_cons.mp hts
      obtain ⟨-, hts⟩ := List.forall_mem_cons.mp hts
      obtain ⟨hargs, hmid⟩ := ihargs (List.forall_mem_cons.mp hts).2
      obtain ⟨hsteps, hrest⟩ := ihsteps hmid
      exact ⟨List.forall_mem_append.mpr ⟨hargs, hsteps⟩, hrest⟩

end Grammar

namespace Expression

open Grammar

/-- **Every node of what a text is read as is regular.** -/
theorem parse_regular {text : String} {e : Expression} (h : parse text = .ok e) :
    ∀ n ∈ e.nodes, n.Regular := by
  obtain ⟨ts, hts, hmeans⟩ := tokens_of_parse h
  exact (hmeans.regular (scan_spelled hts)).1

end Expression

end WhenClause
