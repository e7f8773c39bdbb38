import WhenClause.Expression.Json
import WhenClause.Proofs.Json.Readability

set_option autoImplicit false

/-! # The JSON of an expression identifies its tree

JSON has no infinities and no NaN, so number literals of these kinds are written as null. Up to
that (`Expression.nulled`), expressions with one JSON value, or with one JSON text, are one tree
(`Expression.toJson_eq_iff`, `Expression.json_identifies`). -/

namespace WhenClause

/-! ## Infinities and NaN as null -/

/-- The literal, or null in place of a number that is not finite. -/
def Literal.nulled : Literal → Literal
  | .number x => if x.isFinite then .number x else .null
  | l => l

namespace Expression

mutual

/-- The expression with null in place of every number literal that is not finite. -/
def nulled : Expression → Expression
  | .literal value => .literal value.nulled
  | .sequence items => .sequence (nulledItems items)
  | .record entries => .record (nulledEntries entries)
  | .invocation name args negated chain =>
      .invocation name (nulledItems args) negated (nulledChain chain)
  | .not inner => .not (nulled inner)

/-- A list of expressions with null in place of every number literal that is not finite. -/
def nulledItems : List Expression → List Expression
  | [] => []
  | e :: rest => nulled e :: nulledItems rest

/-- The entries of a record with null in place of every number literal that is not finite. -/
def nulledEntries : List (String × Expression) → List (String × Expression)
  | [] => []
  | (key, e) :: rest => (key, nulled e) :: nulledEntries rest

/-- The steps of a chain with null in place of every number literal that is not finite. -/
def nulledChain : List Step → List Step
  | [] => []
  | .property key :: rest => .property key :: nulledChain rest
  | .method name args :: rest => .method name (nulledItems args) :: nulledChain rest

end

/-! ## The JSON does not tell them from null -/

theorem toJson_literal_nulled (value : Literal) : value.nulled.toJson = value.toJson := by
  cases value with
  | number x =>
      by_cases hfin : x.isFinite = true
      · rw [Literal.nulled, if_pos hfin]
      · rw [Literal.nulled, if_neg hfin, Literal.toJson, Literal.toJson, if_neg hfin]
  | _ => rfl

theorem isEmpty_nulledChain (chain : List Step) : (nulledChain chain).isEmpty = chain.isEmpty := by
  cases chain with
  | nil => simp [nulledChain]
  | cons step chain => cases step <;> simp [nulledChain]

mutual

theorem toJson_nulled (e : Expression) : e.nulled.toJson = e.toJson := by
  cases e with
  | literal value => simp only [nulled, toJson, toJson_literal_nulled value]
  | sequence items => simp only [nulled, toJson, itemsToJson_nulled items]
  | record entries => simp only [nulled, toJson, entriesToJson_nulled entries]
  | invocation name args negated chain =>
      simp only [nulled, toJson, itemsToJson_nulled args, chainToJson_nulled chain,
        isEmpty_nulledChain]
  | not inner => simp only [nulled, toJson, toJson_nulled inner]

theorem itemsToJson_nulled (items : List Expression) :
    itemsToJson (nulledItems items) = itemsToJson items := by
  cases items with
  | nil => simp only [nulledItems]
  | cons e rest => simp only [nulledItems, itemsToJson, toJson_nulled e, itemsToJson_nulled rest]

theorem entriesToJson_nulled (entries : List (String × Expression)) :
    entriesToJson (nulledEntries entries) = entriesToJson entries := by
  cases entries with
  | nil => simp only [nulledEntries]
  | cons entry rest =>
      simp only [nulledEntries, entriesToJson, toJson_nulled entry.2, entriesToJson_nulled rest]

theorem chainToJson_nulled (chain : List Step) :
    chainToJson (nulledChain chain) = chainToJson chain := by
  cases chain with
  | nil => simp only [nulledChain]
  | cons step rest =>
      cases step with
      | property key => simp only [nulledChain, chainToJson, chainToJson_nulled rest]
      | method name args =>
          simp only [nulledChain, chainToJson, itemsToJson_nulled args, chainToJson_nulled rest]

end

/-! ## The JSON tells everything else -/

theorem nulled_literal_of_toJson {v w : Literal} (h : v.toJson = w.toJson) :
    v.nulled = w.nulled := by
  have number (x : Number) (w : Literal) (h : (Literal.number x).toJson = w.toJson) :
      (Literal.number x).nulled = w.nulled := by
    cases w <;> simp only [Literal.toJson, Literal.nulled] at h ⊢ <;>
      split_ifs at h ⊢ <;> simp_all
  cases v with
  | number x => exact number x w h
  | _ =>
      cases w with
      | number y => exact (number y _ h.symm).symm
      | _ => simp_all [Literal.toJson]

/-- The entries that are written for an invocation tell whether it is negated and whether it has
a chain. -/
theorem invocation_of_entries {name name' : String} {args args' : List Json}
    {negated negated' : Bool} {chain chain' : List Step}
    (h : [("name", Json.string name), ("args", .array args)] ++
          (if negated then [("negated", .bool true)] else []) ++
          (if chain.isEmpty then [] else [("chain", .array (chainToJson chain))]) =
        [("name", Json.string name'), ("args", .array args')] ++
          (if negated' then [("negated", .bool true)] else []) ++
          (if chain'.isEmpty then [] else [("chain", .array (chainToJson chain'))])) :
    name = name' ∧ args = args' ∧ negated = negated' ∧ chainToJson chain = chainToJson chain' := by
  cases negated <;> cases negated' <;> cases chain <;> cases chain' <;> simp at h ⊢ <;> tauto

mutual

/-- Expressions with one JSON value are one tree. -/
theorem nulled_of_toJson {e f : Expression} (h : e.toJson = f.toJson) : e.nulled = f.nulled := by
  cases e <;> cases f <;>
    simp only [toJson, Json.object.injEq, List.cons.injEq, Prod.mk.injEq, Json.array.injEq,
      reduceCtorEq, String.reduceEq, false_and, true_and, and_true] at h
  case literal.literal => simp only [nulled, nulled_literal_of_toJson h]
  case sequence.sequence => simp only [nulled, nulledItems_of_toJson h]
  case record.record => simp only [nulled, nulledEntries_of_toJson h]
  case invocation.invocation =>
    obtain ⟨hname, hargs, hnegated, hchain⟩ := invocation_of_entries h
    simp only [nulled, hname, nulledItems_of_toJson hargs, hnegated, nulledChain_of_toJson hchain]
  case not.not => simp only [nulled, nulled_of_toJson h]
termination_by structural e

theorem nulledItems_of_toJson {as bs : List Expression} (h : itemsToJson as = itemsToJson bs) :
    nulledItems as = nulledItems bs := by
  cases as <;> cases bs <;> simp only [itemsToJson, List.cons.injEq, reduceCtorEq] at h
  case nil.nil => rfl
  case cons.cons => simp only [nulledItems, nulled_of_toJson h.1, nulledItems_of_toJson h.2]
termination_by structural as

theorem nulledEntries_of_toJson {as bs : List (String × Expression)}
    (h : entriesToJson as = entriesToJson bs) : nulledEntries as = nulledEntries bs := by
  cases as <;> cases bs <;>
    simp only [entriesToJson, List.cons.injEq, Json.array.injEq, Json.string.injEq,
      reduceCtorEq] at h
  case nil.nil => rfl
  case cons.cons =>
    obtain ⟨⟨hkey, hvalue, -⟩, hrest⟩ := h
    simp only [nulledEntries, hkey, nulled_of_toJson hvalue, nulledEntries_of_toJson hrest]
termination_by structural as

theorem nulledChain_of_toJson {as bs : List Step} (h : chainToJson as = chainToJson bs) :
    nulledChain as = nulledChain bs := by
  cases as with
  | nil =>
      cases bs with
      | nil => rfl
      | cons step bs => cases step <;> simp [chainToJson] at h
  | cons step as =>
      cases bs with
      | nil => cases step <;> simp [chainToJson] at h
      | cons step' bs =>
          cases step <;> cases step' <;>
            simp only [chainToJson, List.cons.injEq, Json.object.injEq, Json.array.injEq,
              Json.string.injEq, Prod.mk.injEq, reduceCtorEq, String.reduceEq, false_and, true_and,
              and_true] at h
          case property.property =>
            simp only [nulledChain, h.1, nulledChain_of_toJson h.2]
          case method.method =>
            obtain ⟨⟨hname, hargs⟩, hrest⟩ := h
            simp only [nulledChain, hname, nulledItems_of_toJson hargs,
              nulledChain_of_toJson hrest]
termination_by structural as

end

/-- **Expressions have one JSON value** exactly when they are one tree once every number that is
not finite is null. -/
theorem toJson_eq_iff {e f : Expression} : e.toJson = f.toJson ↔ e.nulled = f.nulled := by
  constructor
  · exact nulled_of_toJson
  · intro h
    rw [← toJson_nulled e, h, toJson_nulled]

/-! ## Its text -/

mutual

/-- The JSON of an expression has no infinity and no NaN. -/
theorem finite_toJson (e : Expression) : e.toJson.Finite := by
  cases e with
  | literal value =>
      cases value with
      | number x =>
          cases hx : x.isFinite with
          | true => simp [toJson, Literal.toJson, Json.Finite, Json.FiniteEntries, hx]
          | false => simp [toJson, Literal.toJson, Json.Finite, Json.FiniteEntries, hx]
      | _ => simp [toJson, Literal.toJson, Json.Finite, Json.FiniteEntries]
  | sequence items =>
      simp [toJson, Json.Finite, Json.FiniteEntries, finite_itemsToJson items]
  | record entries =>
      simp [toJson, Json.Finite, Json.FiniteEntries, finite_entriesToJson entries]
  | invocation name args negated chain =>
      cases negated <;> cases hchain : chain.isEmpty <;>
        simp [toJson, Json.Finite, Json.FiniteEntries, hchain, finite_itemsToJson args,
          finite_chainToJson chain]
  | not inner => simp [toJson, Json.Finite, Json.FiniteEntries, finite_toJson inner]

theorem finite_itemsToJson (items : List Expression) : Json.FiniteItems (itemsToJson items) := by
  cases items with
  | nil => simp [itemsToJson, Json.FiniteItems]
  | cons e rest => exact ⟨finite_toJson e, finite_itemsToJson rest⟩

theorem finite_entriesToJson (entries : List (String × Expression)) :
    Json.FiniteItems (entriesToJson entries) := by
  cases entries with
  | nil => simp [entriesToJson, Json.FiniteItems]
  | cons entry rest =>
      exact ⟨⟨trivial, finite_toJson entry.2, trivial⟩, finite_entriesToJson rest⟩

theorem finite_chainToJson (chain : List Step) : Json.FiniteItems (chainToJson chain) := by
  cases chain with
  | nil => simp [chainToJson, Json.FiniteItems]
  | cons step rest =>
      cases step with
      | property key => exact ⟨⟨trivial, trivial⟩, finite_chainToJson rest⟩
      | method name args =>
          exact ⟨⟨⟨trivial, finite_itemsToJson args, trivial⟩, trivial⟩, finite_chainToJson rest⟩

end

/-- **The JSON of an expression identifies its tree.** Expressions have one JSON value, and one
JSON text, exactly when they are one tree once every number that is not finite is null. -/
theorem json_identifies (e f : Expression) :
    (e.toJson = f.toJson ↔ e.nulled = f.nulled) ∧
      (e.toJson.pretty = f.toJson.pretty ↔ e.nulled = f.nulled) := by
  refine ⟨toJson_eq_iff, ?_⟩
  rw [← toJson_eq_iff]
  constructor
  · exact Json.pretty_inj (finite_toJson e) (finite_toJson f)
  · exact congrArg Json.pretty

end Expression

end WhenClause
