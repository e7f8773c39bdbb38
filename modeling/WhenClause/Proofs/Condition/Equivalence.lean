import Mathlib.Data.List.MinMax
import WhenClause.Proofs.Condition.Agreement
import WhenClause.Proofs.Condition.Denotation

set_option autoImplicit false

/-! # Conditions in JSON are expressions

Both ways to ask a predicate give the same answers: a JSON array, checked as the condition that it
is, and the expression that it says (`ofJson_check_eq_translation`). -/

namespace WhenClause

open Stateful

/-! ## What conditions in JSON hold is data -/

namespace Call

theorem plain_coerce (arg : List Char) : (coerce arg).Plain := by
  unfold coerce
  split
  · exact trivial
  split
  · exact trivial
  split
  · exact trivial
  split <;> exact trivial

theorem plain_map_ofJson (items : List Json) : Value.PlainItems (items.map Value.ofJson) := by
  rw [Value.plainItems_iff]
  intro v hv
  obtain ⟨j, -, rfl⟩ := List.mem_map.mp hv
  exact Value.plain_ofJson j

theorem plain_readArguments {text : List Char} {args : List Value}
    (h : readArguments text = .ok args) : Value.PlainItems args := by
  unfold readArguments at h
  split at h
  · split at h
    · cases h
      exact plain_map_ofJson _
    · cases h
  split at h
  · cases h
    exact trivial
  · cases h
    rw [Value.plainItems_iff]
    intro v hv
    obtain ⟨arg, -, rfl⟩ := List.mem_map.mp hv
    exact plain_coerce _

theorem plain_readBody {text : List Char} {name : String} {args : List Value}
    (h : readBody text = .ok (name, args)) : Value.PlainItems args := by
  unfold readBody at h
  split at h
  · cases hargs : readArguments (List.dropLast ‹List Char›) with
    | error e =>
        rw [hargs] at h
        cases h
    | ok found =>
        rw [hargs] at h
        cases h
        exact plain_readArguments hargs
  · cases h
    exact trivial

theorem plain_argumentsOf (j : Option Json) : Value.PlainItems (argumentsOf j) := by
  unfold argumentsOf
  split
  · exact trivial
  · exact trivial
  · exact plain_map_ofJson _
  · exact ⟨Value.plain_ofJson _, trivial⟩

/-- The arguments of a call in JSON are data. -/
theorem plain_ofJson {j : Json} {c : Call} (h : ofJson j = .ok c) : Value.PlainItems c.args := by
  unfold ofJson at h
  split at h
  next text =>
    unfold ofText at h
    cases hbody : readBody (splitNegation text.toList).2 with
    | error e => simp [hbody, bind, Except.bind] at h
    | ok found =>
        obtain ⟨name, args⟩ := found
        have hplain := plain_readBody hbody
        simp only [hbody, bind, Except.bind, pure, Except.pure, Except.ok.injEq] at h
        rw [← h]
        exact hplain
  next =>
    split at h
    · cases h
      exact plain_argumentsOf _
    · cases h
  next => cases h

end Call

namespace Condition

def Plain (c : Condition) : Prop := ∀ leaf ∈ c.leaves, leaf.LeafPlain

theorem mem_partLeaves {parts : List Condition} {leaf : Condition} :
    leaf ∈ partLeaves parts ↔ ∃ part ∈ parts, leaf ∈ part.leaves := by
  induction parts with
  | nil => simp [partLeaves]
  | cons part rest ih => simp [partLeaves, ih]

theorem mem_groupLeaves {groups : List (List Condition)} {leaf : Condition} :
    leaf ∈ groupLeaves groups ↔ ∃ group ∈ groups, leaf ∈ partLeaves group := by
  induction groups with
  | nil => simp [groupLeaves]
  | cons group rest ih => simp [groupLeaves, ih]

theorem plain_leaf {leaf : Condition} (hleaves : leaf.leaves = [leaf]) (h : leaf.LeafPlain) :
    leaf.Plain := by
  intro leaf' hmem
  rw [hleaves, List.mem_singleton] at hmem
  exact hmem ▸ h

theorem plain_ofComparison (operator context right : Json) :
    (ofComparison operator context right).Plain := by
  unfold ofComparison
  split
  next hop hc =>
    exact plain_leaf rfl ⟨Call.plain_ofJson hc, Call.plain_ofJson hop, Value.plain_ofJson right⟩
  next => exact plain_leaf rfl trivial
  next => exact plain_leaf rfl trivial

theorem plain_ofItem {j : Json} {nested : Condition} (h : nested.Plain) :
    (ofItem j nested).Plain := by
  unfold ofItem
  split
  · exact plain_ofComparison _ _ _
  split
  · split
    next hc => exact plain_leaf rfl (Call.plain_ofJson hc)
    next => exact plain_leaf rfl trivial
  · split
    · exact h
    · exact plain_leaf rfl trivial

theorem plain_ofPart {part : List (Json × Condition)} (h : ∀ item ∈ part, item.2.Plain) :
    (ofPart part).Plain := by
  unfold ofPart
  split
  · exact plain_ofItem (h _ List.mem_cons_self)
  · split
    · exact plain_ofComparison _ _ _
    · exact plain_leaf rfl trivial
  · exact plain_leaf rfl trivial

theorem plain_readPart {part : List Json} (h : ∀ j ∈ part, (ofJson j).Plain) :
    (readPart part).Plain :=
  plain_ofPart (List.forall_mem_map.mpr h)

theorem plain_array {items : List Json} (h : ∀ j ∈ items, (ofJson j).Plain) :
    (ofJson (.array items)).Plain := by
  rw [ofJson_array]
  intro leaf hleaf
  obtain ⟨parts, hparts, hleaf⟩ := mem_groupLeaves.mp hleaf
  obtain ⟨group, hgroup, rfl⟩ := List.mem_map.mp hparts
  obtain ⟨c, hc, hleaf⟩ := mem_partLeaves.mp hleaf
  obtain ⟨part, hpart, rfl⟩ := List.mem_map.mp hc
  refine plain_readPart (fun j hj => h j ?_) leaf hleaf
  exact (pieces_splitOn "or" items).mem hgroup ((pieces_splitOn "and" group).mem hpart hj)

mutual

theorem plain_ofJson (j : Json) : (ofJson j).Plain := by
  match j with
  | .array items => exact plain_array (plain_items items)
  | .null | .bool _ | .integer _ | .float _ | .string _ | .object _ =>
      rw [ofJson]
      · exact plain_leaf rfl trivial
      · simp

theorem plain_items (items : List Json) : ∀ j ∈ items, (ofJson j).Plain := by
  match items with
  | [] => exact List.forall_mem_nil _
  | j :: rest => exact List.forall_mem_cons.mpr ⟨plain_ofJson j, plain_items rest⟩

end

/-! ## The same answers -/

theorem error?_refusals {c leaf : Condition} (hleaf : leaf ∈ c.leaves) {name : String}
    (hname : name ∈ leaf.leafNames) : c.refusals.error? name = none := by
  refine Refusals.error?_of_length ?_
  have hmem : name.length ∈ (c.leaves.flatMap leafNames).map String.length :=
    List.mem_map_of_mem (List.mem_flatMap.mpr ⟨leaf, hleaf, hname⟩)
  exact List.le_max_of_le' 0 hmem le_rfl

/-- **Checking a condition is evaluating its expression.** The JSON value is any at all, the host
and its monad are too. The expression is the one that the value says. Both computations start with
an empty memory, and they are equal as computations on the history of real calls: they give the
same truth value or the same error, ask the host for the same calls in the same order, and leave
the same memory and log. -/
theorem ofJson_check_eq_translation {m : Type → Type} [Monad m] [LawfulMonad m] (host : Host m)
    (verbose : Bool) (j : Json) (h : (ofJson j).Unreserved) :
    (∀ e, Denotes (ofJson j).refusals (.whole j e) ↔ e = (ofJson j).translation) ∧
      runIn ((ofJson j).check (host.asked.memoized verbose)) Memory.empty =
        runIn ((ofJson j).translation.check
          ((host.asked.refusing (ofJson j).refusals).memoized verbose)) Memory.empty := by
  refine ⟨fun e => denotes_iff, ?_⟩
  refine runIn_eq_of_agreement (check_agrees host.asked verbose (ofJson j) ?_)
  intro leaf hleaf
  exact
    { plain := plain_ofJson j leaf hleaf
      unreserved := h leaf hleaf
      names := fun name hname => error?_refusals hleaf hname
      fault := fun e he => List.mem_filterMap.mpr ⟨leaf, hleaf, he⟩ }

/-- A condition with a comparison, a negated call and a malformed part, for commands that all
return 4. -/
theorem sample_check_eq_translation :
    let sample := Json.array
      [.array [.string "size(a)", .string "!>", .integer 3], .string "or",
        .string "!ready", .string "and", .integer 5]
    let host : Host Id :=
      ⟨fun _ _ => pure (.number (Number.ofNat 4)), fun _ _ => none, fun _ _ => throw ""⟩
    (ofJson sample).Unreserved ∧
      runIn ((ofJson sample).check (host.asked.memoized false)) Memory.empty =
        runIn ((ofJson sample).translation.check
          ((host.asked.refusing (ofJson sample).refusals).memoized false)) Memory.empty := by
  intro sample host
  have h : (ofJson sample).Unreserved := by decide +kernel
  exact ⟨h, (ofJson_check_eq_translation host false sample h).2⟩

end Condition

end WhenClause
