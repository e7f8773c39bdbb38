import WhenClause.Condition.Reading
import WhenClause.Proofs.Dictionary
import WhenClause.Proofs.Evaluation.Equations

set_option autoImplicit false

/-! # Values written as expressions

Data has an expression of its own: literals for what is simple, sequences and records for the
rest. Evaluating it asks the host for nothing and gives the value back (`eval_quote`). The values
that conditions hold are data (`plain_ofJson`, `plain_coerce`). -/

namespace WhenClause.Value

/-! ## Data -/

mutual

/-- The value is data throughout, and the fields of its records are in their order. -/
def Plain : Value → Prop
  | .null | .bool _ | .number _ | .string _ => True
  | .array items => PlainItems items
  | .record fields => Dictionary.Sorted fields ∧ PlainFields fields
  | .function _ _ _ | .handle _ => False

def PlainItems : List Value → Prop
  | [] => True
  | v :: rest => Plain v ∧ PlainItems rest

def PlainFields : List (String × Value) → Prop
  | [] => True
  | (_, v) :: rest => Plain v ∧ PlainFields rest

end

theorem plainItems_iff {items : List Value} : PlainItems items ↔ ∀ v ∈ items, Plain v := by
  induction items with
  | nil => simp [PlainItems]
  | cons v rest ih => simp [PlainItems, ih]

theorem plainFields_iff {fields : List (String × Value)} :
    PlainFields fields ↔ ∀ e ∈ fields, Plain e.2 := by
  induction fields with
  | nil => simp [PlainFields]
  | cons e rest ih => simp [PlainFields, ih]

mutual

theorem plain_ofJson (j : Json) : Plain (ofJson j) := by
  match j with
  | .null | .bool _ | .integer _ | .float _ | .string _ => exact trivial
  | .array items => exact plain_ofJsonItems items
  | .object entries =>
      have hentries := plainFields_iff.mp (plain_ofJsonEntries entries)
      refine ⟨Dictionary.ofList_sorted _, plainFields_iff.mpr fun e he => ?_⟩
      exact hentries e (Dictionary.mem_ofList he)

theorem plain_ofJsonItems (items : List Json) : PlainItems (ofJsonItems items) := by
  match items with
  | [] => exact trivial
  | j :: rest => exact ⟨plain_ofJson j, plain_ofJsonItems rest⟩

theorem plain_ofJsonEntries (entries : List (String × Json)) :
    PlainFields (ofJsonEntries entries) := by
  match entries with
  | [] => exact trivial
  | (_, j) :: rest => exact ⟨plain_ofJson j, plain_ofJsonEntries rest⟩

end

/-! ## Quotation -/

mutual

/-- The expression of a value. Functions and handles have none; null stands in for them. -/
def quote : Value → Expression
  | .null => .literal .null
  | .bool b => .literal (.bool b)
  | .number x => .literal (.number x)
  | .string s => .literal (.string s)
  | .array items => .sequence (quoteItems items)
  | .record fields => .record (quoteFields fields)
  | .function _ _ _ | .handle _ => .literal .null

def quoteItems : List Value → List Expression
  | [] => []
  | v :: rest => quote v :: quoteItems rest

def quoteFields : List (String × Value) → List (String × Expression)
  | [] => []
  | (key, v) :: rest => (key, quote v) :: quoteFields rest

end

section Evaluation

open Expression

variable {m : Type → Type} [Monad m] [LawfulMonad m] (host : Host m)

mutual

/-- **A quoted value evaluates to itself**, without asking the host for anything. -/
theorem eval_quote {v : Value} (h : Plain v) : eval host v.quote = pure v := by
  match v with
  | .null | .bool _ | .number _ | .string _ => exact eval_literal host _
  | .array items =>
      show eval host (.sequence (quoteItems items)) = _
      rw [eval_sequence, evalItems_quote h, pure_bind]
  | .record fields =>
      obtain ⟨hsorted, hplain⟩ := h
      show eval host (.record (quoteFields fields)) = _
      rw [eval_record, evalEntries_quote [] hsorted hplain, pure_bind]
      rfl

theorem evalItems_quote {items : List Value} (h : PlainItems items) :
    evalItems host (quoteItems items) = pure items := by
  match items with
  | [] => exact evalItems_nil host
  | v :: rest =>
      obtain ⟨hv, hrest⟩ := h
      show evalItems host (quote v :: quoteItems rest) = _
      rw [evalItems_cons, eval_quote hv, evalItems_quote hrest, pure_bind, pure_bind]

/-- Fields in their order go behind those that are there. -/
theorem evalEntries_quote (before : List (String × Value)) {fields : List (String × Value)}
    (hsorted : Dictionary.Sorted (before ++ fields)) (hplain : PlainFields fields) :
    evalEntries host before (quoteFields fields) = pure (before ++ fields) := by
  match fields with
  | [] =>
      rw [List.append_nil]
      exact evalEntries_nil host before
  | (key, v) :: rest =>
      obtain ⟨hv, hrest⟩ := hplain
      -- The induction is on the fields that are left; the ones before have smaller keys.
      have hlast : Dictionary.insert key v before = before ++ [(key, v)] :=
        Dictionary.insert_last fun e he =>
          (List.pairwise_append.mp hsorted).2.2 e he (key, v) List.mem_cons_self
      show evalEntries host before ((key, quote v) :: quoteFields rest) = _
      rw [evalEntries_cons, eval_quote hv, pure_bind, hlast,
        evalEntries_quote _ (by simpa using hsorted) hrest, List.append_assoc]
      rfl

end

end Evaluation

end WhenClause.Value
