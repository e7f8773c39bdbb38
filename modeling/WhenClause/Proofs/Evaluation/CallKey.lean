import WhenClause.Evaluation.Memo
import WhenClause.Proofs.Value.Sameness

set_option autoImplicit false

/-! # Keys of calls

Two calls share a key exactly when they are the same call: the same name and, argument by
argument, the same values (`CallKey.same_of_iff`). A result remembered under a key is thus never
given to another call, and the same call is never made twice for want of its key. -/

namespace WhenClause.CallKey

/-- Argument lists share a text exactly when their items are the same. -/
theorem argumentText_eq_iff (as bs : List Value) :
    argumentText as = argumentText bs ↔ List.Forall₂ (fun a b => a.same b = true) as bs := by
  unfold Value.same
  rw [← Value.equalItemsWith_iff]
  constructor
  · intro h
    have hsame := (Value.canonical_append_inj (r := []) (s := []) (Or.inl rfl) (Or.inl rfl)
      (congrArg (· ++ []) h)).1
    simpa only [Value.same, Value.equalWith] using hsame
  · intro h
    exact Value.write_eq_of_same Value.identifying (by simpa only [Value.same, Value.equalWith] using h)

/-- **Keys tell calls apart.** Two calls have equal keys exactly when their names are equal and
their arguments are the same, one by one: deeply equal, except that NaN is the same as NaN. -/
theorem same_of_iff (n m : String) (as bs : List Value) :
    (of n as).same (of m bs) = true ↔
      n = m ∧ List.Forall₂ (fun a b => a.same b = true) as bs := by
  rw [← argumentText_eq_iff]
  simp [same, of]

end WhenClause.CallKey
