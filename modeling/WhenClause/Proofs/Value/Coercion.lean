import WhenClause.Proofs.Text.Pieces
import WhenClause.Proofs.Value.Order

set_option autoImplicit false

/-! # Words against numbers

A string without a digit is a word, and a word is coerced to no number, except that there are words
for infinity and for "not a number". NaN has no place in the order either. So the words that are
ordered against what is no string are those for infinity (`Value.word_unordered_iff`). -/

namespace WhenClause

/-! ## Texts without digits -/

namespace Text

theorem mem_of_mem_trim {s : List Char} {c : Char} (h : c ∈ trim s) : c ∈ s :=
  (List.dropWhile_sublist isBlank).mem ((List.rdropWhile_prefix isBlank _).mem h)

/-- A text with a character that is not blank is not trimmed away. -/
theorem trim_ne_nil {s : List Char} (h : ∃ c ∈ s, isBlank c = false) : trim s ≠ [] := by
  obtain ⟨c, hc, hblank⟩ := h
  induction s with
  | nil => cases hc
  | cons d s ih =>
      cases hd : isBlank d with
      | false => exact trim_cons_ne_nil hd s
      | true =>
          rw [trim_cons_blank hd]
          refine ih ((List.mem_cons.mp hc).resolve_left ?_)
          rintro rfl
          rw [hd] at hblank
          cases hblank

/-- A character that is no letter has no other case. -/
theorem eq_of_toLower_eq {c d : Char} (hd : d.isAlpha = false) (h : c.toLower = d) : c = d := by
  have hletter : c.isAlpha = false := by rw [← Char.isAlpha_toLower_eq_isAlpha, h, hd]
  have hupper : c.isUpper = false := by
    rw [Char.isAlpha, Bool.or_eq_false_iff] at hletter
    exact hletter.1
  rw [← h, Char.toLower_eq_of_not_isUpper (by rw [hupper]; exact Bool.false_ne_true)]

end Text

namespace Decimal

theorem mem_of_mem_readSign {s : List Char} {c : Char} (h : c ∈ (readSign s).2) : c ∈ s := by
  unfold readSign at h
  split at h
  · exact List.mem_cons_of_mem _ h
  · exact List.mem_cons_of_mem _ h
  · exact h

theorem readUnsigned?_eq_none (negative : Bool) {s : List Char}
    (h : ∀ c ∈ s, isDigit c = false) : readUnsigned? negative s = none := by
  have hrun {r : List Char} (hr : ∀ c ∈ r, isDigit c = false) : r.takeWhile isDigit = [] := by
    cases r with
    | nil => rfl
    | cons c r => rw [List.takeWhile_cons, hr c List.mem_cons_self, if_neg Bool.false_ne_true]
  have hrest : s.dropWhile isDigit = s := by
    have hsplit := List.takeWhile_append_dropWhile (p := isDigit) (l := s)
    rwa [hrun h, List.nil_append] at hsplit
  simp only [readUnsigned?, hrun h, hrest, List.isEmpty_nil, Bool.true_and]
  -- Neither in front of the point nor behind it does a digit stand.
  split
  next r =>
    have hbehind : r.takeWhile isDigit = [] := hrun fun c hc => h c (List.mem_cons_of_mem _ hc)
    rw [hbehind]
    rfl
  next => rfl

end Decimal

/-! ## The words for infinity -/

namespace Number

def infinityWords : List (List Char) :=
  ["inf", "infinity", "+inf", "+infinity", "-inf", "-infinity"].map String.toList

/-- The text is a word for infinity, in any case. -/
def spellsInfinity (s : List Char) : Bool := infinityWords.contains (s.map Char.toLower)

/-- A text without a digit is read as a word behind its sign. -/
theorem read?_word {s : List Char} (h : ∀ c ∈ s, Decimal.isDigit c = false) :
    read? s = ofWord? (Decimal.readSign s).1 (Decimal.readSign s).2 := by
  have hrest : ∀ c ∈ (Decimal.readSign s).2, Decimal.isDigit c = false :=
    fun c hc => h c (Decimal.mem_of_mem_readSign hc)
  rw [read?]
  dsimp only
  rw [Decimal.readUnsigned?_eq_none _ hrest]

/-- A word for infinity is one behind its sign. -/
theorem spellsInfinity_iff (s : List Char) :
    spellsInfinity s = true ↔
      String.ofList ((Decimal.readSign s).2.map Char.toLower) = "inf" ∨
        String.ofList ((Decimal.readSign s).2.map Char.toLower) = "infinity" := by
  rw [spellsInfinity, List.contains_iff_mem, ← String.toList_inj, ← String.toList_inj,
    String.toList_ofList]
  unfold Decimal.readSign
  split
  next rest => simp [infinityWords]
  next rest => simp [infinityWords]
  next hminus hplus =>
    -- A sign has no other case, so no other character becomes one.
    have hsign {d : Char} (hd : d.isAlpha = false) (hs : ∀ rest, s ≠ d :: rest)
        (word : List Char) : s.map Char.toLower ≠ d :: word := by
      intro h
      obtain ⟨c, rest, rfl, hc, -⟩ := List.map_eq_cons_iff.mp h
      exact hs rest (by rw [Text.eq_of_toLower_eq hd hc])
    have hminus' := hsign (d := '-') (by decide) hminus
    have hplus' := hsign (d := '+') (by decide) hplus
    simp [infinityWords, hminus', hplus']

/-- A text without a digit stands for a number with a place if and only if it is a word for
infinity. -/
theorem place?_word {s : List Char} (h : ∀ c ∈ s, Decimal.isDigit c = false) :
    (read? s).bind place? = none ↔ spellsInfinity s = false := by
  have hinfinity (negative : Bool) : (infinity negative).place? ≠ none := by
    cases negative <;> decide
  have hnan : nan.place? = none := by decide
  rw [read?_word h, ← Bool.not_eq_true, spellsInfinity_iff, ofWord?]
  split
  next hword => simp [hinfinity, hword]
  next hword =>
    split
    next => simp [hnan, hword]
    next => simp [hword]

end Number

/-! ## Strings -/

namespace Value

open Operator

/-- A value is ordered against none of the values that are no strings if and only if it has no
place. Null has one, so it is enough to compare with null. -/
theorem unordered_iff (v : Value) :
    (∀ w : Value, w.isString = false → ∀ op ∈ orderings,
        op.holds v w = false ∧ op.holds w v = false) ↔ v.place? = none := by
  have hmeasure {w : Value} (hw : w.isString = false) : OrderedBy place? v w :=
    orderedBy_place? fun h => Bool.false_ne_true (hw.symm.trans h.2)
  constructor
  · intro h
    cases hp : v.place? with
    | none => rfl
    | some p =>
        have hnull : v.compare null = some (Ord.compare p 0) := by
          rw [show v.compare null = _ from hmeasure rfl, hp]
          rfl
        have hless := (h null rfl less (by decide)).1
        have hlessEqual := (h null rfl lessEqual (by decide)).1
        have hgreater := (h null rfl greater (by decide)).1
        simp only [holds, hnull] at hless hlessEqual hgreater
        cases houtcome : Ord.compare p 0 <;> simp [houtcome] at hless hlessEqual hgreater
  · intro hp w hw op hop
    have hnone : v.compare w = none := by
      rw [show v.compare w = _ from hmeasure hw, hp]
      rfl
    have hnone' : w.compare v = none := by rw [compare_swap v w, hnone]; rfl
    exact ⟨holds_of_unordered hop hnone, holds_of_unordered hop hnone'⟩

theorem coerce?_string {s : String} (h : ∃ c ∈ s.toList, Text.isBlank c = false) :
    (string s).coerce? = Number.read? (Text.trim s.toList) := by
  rw [coerce?, if_neg (by simpa using Text.trim_ne_nil h)]

/-- **Words are not ordered against numbers**, unless they are words for infinity: a string that is
not blank and has no digit is ordered against none of the values that are no strings if and only if
what is between the blanks at its ends is not such a word. -/
theorem word_unordered_iff {s : String} (hblank : ∃ c ∈ s.toList, Text.isBlank c = false)
    (hdigit : ∀ c ∈ s.toList, Decimal.isDigit c = false) :
    (∀ v : Value, v.isString = false → ∀ op ∈ orderings,
        op.holds (string s) v = false ∧ op.holds v (string s) = false) ↔
      Number.spellsInfinity (Text.trim s.toList) = false := by
  have hword : ∀ c ∈ Text.trim s.toList, Decimal.isDigit c = false :=
    fun c hc => hdigit c (Text.mem_of_mem_trim hc)
  rw [unordered_iff, place?, coerce?_string hblank, Number.place?_word hword]

/-- The word for "not a number" is ordered against nothing but strings, whatever its case, behind
its sign and between blanks. -/
theorem nan_word_unordered :
    (∃ c ∈ "\t-NaN ".toList, Text.isBlank c = false) ∧
      (∀ c ∈ "\t-NaN ".toList, Decimal.isDigit c = false) ∧
      ∀ v : Value, v.isString = false → ∀ op ∈ orderings,
        op.holds (string "\t-NaN ") v = false ∧ op.holds v (string "\t-NaN ") = false := by
  have hblank : ∃ c ∈ "\t-NaN ".toList, Text.isBlank c = false := by
    simp [Text.isBlank]
  have hdigit : ∀ c ∈ "\t-NaN ".toList, Decimal.isDigit c = false := by
    simp [Decimal.isDigit]
  exact ⟨hblank, hdigit, (word_unordered_iff hblank hdigit).mpr (by decide +kernel)⟩

/-- A word for infinity is ordered: the string `"inf"`, which has no digit, is greater than one. -/
theorem infinity_word_ordered :
    (∃ c ∈ "inf".toList, Text.isBlank c = false) ∧
      (∀ c ∈ "inf".toList, Decimal.isDigit c = false) ∧
      (number (Number.ofNat 1)).isString = false ∧
      greater.holds (string "inf") (number (Number.ofNat 1)) = true := by
  exact ⟨by simp [Text.isBlank], by simp [Decimal.isDigit], rfl, by decide +kernel⟩

end Value

end WhenClause
