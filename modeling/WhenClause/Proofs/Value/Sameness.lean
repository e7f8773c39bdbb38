import WhenClause.Proofs.Number.Written
import WhenClause.Proofs.Text.Quoted
import WhenClause.Value.Text

set_option autoImplicit false

/-! # Sameness of values

Two values are the *same* when they are deeply equal, except that NaN counts as the same as NaN
(`Value.same`). The same values have the same text, however functions and handles are written
(`Value.write_eq_of_same`), and in front of any text that cannot go on with it, a canonical text
determines its value and the text (`Value.canonical_append_inj`). So values are the same exactly
when their canonical texts are (`Value.same_iff`). -/

namespace WhenClause.Value

/-! ## Deep equality over an equality of numbers -/

mutual

def equalWith (eq : Number → Number → Bool) : Value → Value → Bool
  | .null, .null => true
  | .bool a, .bool b => a == b
  | .number x, .number y => eq x y
  | .string s, .string t => s == t
  | .array as, .array bs => equalItemsWith eq as bs
  | .record as, .record bs => equalFieldsWith eq as bs
  | .function a _ _, .function b _ _ => a == b
  | .handle a, .handle b => a == b
  | _, _ => false

def equalItemsWith (eq : Number → Number → Bool) : List Value → List Value → Bool
  | [], [] => true
  | a :: as, b :: bs => equalWith eq a b && equalItemsWith eq as bs
  | _, _ => false

def equalFieldsWith (eq : Number → Number → Bool) :
    List (String × Value) → List (String × Value) → Bool
  | [], [] => true
  | (k, a) :: as, (l, b) :: bs => k == l && equalWith eq a b && equalFieldsWith eq as bs
  | _, _ => false

end

mutual

/-- With the equality of numbers itself this is deep equality. -/
theorem equalWith_equal (v w : Value) : equalWith Number.equal v w = deepEq v w := by
  cases v <;> cases w <;>
    simp only [equalWith, deepEq, equalItemsWith_equal, equalFieldsWith_equal]

theorem equalItemsWith_equal (vs ws : List Value) :
    equalItemsWith Number.equal vs ws = deepEqItems vs ws := by
  cases vs <;> cases ws <;>
    simp only [equalItemsWith, deepEqItems, equalWith_equal, equalItemsWith_equal]

theorem equalFieldsWith_equal (vs ws : List (String × Value)) :
    equalFieldsWith Number.equal vs ws = deepEqFields vs ws := by
  cases vs <;> cases ws <;>
    simp only [equalFieldsWith, deepEqFields, equalWith_equal, equalFieldsWith_equal]

end

/-- Deep equality, except that NaN is the same as NaN. -/
def same (v w : Value) : Bool := equalWith Number.same v w

/-- Lists of values are the same when they are so item by item. -/
theorem equalItemsWith_iff (eq : Number → Number → Bool) (vs ws : List Value) :
    equalItemsWith eq vs ws = true ↔ List.Forall₂ (fun v w => equalWith eq v w = true) vs ws := by
  induction vs generalizing ws with
  | nil => cases ws <;> simp [equalItemsWith]
  | cons v vs ih => cases ws <;> simp [equalItemsWith, ih]

/-! ## The same values have the same text -/

section

variable (labels : Labels)

mutual

theorem write_eq_of_same {v w : Value} (h : v.same w = true) :
    v.write labels = w.write labels := by
  unfold same at h
  cases v <;> cases w <;> simp only [equalWith, Bool.false_eq_true] at h
  case null.null => rfl
  case bool.bool => rw [beq_iff_eq.mp h]
  case number.number x y => simpa only [write] using (Number.valueText_eq_iff x y).mpr h
  case string.string => rw [beq_iff_eq.mp h]
  case array.array as bs =>
    cases as <;> cases bs <;>
      simp only [equalItemsWith, Bool.and_eq_true, Bool.false_eq_true] at h
    · rfl
    · simp only [write, write_eq_of_same h.1, writeItems_eq_of_same h.2]
  case record.record as bs =>
    cases as <;> cases bs <;>
      simp only [equalFieldsWith, Bool.and_eq_true, beq_iff_eq, Bool.false_eq_true] at h
    · rfl
    · simp only [write, h.1.1, write_eq_of_same h.1.2, writeFields_eq_of_same h.2]
  case function.function => simp only [write, beq_iff_eq.mp h]
  case handle.handle => rw [beq_iff_eq.mp h]

theorem writeItems_eq_of_same {vs ws : List Value} (h : equalItemsWith Number.same vs ws = true) :
    writeItems labels vs = writeItems labels ws := by
  cases vs <;> cases ws <;> simp only [equalItemsWith, Bool.and_eq_true, Bool.false_eq_true] at h
  · rfl
  · simp only [writeItems, write_eq_of_same h.1, writeItems_eq_of_same h.2]

theorem writeFields_eq_of_same {vs ws : List (String × Value)}
    (h : equalFieldsWith Number.same vs ws = true) :
    writeFields labels vs = writeFields labels ws := by
  cases vs <;> cases ws <;>
    simp only [equalFieldsWith, Bool.and_eq_true, beq_iff_eq, Bool.false_eq_true] at h
  · rfl
  · simp only [writeFields, h.1.1, write_eq_of_same h.1.2, writeFields_eq_of_same h.2]

end

end

/-! ## The kind of a value shows in the first character of its text -/

/-- The kinds of values that the first character of a canonical text tells apart. -/
inductive Kind where
  | null
  | bool
  | number
  | string
  | array
  | record
  | identity
deriving DecidableEq

def kind : Value → Kind
  | .null => .null
  | .bool _ => .bool
  | .number _ => .number
  | .string _ => .string
  | .array _ => .array
  | .record _ => .record
  | .function _ _ _ | .handle _ => .identity

/-- The kind of the values whose canonical text begins with a character. -/
def kindOfLead? (c : Char) : Option Kind :=
  if Number.isLeadChar c then some .number
  else if c = 'n' then some .null
  else if c = 't' ∨ c = 'f' then some .bool
  else if c = '"' then some .string
  else if c = '[' then some .array
  else if c = '\x7b' then some .record
  else if c = '#' then some .identity
  else none

theorem canonical_lead (v : Value) :
    ∃ c rest, v.write identifying = c :: rest ∧ kindOfLead? c = some v.kind := by
  cases v with
  | null => exact ⟨'n', _, rfl, rfl⟩
  | bool b => cases b <;> exact ⟨_, _, rfl, rfl⟩
  | number x =>
      obtain ⟨-, c, rest, h, hc⟩ := Number.valueText_chars x
      exact ⟨c, rest, by simpa only [write] using h, by simp [kindOfLead?, hc, kind]⟩
  | string s => exact ⟨'"', _, rfl, rfl⟩
  | array items => cases items <;> exact ⟨'[', _, rfl, rfl⟩
  | record fields => cases fields <;> exact ⟨'\x7b', _, rfl, rfl⟩
  | function serial method receiver => exact ⟨'#', _, rfl, rfl⟩
  | handle h => exact ⟨'#', _, rfl, rfl⟩

/-- Values whose texts begin alike are of one kind. -/
theorem kind_eq_of_append_eq {v w : Value} {r s : List Char}
    (h : v.write identifying ++ r = w.write identifying ++ s) : v.kind = w.kind := by
  obtain ⟨c, _, hv, hc⟩ := canonical_lead v
  obtain ⟨d, _, hw, hd⟩ := canonical_lead w
  rw [hv, hw, List.cons_append, List.cons_append] at h
  rw [(List.cons.inj h).1, hd] at hc
  exact (Option.some.inj hc).symm

/-- No canonical text begins with a closing bracket. -/
theorem canonical_append_ne_bracket (v : Value) (r s : List Char) :
    v.write identifying ++ r ≠ ']' :: s := by
  obtain ⟨c, rest, hv, hc⟩ := canonical_lead v
  intro h
  rw [hv, List.cons_append] at h
  rw [(List.cons.inj h).1] at hc
  exact absurd hc (by simp [kindOfLead?, Number.isLeadChar, Decimal.isDigit])

/-! ## Cutting a canonical text off -/

/-- Runs of characters of one class, each at the front of a text that does not go on with the
class, are cut off in one way only. -/
theorem append_inj_of_run {p : Char → Bool} {a b r s : List Char} (ha : ∀ c ∈ a, p c = true)
    (hb : ∀ c ∈ b, p c = true) (hr : r.head?.any p = false) (hs : s.head?.any p = false)
    (h : a ++ r = b ++ s) : a = b ∧ r = s := by
  have takes {a r : List Char} (ha : ∀ c ∈ a, p c = true) (hr : r.head?.any p = false) :
      (a ++ r).takeWhile p = a := by
    rw [List.takeWhile_append_of_pos ha]
    cases r with
    | nil => simp
    | cons c r =>
        have hc : p c = false := by simpa using hr
        simp [hc]
  have hab : a = b := by rw [← takes ha hr, h, takes hb hs]
  subst hab
  exact ⟨rfl, List.append_cancel_left h⟩

/-- A text cannot go on with a value: it is empty, or begins with a comma or a closing bracket. -/
def Stops (r : List Char) : Prop := r = [] ∨ ∃ c rest, r = c :: rest ∧ c ∈ [',', ']', '\x7d']

/-- No class of characters with neither a comma nor a closing bracket in it goes on. -/
theorem Stops.head?_any {r : List Char} (hr : Stops r) {p : Char → Bool}
    (hp : ∀ c ∈ [',', ']', '\x7d'], p c = false) : r.head?.any p = false := by
  obtain rfl | ⟨c, rest, rfl, hc⟩ := hr
  · rfl
  · simpa using hp c hc

theorem stops_writeItems (vs : List Value) (r : List Char) :
    Stops (writeItems identifying vs ++ r) := by
  cases vs <;> exact Or.inr ⟨_, _, rfl, by simp⟩

theorem stops_writeFields (vs : List (String × Value)) (r : List Char) :
    Stops (writeFields identifying vs ++ r) := by
  cases vs <;> exact Or.inr ⟨_, _, rfl, by simp⟩

/-- Digits in front of anything but a digit determine the number that they write. -/
theorem digits_append_inj {a b : Nat} {r s : List Char}
    (hr : r.head?.any Decimal.isDigit = false) (hs : s.head?.any Decimal.isDigit = false)
    (h : Decimal.digitsOfNat a ++ r = Decimal.digitsOfNat b ++ s) : a = b ∧ r = s := by
  obtain ⟨hdigits, hrest⟩ := append_inj_of_run
    (fun _ hc => Decimal.isDigit_of_mem_digitsOfNat hc)
    (fun _ hc => Decimal.isDigit_of_mem_digitsOfNat hc) hr hs h
  have := congrArg Decimal.natOfDigits hdigits
  rw [Decimal.natOfDigits_digitsOfNat, Decimal.natOfDigits_digitsOfNat] at this
  exact ⟨this, hrest⟩

/-- The text of a number in front of a text that stops determines the number up to sameness. -/
theorem valueText_append_inj {x y : Number} {r s : List Char} (hr : Stops r) (hs : Stops s)
    (h : x.valueText ++ r = y.valueText ++ s) : x.same y = true ∧ r = s := by
  have hstop : ∀ c ∈ [',', ']', '\x7d'], Number.isTextChar c = false := by
    intro c hc
    fin_cases hc <;> rfl
  obtain ⟨htext, hrest⟩ := append_inj_of_run (Number.valueText_chars x).1
    (Number.valueText_chars y).1 (hr.head?_any hstop) (hs.head?_any hstop) h
  exact ⟨(Number.valueText_eq_iff x y).mp htext, hrest⟩

/-- The identity of a handle in front of any text determines the handle. -/
theorem handle_append_inj {a b : Handle} {r s : List Char}
    (h : identifying.handle a ++ r = identifying.handle b ++ s) : a = b ∧ r = s := by
  simp only [identifying, List.append_assoc, List.append_cancel_left_eq] at h
  obtain ⟨hserial, h₁⟩ := digits_append_inj (by rfl) (by rfl) h
  obtain ⟨htype, h₂⟩ := Text.Quoted.encode_append_inj h₁
  obtain ⟨hsubject, hrest⟩ := Text.Quoted.encode_append_inj h₂
  refine ⟨?_, hrest⟩
  obtain ⟨aType, aSubject, aSerial⟩ := a
  obtain ⟨bType, bSubject, bSerial⟩ := b
  simp only at hserial htype hsubject
  rw [hserial, String.toList_inj.mp htype, String.toList_inj.mp hsubject]

mutual

/-- **Unique readability.** In front of texts that cannot go on with a value, a canonical text
determines its value up to sameness, and the text behind it. -/
theorem canonical_append_inj {v w : Value} {r s : List Char} (hr : Stops r) (hs : Stops s)
    (h : v.write identifying ++ r = w.write identifying ++ s) : v.same w = true ∧ r = s := by
  -- The induction is on the two values at once. It goes through because what stands behind an
  -- inner value is a comma or a closing bracket, whatever stands behind the whole.
  have hkind := kind_eq_of_append_eq h
  have hdigit : ∀ c ∈ [',', ']', '\x7d'], Decimal.isDigit c = false := by
    intro c hc
    fin_cases hc <;> rfl
  unfold same
  cases v <;> cases w <;> simp only [kind, reduceCtorEq] at hkind <;> simp only [equalWith]
  case null.null => exact ⟨trivial, List.append_cancel_left h⟩
  case bool.bool a b =>
    cases a <;> cases b <;> simp [write] at h ⊢ <;> exact h
  case number.number => exact valueText_append_inj hr hs (by simpa only [write] using h)
  case string.string =>
    obtain ⟨hstring, hrest⟩ := Text.Quoted.encode_append_inj (by simpa only [write] using h)
    exact ⟨beq_iff_eq.mpr (String.toList_inj.mp hstring), hrest⟩
  case array.array as bs =>
    cases as <;> cases bs <;> simp only [write, equalItemsWith, Bool.and_eq_true] at h ⊢
    · exact ⟨trivial, List.append_cancel_left h⟩
    · simp only [List.cons_append, List.append_assoc, List.cons.injEq, true_and] at h
      exact absurd h.symm (canonical_append_ne_bracket _ _ _)
    · simp only [List.cons_append, List.append_assoc, List.cons.injEq, true_and] at h
      exact absurd h (canonical_append_ne_bracket _ _ _)
    · simp only [List.cons_append, List.append_assoc, List.cons.injEq, true_and] at h
      obtain ⟨hitem, h'⟩ := canonical_append_inj (stops_writeItems _ _) (stops_writeItems _ _) h
      obtain ⟨hitems, hrest⟩ := items_append_inj h'
      exact ⟨⟨hitem, hitems⟩, hrest⟩
  case record.record as bs =>
    cases as <;> cases bs <;>
      simp only [write, equalFieldsWith, Bool.and_eq_true, beq_iff_eq] at h ⊢
    · exact ⟨trivial, List.append_cancel_left h⟩
    · simp [Text.Quoted.encode] at h
    · simp [Text.Quoted.encode] at h
    · simp only [List.cons_append, List.append_assoc, List.cons.injEq, true_and] at h
      obtain ⟨hkey, h₁⟩ := Text.Quoted.encode_append_inj h
      obtain ⟨hitem, h₂⟩ := canonical_append_inj (stops_writeFields _ _) (stops_writeFields _ _)
        (List.cons.inj h₁).2
      obtain ⟨hfields, hrest⟩ := fields_append_inj h₂
      exact ⟨⟨⟨String.toList_inj.mp hkey, hitem⟩, hfields⟩, hrest⟩
  case function.function =>
    simp only [write, identifying, List.append_assoc, List.append_cancel_left_eq] at h
    obtain ⟨hserial, hrest⟩ := digits_append_inj (hr.head?_any hdigit) (hs.head?_any hdigit) h
    exact ⟨beq_iff_eq.mpr hserial, hrest⟩
  case function.handle => exact absurd h (by simp [write, identifying])
  case handle.function => exact absurd h (by simp [write, identifying])
  case handle.handle =>
    obtain ⟨hhandle, hrest⟩ := handle_append_inj (by simpa only [write] using h)
    exact ⟨beq_iff_eq.mpr hhandle, hrest⟩

theorem items_append_inj {vs ws : List Value} {r s : List Char}
    (h : writeItems identifying vs ++ r = writeItems identifying ws ++ s) :
    equalItemsWith Number.same vs ws = true ∧ r = s := by
  cases vs <;> cases ws <;> simp only [writeItems, equalItemsWith, Bool.and_eq_true] at h ⊢
  · exact ⟨trivial, List.append_cancel_left h⟩
  · simp at h
  · simp at h
  · simp only [List.cons_append, List.append_assoc, List.cons.injEq, true_and] at h
    obtain ⟨hitem, h'⟩ := canonical_append_inj (stops_writeItems _ _) (stops_writeItems _ _) h
    obtain ⟨hitems, hrest⟩ := items_append_inj h'
    exact ⟨⟨hitem, hitems⟩, hrest⟩

theorem fields_append_inj {vs ws : List (String × Value)} {r s : List Char}
    (h : writeFields identifying vs ++ r = writeFields identifying ws ++ s) :
    equalFieldsWith Number.same vs ws = true ∧ r = s := by
  cases vs <;> cases ws <;>
    simp only [writeFields, equalFieldsWith, Bool.and_eq_true, beq_iff_eq] at h ⊢
  · exact ⟨trivial, List.append_cancel_left h⟩
  · simp at h
  · simp at h
  · simp only [List.cons_append, List.append_assoc, List.cons.injEq, true_and] at h
    obtain ⟨hkey, h₁⟩ := Text.Quoted.encode_append_inj h
    obtain ⟨hitem, h₂⟩ := canonical_append_inj (stops_writeFields _ _) (stops_writeFields _ _)
      (List.cons.inj h₁).2
    obtain ⟨hfields, hrest⟩ := fields_append_inj h₂
    exact ⟨⟨⟨String.toList_inj.mp hkey, hitem⟩, hfields⟩, hrest⟩

end

/-- **Values are the same exactly when their canonical texts are.** -/
theorem same_iff {v w : Value} : v.same w = true ↔ v.canonical = w.canonical := by
  constructor
  · exact write_eq_of_same identifying
  · intro h
    exact (canonical_append_inj (Or.inl rfl) (Or.inl rfl) (congrArg (· ++ []) h)).1

theorem same_refl (v : Value) : v.same v = true := same_iff.mpr rfl

theorem same_symm {v w : Value} (h : v.same w = true) : w.same v = true :=
  same_iff.mpr (same_iff.mp h).symm

end WhenClause.Value
