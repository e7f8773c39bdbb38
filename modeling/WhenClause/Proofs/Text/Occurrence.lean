import Mathlib.Data.List.Infix
import WhenClause.Proofs.Text.ByteOrder
import WhenClause.Text.Occurrence

set_option autoImplicit false

/-! # Where a text occurs in another

`OccursAt` says that one list stands in another at a position, and `First` that a search found the
least position of a kind. The search for a text finds the first of its occurrences
(`indexOf?_first`), and the tests for a part, a beginning and an end find out about the same
occurrences.

A text may as well be searched for in octets. No octet inside a character begins another one, so
the octets of a text occur only where its characters do (`occursAt_of_utf8`), and the first of their
occurrences has as many characters in front of it as the search in characters counts
(`indexOf?_octets`). -/

namespace WhenClause.Text

/-! ## Occurrences -/

section

variable {α : Type}

/-- `needle` stands in `s` at position `i`. -/
def OccursAt (needle s : List α) (i : Nat) : Prop :=
  ∃ before after, s = before ++ (needle ++ after) ∧ before.length = i

variable {needle s : List α}

theorem occursAt_zero : OccursAt needle s 0 ↔ needle <+: s := by
  constructor
  · rintro ⟨before, after, hs, hlength⟩
    obtain rfl := List.eq_nil_of_length_eq_zero hlength
    exact ⟨after, hs.symm⟩
  · rintro ⟨after, hs⟩
    exact ⟨[], after, hs.symm, rfl⟩

theorem occursAt_succ {a : α} {i : Nat} :
    OccursAt needle (a :: s) (i + 1) ↔ OccursAt needle s i := by
  constructor
  · rintro ⟨before, after, hs, hlength⟩
    cases before with
    | nil => cases hlength
    | cons b before =>
        rw [List.cons_append, List.cons.injEq] at hs
        exact ⟨before, after, hs.2, Nat.succ.inj hlength⟩
  · rintro ⟨before, after, rfl, rfl⟩
    exact ⟨a :: before, after, rfl, rfl⟩

theorem not_occursAt_nil_succ {i : Nat} : ¬ OccursAt needle ([] : List α) (i + 1) := by
  rintro ⟨before, after, hs, hlength⟩
  obtain ⟨rfl, -⟩ := List.append_eq_nil_iff.mp hs.symm
  cases hlength

theorem OccursAt.length_le {i : Nat} (h : OccursAt needle s i) : i + needle.length ≤ s.length := by
  obtain ⟨before, after, rfl, rfl⟩ := h
  simp only [List.length_append]
  omega

/-- An occurrence by what is left of the text from its position on. -/
theorem occursAt_iff_drop {i : Nat} : OccursAt needle s i ↔ i ≤ s.length ∧ needle <+: s.drop i := by
  constructor
  · rintro ⟨before, after, rfl, rfl⟩
    refine ⟨by simp, ?_⟩
    rw [List.drop_left]
    exact List.prefix_append _ _
  · rintro ⟨hi, after, hafter⟩
    refine ⟨s.take i, after, ?_, List.length_take_of_le hi⟩
    rw [hafter, List.take_append_drop]

instance [DecidableEq α] (needle s : List α) (i : Nat) : Decidable (OccursAt needle s i) :=
  decidable_of_iff _ occursAt_iff_drop.symm

/-- The end of a text is what occurs where just its length is left. -/
theorem occursAt_end : OccursAt needle s (s.length - needle.length) ↔ needle <:+ s := by
  constructor
  · intro h
    have hle := h.length_le
    obtain ⟨before, after, rfl, hlength⟩ := h
    have hafter : after = [] := by
      refine List.eq_nil_of_length_eq_zero ?_
      simp only [List.length_append] at hle hlength
      omega
    subst hafter
    exact ⟨before, by rw [List.append_nil]⟩
  · rintro ⟨before, rfl⟩
    exact ⟨before, [], by rw [List.append_nil], by simp⟩

end

/-! ## First occurrences -/

/-- A search found the least position with a property, or found none because there is none. -/
def First (P : Nat → Prop) : Option Nat → Prop
  | some i => P i ∧ ∀ j < i, ¬ P j
  | none => ∀ i, ¬ P i

namespace First

variable {P : Nat → Prop} {found found' : Option Nat}

theorem eq_zero_iff (h : First P found) : found = some 0 ↔ P 0 := by
  cases found with
  | none => exact ⟨(nomatch ·), fun h0 => absurd h0 (h 0)⟩
  | some i =>
      cases i with
      | zero => exact ⟨fun _ => h.1, fun _ => rfl⟩
      | succ i =>
          exact ⟨(nomatch ·), fun h0 => absurd h0 (h.2 0 (Nat.succ_pos i))⟩

/-- Two searches for the same find the same. -/
theorem unique (h : First P found) (h' : First P found') : found = found' := by
  cases found with
  | none =>
      cases found' with
      | none => rfl
      | some j => exact absurd h'.1 (h j)
  | some i =>
      cases found' with
      | none => exact absurd h.1 (h' i)
      | some j =>
          rcases Nat.lt_trichotomy i j with hlt | rfl | hlt
          · exact absurd h.1 (h'.2 i hlt)
          · rfl
          · exact absurd h'.1 (h.2 j hlt)

/-- A search that goes on behind the first item. -/
theorem succ (h : First (fun i => P (i + 1)) found) (h0 : ¬ P 0) : First P (found.map (· + 1)) := by
  cases found with
  | none =>
      intro i
      cases i with
      | zero => exact h0
      | succ i => exact h i
  | some i =>
      refine ⟨h.1, fun j hj => ?_⟩
      cases j with
      | zero => exact h0
      | succ j => exact h.2 j (Nat.lt_of_succ_lt_succ hj)

theorem zero (h0 : P 0) : First P (some 0) := ⟨h0, fun _ hj => absurd hj (Nat.not_lt_zero _)⟩

end First

/-- **The search finds the first occurrence of a text.** -/
theorem indexOf?_first (needle s : List Char) : First (OccursAt needle s) (indexOf? needle s) := by
  induction s with
  | nil =>
      rw [indexOf?]
      split
      next hempty =>
        obtain rfl := List.isEmpty_iff.mp hempty
        exact First.zero (occursAt_zero.mpr List.nil_prefix)
      next hempty =>
        intro i
        cases i with
        | zero =>
            rw [occursAt_zero, List.prefix_nil]
            exact fun hnil => hempty (List.isEmpty_iff.mpr hnil)
        | succ i => exact not_occursAt_nil_succ
  | cons c s ih =>
      rw [indexOf?]
      split
      next hlead => exact First.zero (occursAt_zero.mpr (List.isPrefixOf_iff_prefix.mp hlead))
      next hlead =>
        refine First.succ (by simpa only [occursAt_succ] using ih) fun h0 => hlead ?_
        exact List.isPrefixOf_iff_prefix.mpr (occursAt_zero.mp h0)

/-- A text is a part of another if the search finds it. -/
theorem occursIn_eq_isSome (needle s : List Char) :
    occursIn needle s = (indexOf? needle s).isSome := by
  induction s with
  | nil => rw [occursIn, indexOf?]; split <;> simp_all
  | cons c s ih =>
      rw [occursIn, indexOf?, ih]
      split
      next hlead => simp [hlead]
      next hlead => simp [hlead]

/-- A text leads another if the search finds it at once. -/
theorem isPrefixOf_eq (needle s : List Char) :
    needle.isPrefixOf s = (indexOf? needle s == some 0) := by
  rw [Bool.eq_iff_iff, beq_iff_eq, (indexOf?_first needle s).eq_zero_iff, occursAt_zero,
    List.isPrefixOf_iff_prefix]

/-- A text ends another if it occurs where just its length is left. -/
theorem isSuffixOf_eq (needle s : List Char) :
    needle.isSuffixOf s = decide (OccursAt needle s (s.length - needle.length)) := by
  rw [Bool.eq_iff_iff, decide_eq_true_iff, List.isSuffixOf_iff_suffix]
  exact occursAt_end.symm

/-! ## Occurrences in octets -/

/-- The octets of characters, one character after the other. -/
def utf8 (s : List Char) : List UInt8 := s.flatMap String.utf8EncodeChar

theorem utf8_cons (c : Char) (s : List Char) :
    utf8 (c :: s) = String.utf8EncodeChar c ++ utf8 s := List.flatMap_cons

theorem utf8_append (s t : List Char) : utf8 (s ++ t) = utf8 s ++ utf8 t :=
  List.flatMap_append

theorem length_utf8_take_le (s : List Char) {i j : Nat} (h : i ≤ j) :
    (utf8 (s.take i)).length ≤ (utf8 (s.take j)).length := by
  obtain ⟨more, hmore⟩ := List.take_prefix_take_left (l := s) h
  rw [← hmore, utf8_append, List.length_append]
  exact Nat.le_add_right _ _

def startsChar (o : UInt8) : Bool := o.IsUTF8FirstByte

/-- The first octet of a character, and no other one, begins a character. -/
theorem exists_utf8EncodeChar (c : Char) :
    ∃ o os, String.utf8EncodeChar c = o :: os ∧ startsChar o = true ∧
      ∀ o' ∈ os, startsChar o' = false := by
  have hstart : ∀ i, (hi : i < (String.utf8EncodeChar c).length) →
      (startsChar (String.utf8EncodeChar c)[i] = true ↔ i = 0) := by
    intro i hi
    rw [startsChar, decide_eq_true_iff, UInt8.isUTF8FirstByte_getElem_utf8EncodeChar]
  have hne : String.utf8EncodeChar c ≠ [] := by
    rw [← List.length_pos_iff_ne_nil, String.length_utf8EncodeChar]
    exact c.utf8Size_pos
  obtain ⟨o, os, hos⟩ := List.exists_cons_of_ne_nil hne
  simp only [hos] at hstart
  refine ⟨o, os, hos, (hstart 0 (Nat.succ_pos _)).mpr rfl, fun o' ho' => ?_⟩
  obtain ⟨i, hi, rfl⟩ := List.getElem_of_mem ho'
  have hinside := hstart (i + 1) (Nat.succ_lt_succ hi)
  simpa using hinside

/-- There are as many octets that begin a character as there are characters. -/
theorem countP_utf8 (s : List Char) : (utf8 s).countP startsChar = s.length := by
  induction s with
  | nil => rfl
  | cons c s ih =>
      obtain ⟨o, os, hos, ho, hinside⟩ := exists_utf8EncodeChar c
      have hnone : os.countP startsChar = 0 :=
        List.countP_eq_zero.mpr fun o' ho' => by simp [hinside o' ho']
      rw [utf8_cons, hos, List.cons_append, List.countP_cons_of_pos ho, List.countP_append, hnone,
        ih, Nat.zero_add, List.length_cons]

theorem utf8EncodeChar_append_inj {c d : Char} {x y : List UInt8}
    (h : String.utf8EncodeChar c ++ x = String.utf8EncodeChar d ++ y) : c = d ∧ x = y := by
  rcases lt_trichotomy c d with hlt | rfl | hgt
  · exact absurd (utf8EncodeChar_append_lt hlt x y) (h ▸ List.lt_irrefl _)
  · exact ⟨rfl, List.append_cancel_left h⟩
  · exact absurd (utf8EncodeChar_append_lt hgt y x) (h ▸ List.lt_irrefl _)

theorem lead_of_utf8_lead {needle s : List Char} (h : utf8 needle <+: utf8 s) :
    needle <+: s := by
  induction needle generalizing s with
  | nil => exact List.nil_prefix
  | cons d needle ih =>
      obtain ⟨after, hafter⟩ := h
      obtain ⟨o, os, hos, -⟩ := exists_utf8EncodeChar d
      cases s with
      | nil =>
          rw [utf8_cons, hos] at hafter
          cases hafter
      | cons c s =>
          rw [utf8_cons, utf8_cons, List.append_assoc] at hafter
          obtain ⟨rfl, hrest⟩ := utf8EncodeChar_append_inj hafter
          exact List.cons_prefix_cons.mpr ⟨rfl, ih ⟨after, hrest⟩⟩

/-- Characters that occur are octets that occur, behind those of the characters in front. -/
theorem OccursAt.utf8 {needle s : List Char} {i : Nat} (h : OccursAt needle s i) :
    OccursAt (utf8 needle) (Text.utf8 s) (Text.utf8 (s.take i)).length := by
  obtain ⟨before, after, rfl, rfl⟩ := h
  rw [List.take_left]
  exact ⟨Text.utf8 before, Text.utf8 after, by simp only [utf8_append], rfl⟩

/-- **Octets of a text occur only where its characters do.** -/
theorem occursAt_of_utf8 {needle s : List Char} (hne : needle ≠ []) {b : Nat}
    (h : OccursAt (utf8 needle) (utf8 s) b) :
    ∃ i, OccursAt needle s i ∧ b = (utf8 (s.take i)).length := by
  obtain ⟨d, needle, rfl⟩ := List.exists_cons_of_ne_nil hne
  obtain ⟨o, os, hos, ho, -⟩ := exists_utf8EncodeChar d
  induction s generalizing b with
  | nil =>
      have hle := h.length_le
      rw [utf8_cons, hos] at hle
      simp [utf8] at hle
  | cons c s ih =>
      obtain ⟨o', os', hos', -, hinside⟩ := exists_utf8EncodeChar c
      obtain ⟨before, after, hs, rfl⟩ := h
      rw [utf8_cons] at hs
      -- The octets in front end before those of the first character do, or go on behind them.
      rcases List.append_eq_append_iff.mp hs with ⟨rest, hbefore, hrest⟩ | ⟨rest, hfirst, hrest⟩
      · obtain ⟨i, hi, hlength⟩ := ih ⟨rest, after, hrest, rfl⟩
        refine ⟨i + 1, occursAt_succ.mpr hi, ?_⟩
        rw [hbefore, List.length_append, hlength, List.take_succ_cons, utf8_cons,
          List.length_append]
      · cases before with
        | nil =>
            have hlead : utf8 (d :: needle) <+: utf8 (c :: s) :=
              ⟨after, by rw [utf8_cons c s, hs, List.nil_append]⟩
            exact ⟨0, occursAt_zero.mpr (lead_of_utf8_lead hlead), rfl⟩
        | cons p before =>
            cases rest with
            | nil =>
                obtain ⟨i, hi, hlength⟩ := ih ⟨[], after, by simpa using hrest.symm, rfl⟩
                refine ⟨i + 1, occursAt_succ.mpr hi, ?_⟩
                rw [List.take_succ_cons, utf8_cons, List.length_append, ← hlength, hfirst]
                simp
            | cons q rest =>
                -- The first octet of the text would stand inside a character.
                rw [utf8_cons, hos] at hrest
                obtain rfl : o = q := by simpa using (List.cons.inj hrest).1
                have hmem : o ∈ os' := by
                  rw [hos', List.cons_append, List.cons.injEq] at hfirst
                  rw [hfirst.2]
                  simp
                rw [hinside o hmem] at ho
                cases ho

/-- **The search in octets finds what the search in characters finds**: in front of the first
occurrence there are as many characters as the search in characters counts. -/
theorem indexOf?_octets {needle s : String} {found : Option Nat}
    (h : First (OccursAt (octets needle) (octets s)) found) :
    indexOf? needle.toList s.toList
      = found.map fun b => ((octets s).take b).countP startsChar := by
  rw [octets_eq, octets_eq] at h
  rw [octets_eq]
  generalize needle.toList = needle at h ⊢
  generalize s.toList = s at h ⊢
  rw [← Text.utf8, ← Text.utf8] at h
  rw [← Text.utf8]
  have hfirst := indexOf?_first needle s
  by_cases hne : needle = []
  · -- The empty text occurs at once, in octets as in characters.
    subst hne
    rw [First.eq_zero_iff hfirst |>.mpr (occursAt_zero.mpr List.nil_prefix),
      First.eq_zero_iff h |>.mpr (occursAt_zero.mpr List.nil_prefix)]
    rfl
  · -- The octets in front of the first occurrence in characters.
    have hoctets : First (OccursAt (utf8 needle) (utf8 s))
        ((indexOf? needle s).map fun i => (utf8 (s.take i)).length) := by
      cases hindex : indexOf? needle s with
      | none =>
          rw [hindex] at hfirst
          intro b hb
          obtain ⟨i, hi, -⟩ := occursAt_of_utf8 hne hb
          exact hfirst i hi
      | some i =>
          rw [hindex] at hfirst
          refine ⟨hfirst.1.utf8, fun b hlt hb => ?_⟩
          obtain ⟨j, hj, rfl⟩ := occursAt_of_utf8 hne hb
          exact hfirst.2 j (Nat.lt_of_not_le fun hij => Nat.not_lt_of_le
            (length_utf8_take_le s hij) hlt) hj
    rw [h.unique hoctets, Option.map_map]
    cases hindex : indexOf? needle s with
    | none => rfl
    | some i =>
        rw [hindex] at hfirst
        have hle := hfirst.1.length_le
        have hsplit : utf8 s = utf8 (s.take i) ++ utf8 (s.drop i) := by
          rw [← utf8_append, List.take_append_drop]
        rw [Option.map_some, Function.comp_apply, hsplit, List.take_left, countP_utf8,
          List.length_take_of_le (by omega)]

end WhenClause.Text
