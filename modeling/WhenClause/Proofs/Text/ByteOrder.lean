import Mathlib.Data.String.Basic

set_option autoImplicit false

/-! # The order of strings is that of their bytes

Strings are ordered by the code points of their characters. The octets of a character in UTF-8
come in the order of its code point, and no character's octets go on with those of another, so
the same order is that of the octets (`Text.lt_iff_octets_lt`). -/

namespace WhenClause.Text

def octets (s : String) : List UInt8 := s.toUTF8.data.toList

theorem octets_eq (s : String) : octets s = s.toList.flatMap String.utf8EncodeChar := by
  rw [octets, String.toUTF8_eq_toByteArray, ← String.utf8Encode_toList]
  exact List.toList_data_toByteArray

/-- Octets are compared as numbers. -/
theorem ofNat_lt_ofNat {m n : Nat} (hm : m < 256) (hn : n < 256) :
    UInt8.ofNat m < UInt8.ofNat n ↔ m < n := by
  rw [UInt8.lt_iff_toNat_lt, UInt8.toNat_ofNat_of_lt' hm, UInt8.toNat_ofNat_of_lt' hn]

theorem ofNat_eq_ofNat {m n : Nat} (hm : m < 256) (hn : n < 256) :
    UInt8.ofNat m = UInt8.ofNat n ↔ m = n := by
  rw [← UInt8.toNat_inj, UInt8.toNat_ofNat_of_lt' hm, UInt8.toNat_ofNat_of_lt' hn]

/-- A smaller character has smaller octets, whatever stands behind either. -/
theorem utf8EncodeChar_append_lt {c d : Char} (h : c < d) (x y : List UInt8) :
    String.utf8EncodeChar c ++ x < String.utf8EncodeChar d ++ y := by
  have hlt : c.val.toNat < d.val.toNat := h
  have hmax : d.val.toNat < 0x110000 := by
    rcases d.valid with hlow | hhigh
    · exact Nat.lt_trans hlow (by decide)
    · exact hhigh.2
  unfold String.utf8EncodeChar
  generalize c.val.toNat = v at hlt ⊢
  generalize d.val.toNat = w at hlt hmax ⊢
  -- The digits of the code point to the base 64, the least one last.
  have hdigits (n : Nat) : n / 4096 = n / 64 / 64 ∧ n / 262144 = n / 64 / 64 / 64 := by
    simp only [Nat.div_div_eq_div_mul, and_self]
  dsimp only
  rw [(hdigits v).1, (hdigits v).2, (hdigits w).1, (hdigits w).2]
  -- The first octet tells how many there are, and more of them is a larger character.
  split_ifs
  all_goals
    simp (disch := omega) only [List.cons_append, List.nil_append, List.cons_lt_cons_iff,
      ofNat_lt_ofNat, ofNat_eq_ofNat]
    omega

/-- **The order of strings is that of their octets.** -/
theorem lt_iff_octets_lt (s t : String) : s < t ↔ octets s < octets t := by
  rw [octets_eq, octets_eq, String.lt_iff]
  generalize s.toList = a
  generalize t.toList = b
  have hforward : ∀ {a b : List Char}, a < b →
      a.flatMap String.utf8EncodeChar < b.flatMap String.utf8EncodeChar := by
    intro a b h
    induction h with
    | @nil d b =>
        have hsome : String.utf8EncodeChar d ≠ [] := by
          unfold String.utf8EncodeChar
          dsimp only
          split_ifs <;> exact List.cons_ne_nil _ _
        obtain ⟨o, os, hos⟩ := List.exists_cons_of_ne_nil hsome
        rw [List.flatMap_cons, hos]
        exact List.nil_lt_cons _ _
    | rel hlt => exact utf8EncodeChar_append_lt hlt _ _
    | cons hlt ih => exact List.append_left_lt ih
  refine ⟨hforward, fun h => ?_⟩
  rcases lt_trichotomy a b with hlt | rfl | hgt
  · exact hlt
  · exact absurd h (List.lt_irrefl _)
  · exact absurd (List.lt_trans h (hforward hgt)) (List.lt_irrefl _)

end WhenClause.Text
