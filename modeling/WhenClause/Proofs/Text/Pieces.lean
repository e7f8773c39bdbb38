import Mathlib.Data.List.DropRight
import WhenClause.Text.Blank
import WhenClause.Text.Occurrence

set_option autoImplicit false

/-! # Pieces of texts

Trimming takes blanks from the ends of a text and stops where none stands (`trims_trim`). A text
that is put together of pieces is cut into them again, if the separator stands in none of them
(`splitAt_join`). -/

namespace WhenClause.Text

/-! ## Trimming -/

theorem exists_trimStart (s : List Char) :
    ∃ gap, s = gap ++ trimStart s ∧ (∀ c ∈ gap, isBlank c = true) ∧
      (trimStart s).head?.any isBlank = false := by
  refine ⟨s.takeWhile isBlank, List.takeWhile_append_dropWhile.symm,
    fun c hc => List.mem_takeWhile_imp hc, ?_⟩
  have hstop := List.head?_dropWhile_not isBlank s
  rw [trimStart]
  cases hhead : (s.dropWhile isBlank).head? with
  | none => rfl
  | some c =>
      rw [hhead] at hstop
      exact hstop

/-- **What is taken from the end of a text are blanks**, and what is left does not end in one. -/
theorem exists_trimEnd (s : List Char) :
    ∃ gap, s = trimEnd s ++ gap ∧ (∀ c ∈ gap, isBlank c = true) ∧
      (trimEnd s).getLast?.any isBlank = false := by
  refine ⟨s.rtakeWhile isBlank, List.rdropWhile_append_rtakeWhile.symm,
    fun c hc => List.mem_rtakeWhile_imp hc, ?_⟩
  show (s.rdropWhile isBlank).getLast?.any isBlank = false
  cases hlast : (s.rdropWhile isBlank).getLast? with
  | none => rfl
  | some c =>
      have hne : s.rdropWhile isBlank ≠ [] := by
        intro hnil
        rw [hnil] at hlast
        cases hlast
      have hstop := List.rdropWhile_last_not isBlank s hne
      rw [List.getLast?_eq_getLast_of_ne_nil hne, Option.some.injEq] at hlast
      rw [hlast] at hstop
      simpa using hstop

/-- A text is what is left of another one without the blanks at its ends. -/
structure Trims (s kept : List Char) : Prop where
  between : ∃ front behind, s = front ++ (kept ++ behind) ∧ (∀ c ∈ front, isBlank c = true) ∧
    ∀ c ∈ behind, isBlank c = true
  head : kept.head?.any isBlank = false
  last : kept.getLast?.any isBlank = false

/-- **What trimming takes away are the blanks at the ends**, and all of them. -/
theorem trims_trim (s : List Char) : Trims s (trim s) := by
  obtain ⟨front, hfront, hblankFront, hhead⟩ := exists_trimStart s
  obtain ⟨behind, hbehind, hblankBehind, hlast⟩ := exists_trimEnd (trimStart s)
  refine ⟨⟨front, behind, ?_, hblankFront, hblankBehind⟩, ?_, hlast⟩
  · rw [trim, ← hbehind]
    exact hfront
  · rw [trim]
    cases hkept : trimEnd (trimStart s) with
    | nil => rfl
    | cons c more =>
        rw [hbehind, hkept] at hhead
        exact hhead

theorem trimStart_eq_self {s : List Char} (h : s.head?.any isBlank = false) : trimStart s = s := by
  cases s with
  | nil => rfl
  | cons c s =>
      have hc : isBlank c = false := by simpa using h
      simp [trimStart, hc]

/-- A text with no blank at either end is trimmed. -/
theorem trim_eq_self {s : List Char} (hhead : s.head?.any isBlank = false)
    (hlast : s.getLast?.any isBlank = false) : trim s = s := by
  rw [trim, trimStart_eq_self hhead]
  refine List.rdropWhile_eq_self_iff.mpr fun hne => ?_
  rw [List.getLast?_eq_getLast_of_ne_nil hne] at hlast
  simpa using hlast

/-- A text that begins with no blank is not trimmed away. -/
theorem trim_cons_ne_nil {c : Char} (hc : isBlank c = false) (s : List Char) :
    trim (c :: s) ≠ [] := by
  rw [trim, trimStart_eq_self (by simpa using hc)]
  intro hnil
  have hall := List.rdropWhile_eq_nil_iff.mp hnil c List.mem_cons_self
  rw [hc] at hall
  cases hall

/-- What is trimmed has no blank in front. -/
theorem head?_of_trim_eq_self {s : List Char} (h : trim s = s) : s.head?.any isBlank = false := by
  rw [← h]
  exact (trims_trim s).head

/-- A blank in front does not count. -/
theorem trim_cons_blank {c : Char} (hc : isBlank c = true) (s : List Char) :
    trim (c :: s) = trim s := by
  rw [trim, trimStart, List.dropWhile_cons, if_pos hc]
  rfl

/-! ## Pieces with a separator -/

theorem toList_intercalate (separator x : String) (xs : List String) :
    (separator.intercalate (x :: xs)).toList
      = x.toList ++ xs.flatMap fun y => separator.toList ++ y.toList := by
  induction xs generalizing x with
  | nil => simp
  | cons y xs ih =>
      rw [String.intercalate_cons_cons, String.toList_append, String.toList_append, ih,
        List.flatMap_cons, List.append_assoc, List.append_assoc]

variable {separator : Char}

theorem splitAt_of_not_mem {s : List Char} (h : separator ∉ s) : splitAt separator s = [s] := by
  induction s with
  | nil => rfl
  | cons c s ih =>
      rw [List.mem_cons, not_or] at h
      rw [splitAt, if_neg (Ne.symm h.1), ih h.2]

theorem splitAt_append {s : List Char} (h : separator ∉ s) (rest : List Char) :
    splitAt separator (s ++ separator :: rest) = s :: splitAt separator rest := by
  induction s with
  | nil => rw [List.nil_append, splitAt, if_pos rfl]
  | cons c s ih =>
      rw [List.mem_cons, not_or] at h
      rw [List.cons_append, splitAt, if_neg (Ne.symm h.1), ih h.2]

/-- **A text is cut into the pieces that it was put together of.** -/
theorem splitAt_join {s : List Char} {pieces : List (List Char)} (hs : separator ∉ s)
    (hpieces : ∀ piece ∈ pieces, separator ∉ piece) :
    splitAt separator (s ++ pieces.flatMap (separator :: ·)) = s :: pieces := by
  induction pieces generalizing s with
  | nil => rw [List.flatMap_nil, List.append_nil, splitAt_of_not_mem hs]
  | cons piece pieces ih =>
      obtain ⟨hpiece, hrest⟩ := List.forall_mem_cons.mp hpieces
      rw [List.flatMap_cons, List.cons_append, splitAt_append hs, ih hpiece hrest]

/-! ## Leads -/

theorem dropLead?_append (lead s : List Char) : dropLead? lead (lead ++ s) = some s := by
  induction lead with
  | nil => rfl
  | cons c lead ih => rw [List.cons_append, dropLead?, if_pos rfl, ih]

theorem dropLead?_eq_none {lead s : List Char} (h : ¬ lead <+: s) : dropLead? lead s = none := by
  induction lead generalizing s with
  | nil => exact absurd List.nil_prefix h
  | cons c lead ih =>
      cases s with
      | nil => rfl
      | cons d s =>
          rw [dropLead?]
          split
          next hcd => exact ih fun hlead => h (List.cons_prefix_cons.mpr ⟨hcd, hlead⟩)
          next => rfl

end WhenClause.Text
