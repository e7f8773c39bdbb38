import WhenClause.Proofs.Token.Concatenation

set_option autoImplicit false

/-! # Checked steps

A program that works on a text by offsets ends at once if it slices the text outside its length or
inside a character, reads a vector outside its bounds, or subtracts more than there is. Here these
steps are written with the crash as a possible outcome, and a slice between the offsets of two
places of a text is what stands between them (`slice_append`). Characters are found by their
indices, and their offsets in a table (`Rest.charAt_eq`, `Rest.slice_eq`). -/

namespace WhenClause.Checked

open Lexer (byteLength dropBytes? byteLength_cons byteLength_append)

/-- What ends a program at once. -/
inductive Crash where
  /-- A slice outside of a text, or off the boundaries of its characters. -/
  | slice
  | index
  /-- A look behind the last token. -/
  | pastEnd
  | underflow
  /-- A numeral that the parser of numbers refuses. -/
  | numeral
  /-- More steps, or a deeper recursion, than the program was given. -/
  | exhausted
deriving DecidableEq

/-- A result, or a crash. -/
abbrev Guarded (α : Type) : Type := Except Crash α

/-- A difference that must not be negative. -/
def minus (a b : Nat) : Guarded Nat := if a < b then .error .underflow else .ok (a - b)

theorem minus_eq {a b : Nat} (h : b ≤ a) : minus a b = .ok (a - b) := if_neg (Nat.not_lt.mpr h)

/-! ## Slices -/

/-- The front of a text up to a byte offset, if a character starts there or the text ends. -/
def takeBytes? : Nat → List Char → Option (List Char)
  | 0, _ => some []
  | _ + 1, [] => none
  | n + 1, c :: rest =>
      if c.utf8Size ≤ n + 1 then (takeBytes? (n + 1 - c.utf8Size) rest).map (c :: ·) else none
termination_by _ s => s.length

def sliceFrom (s : List Char) (start : Nat) : Guarded (List Char) :=
  match dropBytes? start s with
  | some rest => .ok rest
  | none => .error .slice

def slice (s : List Char) (start stop : Nat) : Guarded (List Char) :=
  if stop < start then .error .slice
  else
    match (dropBytes? start s).bind (takeBytes? (stop - start)) with
    | some part => .ok part
    | none => .error .slice

/-- An offset at which a character of the text starts, or the text ends. -/
def IsBoundary (source : List Char) (offset : Nat) : Prop :=
  ∃ front behind, source = front ++ behind ∧ offset = byteLength front

variable (p m r : List Char)

theorem byteLength_cons_succ (c : Char) (s : List Char) :
    ∃ n, byteLength (c :: s) = n + 1 ∧ c.utf8Size ≤ n + 1 ∧ n + 1 - c.utf8Size = byteLength s := by
  have hc := Char.utf8Size_pos c
  have hlength := byteLength_cons c s
  exact ⟨byteLength (c :: s) - 1, by omega, by omega, by omega⟩

theorem dropBytes?_append : dropBytes? (byteLength p) (p ++ r) = some r := by
  induction p with
  | nil => simp [byteLength, dropBytes?]
  | cons c p ih =>
      obtain ⟨n, hn, hle, hrest⟩ := byteLength_cons_succ c p
      rw [hn, List.cons_append, dropBytes?, if_pos hle, hrest, ih]

theorem takeBytes?_append : takeBytes? (byteLength p) (p ++ r) = some p := by
  induction p with
  | nil => simp [byteLength, takeBytes?]
  | cons c p ih =>
      obtain ⟨n, hn, hle, hrest⟩ := byteLength_cons_succ c p
      rw [hn, List.cons_append, takeBytes?, if_pos hle, hrest, ih]
      rfl

theorem sliceFrom_append : sliceFrom (p ++ r) (byteLength p) = .ok r := by
  rw [sliceFrom, dropBytes?_append]

/-- **A slice between two places of a text is what stands between them.** -/
theorem slice_append :
    slice (p ++ (m ++ r)) (byteLength p) (byteLength p + byteLength m) = .ok m := by
  rw [slice, if_neg (by omega), dropBytes?_append, Nat.add_sub_cancel_left, Option.bind_some,
    takeBytes?_append]

example : slice ['é', 'a'] 1 3 = .error .slice := by cbv

/-! ## Indices -/

section Rest

variable {α : Type} {xs s : List α} {i : Nat}

/-- The items from an index on. -/
def Rest (xs : List α) (i : Nat) (s : List α) : Prop := ∃ front, xs = front ++ s ∧ front.length = i

theorem rest_zero (xs : List α) : Rest xs 0 xs := ⟨[], rfl, rfl⟩

theorem Rest.skip {m : List α} (h : Rest xs i (m ++ s)) : Rest xs (i + m.length) s := by
  obtain ⟨front, rfl, rfl⟩ := h
  exact ⟨front ++ m, (List.append_assoc front m s).symm, List.length_append⟩

theorem Rest.next {x : α} (h : Rest xs i (x :: s)) : Rest xs (i + 1) s :=
  Rest.skip (m := [x]) h

theorem Rest.mem {x : α} (h : Rest xs i (x :: s)) : x ∈ xs := by
  obtain ⟨front, rfl, rfl⟩ := h
  exact List.mem_append_right front List.mem_cons_self

theorem Rest.unique {j : Nat} (h : Rest xs i s) (h' : Rest xs j s) : i = j := by
  obtain ⟨front, rfl, rfl⟩ := h
  obtain ⟨front', heq, rfl⟩ := h'
  rw [List.append_cancel_right heq]

end Rest

/-- The characters of a text that begins at an offset, each with its own offset. -/
def charIndices (offset : Nat) : List Char → List (Nat × Char)
  | [] => []
  | c :: rest => (offset, c) :: charIndices (offset + c.utf8Size) rest

theorem length_charIndices (offset : Nat) (s : List Char) :
    (charIndices offset s).length = s.length := by
  induction s generalizing offset with
  | nil => rfl
  | cons c s ih => rw [charIndices, List.length_cons, ih, List.length_cons]

theorem charIndices_append (offset : Nat) (s : List Char) :
    charIndices offset (p ++ s)
      = charIndices offset p ++ charIndices (offset + byteLength p) s := by
  induction p generalizing offset with
  | nil => rfl
  | cons c p ih =>
      rw [List.cons_append, charIndices, ih, charIndices, byteLength_cons, Nat.add_assoc,
        List.cons_append]

def charAt (source : List Char) (i : Nat) : Option Char := (charIndices 0 source)[i]?.map Prod.snd

/-- The offset of the character at an index, or the end of the text. -/
def offsetAt (source : List Char) (i : Nat) : Nat :=
  ((charIndices 0 source)[i]?.map Prod.fst).getD (byteLength source)

theorem lt_length_of_charAt {source : List Char} {i : Nat} {c : Char}
    (h : charAt source i = some c) : i < source.length := by
  obtain ⟨entry, hentry, -⟩ := Option.map_eq_some_iff.mp h
  rw [← length_charIndices 0 source]
  exact (List.getElem?_eq_some_iff.mp hentry).1

section

variable {source s : List Char} {i : Nat}

theorem charIndices_getElem? :
    (charIndices 0 (p ++ s))[p.length]? = s.head?.map fun c => (byteLength p, c) := by
  rw [charIndices_append, List.getElem?_append_right (Nat.le_of_eq (length_charIndices 0 p)),
    length_charIndices, Nat.sub_self, Nat.zero_add]
  cases s <;> rfl

theorem Rest.charAt_eq (h : Rest source i s) : charAt source i = s.head? := by
  obtain ⟨front, rfl, rfl⟩ := h
  rw [charAt, charIndices_getElem?]
  cases s <;> rfl

/-- The offset at an index is the length of what stands in front of it. -/
theorem offsetAt_append : offsetAt (p ++ s) p.length = byteLength p := by
  rw [offsetAt, charIndices_getElem?]
  cases s with
  | nil => rw [List.append_nil]; rfl
  | cons c s => rfl

theorem Rest.offsetAt_skip {m : List Char} (h : Rest source i (m ++ s)) :
    offsetAt source (i + m.length) = offsetAt source i + byteLength m := by
  obtain ⟨front, rfl, rfl⟩ := h
  rw [offsetAt_append, ← List.append_assoc, ← List.length_append, offsetAt_append,
    byteLength_append]

theorem Rest.isBoundary (h : Rest source i s) : IsBoundary source (offsetAt source i) := by
  obtain ⟨front, rfl, rfl⟩ := h
  exact ⟨front, s, rfl, offsetAt_append front⟩

theorem offsetAt_zero (source : List Char) : offsetAt source 0 = 0 := offsetAt_append []

theorem Rest.offsetAt_nil (h : Rest source i []) : offsetAt source i = byteLength source := by
  obtain ⟨front, rfl, rfl⟩ := h
  rw [offsetAt_append, List.append_nil]

/-- **The text between two indices is cut out without a crash.** -/
theorem Rest.slice_eq {m : List Char} (h : Rest source i (m ++ s)) :
    slice source (offsetAt source i) (offsetAt source (i + m.length)) = .ok m := by
  rw [h.offsetAt_skip]
  obtain ⟨front, rfl, rfl⟩ := h
  rw [offsetAt_append, slice_append]

end

end WhenClause.Checked
