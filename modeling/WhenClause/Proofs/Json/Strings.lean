import Mathlib.Tactic.SplitIfs
import WhenClause.Json.Reader
import WhenClause.Text.Quoted

set_option autoImplicit false

/-! # Strings in JSON texts

Between its quotes a JSON string is a list of characters that stand for themselves and of escapes:
letters, codes of four digits, and pairs of codes, which are the two halves of a character beyond
the sixteen-bit codes (`StringItem`). The reader of JSON texts takes exactly the texts of this form
and gives what they mean (`stringBody_eq_some_iff`). Quoted strings are of this form. -/

namespace WhenClause

namespace Text

/-- The letters that follow a backslash, with the characters that they stand for. -/
def letterEscapes : List (Char × Char) :=
  [('"', '"'), ('\\', '\\'), ('/', '/'), ('b', '\x08'), ('f', '\x0C'), ('n', '\n'), ('r', '\r'),
    ('t', '\t')]

/-- Four digits in base sixteen, of either case, with the number that they write. -/
structure Code where
  (a b c d : Char)
  value : Nat
  /-- The digits write the number. -/
  reads : hexNumber? [a, b, c, d] = some value

theorem hexValue?_lt {c : Char} {v : Nat} (h : hexValue? c = some v) : v < 16 := by
  simp only [hexValue?, Bool.and_eq_true, decide_eq_true_eq, Char.le_def,
    UInt32.le_iff_toNat_le] at h
  split at h
  next hdigit =>
    have hlast : c.toNat ≤ 0x39 := hdigit.2
    cases h
    omega
  next =>
    split at h
    next hletter =>
      have hlast : c.toNat ≤ 0x66 := hletter.2
      cases h
      omega
    next =>
      split at h
      next hletter =>
        have hlast : c.toNat ≤ 0x46 := hletter.2
        cases h
        omega
      next => cases h

/-- Four digits write a number of sixteen bits. -/
theorem hexNumber?_lt {a b c d : Char} {n : Nat} (h : hexNumber? [a, b, c, d] = some n) :
    n < 0x10000 := by
  simp only [hexNumber?, List.foldlM_cons, List.foldlM_nil, Option.bind_eq_bind,
    Option.bind_eq_some_iff, Option.map_eq_some_iff] at h
  obtain ⟨w, ⟨va, ha, rfl⟩, x, ⟨vb, hb, rfl⟩, y, ⟨vc, hc, rfl⟩, z, ⟨vd, hd, rfl⟩, hz⟩ := h
  have hva := hexValue?_lt ha
  have hvb := hexValue?_lt hb
  have hvc := hexValue?_lt hc
  have hvd := hexValue?_lt hd
  cases hz
  omega

namespace Code

def digits (k : Code) : List Char := [k.a, k.b, k.c, k.d]

theorem value_eq_of_digits {k k' : Code} (h : k.digits = k'.digits) : k.value = k'.value := by
  have hreads : hexNumber? k.digits = some k.value := k.reads
  have hreads' : hexNumber? k'.digits = some k'.value := k'.reads
  rw [h, hreads'] at hreads
  exact (Option.some.inj hreads).symm

end Code

end Text

namespace Json

open Text (letterEscapes Code)

/-- A character of a JSON string, as it is written. -/
inductive StringItem where
  /-- A character that stands for itself. -/
  | plain (c : Char) (bare : 0x20 ≤ c.toNat ∧ c ≠ '"' ∧ c ≠ '\\')
  /-- A letter behind a backslash. -/
  | letter (c d : Char) (escapes : (c, d) ∈ letterEscapes)
  /-- The code of a character. -/
  | code (k : Code) (valid : k.value.isValidChar)
  | pair (high low : Code) (leads : 0xD800 ≤ high.value ∧ high.value < 0xDC00)
      (trails : 0xDC00 ≤ low.value ∧ low.value < 0xE000)

namespace StringItem

def text : StringItem → List Char
  | plain c _ => [c]
  | letter c _ _ => ['\\', c]
  | code k _ => '\\' :: 'u' :: k.digits
  | pair high low _ _ => '\\' :: 'u' :: (high.digits ++ '\\' :: 'u' :: low.digits)

def meaning : StringItem → Char
  | plain c _ => c
  | letter _ d _ => d
  | code k _ => Char.ofNat k.value
  | pair high low _ _ =>
      Char.ofNat (0x10000 + (high.value - 0xD800) * 0x400 + (low.value - 0xDC00))

/-- The item is written as two codes. -/
def isPair : StringItem → Bool
  | pair _ _ _ _ => true
  | _ => false

end StringItem

def literal (items : List StringItem) : List Char :=
  '"' :: (items.flatMap StringItem.text ++ ['"'])

/-! ## The reader of JSON texts -/

namespace Reader

open Text (hexNumber?)

theorem simpleEscape?_eq_some_iff {c d : Char} :
    simpleEscape? c = some d ↔ (c, d) ∈ letterEscapes := by
  constructor
  · intro h
    unfold simpleEscape? at h
    split at h
    next hself =>
      cases h
      rcases hself with rfl | rfl | rfl <;> decide
    next =>
      repeat' split at h
      all_goals cases h
      all_goals subst_vars; decide
  · intro h
    simp only [letterEscapes, List.mem_cons, Prod.mk.injEq, List.not_mem_nil, or_false] at h
    rcases h with h | h | h | h | h | h | h | h <;> obtain ⟨rfl, rfl⟩ := h <;> rfl

/-- A character that is neither a quote nor a backslash is read by itself. -/
theorem stringBody_plain {c : Char} (h : 0x20 ≤ c.toNat ∧ c ≠ '"' ∧ c ≠ '\\') (s : List Char) :
    stringBody (c :: s) = (stringBody s).map fun (body, after) => (c :: body, after) := by
  rw [stringBody]
  · rw [if_neg]
    exact not_or.mpr ⟨Nat.not_lt.mpr h.1, h.2.2⟩
  all_goals simp [h.2.1, h.2.2]

theorem stringBody_letter {c d : Char} (h : simpleEscape? c = some d) (s : List Char) :
    stringBody ('\\' :: c :: s) = (stringBody s).map fun (body, after) => (d :: body, after) := by
  have hu : c ≠ 'u' := by
    rintro rfl
    cases h
  rw [stringBody]
  · rw [h]
  all_goals simp [hu]

/-- **An item is read as the character that it stands for.** -/
theorem stringBody_item (item : StringItem) (s : List Char) :
    stringBody (item.text ++ s) =
      (stringBody s).map fun (body, after) => (item.meaning :: body, after) := by
  cases item with
  | plain c hbare => exact stringBody_plain hbare s
  | letter c d hescapes => exact stringBody_letter (simpleEscape?_eq_some_iff.mpr hescapes) s
  | code k hvalid =>
      -- The code of a character is neither half of a pair.
      have hcode : k.value < 0xD800 ∨ 0xDFFF < k.value ∧ k.value < 0x110000 := hvalid
      have htrailing : isTrailing k.value = false := by
        simp only [isTrailing, Bool.and_eq_false_iff, decide_eq_false_iff_not]
        omega
      have hleading : isLeading k.value = false := by
        simp only [isLeading, Bool.and_eq_false_iff, decide_eq_false_iff_not]
        omega
      show stringBody ('\\' :: 'u' :: k.a :: k.b :: k.c :: k.d :: s) = _
      rw [stringBody, k.reads]
      simp only [htrailing, hleading, Bool.false_eq_true, if_false]
      rfl
  | pair high low hleads htrails =>
      have htrailing : isTrailing high.value = false := by
        simp only [isTrailing, Bool.and_eq_false_iff, decide_eq_false_iff_not]
        omega
      have hleading : isLeading high.value = true := by simp [isLeading, hleads]
      have hsecond : isTrailing low.value = true := by simp [isTrailing, htrails]
      show stringBody ('\\' :: 'u' :: high.a :: high.b :: high.c :: high.d ::
        '\\' :: 'u' :: low.a :: low.b :: low.c :: low.d :: s) = _
      rw [stringBody, high.reads]
      simp only [htrailing, hleading, Bool.false_eq_true, if_false, if_true]
      rw [low.reads]
      simp only [hsecond, if_true]
      rfl

/-- Items are read as the characters that they stand for. -/
theorem stringBody_items (items : List StringItem) (r : List Char) :
    stringBody (items.flatMap StringItem.text ++ '"' :: r)
      = some (items.map StringItem.meaning, r) := by
  induction items with
  | nil => simp [stringBody]
  | cons item items ih =>
      rw [List.flatMap_cons, List.append_assoc, stringBody_item, ih]
      rfl

theorem map_eq_some {s : Option (List Char × List Char)} {d : Char} {body r : List Char}
    (h : (s.map fun (body, after) => (d :: body, after)) = some (body, r)) :
    ∃ more, s = some (more, r) ∧ body = d :: more := by
  obtain ⟨⟨more, after⟩, hs, hmap⟩ := Option.map_eq_some_iff.mp h
  cases hmap
  exact ⟨more, hs, rfl⟩

/-- What is read is made of items. -/
theorem exists_items {s body r : List Char} (h : stringBody s = some (body, r)) :
    ∃ items : List StringItem, s = items.flatMap StringItem.text ++ '"' :: r ∧
      body = items.map StringItem.meaning := by
  fun_induction stringBody s generalizing body with
  | case1 | case3 | case4 | case6 | case7 | case8 | case10 | case12 | case13 => cases h
  | case2 rest =>
      cases h
      exact ⟨[], rfl, rfl⟩
  | case5 a b c d high hhigh _ hleading a' b' c' d' rest low hlow htrailing ih =>
      obtain ⟨more, hmore, rfl⟩ := map_eq_some h
      obtain ⟨items, rfl, rfl⟩ := ih hmore
      simp only [isLeading, isTrailing, Bool.and_eq_true, decide_eq_true_eq] at hleading htrailing
      exact ⟨.pair ⟨a, b, c, d, high, hhigh⟩ ⟨a', b', c', d', low, hlow⟩ hleading htrailing :: items,
        rfl, rfl⟩
  | case9 a b c d rest code hcode htrailing hleading ih =>
      obtain ⟨more, hmore, rfl⟩ := map_eq_some h
      obtain ⟨items, rfl, rfl⟩ := ih hmore
      have hbound := Text.hexNumber?_lt hcode
      have hvalid : code.isValidChar := by
        simp only [isLeading, isTrailing, Bool.and_eq_true, decide_eq_true_eq] at hleading htrailing
        show code < 0xD800 ∨ 0xDFFF < code ∧ code < 0x110000
        omega
      exact ⟨.code ⟨a, b, c, d, code, hcode⟩ hvalid :: items, rfl, rfl⟩
  | case11 c rest _ _ decoded hescape ih =>
      obtain ⟨more, hmore, rfl⟩ := map_eq_some h
      obtain ⟨items, rfl, rfl⟩ := ih hmore
      exact ⟨.letter c decoded (simpleEscape?_eq_some_iff.mp hescape) :: items, rfl, rfl⟩
  | case14 c rest hquote _ _ _ hbare ih =>
      obtain ⟨more, hmore, rfl⟩ := map_eq_some h
      obtain ⟨items, rfl, rfl⟩ := ih hmore
      rw [not_or, Nat.not_lt] at hbare
      exact ⟨.plain c ⟨hbare.1, hquote, hbare.2⟩ :: items, rfl, rfl⟩

/-- **The texts of string literals are those that the reader takes.** -/
theorem stringBody_eq_some_iff {s body r : List Char} :
    stringBody s = some (body, r) ↔
      ∃ items : List StringItem, s = items.flatMap StringItem.text ++ '"' :: r ∧
        body = items.map StringItem.meaning := by
  refine ⟨exists_items, ?_⟩
  rintro ⟨items, rfl, rfl⟩
  exact stringBody_items items r

/-! ## Quoted strings -/

/-- A control is the number of the code that it is written with. -/
theorem hexNumber?_control {n : Nat} (h : n < 0x20) :
    hexNumber? ['0', '0', Text.hexDigit (n / 16), Text.hexDigit (n % 16)] = some n := by
  have hhigh := Text.hexValue?_hexDigit (n := n / 16) (by omega)
  have hlow := Text.hexValue?_hexDigit (n := n % 16) (by omega)
  have hzero : Text.hexValue? '0' = some 0 := rfl
  simp only [hexNumber?, List.foldlM_cons, List.foldlM_nil, hzero, hhigh, hlow, Option.map_some,
    Option.bind_eq_bind, Option.bind_some]
  exact congrArg some (by omega)

/-- The written form of a character is an item that stands for it, and not two codes. -/
theorem exists_item (c : Char) :
    ∃ item : StringItem, item.text = Text.Quoted.escape c ∧ item.meaning = c ∧
      item.isPair = false := by
  unfold Text.Quoted.escape
  split_ifs with hquote hslash hb hf hn hr ht hcontrol
  · exact ⟨.letter '"' '"' (by decide), rfl, hquote.symm, rfl⟩
  · exact ⟨.letter '\\' '\\' (by decide), rfl, hslash.symm, rfl⟩
  · exact ⟨.letter 'b' '\x08' (by decide), rfl, hb.symm, rfl⟩
  · exact ⟨.letter 'f' '\x0C' (by decide), rfl, hf.symm, rfl⟩
  · exact ⟨.letter 'n' '\n' (by decide), rfl, hn.symm, rfl⟩
  · exact ⟨.letter 'r' '\r' (by decide), rfl, hr.symm, rfl⟩
  · exact ⟨.letter 't' '\t' (by decide), rfl, ht.symm, rfl⟩
  · exact ⟨.code ⟨_, _, _, _, c.toNat, hexNumber?_control hcontrol⟩ c.valid, rfl,
      Char.ofNat_toNat c, rfl⟩
  · exact ⟨.plain c ⟨Nat.not_lt.mp hcontrol, hquote, hslash⟩, rfl, rfl, rfl⟩

/-- **A quoted string is read as its contents.** -/
theorem stringBody_body (s r : List Char) :
    stringBody (Text.Quoted.body s ++ '"' :: r) = some (s, r) := by
  induction s with
  | nil => simp [Text.Quoted.body, stringBody]
  | cons c s ih =>
      obtain ⟨item, htext, hmeaning, -⟩ := exists_item c
      rw [Text.Quoted.body, List.flatMap_cons, ← htext, List.append_assoc, stringBody_item]
      rw [Text.Quoted.body] at ih
      rw [ih, hmeaning]
      rfl

end Reader

end Json

end WhenClause
