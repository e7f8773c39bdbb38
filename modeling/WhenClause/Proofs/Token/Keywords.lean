import WhenClause.Proofs.Token.Respacing

set_option autoImplicit false

/-! # Operators as words

Three symbols have a word that stands for them: `and`, `or` and `not`. In a text these words may be
written for the symbols, with a blank on each side (`Lexer.inWords`). Every token stays what it is,
or becomes its word, and two neighbours are separated as before or by the new blanks
(`Lexer.scan_inWords`). -/

namespace WhenClause

/-! ## Words for symbols -/

def Symbol.keyword? : Symbol → Option String
  | andAnd => some "and"
  | orOr => some "or"
  | bang => some "not"
  | _ => none

namespace Lexeme

def keyword? : Lexeme → Option String
  | symbol s => s.keyword?
  | _ => none

/-- The lexeme, or the word that may be written for it. -/
def inWords (l : Lexeme) : Lexeme := (l.keyword?.map word).getD l

/-- The lexeme is `&&` or `||`. -/
def connects (l : Lexeme) : Bool := l == symbol .andAnd || l == symbol .orOr

theorem inWords_of_none {l : Lexeme} (h : l.keyword? = none) : l.inWords = l := by
  rw [inWords, h]
  rfl

theorem inWords_of_some {l : Lexeme} {w : String} (h : l.keyword? = some w) :
    l.inWords = word w := by
  rw [inWords, h]
  rfl

theorem eq_symbol_of_inWords {l : Lexeme} {s : Symbol} (h : l.inWords = symbol s) :
    l = symbol s := by
  cases hl : l.keyword? with
  | none => rwa [inWords_of_none hl] at h
  | some w =>
      rw [inWords_of_some hl] at h
      cases h

/-- What has a word is a symbol that is written with other symbols. -/
theorem keyword?_eq_some {l : Lexeme} {w : String} (h : l.keyword? = some w) :
    l.connects = true ∧ (w = "and" ∨ w = "or") ∨ l = symbol .bang ∧ w = "not" := by
  cases l with
  | symbol s => cases s <;> cases h <;> decide
  | _ => cases h

theorem isWord_keyword {l : Lexeme} {w : String} (h : l.keyword? = some w) :
    Lexer.isWord w = true := by
  rcases keyword?_eq_some h with ⟨-, rfl | rfl⟩ | ⟨-, rfl⟩ <;> rfl

/-- What starts a term does so in words too. -/
theorem startsTerm_inWords {l : Lexeme} (h : l.startsTerm = true) : l.inWords.startsTerm = true := by
  cases l with
  | symbol s => cases s <;> first | rfl | cases h
  | _ => rfl

end Lexeme

namespace Lexer

open WhenClause.Parser (next)

/-! ## Texts in words -/

/-- A lexeme as it is written, or its word between blanks. -/
def spelled (l : Lexeme) (written : List Char) : List Char :=
  match l.keyword? with
  | some w => ' ' :: (w.toList ++ [' '])
  | none => written

/-- The text in which every symbol that has a word is replaced by it, with a blank on each side. -/
def inWords : List Char → List Char
  | [] => []
  | c :: rest =>
      if Text.isBlank c then c :: inWords rest
      else
        match lexeme c rest with
        | .error _ => c :: rest
        | .ok (l, n) => spelled l (c :: rest.take n) ++ inWords (rest.drop n)
termination_by s => s.length
decreasing_by all_goals simp only [List.length_drop, List.length_cons]; omega

theorem inWords_nil : inWords [] = [] := by rw [inWords.eq_def]

theorem inWords_blank {c : Char} (hc : Text.isBlank c = true) (rest : List Char) :
    inWords (c :: rest) = c :: inWords rest := by
  rw [inWords.eq_def]
  exact if_pos hc

theorem inWords_lexeme {c : Char} (hc : Text.isBlank c = false) {rest : List Char} {l : Lexeme}
    {n : Nat} (h : lexeme c rest = .ok (l, n)) :
    inWords (c :: rest) = spelled l (c :: rest.take n) ++ inWords (rest.drop n) := by
  rw [inWords.eq_def]
  simp only [hc, h, Bool.false_eq_true, if_false]

theorem inWords_gap {gap : List Char} (h : IsGap gap) (s : List Char) :
    inWords (gap ++ s) = gap ++ inWords s := by
  induction gap with
  | nil => rfl
  | cons c gap ih =>
      rw [List.cons_append, inWords_blank (h c List.mem_cons_self),
        ih fun d hd => h d (List.mem_cons_of_mem c hd), List.cons_append]

theorem inWords_blanks {gap : List Char} (h : IsGap gap) : inWords gap = gap := by
  have hgap := inWords_gap h []
  rwa [inWords_nil, List.append_nil] at hgap

/-- A text in words goes on as the text does, until it comes to the first word put in. -/
theorem Scanned.near_inWords {offset : Nat} {s : List Char} {ts : List Token}
    (h : Scanned offset s ts) : Near s (inWords s) := by
  induction h with
  | done hgap =>
      rw [inWords_blanks hgap]
      exact near_of_isGap hgap _
  | @token _ gap rest c l n _ hgap hc hl _ ih =>
      rw [inWords_gap hgap, inWords_lexeme hc hl, spelled]
      refine Near.append ?_ gap
      cases l.keyword? with
      | some w => exact .blank rfl
      | none =>
          have hrest := ih.append (c :: rest.take n)
          rwa [List.cons_append, List.take_append_drop] at hrest

/-! ## Tokens in words -/

/-- The next token or the one before it has a word, with blanks on its sides. -/
def parted (t : Token) (ts : List Token) : Bool :=
  (next ts).any fun l => t.lexeme.keyword?.isSome || l.keyword?.isSome

/-- No word `not` stands in front of `&&` or `||`, unless behind a point, where it is part of a
name. -/
def notsKept : Bool → List Token → Bool
  | _, [] => true
  | behindPoint, t :: ts =>
      (behindPoint || t.lexeme != .word "not" || !(next ts).any Lexeme.connects) &&
        notsKept (t.lexeme == .symbol .dot) ts

/-- The second tokens are the first ones, in words. The flag tells whether a point stands in front
of them. -/
inductive Worded : Bool → List Token → List Token → Prop
  | nil {behindPoint : Bool} : Worded behindPoint [] []
  | cons {behindPoint : Bool} {t t' : Token} {ts ts' : List Token} :
      t'.lexeme = t.lexeme.inWords →
      standsBehind t'.stop ts' = (standsBehind t.stop ts || parted t ts) →
      (behindPoint = false → t.lexeme = .word "not" → (next ts).any Lexeme.connects = false) →
      Worded (t.lexeme == .symbol .dot) ts ts' →
      Worded behindPoint (t :: ts) (t' :: ts')

theorem Worded.next_eq {b : Bool} {ts ts' : List Token} (h : Worded b ts ts') :
    next ts' = (next ts).map Lexeme.inWords := by
  cases h with
  | nil => rfl
  | cons hl _ _ _ => simp [next, hl]

/-- A token without a word stays as it is. -/
theorem Worded.kept {b : Bool} {t : Token} {l : Lexeme} {ts us : List Token}
    (h : Worded b (t :: ts) us) (ht : t.lexeme = l) (hl : l.keyword? = none) :
    ∃ t' ts', us = t' :: ts' ∧ t'.lexeme = l ∧ Worded (l == .symbol .dot) ts ts' := by
  subst ht
  cases h with
  | cons hsame _ _ hrest => exact ⟨_, _, rfl, hsame.trans (Lexeme.inWords_of_none hl), hrest⟩

/-- Tokens found from an offset on, but not at it, stand behind it. -/
theorem standsBehind_of_scan {offset k : Nat} (hk : 0 < k) {s : List Char} {ts : List Token}
    (h : scan (offset + k) s = .ok ts) : standsBehind offset ts = (next ts).isSome := by
  cases scan_eq_ok_iff.mp h with
  | done _ => rfl
  | token _ _ _ _ =>
      simp [standsBehind, next]
      omega

/-- The word for a lexeme is taken from between its blanks. -/
theorem scan_keyword {l : Lexeme} {w : String} (h : l.keyword? = some w) (s : List Char)
    (offset : Nat) :
    scan offset (' ' :: (w.toList ++ ' ' :: s)) =
      (scan (offset + 1 + byteLength w.toList + 1) s).map
        (⟨.word w, offset + 1, offset + 1 + byteLength w.toList⟩ :: ·) := by
  have hblank (offset : Nat) (s : List Char) : scan offset (' ' :: s) = scan (offset + 1) s :=
    scan_blank (by rfl) offset s
  rw [hblank, scan_word (Lexeme.isWord_keyword h) rfl, hblank]

/-- **A text in words has the same tokens, in words.** -/
theorem scan_inWords {b : Bool} {offset : Nat} {s : List Char} {ts : List Token}
    (h : Scanned offset s ts) (hnots : notsKept b ts = true) (offset' : Nat) :
    ∃ ts', scan offset' (inWords s) = .ok ts' ∧ Worded b ts ts' ∧
      standsBehind offset' ts'
        = (standsBehind offset ts || (next ts).any fun l => l.keyword?.isSome) := by
  induction h generalizing b offset' with
  | done hgap =>
      exact ⟨[], by rw [inWords_blanks hgap, scan_blanks hgap], .nil, rfl⟩
  | @token offset gap rest c l n after hgap hc hl hscanned ih =>
      obtain ⟨hkept, hnots⟩ := Bool.and_eq_true_iff.mp hnots
      have hnot : b = false → l = .word "not" → (next after).any Lexeme.connects = false := by
        rintro rfl rfl
        simpa using hkept
      rw [inWords_gap hgap, scan_gap hgap, inWords_lexeme hc hl, spelled]
      cases hkeyword : l.keyword? with
      | none =>
          -- The lexeme stays as it is, and so does the gap in front of it.
          obtain ⟨after', hafter', hworded, hbehind⟩ := ih hnots
            (offset' + byteLength gap + byteLength (c :: rest.take n))
          refine ⟨⟨l, offset' + byteLength gap,
            offset' + byteLength gap + byteLength (c :: rest.take n)⟩ :: after', ?_,
            .cons (Lexeme.inWords_of_none hkeyword).symm ?_ hnot hworded, ?_⟩
          · show scan _ (c :: (rest.take n ++ inWords (rest.drop n))) = _
            rw [scan_near hc hl hscanned.near_inWords, hafter']
            rfl
          · simpa [parted, hkeyword] using hbehind
          · simp [standsBehind, next, hkeyword]
      | some w =>
          -- The word stands behind a new blank and in front of one.
          obtain ⟨after', hafter', hworded, hbehind⟩ := ih hnots
            (offset' + byteLength gap + 1 + byteLength w.toList + 1)
          refine ⟨⟨.word w, offset' + byteLength gap + 1,
            offset' + byteLength gap + 1 + byteLength w.toList⟩ :: after', ?_,
            .cons (Lexeme.inWords_of_some hkeyword).symm ?_ hnot hworded, ?_⟩
          · show scan _ (' ' :: (w.toList ++ [' '] ++ inWords (rest.drop n))) = _
            rw [List.append_assoc, List.singleton_append, scan_keyword hkeyword, hafter']
            rfl
          · rw [standsBehind_of_scan (Nat.one_pos) hafter', hworded.next_eq, Option.isSome_map]
            cases after <;> simp [standsBehind, parted, next, hkeyword]
          · simp [standsBehind, next, hkeyword]

end Lexer

end WhenClause
