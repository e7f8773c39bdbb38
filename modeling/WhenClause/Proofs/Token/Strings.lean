import WhenClause.Proofs.Json.Strings
import WhenClause.Proofs.Token.Concatenation

set_option autoImplicit false

/-! # Strings among the lexemes

Between its quotes a string is a list of characters that stand for themselves and of escapes
(`IsContents`). The lexer takes exactly that: a string whose contents end with the quote is closed
(`IsContents.stringBody_closed`, `isContents_of_stringBody`), and any other one goes wrong behind
some contents, where the text ends or an escape is none (`Breaks`, `exists_breaks`). Quoted strings
have contents, with the meaning that they have in JSON texts (`isContents_body`). -/

namespace WhenClause.Lexer

open Json (StringItem)
open Text (letterEscapes Code hexNumber?)

/-! ## Escapes -/

/-- The letters that follow a backslash: those of JSON and the apostrophe. -/
def escapeLetters : List (Char × Char) := ('\x27', '\x27') :: letterEscapes

/-- An escape, with the character that it stands for. -/
inductive IsEscape : List Char → Char → Prop
  | letter {c d : Char} : (c, d) ∈ escapeLetters → IsEscape ['\\', c] d
  | code {k : Code} {c : Char} : k.value = c.toNat → IsEscape ('\\' :: 'u' :: k.digits) c

theorem simpleEscape?_eq_some_iff {c d : Char} :
    simpleEscape? c = some d ↔ (c, d) ∈ escapeLetters := by
  constructor
  · intro h
    unfold simpleEscape? at h
    split at h
    next hself =>
      cases h
      rcases hself with rfl | rfl | rfl | rfl <;> decide
    next =>
      repeat' split at h
      all_goals cases h
      all_goals subst_vars; decide
  · intro h
    simp only [escapeLetters, letterEscapes, List.mem_cons, Prod.mk.injEq, List.not_mem_nil,
      or_false] at h
    rcases h with h | h | h | h | h | h | h | h | h <;> obtain ⟨rfl, rfl⟩ := h <;> rfl

theorem toNat_ofNat {n : Nat} (h : n.isValidChar) : (Char.ofNat n).toNat = n := by
  rw [Char.ofNat, dif_pos h]
  rfl

theorem codeEscape?_eq_some_iff {a b c d x : Char} :
    codeEscape? a b c d = some x ↔ hexNumber? [a, b, c, d] = some x.toNat := by
  simp only [codeEscape?, Option.bind_eq_bind, Option.bind_eq_some_iff]
  constructor
  · rintro ⟨code, hcode, h⟩
    split at h
    next hvalid =>
      cases h
      rw [hcode, toNat_ofNat hvalid]
    next => cases h
  · intro h
    refine ⟨x.toNat, h, ?_⟩
    have hvalid : x.toNat.isValidChar := x.valid
    rw [if_pos hvalid, Char.ofNat_toNat]

theorem isEscape_letter {c d : Char} (h : simpleEscape? c = some d) : IsEscape ['\\', c] d :=
  .letter (simpleEscape?_eq_some_iff.mp h)

theorem isEscape_code {a b c d x : Char} (h : codeEscape? a b c d = some x) :
    IsEscape ['\\', 'u', a, b, c, d] x :=
  .code (k := ⟨a, b, c, d, x.toNat, codeEscape?_eq_some_iff.mp h⟩) rfl

theorem stringBody_letter {quote c d : Char} (h : (c, d) ∈ escapeLetters) (s : List Char) :
    stringBody quote ('\\' :: c :: s) =
      (stringBody quote s).map fun (body, n) => (d :: body, n + 2) := by
  have hescape := simpleEscape?_eq_some_iff.mpr h
  have hu : c ≠ 'u' := by
    rintro rfl
    cases hescape
  rw [stringBody]
  · rw [hescape]
  all_goals simp [hu]

theorem stringBody_code {quote c : Char} {k : Code} (h : k.value = c.toNat) (s : List Char) :
    stringBody quote ('\\' :: 'u' :: (k.digits ++ s)) =
      (stringBody quote s).map fun (body, n) => (c :: body, n + 6) := by
  have hcode : codeEscape? k.a k.b k.c k.d = some c :=
    codeEscape?_eq_some_iff.mpr (h ▸ k.reads)
  show stringBody quote ('\\' :: 'u' :: k.a :: k.b :: k.c :: k.d :: s) = _
  rw [stringBody, hcode]

theorem stringBody_escape {quote c : Char} {e : List Char} (h : IsEscape e c) (s : List Char) :
    stringBody quote (e ++ s) =
      (stringBody quote s).map fun (body, n) => (c :: body, n + e.length) := by
  cases h with
  | letter hletter => exact stringBody_letter hletter s
  | code hcode => exact stringBody_code hcode s

/-! ## Contents -/

/-- What stands between quotes, with the characters that it stands for. -/
inductive IsContents (quote : Char) : List Char → List Char → Prop
  | nil : IsContents quote [] []
  | plain {c : Char} {s body : List Char} : c ≠ quote → c ≠ '\\' → IsContents quote s body →
      IsContents quote (c :: s) (c :: body)
  | escape {e s body : List Char} {c : Char} : IsEscape e c → IsContents quote s body →
      IsContents quote (e ++ s) (c :: body)

/-- Contents are read as what they stand for, and what follows is read behind them. -/
theorem IsContents.stringBody {quote : Char} {s body : List Char} (h : IsContents quote s body)
    (r : List Char) :
    stringBody quote (s ++ r) =
      (stringBody quote r).map fun (more, n) => (body ++ more, s.length + n) := by
  induction h with
  | nil =>
      simp only [List.nil_append, List.length_nil, Nat.zero_add]
      cases Lexer.stringBody quote r <;> rfl
  | @plain c s body hquote hslash _ ih =>
      rw [List.cons_append, stringBody_plain hslash, if_neg hquote, ih]
      cases Lexer.stringBody quote r with
      | error cause => rfl
      | ok found => simp only [Except.map, List.cons_append, List.length_cons, Nat.add_right_comm]
  | @escape e s body c hescape _ ih =>
      rw [List.append_assoc, stringBody_escape hescape, ih]
      cases Lexer.stringBody quote r with
      | error cause => rfl
      | ok found =>
          have hlength : s.length + found.2 + e.length = (e ++ s).length + found.2 := by
            rw [List.length_append]
            omega
          simp only [Except.map, List.cons_append, hlength]

theorem IsContents.append {quote : Char} {s t body more : List Char} (h : IsContents quote s body)
    (h' : IsContents quote t more) : IsContents quote (s ++ t) (body ++ more) := by
  induction h with
  | nil => exact h'
  | plain hquote hslash _ ih => exact .plain hquote hslash ih
  | escape hescape _ ih =>
      rw [List.append_assoc]
      exact .escape hescape ih

/-- **A string is closed by its quote.** -/
theorem IsContents.stringBody_closed {quote : Char} {s body : List Char}
    (h : IsContents quote s body) (hquote : quote ≠ '\\') (r : List Char) :
    Lexer.stringBody quote (s ++ quote :: r) = .ok (body, s.length + 1) := by
  rw [h.stringBody, stringBody_plain hquote, if_pos rfl]
  simp [Except.map]

theorem isContents_of_stringBody {quote : Char} {t body : List Char} {n : Nat}
    (h : stringBody quote t = .ok (body, n)) :
    ∃ s r, t = s ++ quote :: r ∧ IsContents quote s body ∧ n = s.length + 1 := by
  fun_induction stringBody quote t generalizing body n with
  | case1 | case3 | case4 | case5 | case7 => cases h
  | case2 a b c d rest decoded hcode ih =>
      obtain ⟨⟨more, m⟩, hmore, hmap⟩ := map_eq_ok h
      obtain ⟨s, r, rfl, hs, rfl⟩ := ih hmore
      cases hmap
      exact ⟨['\\', 'u', a, b, c, d] ++ s, r, rfl, .escape (isEscape_code hcode) hs, rfl⟩
  | case6 c rest _ _ decoded hescape ih =>
      obtain ⟨⟨more, m⟩, hmore, hmap⟩ := map_eq_ok h
      obtain ⟨s, r, rfl, hs, rfl⟩ := ih hmore
      cases hmap
      exact ⟨['\\', c] ++ s, r, rfl, .escape (isEscape_letter hescape) hs, rfl⟩
  | case8 rest =>
      cases h
      exact ⟨[], rest, rfl, .nil, rfl⟩
  | case9 c rest _ _ hnil hcons hquote ih =>
      obtain ⟨⟨more, m⟩, hmore, hmap⟩ := map_eq_ok h
      have hslash : c ≠ '\\' := ne_slash hnil hcons
      obtain ⟨s, r, rfl, hs, rfl⟩ := ih hmore
      cases hmap
      exact ⟨c :: s, r, rfl, .plain hquote hslash hs, rfl⟩

/-! ## Strings of JSON texts -/

/-- What stands in a JSON string is contents of that meaning, unless it is two codes. -/
theorem isContents_item (item : StringItem) (h : item.isPair = false) :
    IsContents '"' item.text [item.meaning] := by
  have hescape {e : List Char} {c : Char} (he : IsEscape e c) : IsContents '"' e [c] := by
    have hcontents : IsContents '"' (e ++ []) [c] := .escape he .nil
    rwa [List.append_nil] at hcontents
  cases item with
  | plain c hbare => exact .plain hbare.2.1 hbare.2.2 .nil
  | letter c d hescapes => exact hescape (.letter (List.mem_cons_of_mem _ hescapes))
  | code k hvalid => exact hescape (.code (toNat_ofNat hvalid).symm)
  | pair => cases h

/-- **A quoted string has the contents that it is written for.** -/
theorem isContents_body (s : List Char) : IsContents '"' (Text.Quoted.body s) s := by
  induction s with
  | nil => exact .nil
  | cons c s ih =>
      obtain ⟨item, htext, hmeaning, hpair⟩ := Json.Reader.exists_item c
      have hcontents := (isContents_item item hpair).append ih
      rw [htext, hmeaning] at hcontents
      exact hcontents

/-! ## Strings that go wrong -/

/-- Where the contents of a string break off, and why: the text ends, or a backslash and what
stands behind it are no escape. -/
inductive Breaks : List Char → Fault → Prop
  | ends : Breaks [] .unclosedString
  | endsEscape : Breaks ['\\'] .unclosedString
  | letter {c : Char} {r : List Char} : c ≠ 'u' → (∀ d, (c, d) ∉ escapeLetters) →
      Breaks ('\\' :: c :: r) (.invalidEscape c)
  | code {r : List Char} : (∀ (k : Code) (c : Char), k.digits <+: r → k.value ≠ c.toNat) →
      Breaks ('\\' :: 'u' :: r) .invalidCode

theorem codeEscape?_eq_none_iff {a b c d : Char} :
    codeEscape? a b c d = none ↔
      ∀ (k : Code) (x : Char), k.digits = [a, b, c, d] → k.value ≠ x.toNat := by
  rw [Option.eq_none_iff_forall_ne_some]
  constructor
  · rintro hnone k x hdigits hx
    have hreads : hexNumber? k.digits = some k.value := k.reads
    rw [hdigits, hx] at hreads
    exact hnone x (codeEscape?_eq_some_iff.mpr hreads)
  · intro hcodes x hx
    exact hcodes ⟨a, b, c, d, x.toNat, codeEscape?_eq_some_iff.mp hx⟩ x rfl rfl

theorem Breaks.stringBody {quote : Char} {r : List Char} {cause : Fault} (h : Breaks r cause) :
    stringBody quote r = .error cause := by
  cases h with
  | ends => rw [Lexer.stringBody]
  | endsEscape => rw [Lexer.stringBody]
  | @letter c r hu hletter =>
      have hnone : simpleEscape? c = none := by
        rw [Option.eq_none_iff_forall_ne_some]
        exact fun d hd => hletter d (simpleEscape?_eq_some_iff.mp hd)
      rw [Lexer.stringBody]
      · rw [hnone]
      all_goals simp [hu]
  | @code r hcodes =>
      -- Either four characters follow, or fewer.
      rcases r with _ | ⟨a, _ | ⟨b, _ | ⟨c, _ | ⟨d, rest⟩⟩⟩⟩
      case cons.cons.cons.cons =>
        have hnone : codeEscape? a b c d = none :=
          codeEscape?_eq_none_iff.mpr fun k x hdigits => hcodes k x (hdigits ▸ ⟨rest, rfl⟩)
        rw [Lexer.stringBody, hnone]
      all_goals
        rw [Lexer.stringBody]
        simp

theorem map_eq_error {ε α β : Type} {f : α → β} {x : Except ε α} {e : ε}
    (h : x.map f = .error e) : x = .error e := by
  cases x with
  | error e' => exact congrArg Except.error (Except.error.inj h)
  | ok a => cases h

/-- **A string that is not closed breaks off behind some contents.** -/
theorem exists_breaks {quote : Char} {t : List Char} {cause : Fault}
    (h : stringBody quote t = .error cause) :
    ∃ s body r, t = s ++ r ∧ IsContents quote s body ∧ Breaks r cause := by
  fun_induction stringBody quote t with
  | case8 => cases h
  | case1 =>
      cases h
      exact ⟨[], [], [], rfl, .nil, .ends⟩
  | case5 =>
      cases h
      exact ⟨[], [], ['\\'], rfl, .nil, .endsEscape⟩
  | case7 c rest _ hu hnone =>
      cases h
      refine ⟨[], [], _, rfl, .nil, .letter hu fun d hd => ?_⟩
      rw [simpleEscape?_eq_some_iff.mpr hd] at hnone
      cases hnone
  | case3 a b c d rest hnone =>
      cases h
      refine ⟨[], [], _, rfl, .nil, .code fun k x hstarts => ?_⟩
      have hdigits : k.digits = [a, b, c, d] :=
        List.prefix_iff_eq_take.mp hstarts
      exact codeEscape?_eq_none_iff.mp hnone k x hdigits
  | case4 tail hshort =>
      cases h
      refine ⟨[], [], _, rfl, .nil, .code fun k x hstarts => ?_⟩
      obtain ⟨rest, rfl⟩ := hstarts
      exact absurd rfl (hshort k.a k.b k.c k.d rest)
  | case2 a b c d rest decoded hcode ih =>
      obtain ⟨s, body, r, rfl, hs, hbreaks⟩ := ih (map_eq_error h)
      exact ⟨['\\', 'u', a, b, c, d] ++ s, _, r, rfl, .escape (isEscape_code hcode) hs, hbreaks⟩
  | case6 c rest _ _ decoded hescape ih =>
      obtain ⟨s, body, r, rfl, hs, hbreaks⟩ := ih (map_eq_error h)
      exact ⟨['\\', c] ++ s, _, r, rfl, .escape (isEscape_letter hescape) hs, hbreaks⟩
  | case9 c rest _ _ hnil hcons hquote ih =>
      have hslash : c ≠ '\\' := ne_slash hnil hcons
      obtain ⟨s, body, r, rfl, hs, hbreaks⟩ := ih (map_eq_error h)
      exact ⟨c :: s, _, r, rfl, .plain hquote hslash hs, hbreaks⟩

end WhenClause.Lexer
