import WhenClause.Proofs.Safety.Checked
import WhenClause.Proofs.Token.Classes

set_option autoImplicit false

/-! # The tokens cover the text

A text is cut from its front on, and the lexer stands at some place in it (`Reads`). From each
place it goes on to the end of the text or to a place where the text is malformed
(`exists_reads`). What it has read on the way is what it should be (`Reads.covers`): between two
places the tokens stand in order, each one is the longest lexeme of its class at its place
(`Stands`), and whatever is not blank belongs to one of them (`Covers`). So every text is either
cut whole, or up to the first malformed place in it (`tokenize_exact`). -/

namespace WhenClause.Lexer

/-! ## Spellings -/

/-- What spells a lexeme is that lexeme, where nothing stands behind it. -/
theorem Spells.lexeme {k : Class} {s : List Char} {l : Lexeme} (h : Spells k s l) :
    ∃ c more, s = c :: more ∧ Text.isBlank c = false ∧ lexeme c more = .ok (l, more.length) := by
  cases k with
  | symbol =>
      obtain ⟨x⟩ := h
      rcases symbol_cases x with ⟨c, htext, hsymbol⟩ | ⟨c, d, htext, hsymbol⟩
      · refine ⟨c, [], htext, ?_, ?_⟩
        · cases x <;> cases htext <;> rfl
        · exact lexeme_of_symbol (by rw [symbol?, List.head?_nil, Option.bind_none, hsymbol]; rfl)
      · refine ⟨c, [d], htext, ?_, ?_⟩
        · cases x <;> cases htext <;> rfl
        · exact lexeme_of_symbol (by rw [symbol?, List.head?_cons, Option.bind_some, hsymbol]; rfl)
  | string =>
      obtain _ | @⟨quote, s, body, hquote, hs⟩ := h
      refine ⟨quote, s ++ [quote], rfl, by rcases hquote with rfl | rfl <;> rfl, ?_⟩
      rw [lexeme_of_quote hquote, hs.stringBody_closed hquote.ne_slash, List.length_append]
      rfl
  | number =>
      obtain _ | _ | ⟨hs, hread⟩ := h
      obtain rfl := Option.some_inj.mp (hread.symm.trans hs.read?)
      have hends : EndsNumeral s [] := ⟨rfl, rfl, fun _ => rfl⟩
      have hsplit := hs.splitNumeral hends
      obtain ⟨c, more, rfl, hstarts⟩ := hs.startsNumber
      have hstart := hstarts []
      rw [List.append_nil] at hstart hsplit
      have hblank : Text.isBlank c = false := by
        simp only [startsNumber, Bool.or_eq_true, Bool.and_eq_true, beq_iff_eq] at hstart
        rcases hstart with hdigit | ⟨rfl, -⟩
        · exact isBlank_of_isDigit hdigit
        · rfl
      refine ⟨c, more, rfl, hblank, ?_⟩
      rw [lexeme_of_startsNumber hstart, hsplit]
      rfl
  | word =>
      obtain ⟨c, more, rfl, hc, hmore, rfl⟩ := h.of_word
      have htake := (takeWhile_stop (r := []) hmore rfl).1
      rw [List.append_nil] at htake
      exact ⟨c, more, rfl, isBlank_of_startsWord hc, by rw [lexeme_of_startsWord hc, htake]⟩

/-- **A spelling alone is one token**, the lexeme that it spells. -/
theorem Spells.tokenize {k : Class} {s : List Char} {l : Lexeme} (h : Spells k s l) :
    tokenize s = .ok ⟨[⟨l, 0, byteLength s⟩], byteLength s⟩ := by
  obtain ⟨c, more, rfl, hc, hl⟩ := h.lexeme
  rw [Lexer.tokenize, scan_lexeme hc hl, List.take_length, List.drop_length, scan_nil]
  simp [Except.map]

/-! ## Places -/

/-- From one place in a text the lexer goes on to another one, and reads these tokens. A place is
what stands in front of it and what stands behind it. -/
inductive Reads : List Char → List Char → List Token → List Char → List Char → Prop
  | here {front s : List Char} : Reads front s [] front s
  | blank {front s front' s' : List Char} {c : Char} {ts : List Token} : Text.isBlank c = true →
      Reads (front ++ [c]) s ts front' s' → Reads front (c :: s) ts front' s'
  | token {front slice behind front' s' : List Char} {l : Lexeme} {ts : List Token} {k : Class} :
      Longest k slice behind l → (∀ cause, ¬ Malformed (slice ++ behind) cause) →
      Reads (front ++ slice) behind ts front' s' →
      Reads front (slice ++ behind)
        (⟨l, byteLength front, byteLength front + byteLength slice⟩ :: ts) front' s'

/-- **From every place the lexer goes on to the end of the text, or to a malformed place.** -/
theorem exists_reads (front s : List Char) :
    ∃ ts front' s', Reads front s ts front' s' ∧
      (s' = [] ∧ scan (byteLength front) s = .ok ts ∨
        ∃ cause, Malformed s' cause ∧
          scan (byteLength front) s = .error (.fault cause (byteLength front'))) := by
  match s with
  | [] => exact ⟨[], front, [], .here, Or.inl ⟨rfl, scan_nil _⟩⟩
  | c :: rest =>
      cases hc : Text.isBlank c with
      | true =>
          obtain ⟨ts, front', s', hreads, houtcome⟩ := exists_reads (front ++ [c]) rest
          have hoffset : byteLength (front ++ [c]) = byteLength front + c.utf8Size := by
            simp [byteLength]
          rw [hoffset, ← scan_blank hc] at houtcome
          exact ⟨ts, front', s', .blank hc hreads, houtcome⟩
      | false =>
          cases hl : lexeme c rest with
          | error cause =>
              exact ⟨[], front, c :: rest, .here,
                Or.inr ⟨cause, malformed_of_lexeme hc hl, scan_fault hc hl _⟩⟩
          | ok found =>
              obtain ⟨l, n⟩ := found
              obtain ⟨k, hlongest⟩ := longest_of_lexeme hl
              have hsound : ∀ cause, ¬ Malformed (c :: rest) cause := by
                intro cause hmalformed
                rw [hmalformed.lexeme] at hl
                cases hl
              have hscan := scan_lexeme hc hl (byteLength front)
              have hsplit : (c :: rest.take n) ++ rest.drop n = c :: rest := by
                rw [List.cons_append, List.take_append_drop]
              obtain ⟨ts, front', s', hreads, houtcome⟩ :=
                exists_reads (front ++ c :: rest.take n) (rest.drop n)
              rw [← hsplit] at hsound ⊢
              rw [byteLength_append] at houtcome
              refine ⟨_, front', s', .token hlongest hsound hreads, ?_⟩
              rw [hsplit, hscan]
              rcases houtcome with ⟨hend, hts⟩ | ⟨cause, hmalformed, herror⟩
              · exact Or.inl ⟨hend, by rw [hts]; rfl⟩
              · exact Or.inr ⟨cause, hmalformed, by rw [herror]; rfl⟩
termination_by s.length
decreasing_by all_goals simp only [List.length_drop, List.length_cons]; omega

/-! ## Tokens at their places -/

/-- A token stands in the text between what is in front of it and what is behind it: it is the
longest lexeme of its class there, and by itself the same token. -/
structure Stands (source front slice behind : List Char) (t : Token) : Prop where
  split : source = front ++ (slice ++ behind)
  start_eq : t.start = byteLength front
  stop_eq : t.stop = byteLength front + byteLength slice
  longest : ∃ k, Longest k slice behind t.lexeme
  sound : ∀ cause, ¬ Malformed (slice ++ behind) cause
  alone : tokenize slice = .ok ⟨[⟨t.lexeme, 0, byteLength slice⟩], byteLength slice⟩

/-- Between two places of the text the tokens stand in order, and nothing but blanks stands
between them. -/
structure Covers (source : List Char) (start stop : Nat) (ts : List Token) : Prop where
  ordered : ts.Pairwise fun t u => t.stop ≤ u.start
  within : ∀ t ∈ ts, start ≤ t.start ∧ t.start < t.stop ∧ t.stop ≤ stop
  stands : ∀ t ∈ ts, ∃ front slice behind, Stands source front slice behind t
  covered : ∀ front c behind, source = front ++ c :: behind → Text.isBlank c = false →
    start ≤ byteLength front → byteLength front < stop →
    ∃ t ∈ ts, t.start ≤ byteLength front ∧ byteLength (front ++ [c]) ≤ t.stop

theorem byteLength_nil : byteLength [] = 0 := rfl

theorem byteLength_pos {s : List Char} (h : s ≠ []) : 0 < byteLength s := by
  have hlt : 0 < 0 + byteLength s := lt_add_byteLength.mpr h
  rwa [Nat.zero_add] at hlt

/-- Of two places in a text one is behind the other. -/
theorem place_cases {front front' s s' : List Char} (h : front ++ s = front' ++ s')
    (hle : byteLength front ≤ byteLength front') : ∃ m, front' = front ++ m ∧ s = m ++ s' := by
  rw [List.append_eq_append_iff] at h
  rcases h with ⟨m, hfront, hs⟩ | ⟨m, rfl, rfl⟩
  · exact ⟨m, hfront, hs⟩
  · have hnil : m = [] := by
      by_contra hne
      have hpos := byteLength_pos hne
      rw [byteLength_append] at hle
      omega
    subst hnil
    exact ⟨[], by simp, rfl⟩

theorem Reads.places {front s front' s' : List Char} {ts : List Token}
    (h : Reads front s ts front' s') :
    front ++ s = front' ++ s' ∧ byteLength front ≤ byteLength front' := by
  induction h with
  | here => exact ⟨rfl, Nat.le_refl _⟩
  | blank hc _ ih =>
      rw [byteLength_append] at ih
      exact ⟨by simpa using ih.1, by omega⟩
  | token _ _ _ ih =>
      rw [byteLength_append] at ih
      exact ⟨by simpa using ih.1, by omega⟩

variable {source front slice behind : List Char} {stop : Nat} {ts : List Token}

theorem covers_nil (source : List Char) (offset : Nat) : Covers source offset offset [] where
  ordered := .nil
  within := List.forall_mem_nil _
  stands := List.forall_mem_nil _
  covered _ _ _ _ _ hstart hstop := absurd hstop (Nat.not_lt.mpr hstart)

theorem Covers.blank {c : Char} (h : Covers source (byteLength (front ++ [c])) stop ts)
    (hc : Text.isBlank c = true) (hsource : source = front ++ c :: behind) :
    Covers source (byteLength front) stop ts where
  ordered := h.ordered
  within t ht := by
    obtain ⟨hstart, hbetween⟩ := h.within t ht
    rw [byteLength_append] at hstart
    exact ⟨by omega, hbetween⟩
  stands := h.stands
  covered front' d behind' hplace hd hstart hstop := by
    obtain ⟨m, rfl, hm⟩ := place_cases (hsource.symm.trans hplace) hstart
    cases m with
    | nil =>
        obtain rfl : c = d := (List.cons.inj hm).1
        rw [hc] at hd
        cases hd
    | cons x m =>
        obtain rfl : c = x := (List.cons.inj hm).1
        refine h.covered _ d behind' hplace hd ?_ hstop
        simp only [byteLength_append, byteLength_cons, byteLength_nil]
        omega

theorem Covers.token {t : Token} (h : Covers source (byteLength (front ++ slice)) stop ts)
    (ht : Stands source front slice behind t) (hslice : slice ≠ [])
    (hstop : byteLength (front ++ slice) ≤ stop) : Covers source (byteLength front) stop (t :: ts) where
  ordered := by
    refine List.pairwise_cons.mpr ⟨fun u hu => ?_, h.ordered⟩
    rw [ht.stop_eq, ← byteLength_append]
    exact (h.within u hu).1
  within := by
    have hpos := byteLength_pos hslice
    rw [byteLength_append] at hstop
    refine List.forall_mem_cons.mpr ⟨⟨ht.start_eq.ge, ?_, ?_⟩, fun u hu => ?_⟩
    · rw [ht.start_eq, ht.stop_eq]
      omega
    · rw [ht.stop_eq]
      exact hstop
    · obtain ⟨hstart, hbetween⟩ := h.within u hu
      rw [byteLength_append] at hstart
      exact ⟨by omega, hbetween⟩
  stands := List.forall_mem_cons.mpr ⟨⟨front, slice, behind, ht⟩, h.stands⟩
  covered front' d behind' hplace hd hstart hend := by
    obtain ⟨m, rfl, hm⟩ := place_cases (ht.split.symm.trans hplace) hstart
    rw [List.append_eq_append_iff] at hm
    rcases hm with ⟨a, rfl, -⟩ | ⟨a, rfl, ha⟩
    · -- The character stands behind the slice.
      obtain ⟨u, hu, hcover⟩ := h.covered _ d behind' hplace hd
        (by simp only [byteLength_append]; omega) hend
      exact ⟨u, List.mem_cons_of_mem t hu, hcover⟩
    · cases a with
      | nil =>
          rw [List.append_nil] at h hstop
          obtain ⟨u, hu, hcover⟩ := h.covered _ d behind' hplace hd (Nat.le_refl _) hend
          exact ⟨u, List.mem_cons_of_mem t hu, hcover⟩
      | cons x a =>
          -- The character stands in the slice.
          obtain rfl : d = x := (List.cons.inj ha).1
          refine ⟨t, List.mem_cons_self, ?_, ?_⟩
          · rw [ht.start_eq, byteLength_append]
            omega
          · rw [ht.stop_eq]
            simp only [byteLength_append, byteLength_cons, byteLength_nil]
            omega

/-- **What is read between two places covers what stands between them.** -/
theorem Reads.covers {s front' s' : List Char} (h : Reads front s ts front' s')
    (hsource : source = front ++ s) : Covers source (byteLength front) (byteLength front') ts := by
  induction h with
  | here => exact covers_nil source _
  | blank hc _ ih => exact (ih (by simpa using hsource)).blank hc hsource
  | @token front slice behind _ _ l _ _ hlongest hsound hreads ih =>
      obtain ⟨c, more, rfl, -⟩ := hlongest.spells.lexeme
      have hstands : Stands source front (c :: more) behind
          ⟨l, byteLength front, byteLength front + byteLength (c :: more)⟩ :=
        ⟨hsource, rfl, rfl, ⟨_, hlongest⟩, hsound, hlongest.spells.tokenize⟩
      exact (ih (by simpa using hsource)).token hstands (List.cons_ne_nil c more) hreads.places.2

/-- **Every text is cut whole, or up to the first malformed place in it.** -/
theorem tokenize_exact (s : List Char) :
    (∃ ts, tokenize s = .ok ⟨ts, byteLength s⟩ ∧ Covers s 0 (byteLength s) ts) ∨
      ∃ front rest ts cause, s = front ++ rest ∧ Covers s 0 (byteLength front) ts ∧
        Malformed rest cause ∧ tokenize s = .error (.fault cause (byteLength front)) := by
  obtain ⟨ts, front, rest, hreads, houtcome⟩ := exists_reads [] s
  have hcovers : Covers s (byteLength []) (byteLength front) ts := hreads.covers rfl
  have hsplit : s = front ++ rest := hreads.places.1
  rcases houtcome with ⟨rfl, hscan⟩ | ⟨cause, hmalformed, hscan⟩
  · rw [List.append_nil] at hsplit
    subst hsplit
    exact Or.inl ⟨ts, congrArg (Except.map _) hscan, hcovers⟩
  · exact Or.inr ⟨front, rest, ts, cause, hsplit, hcovers, hmalformed,
      congrArg (Except.map _) hscan⟩

/-- A keyword and a number between blanks, and a string in front of a character that starts no
lexeme. -/
theorem keyword_and_stray_exact :
    Covers " null 15\t".toList 0 9 [⟨.null, 1, 5⟩, ⟨.number (Number.ofNat 15), 6, 8⟩] ∧
      ∃ front rest ts, "'é' #".toList = front ++ rest ∧ byteLength front = 5 ∧
        Covers "'é' #".toList 0 5 ts ∧ Malformed rest (.unexpectedCharacter '#') := by
  have htokens : tokenize " null 15\t".toList
      = .ok ⟨[⟨.null, 1, 5⟩, ⟨.number (Number.ofNat 15), 6, 8⟩], 9⟩ := by cbv
  have hstray : tokenize "'é' #".toList = .error (.fault (.unexpectedCharacter '#') 5) := by cbv
  constructor
  · rcases tokenize_exact " null 15\t".toList with
      ⟨ts, hok, hcovers⟩ | ⟨_, _, _, _, _, _, _, herror⟩
    · rw [htokens] at hok
      cases hok
      exact hcovers
    · rw [htokens] at herror
      cases herror
  · rcases tokenize_exact "'é' #".toList with
      ⟨ts, hok, -⟩ | ⟨front, rest, ts, cause, hsplit, hrest⟩
    · rw [hstray] at hok
      cases hok
    · obtain ⟨hcovers, hmalformed, herror⟩ := hrest
      rw [hstray] at herror
      have hfault := Rejection.fault.inj (Except.error.inj herror)
      rw [← hfault.2] at hcovers
      exact ⟨front, rest, ts, hsplit, hfault.2.symm, hcovers, hfault.1 ▸ hmalformed⟩

end WhenClause.Lexer
