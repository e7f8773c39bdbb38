import WhenClause.Proofs.Expression.Placement
import WhenClause.Proofs.Token.Keywords

set_option autoImplicit false

/-! # Keywords mean what their symbols mean

Tokens in words derive the same expression (`Grammar.Derives.worded`), so a text in words is read
as the text is (`Expression.parse_inWords`). There is one exception. A bare word `not` in front of
`&&` is a string; in front of the word `and` it is a negation. So no such word may stand there. -/

namespace WhenClause

open WhenClause.Parser WhenClause.Lexer

namespace Grammar

variable {admits : String → List Step → Prop} {inside b : Bool} {ts us rest : List Token}

/-! ## Tokens in words -/

theorem joins_inWords {level : Level} {l : Lexeme} {op : Operator} (h : Joins level l op) :
    Joins level l.inWords op ∧ (l == .symbol .dot) = false ∧ l ≠ .symbol .bang := by
  cases h <;> exact ⟨by constructor, rfl, by simp⟩

theorem literal?_inWords {l : Lexeme} {x : Literal} (h : literal? l = some x) :
    l.keyword? = none ∧ (l == .symbol .dot) = false := by
  cases l with
  | symbol s => cases h
  | _ => exact ⟨rfl, rfl⟩

theorem recordKey?_inWords {l : Lexeme} {key : String} (h : l.recordKey? = some key) :
    l.keyword? = none ∧ (l == .symbol .dot) = false := by
  cases l with
  | symbol s => cases h
  | _ => exact ⟨rfl, rfl⟩

/-! ## What stands behind phrases -/

def EndsMark (rest : List Token) : Prop := next rest ≠ some (.symbol .bang)

theorem endsMark_cons {t : Token} {l : Lexeme} (ht : t.lexeme = l) (hl : l ≠ .symbol .bang) :
    EndsMark (t :: ts) := by
  subst ht
  simpa [EndsMark, next] using hl

def Phrase.mayBeEmpty : Phrase → Bool
  | .more _ _ | .dotted _ | .chain _ => true
  | _ => false

/-- A phrase that may take nothing does not begin with `!`. -/
theorem Derives.endsMark {p : Phrase} (h : Derives admits inside p ts rest)
    (hp : p.mayBeEmpty = true) (hrest : EndsMark rest) : EndsMark ts := by
  cases h with
  | noMore | noPart | noStep => exact hrest
  | more hop _ _ => exact endsMark_cons rfl (joins_inWords hop).2.2
  | part ht _ _ | property ht _ _ | method ht _ _ _ _ => exact endsMark_cons ht (by decide)
  | _ => cases hp

/-- A term begins with a token that starts one, which is no negation. -/
theorem Derives.primary_starts {e : Expression} (h : Derives admits inside (.primary e) ts rest) :
    ∃ t after, ts = t :: after ∧ t.lexeme.startsTerm = true ∧ t.lexeme.keyword? = none := by
  cases h with
  | @literal _ _ t _ hl =>
      refine ⟨_, _, rfl, ?_, (literal?_inWords hl).1⟩
      cases ht : t.lexeme with
      | symbol s =>
          rw [ht] at hl
          cases hl
      | _ => rfl
  | group ht _ _ | emptySequence ht _ | sequence ht _ | emptyRecord ht _ | record ht _
  | call ht _ _ _ _ _ | word ht _ _ => exact ⟨_, _, rfl, by rw [ht]; rfl, by rw [ht]; rfl⟩

theorem lexeme_of_startsNegation {t : Token} (h : startsNegation t ts = true) :
    t.lexeme = .word "not" := by
  rw [startsNegation_eq, Bool.and_eq_true_iff, beq_iff_eq] at h
  exact h.1

theorem Derives.unary_starts {e : Expression} (h : Derives admits inside (.unary e) ts rest) :
    ∃ t after, ts = t :: after ∧ t.lexeme.startsTerm = true := by
  cases h with
  | @negation _ _ t after _ hneg _ =>
      refine ⟨t, after, rfl, ?_⟩
      rcases hneg with hbang | hnot
      · rw [hbang]
        rfl
      · rw [lexeme_of_startsNegation hnot]
        rfl
  | term _ hprimary =>
      obtain ⟨t, after, htokens, hstarts, -⟩ := hprimary.primary_starts
      exact ⟨t, after, htokens, hstarts⟩

/-- No `!` stands behind the first word of a term. -/
theorem Derives.word_endsMark {e : Expression} {t : Token} {name : String}
    (h : Derives admits inside (.primary e) (t :: ts) rest) (ht : t.lexeme = .word name)
    (hrest : EndsMark rest) : EndsMark ts := by
  cases h with
  | literal hl =>
      rw [ht] at hl
      cases hl
  | call _ hparts hu _ _ _ => exact hparts.endsMark rfl (endsMark_cons hu (by decide))
  | word _ hparts _ => exact hparts.endsMark rfl hrest
  | group hother _ _ | emptySequence hother _ | sequence hother _ | emptyRecord hother _
  | record hother _ =>
      rw [ht] at hother
      cases hother

/-! ## Negations in words -/

/-- In words, `!` is a negation in front of anything that starts a term. -/
theorem startsNegation_bang {t t' u : Token} {ts' : List Token} (ht : t.lexeme = .symbol .bang)
    (hu : u.lexeme.startsTerm = true) (h : Worded b (t :: u :: ts) (t' :: ts')) :
    startsNegation t' ts' = true := by
  cases h with
  | cons hl hbehind _ hrest =>
      cases hrest with
      | cons hl' _ _ _ =>
          have hparted : parted t (u :: ts) = true := by
            rw [parted, ht]
            rfl
          have hlexeme : t'.lexeme = .word "not" := by rw [hl, ht]; rfl
          rw [startsNegation_eq, hlexeme, hbehind, hparted, Bool.or_true]
          simpa [hl'] using Lexeme.startsTerm_inWords hu

/-- A word `not` is a negation in words exactly if it is one, unless it stands close to a `!`. -/
theorem startsNegation_word {t t' : Token} {ts' : List Token} (ht : t.lexeme = .word "not")
    (hts : EndsMark ts ∨ startsNegation t ts = true) (h : Worded false (t :: ts) (t' :: ts')) :
    startsNegation t' ts' = startsNegation t ts := by
  cases h with
  | cons hl hbehind hnot hrest =>
      have hlexeme : t'.lexeme = .word "not" := by
        rw [hl, ht]
        rfl
      have hparted : parted t ts = (next ts).any fun l => l.keyword?.isSome := by
        rw [parted, ht]
        rfl
      rw [hparted] at hbehind
      cases hrest with
      | nil => simp [startsNegation]
      | @cons _ u u' us us' hsame _ _ _ =>
          cases hkeyword : u.lexeme.keyword? with
          | none =>
              rw [startsNegation_eq, startsNegation_eq, hbehind, hlexeme, ht]
              simp [next, hsame, hkeyword, Lexeme.inWords_of_none hkeyword]
          | some w =>
              rcases Lexeme.keyword?_eq_some hkeyword with ⟨hconnects, -⟩ | ⟨hbang, -⟩
              · have hfree := hnot rfl ht
                rw [next, List.head?_cons, Option.map_some, Option.any_some, hconnects] at hfree
                cases hfree
              · rcases hts with hends | hnegation
                · exact absurd (congrArg some hbang) hends
                · rw [hnegation, startsNegation_eq, hbehind, hlexeme]
                  simp [next, hsame, hkeyword, Lexeme.inWords_of_some hkeyword, Lexeme.startsTerm]

/-! ## Derivations in words -/

/-- **What derives, derives in words**, in front of the same tokens in words. -/
theorem Derives.worded {p : Phrase} (h : Derives admits inside p ts rest) (hrest : EndsMark rest)
    (hts : Worded false ts us) :
    ∃ rest', Worded false rest rest' ∧ Derives admits inside p us rest' := by
  induction h generalizing us with
  | level _ hmore ihfirst ihmore =>
      obtain ⟨mid, hmid, hfirst⟩ := ihfirst (hmore.endsMark rfl hrest) hts
      obtain ⟨rest', hrest', hmore'⟩ := ihmore hrest hmid
      exact ⟨rest', hrest', .level hfirst hmore'⟩
  | noMore => exact ⟨us, hts, .noMore⟩
  | more hop _ hmore ihe ihmore =>
      obtain ⟨hop', hdot, -⟩ := joins_inWords hop
      cases hts with
      | cons hl _ _ hts =>
          rw [hdot] at hts
          obtain ⟨mid, hmid, he⟩ := ihe (hmore.endsMark rfl hrest) hts
          obtain ⟨rest', hrest', hmore'⟩ := ihmore hrest hmid
          exact ⟨rest', hrest', .more (hl ▸ hop') he hmore'⟩
  | @negation _ _ t ts _ hneg hunary ih =>
      obtain ⟨u, after, rfl, hu⟩ := hunary.unary_starts
      have hdot : (t.lexeme == .symbol .dot) = false := by
        rcases hneg with hbang | hnot
        · rw [hbang]
          rfl
        · rw [lexeme_of_startsNegation hnot]
          rfl
      cases hts with
      | @cons _ _ t' _ ts' hl hbehind hfree hts =>
          have hworded : Worded false (t :: u :: after) (t' :: ts') := .cons hl hbehind hfree hts
          have hneg' : startsNegation t' ts' = true := by
            rcases hneg with hbang | hnot
            · exact startsNegation_bang hbang hu hworded
            · rw [startsNegation_word (lexeme_of_startsNegation hnot) (Or.inr hnot) hworded, hnot]
          rw [hdot] at hts
          obtain ⟨rest', hrest', he⟩ := ih hrest hts
          exact ⟨rest', hrest', .negation (Or.inr hneg') he⟩
  | @term _ _ t ts _ hnot hprimary ih =>
      obtain ⟨rest', hrest', he⟩ := ih hrest hts
      obtain ⟨_, _, ⟨rfl, rfl⟩, -, hkeyword⟩ := hprimary.primary_starts
      obtain ⟨t', ts', rfl, ht', -⟩ := hts.kept rfl hkeyword
      refine ⟨rest', hrest', .term ?_ he⟩
      by_cases hword : t.lexeme = .word "not"
      · rw [startsNegation_word hword (Or.inl (hprimary.word_endsMark hword hrest)) hts, hnot]
      · rw [startsNegation_eq, ht', beq_eq_false_iff_ne.mpr hword, Bool.false_and]
  | literal hl =>
      obtain ⟨hkeyword, hdot⟩ := literal?_inWords hl
      obtain ⟨t', rest', rfl, ht', hrest'⟩ := hts.kept rfl hkeyword
      rw [hdot] at hrest'
      exact ⟨rest', hrest', .literal (by rw [ht', hl])⟩
  | group ht _ hu ih =>
      obtain ⟨t', ts', rfl, ht', hts'⟩ := hts.kept ht rfl
      obtain ⟨_, hmid, he⟩ := ih (endsMark_cons hu (by decide)) hts'
      obtain ⟨u', rest', rfl, hu', hrest'⟩ := hmid.kept hu rfl
      exact ⟨rest', hrest', .group ht' he hu'⟩
  | emptySequence ht hu =>
      obtain ⟨t', _, rfl, ht', hts'⟩ := hts.kept ht rfl
      obtain ⟨u', rest', rfl, hu', hrest'⟩ := hts'.kept hu rfl
      exact ⟨rest', hrest', .emptySequence ht' hu'⟩
  | sequence ht _ ih =>
      obtain ⟨t', ts', rfl, ht', hts'⟩ := hts.kept ht rfl
      obtain ⟨rest', hrest', hes⟩ := ih hrest hts'
      exact ⟨rest', hrest', .sequence ht' hes⟩
  | emptyRecord ht hu =>
      obtain ⟨t', _, rfl, ht', hts'⟩ := hts.kept ht rfl
      obtain ⟨u', rest', rfl, hu', hrest'⟩ := hts'.kept hu rfl
      exact ⟨rest', hrest', .emptyRecord ht' hu'⟩
  | record ht _ ih =>
      obtain ⟨t', ts', rfl, ht', hts'⟩ := hts.kept ht rfl
      obtain ⟨rest', hrest', hes⟩ := ih hrest hts'
      exact ⟨rest', hrest', .record ht' hes⟩
  | call ht _ hu _ hsteps hadmits ihparts ihargs ihsteps =>
      obtain ⟨t', ts', rfl, ht', hts'⟩ := hts.kept ht rfl
      obtain ⟨_, hopen, hparts⟩ := ihparts (endsMark_cons hu (by decide)) hts'
      obtain ⟨u', args', rfl, hu', hargs'⟩ := hopen.kept hu rfl
      obtain ⟨mid, hmid, hargs⟩ := ihargs (hsteps.endsMark rfl hrest) hargs'
      obtain ⟨rest', hrest', hsteps'⟩ := ihsteps hrest hmid
      exact ⟨rest', hrest', .call ht' hparts hu' hargs hsteps' hadmits⟩
  | word ht _ hnext ihparts =>
      obtain ⟨t', ts', rfl, ht', hts'⟩ := hts.kept ht rfl
      obtain ⟨rest', hrest', hparts⟩ := ihparts hrest hts'
      refine ⟨rest', hrest', .word ht' hparts fun hopen => hnext ?_⟩
      rw [hrest'.next_eq, Option.map_eq_some_iff] at hopen
      obtain ⟨l, hl, hopen⟩ := hopen
      rw [hl, Lexeme.eq_symbol_of_inWords hopen]
  | @lastItem _ k _ _ _ _ _ hu ih =>
      obtain ⟨_, hmid, he⟩ := ih (endsMark_cons hu (by cases k <;> decide)) hts
      obtain ⟨u', rest', rfl, hu', hrest'⟩ := hmid.kept hu (by cases k <;> rfl)
      have hdot : (Lexeme.symbol k.closing == .symbol .dot) = false := by cases k <;> rfl
      rw [hdot] at hrest'
      exact ⟨rest', hrest', .lastItem he hu'⟩
  | @item _ k _ _ _ _ _ _ _ hu _ ih ihmore =>
      obtain ⟨_, hmid, he⟩ := ih (endsMark_cons hu (by decide)) hts
      obtain ⟨u', mid', rfl, hu', hmid'⟩ := hmid.kept hu rfl
      obtain ⟨rest', hrest', hes⟩ := ihmore hrest hmid'
      exact ⟨rest', hrest', .item he hu' hes⟩
  | noArguments ht =>
      obtain ⟨t', rest', rfl, ht', hrest'⟩ := hts.kept ht rfl
      exact ⟨rest', hrest', .noArguments ht'⟩
  | arguments _ ih =>
      obtain ⟨rest', hrest', hes⟩ := ih hrest hts
      exact ⟨rest', hrest', .arguments hes⟩
  | lastEntry hkey hcolon _ hu ih =>
      obtain ⟨hkeyword, hdot⟩ := recordKey?_inWords hkey
      obtain ⟨t', _, rfl, ht', hcs⟩ := hts.kept rfl hkeyword
      rw [hdot] at hcs
      obtain ⟨c', ts', rfl, hc', hts'⟩ := hcs.kept hcolon rfl
      obtain ⟨_, hmid, he⟩ := ih (endsMark_cons hu (by decide)) hts'
      obtain ⟨u', rest', rfl, hu', hrest'⟩ := hmid.kept hu rfl
      exact ⟨rest', hrest', .lastEntry (by rw [ht', hkey]) hc' he hu'⟩
  | entry hkey hcolon _ hu _ ih ihmore =>
      obtain ⟨hkeyword, hdot⟩ := recordKey?_inWords hkey
      obtain ⟨t', _, rfl, ht', hcs⟩ := hts.kept rfl hkeyword
      rw [hdot] at hcs
      obtain ⟨c', ts', rfl, hc', hts'⟩ := hcs.kept hcolon rfl
      obtain ⟨_, hmid, he⟩ := ih (endsMark_cons hu (by decide)) hts'
      obtain ⟨u', mid', rfl, hu', hmid'⟩ := hmid.kept hu rfl
      obtain ⟨rest', hrest', hes⟩ := ihmore hrest hmid'
      exact ⟨rest', hrest', .entry (by rw [ht', hkey]) hc' he hu' hes⟩
  | noPart => exact ⟨us, hts, .noPart⟩
  | part ht hu _ ih =>
      obtain ⟨t', _, rfl, ht', hts'⟩ := hts.kept ht rfl
      obtain ⟨u', us', rfl, hu', hus'⟩ := hts'.kept hu rfl
      obtain ⟨rest', hrest', hparts⟩ := ih hrest hus'
      exact ⟨rest', hrest', .part ht' hu' hparts⟩
  | noStep => exact ⟨us, hts, .noStep⟩
  | property ht hu _ ih =>
      obtain ⟨t', _, rfl, ht', hts'⟩ := hts.kept ht rfl
      obtain ⟨u', us', rfl, hu', hus'⟩ := hts'.kept hu rfl
      obtain ⟨rest', hrest', hsteps⟩ := ih hrest hus'
      exact ⟨rest', hrest', .property ht' hu' hsteps⟩
  | method ht hu hp _ hsteps ihargs ihsteps =>
      obtain ⟨t', _, rfl, ht', hts'⟩ := hts.kept ht rfl
      obtain ⟨u', _, rfl, hu', hus'⟩ := hts'.kept hu rfl
      obtain ⟨p', ps', rfl, hp', hps'⟩ := hus'.kept hp rfl
      obtain ⟨mid, hmid, hargs⟩ := ihargs (hsteps.endsMark rfl hrest) hps'
      obtain ⟨rest', hrest', hsteps'⟩ := ihsteps hrest hmid
      exact ⟨rest', hrest', .method ht' hu' hp' hargs hsteps'⟩

end Grammar

namespace Expression

open Grammar

/-- **Keywords mean what their symbols mean.** If a text is read as an expression, the text in which
`and` is written for every `&&`, `or` for every `||` and `not` for every `!` is read as the same
expression. Only a word `not` that is no part of a longer name must not stand in front of `&&` or
`||`, because in front of `and` or `or` it would be a negation. -/
theorem parse_inWords {text : String} {e : Expression} (h : parse text = .ok e)
    (hnots : ∀ tokens, tokenize text.toList = .ok tokens → notsKept false tokens.list = true) :
    parse (String.ofList (inWords text.toList)) = .ok e := by
  obtain ⟨ts, hts, hmeans⟩ := tokens_of_parse h
  have htokens : tokenize text.toList = .ok ⟨ts, byteLength text.toList⟩ := by
    rw [tokenize, hts]
    rfl
  obtain ⟨ts', hts', hworded, -⟩ := scan_inWords (scan_eq_ok_iff.mp hts) (hnots _ htokens) 0
  obtain ⟨rest', hrest', hmeans'⟩ := Derives.worded hmeans (by simp [EndsMark, next]) hworded
  cases hrest'
  exact parse_of_tokens (by rw [String.toList_ofList, hts']) hmeans'

/-- A name may end with `not` in front of `&&`, and `not` may stand alone at the end. -/
theorem sample_parse_inWords :
    let e : Expression := .call "f" [.operator .or
      [.operator .and [.literal (.string "a.not"), .not (.literal (.string "b"))],
        .literal (.string "not")]]
    parse "f(a.not&&!b||not)" = .ok e ∧
      inWords "f(a.not&&!b||not)".toList = "f(a.not and  not b or not)".toList ∧
      parse "f(a.not and  not b or not)" = .ok e := by
  intro e
  have hparse : parse "f(a.not&&!b||not)" = .ok e := by cbv
  have hwords : inWords "f(a.not&&!b||not)".toList = "f(a.not and  not b or not)".toList := by cbv
  have hnots : (tokenize "f(a.not&&!b||not)".toList).map (fun tokens => notsKept false tokens.list)
      = .ok true := by cbv
  refine ⟨hparse, hwords, ?_⟩
  have hsame := parse_inWords hparse fun tokens htokens => by
    rw [htokens] at hnots
    exact Except.ok.inj hnots
  rwa [hwords, String.ofList_toList] at hsame

/-- A bare word `not` in front of `&&` is a string; in front of `and` it is a negation, and what
follows is no expression. -/
theorem bare_not_breaks_inWords :
    parse "f(not && x)" = .ok (.call "f" [.operator .and
        [.literal (.string "not"), .literal (.string "x")]]) ∧
      inWords "f(not && x)".toList = "f(not  and  x)".toList ∧
      ∀ e, parse "f(not  and  x)" ≠ .ok e := by
  refine ⟨by cbv, by cbv, fun e he => ?_⟩
  have herror : (parse "f(not  and  x)").toOption = none := by cbv
  rw [he] at herror
  cases herror

end Expression

end WhenClause
