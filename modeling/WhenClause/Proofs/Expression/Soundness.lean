import WhenClause.Proofs.Expression.Readings

set_option autoImplicit false

/-! # What is read derives

Whatever a reader gives, the grammar derives from the tokens that it took. The induction is the
recursion of the readers: on the number of tokens, and for the same tokens on the level. -/

namespace WhenClause.Parser

open Grammar

variable {stop : Nat}

theorem readDotted_sound {inside : Bool} {ts rest : List Token} {parts : List String}
    (h : Gives (readDotted stop ts) parts rest) :
    Derives unchained inside (.dotted parts) ts rest := by
  by_cases hdot : next ts = some (.symbol .dot)
  · obtain ⟨t, _, rfl, ht⟩ := next_eq_some.mp hdot
    obtain ⟨u, after, part, rfl, hu⟩ := readDotted_starts ht h
    obtain ⟨more, hmore, rfl⟩ := (gives_readDotted ht hu).mp h
    exact .part ht hu (readDotted_sound hmore)
  · obtain ⟨rfl, rfl⟩ := (gives_readDotted_stop hdot).mp h
    exact .noPart
termination_by ts.length

mutual

theorem readLevel_sound {inside : Bool} {l : Level} {ts rest : List Token} {e : Expression}
    (h : Gives (readLevel stop inside l ts) e rest) :
    Derives unchained inside (.level l e) ts rest := by
  obtain ⟨first, mid, hfirst, more, hmore, rfl⟩ := gives_readLevel.mp h
  have := hfirst.shorter
  rw [← tree_eq_assemble]
  exact .level (readOperand_sound hfirst) (readMore_sound hmore)
termination_by (ts.length, 2 * l.height + 1)

theorem readOperand_sound {inside : Bool} {l : Level} {ts rest : List Token} {e : Expression}
    (h : Gives (readOperand stop inside l ts) e rest) :
    Derives unchained inside (operand l e) ts rest := by
  rw [readOperand.eq_def] at h
  cases l with
  | or => exact readLevel_sound h
  | and => exact readLevel_sound h
  | equality => exact readLevel_sound h
  | relational => exact readUnary_sound h
termination_by (ts.length, 2 * l.height)

theorem readMore_sound {inside : Bool} {l : Level} {ts rest : List Token}
    {more : List (Operator × Expression)} (h : Gives (readMore stop inside l ts) more rest) :
    Derives unchained inside (.more l more) ts rest := by
  match ts with
  | [] =>
      obtain ⟨rfl, rfl⟩ := (gives_readMore_stop (by simp [next])).mp h
      exact .noMore
  | t :: ts =>
      cases hop : l.operator? t.lexeme with
      | none =>
          obtain ⟨rfl, rfl⟩ := (gives_readMore_stop (by simpa [next] using hop)).mp h
          exact .noMore
      | some op =>
          obtain ⟨e, mid, he, more, hmore, rfl⟩ := (gives_readMore hop).mp h
          have := he.shorter
          exact .more (joins_iff.mpr hop) (readOperand_sound he) (readMore_sound hmore)
termination_by (ts.length, 0)

theorem readUnary_sound {inside : Bool} {ts rest : List Token} {e : Expression}
    (h : Gives (readUnary stop inside ts) e rest) :
    Derives unchained inside (.unary e) ts rest := by
  match ts with
  | [] =>
      rw [readUnary] at h
      exact absurd h not_gives_reject
  | t :: ts =>
      by_cases hneg : t.lexeme = .symbol .bang ∨ startsNegation t ts = true
      · obtain ⟨inner, hinner, rfl⟩ := (gives_readUnary_negation hneg).mp h
        exact .negation hneg (readUnary_sound hinner)
      · rw [not_or, Bool.not_eq_true] at hneg
        exact .term hneg.2 (readTerm_sound ((gives_readUnary_term hneg.1 hneg.2).mp h))
termination_by (ts.length, 2)

theorem readTerm_sound {inside : Bool} {t : Token} {ts rest : List Token} {e : Expression}
    (h : Gives (readTerm stop inside t ts) e rest) :
    Derives unchained inside (.primary e) (t :: ts) rest := by
  rcases readTerm_starts h with ⟨l, hl⟩ | ⟨first, hword⟩ | hparen | hbracket | hbrace
  · obtain ⟨rfl, rfl⟩ := (gives_readTerm_literal hl).mp h
    exact .literal hl
  · rw [gives_readTerm_word hword] at h
    obtain ⟨parts, mid, hparts, hcase⟩ := gives_readName.mp h
    have := hparts.shorter
    rcases hcase with ⟨u, after, rfl, hu, args, mid, hargs, steps, hsteps, hchain, rfl⟩ | hbare
    · have hafter : after.length < ts.length := Nat.lt_of_succ_lt_succ this
      have := hargs.shorter
      exact .call hword (readDotted_sound hparts) hu (readArguments_sound hargs)
        (readChain_sound hsteps) hchain
    · obtain ⟨hnext, rfl, rfl, rfl⟩ := hbare
      exact .word hword (readDotted_sound hparts) hnext
  · obtain ⟨x, mid, hx, u, _, rfl, hu, rfl, rfl⟩ := (gives_readTerm_group hparen).mp h
    exact .group hparen (readLevel_sound hx) hu
  · obtain ⟨u, after, rfl, hcase⟩ := (gives_readTerm_sequence hbracket).mp h
    rcases hcase with ⟨hu, rfl, rfl⟩ | ⟨-, es, hes, rfl⟩
    · exact .emptySequence hbracket hu
    · exact .sequence hbracket (readItems_sound hes)
  · obtain ⟨u, after, rfl, hcase⟩ := (gives_readTerm_record hbrace).mp h
    rcases hcase with ⟨hu, rfl, rfl⟩ | ⟨-, es, hes, rfl⟩
    · exact .emptyRecord hbrace hu
    · exact .record hbrace (readEntries_sound hes)
termination_by ((t :: ts).length, 1)

theorem readItems_sound {inside : Bool} {ts rest : List Token} {es : List Expression}
    (h : Gives (readItems stop inside ts) es rest) :
    Derives unchained inside (.items .sequence es) ts rest := by
  obtain ⟨e, mid, he, u, after, rfl, hcase⟩ := gives_readItems.mp h
  have := he.shorter
  have hafter : after.length < ts.length := Nat.lt_of_succ_lt this
  rcases hcase with ⟨hu, more, hmore, rfl⟩ | ⟨hu, rfl, rfl⟩
  · exact .item (readLevel_sound he) hu (readItems_sound hmore)
  · exact .lastItem (readLevel_sound he) hu
termination_by (ts.length, 12)

theorem readEntries_sound {inside : Bool} {ts rest : List Token}
    {es : List (String × Expression)} (h : Gives (readEntries stop inside ts) es rest) :
    Derives unchained inside (.entries es) ts rest := by
  obtain ⟨t, c, after, key, rfl, hkey, hcolon⟩ := readEntries_starts h
  obtain ⟨e, mid, he, u, after', rfl, hcase⟩ := (gives_readEntries hkey hcolon).mp h
  have hvalue : after.length < (t :: c :: after).length := by
    simp only [List.length_cons]
    omega
  have hafter : after'.length < (t :: c :: after).length :=
    Nat.lt_trans (Nat.lt_of_succ_lt he.shorter) hvalue
  rcases hcase with ⟨hu, more, hmore, rfl⟩ | ⟨hu, rfl, rfl⟩
  · exact .entry hkey hcolon (readLevel_sound he) hu (readEntries_sound hmore)
  · exact .lastEntry hkey hcolon (readLevel_sound he) hu
termination_by (ts.length, 0)

theorem readArguments_sound {inside : Bool} {opening : Nat} {ts rest : List Token}
    {es : List Expression} (h : Gives (readArguments stop opening ts) es rest) :
    Derives unchained inside (.arguments es) ts rest := by
  obtain ⟨t, after, hts, hcase⟩ := gives_readArguments.mp h
  rcases hcase with ⟨ht, rfl, rfl⟩ | ⟨-, hitems⟩
  · rw [hts]
    exact .noArguments ht
  · exact .arguments (readArgumentItems_sound hitems)
termination_by (ts.length, 13)

theorem readArgumentItems_sound {inside : Bool} {opening : Nat} {ts rest : List Token}
    {es : List Expression} (h : Gives (readArgumentItems stop opening ts) es rest) :
    Derives unchained inside (.items .arguments es) ts rest := by
  obtain ⟨e, mid, he, u, after, rfl, hcase⟩ := gives_readArgumentItems.mp h
  have := he.shorter
  have hafter : after.length < ts.length := Nat.lt_of_succ_lt this
  rcases hcase with ⟨hu, more, hmore, rfl⟩ | ⟨hu, rfl, rfl⟩
  · exact .item (readLevel_sound he) hu (readArgumentItems_sound hmore)
  · exact .lastItem (readLevel_sound he) hu
termination_by (ts.length, 12)

theorem readChain_sound {inside : Bool} {ts rest : List Token} {steps : List Step}
    (h : Gives (readChain stop ts) steps rest) :
    Derives unchained inside (.chain steps) ts rest := by
  by_cases hdot : next ts = some (.symbol .dot)
  · obtain ⟨t, _, rfl, ht⟩ := next_eq_some.mp hdot
    obtain ⟨u, after, key, rfl, hu⟩ := readChain_starts ht h
    by_cases hparen : next after = some (.symbol .leftParen)
    · obtain ⟨p, inner, rfl, hp⟩ := next_eq_some.mp hparen
      obtain ⟨args, mid, hargs, more, hmore, rfl⟩ := (gives_readChain_method ht hu hp).mp h
      -- Behind the arguments there are fewer tokens than behind the call's name.
      have hmid : mid.length < (t :: u :: p :: inner).length := by
        have := hargs.shorter
        simp only [List.length_cons]
        omega
      exact .method ht hu hp (readArguments_sound hargs) (readChain_sound hmore)
    · obtain ⟨more, hmore, rfl⟩ := (gives_readChain_property ht hu hparen).mp h
      exact .property ht hu (readChain_sound hmore)
  · obtain ⟨rfl, rfl⟩ := (gives_readChain_stop hdot).mp h
    exact .noStep
termination_by (ts.length, 0)

end

end WhenClause.Parser
