import WhenClause.Proofs.Safety.Runs

set_option autoImplicit false

/-! # The parsers never crash

With steps enough for the tokens that are left, each procedure of the parser runs as the reader of
its phrases reads (`simulates`). So no text makes the lexer, the parser or the decoder of calls
crash, and they give what the text is (`parse_never_crashes`). -/

namespace WhenClause.Checked

open Lexer (byteLength)
open WhenClause.Parser

variable {source : List Char} {tokens ts : List Token} {depth : Nat}

/-! ## Procedures -/

theorem height_le (l : Level) : l.height ≤ 5 := by cases l <;> decide

/-- What a term is where tokens may be missing. -/
def termOutcome (stop : Nat) (bare : Bool) :
    List Token → Except Rejection (Expression × List Token)
  | [] => reject .missingOperand stop []
  | t :: rest => outcome (readTerm stop bare t rest)

/-- With so many steps each procedure does what its reader does. At the same token a procedure
calls only those of a smaller height, and no height reaches seven: so seven steps for each token
and one for each height suffice. -/
structure Simulates (source : List Char) (tokens : List Token) (fuel : Nat) : Prop where
  level : ∀ l ts depth, 7 * ts.length + l.height < fuel →
    Runs source tokens (level source (vector source tokens) fuel l) ts depth
      (outcome (readLevel (byteLength source) (0 < depth) l ts))
  operators : ∀ l ts depth, 7 * ts.length < fuel →
    Runs source tokens (operators source (vector source tokens) fuel l) ts depth
      (outcome (readMore (byteLength source) (0 < depth) l ts))
  unary : ∀ ts depth, 7 * ts.length + 1 < fuel →
    Runs source tokens (unary source (vector source tokens) fuel) ts depth
      (outcome (readUnary (byteLength source) (0 < depth) ts))
  term : ∀ ts depth, 7 * ts.length < fuel →
    Runs source tokens (term source (vector source tokens) fuel) ts depth
      (termOutcome (byteLength source) (0 < depth) ts)
  items : ∀ ts depth, 7 * ts.length + 6 < fuel →
    Runs source tokens (items source (vector source tokens) fuel) ts depth
      (outcome (readItems (byteLength source) (0 < depth) ts))
  entries : ∀ ts depth, 7 * ts.length < fuel →
    Runs source tokens (entries source (vector source tokens) fuel) ts depth
      (outcome (readEntries (byteLength source) (0 < depth) ts))
  name : ∀ t first ts depth, 7 * ts.length + 1 < fuel →
    Runs source tokens (name source (vector source tokens) fuel t.start first) ts depth
      (outcome (readName (byteLength source) (0 < depth) t first ts))
  arguments : ∀ t ts depth, 7 * (ts.length + 1) < fuel →
    Runs source tokens (arguments source (vector source tokens) fuel) (t :: ts) depth
      (outcome (readArguments (byteLength source) t.stop ts))
  argumentItems : ∀ opening ts depth, IsBoundary source opening → 0 < depth →
    7 * ts.length + 6 < fuel →
    Runs source tokens (argumentItems source (vector source tokens) fuel opening) ts depth
      (outcome (readArgumentItems (byteLength source) opening ts))
  chain : ∀ ts depth, 7 * ts.length < fuel →
    Runs source tokens (chain source (vector source tokens) fuel) ts depth
      (outcome (readChain (byteLength source) ts))

section

variable {fuel : Nat} (ih : Simulates source tokens fuel)

include ih

/-- A whole expression, from the loosest level on. -/
theorem Simulates.expression (ts : List Token) (depth : Nat) (h : 7 * ts.length + 5 < fuel) :
    Runs source tokens (Checked.level source (vector source tokens) fuel .or) ts depth
      (outcome (readLevel (byteLength source) (0 < depth) .or ts)) :=
  ih.level .or ts depth h

theorem operand_runs (l : Level) (h : 7 * ts.length + l.height ≤ fuel) :
    Runs source tokens (operand (level source (vector source tokens) fuel)
      (unary source (vector source tokens) fuel) l) ts depth
      (outcome (readOperand (byteLength source) (0 < depth) l ts)) := by
  rw [outcome_readOperand]
  cases l with
  | or => exact ih.level .and ts depth h
  | and => exact ih.level .equality ts depth h
  | equality => exact ih.level .relational ts depth h
  | relational => exact ih.unary ts depth h

theorem level_runs (l : Level) (h : 7 * ts.length + l.height < fuel + 1) :
    Runs source tokens (level source (vector source tokens) (fuel + 1) l) ts depth
      (outcome (readLevel (byteLength source) (0 < depth) l ts)) := by
  rw [level, outcome_readLevel]
  refine (operand_runs ih l (Nat.le_of_lt_succ h)).bind fun first rest hfirst => ?_
  have hlt := length_lt_of_outcome hfirst
  exact (ih.operators l rest depth (by omega)).changed (l.assemble first)

theorem operators_runs (l : Level) (h : 7 * ts.length < fuel + 1) :
    Runs source tokens (operators source (vector source tokens) (fuel + 1) l) ts depth
      (outcome (readMore (byteLength source) (0 < depth) l ts)) := by
  rw [operators]
  refine runs_peek ?_
  cases ts with
  | nil =>
      rw [outcome_readMore_nil]
      exact runs_pure []
  | cons t rest =>
      rw [outcome_readMore]
      dsimp only [current, cell, Option.bind_some]
      cases l.operator? t.lexeme with
      | none => exact runs_pure []
      | some op =>
          have hheight := height_le l
          simp only [List.length_cons] at h
          refine runs_advance ((operand_runs ih l (by omega)).bind fun operand rest' hoperand => ?_)
          have hlt := length_lt_of_outcome hoperand
          exact (ih.operators l rest' depth (by omega)).changed ((op, operand) :: ·)

theorem unary_runs (h : 7 * ts.length + 1 < fuel + 1) :
    Runs source tokens (unary source (vector source tokens) (fuel + 1)) ts depth
      (outcome (readUnary (byteLength source) (0 < depth) ts)) := by
  rw [unary]
  refine runs_peek ?_
  cases ts with
  | nil =>
      rw [outcome_readUnary_nil]
      exact runs_startsNegation_nil (ih.term [] depth (by omega))
  | cons t rest =>
      have hterm := ih.term (t :: rest) depth (by omega)
      simp only [List.length_cons] at h
      have hnegated : Runs source tokens
          (advance (vector source tokens) >>= fun _ =>
            unary source (vector source tokens) fuel >>= fun inner => pure inner.negate)
          (t :: rest) depth
          (changed Expression.negate (outcome (readUnary (byteLength source) (0 < depth) rest))) :=
        runs_advance ((ih.unary rest depth (by omega)).changed Expression.negate)
      rw [outcome_readUnary]
      by_cases hbang : t.lexeme = .symbol .bang
      · rw [if_pos (show (current source (t :: rest)).lexeme = some (.symbol .bang) from
          congrArg some hbang), if_pos (by simp [hbang])]
        exact hnegated
      · rw [if_neg (show ¬(current source (t :: rest)).lexeme = some (.symbol .bang) from
          fun heq => hbang (Option.some_inj.mp heq))]
        refine runs_startsNegation ?_
        cases hnot : Parser.startsNegation t rest with
        | true =>
            rw [if_pos rfl, if_pos (by simp)]
            exact hnegated
        | false =>
            rw [if_neg Bool.false_ne_true, if_neg (by simp [hbang])]
            exact hterm

theorem term_runs (h : 7 * ts.length < fuel + 1) :
    Runs source tokens (term source (vector source tokens) (fuel + 1)) ts depth
      (termOutcome (byteLength source) (0 < depth) ts) := by
  rw [term]
  refine runs_peek ?_
  cases ts with
  | nil => exact runs_reject .missingOperand
  | cons t rest =>
      simp only [List.length_cons] at h
      rw [termOutcome, outcome_readTerm]
      dsimp only [current, cell]
      cases ht : t.lexeme with
      | number x => exact runs_advance (runs_pure _)
      | string s => exact runs_advance (runs_pure _)
      | bool b => exact runs_advance (runs_pure _)
      | null => exact runs_advance (runs_pure _)
      | word first => exact runs_advance (ih.name t first rest depth (by omega))
      | symbol x =>
          cases x with
          | leftParen =>
              refine runs_advance ((ih.expression _ depth (by omega)).bind
                fun inner behind _ => ?_)
              rw [← changed_closed]
              exact runs_expect.changed fun _ => inner
          | leftBracket =>
              refine runs_advance (runs_peek ?_)
              cases rest with
              | nil =>
                  have hitems := ih.items [] depth (by rw [List.length_nil]; omega)
                  rw [outcome_readItems, outcome_readLevel_nil] at hitems
                  exact hitems.changed Expression.sequence
              | cons u after =>
                  refine runs_symbol .rightBracket (fun _ => ?_) fun _ => ?_
                  · exact runs_advance (runs_pure _)
                  · exact (ih.items (u :: after) depth (by omega)).changed Expression.sequence
          | leftBrace =>
              refine runs_advance (runs_peek ?_)
              cases rest with
              | nil =>
                  have hentries := ih.entries [] depth (by rw [List.length_nil]; omega)
                  rw [outcome_readEntries] at hentries
                  exact hentries.changed Expression.record
              | cons u after =>
                  refine runs_symbol .rightBrace (fun _ => ?_) fun _ => ?_
                  · exact runs_advance (runs_pure _)
                  · exact (ih.entries (u :: after) depth (by omega)).changed Expression.record
          | _ => exact runs_fail _ _

theorem items_runs (h : 7 * ts.length + 6 < fuel + 1) :
    Runs source tokens (items source (vector source tokens) (fuel + 1)) ts depth
      (outcome (readItems (byteLength source) (0 < depth) ts)) := by
  rw [items, outcome_readItems]
  refine (ih.expression _ depth (by omega)).bind fun item rest hitem => ?_
  have hlt := length_lt_of_outcome hitem
  refine runs_behindItem (fun after hafter => ?_) ?_ fun u after => ?_
  · exact (ih.items after depth (by omega)).changed (item :: ·)
  · exact runs_reject _
  · exact runs_reject _

theorem entries_runs (h : 7 * ts.length < fuel + 1) :
    Runs source tokens (entries source (vector source tokens) (fuel + 1)) ts depth
      (outcome (readEntries (byteLength source) (0 < depth) ts)) := by
  rw [entries, outcome_readEntries]
  cases ts with
  | nil => exact runs_advance_nil (runs_reject (.expected .recordKey none))
  | cons t rest =>
      simp only [List.length_cons] at h
      refine runs_advance ?_
      dsimp only [cell, Option.bind_some]
      cases t.lexeme.recordKey? with
      | none => exact runs_fail _ _
      | some key =>
          refine runs_expect.bind fun _ behind hcolon => ?_
          have hbehind := length_lt_of_closed hcolon
          rw [entryOutcome]
          refine (ih.expression _ depth (by omega)).bind fun value rest' hvalue => ?_
          have hlt := length_lt_of_outcome hvalue
          refine runs_behindItem (fun after hafter => ?_) ?_ fun u after => ?_
          · exact (ih.entries after depth (by omega)).changed ((key, value) :: ·)
          · exact runs_reject _
          · exact runs_reject _

theorem argumentItems_runs {opening : Nat} (hopening : IsBoundary source opening)
    (hdepth : 0 < depth) (h : 7 * ts.length + 6 < fuel + 1) :
    Runs source tokens (argumentItems source (vector source tokens) (fuel + 1) opening) ts depth
      (outcome (readArgumentItems (byteLength source) opening ts)) := by
  rw [argumentItems, outcome_readArgumentItems]
  have hitem := ih.expression ts depth (by omega)
  rw [decide_eq_true hdepth] at hitem
  refine hitem.bind fun item rest hitem => ?_
  have hlt := length_lt_of_outcome hitem
  refine runs_behindItem (fun after hafter => ?_) ?_ fun u after => ?_
  · exact (ih.argumentItems opening after depth hopening hdepth (by omega)).changed (item :: ·)
  · exact runs_reject _
  · exact runs_failArguments hopening

theorem arguments_runs (hplaced : ∀ t ∈ tokens, IsBoundary source t.stop) (t : Token)
    (h : 7 * (ts.length + 1) < fuel + 1) :
    Runs source tokens (arguments source (vector source tokens) (fuel + 1)) (t :: ts) depth
      (outcome (readArguments (byteLength source) t.stop ts)) := by
  intro position hrest
  have hopening : IsBoundary source t.stop := hplaced t hrest.mem
  refine runs_advance (runs_peek ?_) position hrest
  rw [outcome_readArguments]
  have hitems := runs_insideArguments
    (ih.argumentItems t.stop ts (depth + 1) hopening (Nat.succ_pos depth) (by omega))
  cases ts with
  | nil =>
      rw [outcome_readArgumentItems, outcome_readLevel_nil] at hitems
      exact hitems
  | cons u after =>
      refine runs_symbol .rightParen (fun _ => ?_) fun _ => hitems
      exact runs_advance (runs_pure [])

theorem chain_runs (h : 7 * ts.length < fuel + 1) :
    Runs source tokens (chain source (vector source tokens) (fuel + 1)) ts depth
      (outcome (readChain (byteLength source) ts)) := by
  rw [chain]
  refine runs_peek ?_
  cases ts with
  | nil =>
      rw [outcome_readChain_nil]
      exact runs_pure []
  | cons t rest =>
      rw [outcome_readChain]
      simp only [List.length_cons] at h
      refine runs_symbol .dot (fun _ => runs_advance ?_) fun _ => runs_pure []
      cases rest with
      | nil => exact runs_advance_nil (runs_reject (.expected .memberName none))
      | cons u after =>
          simp only [List.length_cons] at h
          refine runs_advance ?_
          dsimp only [cell]
          cases u.lexeme with
          | word key =>
              refine runs_peek ?_
              cases after with
              | nil =>
                  have hchain := ih.chain [] depth (by rw [List.length_nil]; omega)
                  rw [outcome_readChain_nil] at hchain
                  exact hchain.changed (.property key :: ·)
              | cons p inner =>
                  simp only [List.length_cons] at h
                  refine runs_symbol .leftParen (fun _ => ?_) fun _ => ?_
                  · refine (ih.arguments p inner depth (by omega)).bind fun args rest hargs => ?_
                    have hlt := length_lt_of_outcome hargs
                    exact (ih.chain rest depth (by omega)).changed (.method key args :: ·)
                  · have hchain := ih.chain (p :: inner) depth (by rw [List.length_cons]; omega)
                    exact hchain.changed (.property key :: ·)
          | _ => exact runs_fail _ _

theorem name_runs (t : Token) (first : String) (h : 7 * ts.length + 1 < fuel + 1) :
    Runs source tokens (name source (vector source tokens) (fuel + 1) t.start first) ts depth
      (outcome (readName (byteLength source) (0 < depth) t first ts)) := by
  rw [name, outcome_readName]
  refine (runs_dotted (by omega)).bind fun parts rest hparts => runs_peek ?_
  have hle := length_lt_of_outcome hparts
  generalize dottedName first parts = name
  have hbare : Runs source tokens _ rest depth _ := runs_bareName t.start name rest depth
  cases rest with
  | nil => exact hbare
  | cons u after =>
      simp only [List.length_cons] at hle
      refine runs_symbol .leftParen (fun _ => ?_) fun _ => ?_
      · refine (ih.arguments u after depth (by omega)).bind fun args behind hargs => ?_
        have hlt := length_lt_of_outcome hargs
        refine (ih.chain behind depth (by omega)).bind fun members behind' _ => ?_
        dsimp only
        split
        · exact runs_fail _ _
        · exact runs_pure _
      · exact hbare

end

/-- **Each procedure does what its reader does**, whatever the tokens are. -/
theorem simulates (hplaced : ∀ t ∈ tokens, IsBoundary source t.stop) (fuel : Nat) :
    Simulates source tokens fuel := by
  -- Each call leaves one step less, whatever tokens it takes.
  induction fuel with
  | zero => constructor <;> intros <;> exact absurd ‹_ < 0› (Nat.not_lt_zero _)
  | succ fuel ih =>
      exact {
        level := fun l _ _ => level_runs ih l
        operators := fun l _ _ => operators_runs ih l
        unary := fun _ _ => unary_runs ih
        term := fun _ _ => term_runs ih
        items := fun _ _ => items_runs ih
        entries := fun _ _ => entries_runs ih
        name := fun t first _ _ => name_runs ih t first
        arguments := fun t _ _ => arguments_runs ih hplaced t
        argumentItems := fun _ _ _ => argumentItems_runs ih
        chain := fun _ _ => chain_runs ih }

/-- The tokens of a text are read as `Parser.readAll` reads them. -/
theorem runs_parseTokens (hplaced : ∀ t ∈ tokens, IsBoundary source t.stop) {fuel : Nat}
    (hfuel : 7 * tokens.length + 5 < fuel) :
    Runs source tokens (parseTokens source (vector source tokens) fuel) tokens 0
      ((readAll ⟨tokens, byteLength source⟩).map fun e => (e, [])) := by
  refine runs_peek ?_
  rw [readAll_eq]
  cases htokens : tokens with
  | nil => exact runs_fail .emptyExpression 0
  | cons t rest =>
      rw [← htokens]
      have hmap (o : Except Rejection (Expression × List Token)) :
          ((o >>= finished (byteLength source)).map fun e => (e, ([] : List Token)))
            = o >>= fun found => (finished (byteLength source) found).map fun e => (e, []) := by
        cases o <;> rfl
      rw [if_neg (by simp [htokens, current, cell]), if_neg (by simp [htokens]), hmap]
      refine ((simulates hplaced fuel).level .or tokens 0 hfuel).bind fun e behind _ => ?_
      refine runs_peek ?_
      cases behind with
      | nil => exact runs_pure e
      | cons u after => exact runs_reject (.unexpected (some u.lexeme))

theorem parseTokens_eq (hplaced : ∀ t ∈ tokens, IsBoundary source t.stop) {fuel : Nat}
    (hfuel : 7 * tokens.length + 5 < fuel) :
    ∃ cursor, parseTokens source (vector source tokens) fuel ⟨0, 0⟩
      = .ok ((readAll ⟨tokens, byteLength source⟩).mapError (Source.errorOf source), cursor) := by
  have hends := runs_parseTokens hplaced hfuel 0 (rest_zero tokens)
  cases hread : readAll ⟨tokens, byteLength source⟩ with
  | error reason =>
      rw [hread] at hends
      obtain ⟨position, hrun⟩ := hends
      exact ⟨_, hrun⟩
  | ok e =>
      rw [hread] at hends
      obtain ⟨position, hrun, -⟩ := hends
      exact ⟨_, hrun⟩

/-! ## Texts -/

section

variable {float : List Char → Option Number} {text : String} {fuel : Nat}

theorem parse_of_rejected (hfloat : Accepts float) (hfuel : text.toList.length < fuel)
    {reason : Rejection} (h : Lexer.scan 0 text.toList = .error reason) :
    parse float fuel text = .ok (.error (Source.errorOf text.toList reason)) := by
  have htokens := readTokens_eq hfloat (rest_zero text.toList) hfuel
  rw [offsetAt_zero, h] at htokens
  dsimp only [parse]
  rw [htokens]
  rfl

/-- Where a text is cut into tokens, they are read with the numbers that the parser of decimals
finds. -/
theorem parse_of_scanned (hfloat : Accepts float) (hfuel : 7 * text.toList.length + 5 < fuel)
    {ts : List Token} (h : Lexer.scan 0 text.toList = .ok ts) :
    parse float fuel text =
      .ok ((readAll ⟨ts.map (revalued float text.toList), byteLength text.toList⟩).mapError
        (Source.errorOf text.toList)) := by
  have htokens := readTokens_eq hfloat (rest_zero text.toList)
    (show text.toList.length < fuel by omega)
  rw [offsetAt_zero, h] at htokens
  have hplaced := scan_placed (rest_zero text.toList) (by rwa [offsetAt_zero])
  have hboundary : ∀ t ∈ ts.map (revalued float text.toList), IsBoundary text.toList t.stop := by
    intro t ht
    obtain ⟨u, hu, rfl⟩ := List.mem_map.mp ht
    rw [revalued_stop]
    exact (hplaced u hu).boundary
  have hlength := length_le_of_scan h
  obtain ⟨cursor, hrun⟩ := parseTokens_eq hboundary
    (show 7 * (ts.map (revalued float text.toList)).length + 5 < fuel by
      rw [List.length_map]
      omega)
  dsimp only [parse]
  rw [htokens]
  show (parseTokens text.toList (vector text.toList _) fuel ⟨0, 0⟩ >>= _) = _
  rw [hrun]
  rfl

end

/-- **No text makes the parsers crash**, if the parser of decimals takes every numeral. From every
text an expression or an error is read in at most so many steps, and it is the one of
`Expression.parse` if the numbers are the nearest ones. A call of a condition is decoded as
`Call.ofText` decodes it. -/
theorem parse_never_crashes {float : List Char → Option Number} (hfloat : Accepts float)
    (text : String) {fuel : Nat} (hfuel : 7 * text.toList.length + 5 < fuel) :
    (∃ result, parse float fuel text = .ok result ∧
      (Exact float → result = Expression.parse text)) ∧
    decode text = .ok (Call.ofText text) := by
  refine ⟨?_, decode_checked text⟩
  cases hscan : Lexer.scan 0 text.toList with
  | error reason =>
      refine ⟨_, parse_of_rejected hfloat (by omega) hscan, fun _ => ?_⟩
      rw [Expression.parse, Source.read, Lexer.tokenize, hscan]
      rfl
  | ok ts =>
      refine ⟨_, parse_of_scanned hfloat hfuel hscan, fun hexact => ?_⟩
      have hplaced := scan_placed (rest_zero text.toList) (by rwa [offsetAt_zero])
      have hsame : ts.map (revalued float text.toList) = ts :=
        (List.map_congr_left fun t ht => revalued_eq hexact (hplaced t ht)).trans (List.map_id ts)
      rw [hsame, Expression.parse, Source.read, Lexer.tokenize, hscan]
      rfl

/-- A stray string with a character of two bytes behind a numeral in an argument list. -/
theorem stray_argument_never_crashes :
    Accepts Number.read? ∧ Exact Number.read? ∧
    7 * "f(1.5e2 \"é\")".toList.length + 5 < 100 ∧
    parse Number.read? 100 "f(1.5e2 \"é\")" = .ok (Expression.parse "f(1.5e2 \"é\")") ∧
    decode "f(1.5e2 \"é\")" = .ok (Call.ofText "f(1.5e2 \"é\")") := by
  have hexact : Exact Number.read? := fun _ _ hnumeral => hnumeral.read?
  have haccepts : Accepts Number.read? := fun _ _ hnumeral => by rw [hnumeral.read?]; rfl
  have hfuel : 7 * "f(1.5e2 \"é\")".toList.length + 5 < 100 := by decide
  obtain ⟨⟨result, hparse, hresult⟩, hdecode⟩ := parse_never_crashes haccepts _ hfuel
  rw [hresult hexact] at hparse
  exact ⟨haccepts, hexact, hfuel, hparse, hdecode⟩

end WhenClause.Checked
