import WhenClause.Expression.Source
import WhenClause.Proofs.Expression.Outcomes
import WhenClause.Proofs.Text.Pieces
import WhenClause.Proofs.Token.Exactness

set_option autoImplicit false

/-! # Errors show the text

A rejection names the place of a token of the text, or the end of the text, whichever reader it
comes from (`points_readLevel`): every reader leaves tokens of the text, and shows one of those that
it was given. With the places at which the lexer fails, every error of a text that is no expression
shows a place in it, and the text from there on (`Expression.parse_error_shows`). -/

namespace WhenClause

namespace Parser

variable {α β : Type} {stop : Nat} {bare : Bool} {all ts us : List Token}

/-! ## Places -/

/-- The start of a token, or the end of the text. -/
def IsPlace (stop : Nat) (all : List Token) (p : Nat) : Prop := p = stop ∨ ∃ t ∈ all, t.start = p

/-- The offset behind an opening parenthesis. -/
def IsOpening (all : List Token) (opening : Nat) : Prop :=
  ∃ t ∈ all, t.lexeme = .symbol .leftParen ∧ t.stop = opening

/-- What is left are tokens of the text, or the rejection shows a place of the text or one of its
argument lists. -/
def Points (stop : Nat) (all : List Token) : Except Rejection (α × List Token) → Prop
  | .ok (_, rest) => rest ⊆ all
  | .error (.fault _ p) => IsPlace stop all p
  | .error (.arguments opening _) => IsOpening all opening

theorem points_ok (x : α) (h : ts ⊆ all) : Points stop all (.ok (x, ts)) := h

theorem isPlace_place (h : ts ⊆ all) : IsPlace stop all (place stop ts) := by
  cases ts with
  | nil => exact Or.inl rfl
  | cons t rest => exact Or.inr ⟨t, h List.mem_cons_self, rfl⟩

theorem points_reject (cause : Fault) (h : ts ⊆ all) :
    Points stop all (reject cause stop ts : Except Rejection (α × List Token)) := isPlace_place h

theorem points_fault (cause : Fault) {t : Token} (h : t ∈ all) :
    Points stop all (.error (.fault cause t.start) : Except Rejection (α × List Token)) :=
  Or.inr ⟨t, h, rfl⟩

theorem Points.bind {o : Except Rejection (α × List Token)}
    {f : α × List Token → Except Rejection (β × List Token)} (h : Points stop all o)
    (hf : ∀ x rest, o = .ok (x, rest) → rest ⊆ all → Points stop all (f (x, rest))) :
    Points stop all (o >>= f) := by
  match o with
  | .ok (x, rest) => exact hf x rest rfl h
  | .error (.fault _ _) => exact h
  | .error (.arguments _ _) => exact h

theorem Points.changed {o : Except Rejection (α × List Token)} (f : α → β)
    (h : Points stop all o) : Points stop all (changed f o) := by
  match o with
  | .ok _ => exact h
  | .error (.fault _ _) => exact h
  | .error (.arguments _ _) => exact h

theorem points_closed (symbol : Symbol) (what : Expected) (x : α) (h : ts ⊆ all) :
    Points stop all (closed symbol what stop x ts) := by
  cases ts with
  | nil => exact points_reject _ h
  | cons u after =>
      rw [closed]
      split
      · exact points_ok x (List.cons_subset.mp h).2
      · exact points_reject _ h

theorem points_listed {closing : Symbol} {single : α}
    {more : List Token → Except Rejection (α × List Token)}
    {missing : Except Rejection (α × List Token)}
    {stray : Token → List Token → Except Rejection (α × List Token)} (h : ts ⊆ all)
    (hmore : ∀ after, after.length < ts.length → after ⊆ all → Points stop all (more after))
    (hmissing : Points stop all missing)
    (hstray : ∀ u after, u :: after ⊆ all → Points stop all (stray u after)) :
    Points stop all (listed closing single more missing stray ts) := by
  cases ts with
  | nil => exact hmissing
  | cons u after =>
      have hafter := (List.cons_subset.mp h).2
      rw [listed]
      split
      · exact hmore after (Nat.lt_succ_self _) hafter
      · split
        · exact points_ok single hafter
        · exact hstray u after h

/-! ## The readers -/

theorem points_readDotted {ts : List Token} (h : ts ⊆ all) :
    Points stop all (outcome (readDotted stop ts)) := by
  match ts with
  | [] =>
      rw [outcome_readDotted_nil]
      exact points_ok _ h
  | t :: rest =>
      rw [outcome_readDotted]
      split
      · have hrest := (List.cons_subset.mp h).2
        match rest with
        | [] => exact points_reject _ hrest
        | u :: after =>
            dsimp only
            split
            · exact (points_readDotted (List.cons_subset.mp hrest).2).changed _
            · exact points_reject _ hrest
      · exact points_ok _ h
termination_by ts.length

mutual

theorem points_readLevel {bare : Bool} (l : Level) {ts : List Token} (h : ts ⊆ all) :
    Points stop all (outcome (readLevel stop bare l ts)) := by
  rw [outcome_readLevel]
  refine (points_readOperand l h).bind fun first rest hfirst hrest => ?_
  have := length_lt_of_outcome hfirst
  exact (points_readMore l hrest).changed _
termination_by (ts.length, 2 * l.height + 1)

theorem points_readOperand {bare : Bool} (l : Level) {ts : List Token} (h : ts ⊆ all) :
    Points stop all (outcome (readOperand stop bare l ts)) := by
  rw [outcome_readOperand]
  cases l with
  | or => exact points_readLevel .and h
  | and => exact points_readLevel .equality h
  | equality => exact points_readLevel .relational h
  | relational => exact points_readUnary h
termination_by (ts.length, 2 * l.height)

theorem points_readMore {bare : Bool} (l : Level) {ts : List Token} (h : ts ⊆ all) :
    Points stop all (outcome (readMore stop bare l ts)) := by
  match ts with
  | [] =>
      rw [outcome_readMore_nil]
      exact points_ok _ h
  | t :: rest =>
      rw [outcome_readMore]
      split
      · exact points_ok _ h
      · refine (points_readOperand l (List.cons_subset.mp h).2).bind
          fun operand mid hoperand hmid => ?_
        have := length_lt_of_outcome hoperand
        exact (points_readMore l hmid).changed _
termination_by (ts.length, 0)

theorem points_readUnary {bare : Bool} {ts : List Token} (h : ts ⊆ all) :
    Points stop all (outcome (readUnary stop bare ts)) := by
  match ts with
  | [] =>
      rw [outcome_readUnary_nil]
      exact points_reject _ h
  | t :: rest =>
      rw [outcome_readUnary]
      split
      · exact (points_readUnary (List.cons_subset.mp h).2).changed _
      · exact points_readTerm h
termination_by (ts.length, 2)

theorem points_readTerm {bare : Bool} {t : Token} {ts : List Token} (h : t :: ts ⊆ all) :
    Points stop all (outcome (readTerm stop bare t ts)) := by
  have hts := (List.cons_subset.mp h).2
  rw [outcome_readTerm]
  split
  · exact points_ok _ hts
  · exact points_ok _ hts
  · exact points_ok _ hts
  · exact points_ok _ hts
  · exact points_readName _ h
  · exact (points_readLevel .or hts).bind fun x rest _ hrest => points_closed _ _ x hrest
  · match ts with
    | [] => exact points_reject _ hts
    | u :: after =>
        dsimp only
        split
        · exact points_ok _ (List.cons_subset.mp hts).2
        · exact (points_readItems hts).changed _
  · match ts with
    | [] => exact points_reject _ hts
    | u :: after =>
        dsimp only
        split
        · exact points_ok _ (List.cons_subset.mp hts).2
        · exact (points_readEntries hts).changed _
  · exact points_reject _ h
termination_by ((t :: ts).length, 1)

theorem points_readItems {bare : Bool} {ts : List Token} (h : ts ⊆ all) :
    Points stop all (outcome (readItems stop bare ts)) := by
  rw [outcome_readItems]
  refine (points_readLevel .or h).bind fun item rest hitem hrest => ?_
  have hrest_lt := length_lt_of_outcome hitem
  dsimp only
  refine points_listed hrest (fun after hlength hafter => ?_)
    (points_reject _ (List.nil_subset all)) fun u after hafter => points_reject _ hafter
  exact (points_readItems hafter).changed _
termination_by (ts.length, 12)

theorem points_readEntries {bare : Bool} {ts : List Token} (h : ts ⊆ all) :
    Points stop all (outcome (readEntries stop bare ts)) := by
  rw [outcome_readEntries]
  match ts with
  | [] => exact points_reject _ h
  | t :: us =>
      dsimp only
      split
      · exact points_reject _ h
      · refine (points_closed .colon .colon () (List.cons_subset.mp h).2).bind
          fun _ mid hcolon hmid => ?_
        have hmid_lt : mid.length < (t :: us).length :=
          Nat.lt_succ_of_lt (length_lt_of_closed hcolon)
        refine (points_readLevel .or hmid).bind fun value rest hvalue hrest => ?_
        have hrest_lt := length_lt_of_outcome hvalue
        dsimp only
        refine points_listed hrest (fun after hlength hafter => ?_)
          (points_reject _ (List.nil_subset all)) fun u after hafter => points_reject _ hafter
        have hafter_lt : after.length < (t :: us).length := by omega
        exact (points_readEntries hafter).changed _
termination_by (ts.length, 0)

theorem points_readName {bare : Bool} {t : Token} (first : String) {ts : List Token}
    (h : t :: ts ⊆ all) : Points stop all (outcome (readName stop bare t first ts)) := by
  obtain ⟨ht, hts⟩ := List.cons_subset.mp h
  rw [outcome_readName]
  refine (points_readDotted hts).bind fun parts rest hparts hrest => ?_
  have hrest_lt := length_lt_of_outcome hparts
  have hbare : Points stop all (bareOutcome bare t.start (dottedName first parts) rest) := by
    unfold bareOutcome
    split
    · exact points_ok _ hrest
    · exact points_fault _ ht
  match rest with
  | [] => exact hbare
  | u :: us =>
      have hus_lt : us.length < ts.length := Nat.lt_of_succ_lt_succ hrest_lt
      obtain ⟨hu, hus⟩ := List.cons_subset.mp hrest
      dsimp only [nameOutcome]
      split
      next hparen =>
        refine (points_readArguments ⟨u, hu, hparen, rfl⟩ hus).bind fun args mid hargs hmid => ?_
        have hmid_lt := length_lt_of_outcome hargs
        refine (points_readChain hmid).bind fun chain after _ hafter => ?_
        dsimp only
        split
        · exact points_fault _ ht
        · exact points_ok _ hafter
      · exact hbare
termination_by (ts.length + 1, 0)

theorem points_readArguments {opening : Nat} (hopening : IsOpening all opening) {ts : List Token}
    (h : ts ⊆ all) : Points stop all (outcome (readArguments stop opening ts)) := by
  rw [outcome_readArguments]
  match ts with
  | [] => exact points_reject _ h
  | t :: rest =>
      dsimp only
      split
      · exact points_ok _ (List.cons_subset.mp h).2
      · exact points_readArgumentItems hopening h
termination_by (ts.length, 13)

theorem points_readArgumentItems {opening : Nat} (hopening : IsOpening all opening)
    {ts : List Token} (h : ts ⊆ all) :
    Points stop all (outcome (readArgumentItems stop opening ts)) := by
  rw [outcome_readArgumentItems]
  refine (points_readLevel .or h).bind fun item rest hitem hrest => ?_
  have hrest_lt := length_lt_of_outcome hitem
  dsimp only
  refine points_listed hrest (fun after hlength hafter => ?_)
    (points_reject _ (List.nil_subset all)) fun u after hafter => hopening
  exact (points_readArgumentItems hopening hafter).changed _
termination_by (ts.length, 12)

theorem points_readChain {ts : List Token} (h : ts ⊆ all) :
    Points stop all (outcome (readChain stop ts)) := by
  match ts with
  | [] =>
      rw [outcome_readChain_nil]
      exact points_ok _ h
  | t :: rest =>
      rw [outcome_readChain]
      split
      · have hrest := (List.cons_subset.mp h).2
        match rest with
        | [] => exact points_reject _ hrest
        | u :: after =>
            have hafter := (List.cons_subset.mp hrest).2
            dsimp only
            split
            · match after with
              | [] => exact points_ok _ hafter
              | p :: inner =>
                  obtain ⟨hp, hinner⟩ := List.cons_subset.mp hafter
                  dsimp only
                  split
                  next hparen =>
                    refine (points_readArguments ⟨p, hp, hparen, rfl⟩ hinner).bind
                      fun args mid hargs hmid => ?_
                    have := length_lt_of_outcome hargs
                    exact (points_readChain hmid).changed _
                  · exact (points_readChain hafter).changed _
            · exact points_reject _ hrest
      · exact points_ok _ h
termination_by (ts.length, 0)

end

/-- A text without tokens is rejected as such, and any other one where a reader rejects it. -/
theorem points_readAll {tokens : Tokens} {reason : Rejection} (h : readAll tokens = .error reason) :
    tokens.list = [] ∧ reason = .fault .emptyExpression 0 ∨
      Points tokens.stop tokens.list
        (.error reason : Except Rejection (Expression × List Token)) := by
  rw [readAll_eq] at h
  split at h
  next hempty =>
    cases h
    exact Or.inl ⟨List.isEmpty_iff.mp hempty, rfl⟩
  next =>
    refine Or.inr ?_
    have hpoints : Points tokens.stop tokens.list
        (outcome (readLevel tokens.stop false .or tokens.list)) :=
      points_readLevel .or (List.Subset.refl _)
    match hread : outcome (readLevel tokens.stop false .or tokens.list) with
    | .error e =>
        rw [hread] at h hpoints
        cases h
        exact hpoints
    | .ok (x, rest) =>
        rw [hread] at h hpoints
        match rest with
        | [] => cases h
        | t :: rest =>
            cases h
            exact isPlace_place hpoints

/-- **A rejected text shows the place of one of its tokens**, its end, or nothing where there are
none. -/
theorem readAll_points {tokens : Tokens} {cause : Fault} {p : Nat}
    (h : readAll tokens = .error (.fault cause p)) :
    tokens.list = [] ∧ p = 0 ∨ IsPlace tokens.stop tokens.list p := by
  rcases points_readAll h with ⟨hempty, hreason⟩ | hplace
  · cases hreason
    exact Or.inl ⟨hempty, rfl⟩
  · exact Or.inr hplace

/-- **A rejected argument list begins behind an opening parenthesis.** -/
theorem readAll_opening {tokens : Tokens} {opening : Nat} {found : Lexeme}
    (h : readAll tokens = .error (.arguments opening found)) : IsOpening tokens.list opening := by
  rcases points_readAll h with ⟨-, hreason⟩ | hopening
  · cases hreason
  · exact hopening

end Parser

/-! ## Texts -/

open Lexer (byteLength tokenize IsGap Covers Malformed Stands)

/-- A place in a text at which it may be found to be no expression: the start of a token, the end
of the text, the first place that is malformed, or the start of a text of blanks. -/
inductive ErrorPlace (source : List Char) : List Char → List Char → Prop
  | token {ts : List Token} {front slice behind : List Char} {t : Token} :
      tokenize source = .ok ⟨ts, byteLength source⟩ → t ∈ ts →
      Stands source front slice behind t → ErrorPlace source front (slice ++ behind)
  | stop {ts : List Token} : tokenize source = .ok ⟨ts, byteLength source⟩ →
      ErrorPlace source source []
  | malformed {ts : List Token} {front rest : List Char} {cause : Fault} : source = front ++ rest →
      Covers source 0 (byteLength front) ts → Malformed rest cause →
      tokenize source = .error (.fault cause (byteLength front)) → ErrorPlace source front rest
  | blank : IsGap source → ErrorPlace source [] source

/-- The error shows a place in the text, and what stands behind it without blanks at the end, cut
where it is too long. Or it shows an argument list. -/
inductive Error.Shows (source : List Char) : Error → Prop
  | place {message : String} {front kept gap : List Char} :
      ErrorPlace source front (kept ++ gap) → source = front ++ (kept ++ gap) → IsGap gap →
      kept.getLast?.any Text.isBlank = false →
      Shows source (.malformed message
        (String.ofList (if 40 < kept.length then kept.take 40 ++ ['.', '.', '.'] else kept))
        (byteLength front))
  | arguments {list message : String} : Shows source (.argumentParse list message)

theorem ErrorPlace.split {source front rest : List Char} (h : ErrorPlace source front rest) :
    source = front ++ rest := by
  cases h with
  | token _ _ hstands => exact hstands.split
  | stop _ => exact (List.append_nil source).symm
  | malformed hsplit _ _ _ => exact hsplit
  | blank _ => rfl

/-- What is shown of a place is the text from there on. -/
theorem ErrorPlace.shows {source front rest : List Char} (h : ErrorPlace source front rest)
    (cause : Fault) : (Source.errorOf source (.fault cause (byteLength front))).Shows source := by
  have hsplit := h.split
  obtain ⟨gap, hrest, hgap, hlast⟩ := Text.exists_trimEnd rest
  have hfragment : Source.fragment source (byteLength front)
      = if 40 < (Text.trimEnd rest).length then (Text.trimEnd rest).take 40 ++ ['.', '.', '.']
        else Text.trimEnd rest := by
    rw [Source.fragment, hsplit, Checked.dropBytes?_append]
    rfl
  rw [hrest] at h hsplit
  rw [Source.errorOf, hfragment]
  exact .place h hsplit hgap hlast

/-- A text without tokens is blank. -/
theorem isGap_of_covers {source : List Char} (h : Covers source 0 (byteLength source) []) :
    IsGap source := by
  intro c hc
  obtain ⟨front, behind, hsplit⟩ := List.append_of_mem hc
  by_contra hblank
  have hlt : byteLength front < byteLength source := by
    have hpos := Char.utf8Size_pos c
    rw [hsplit, Lexer.byteLength_append, Lexer.byteLength_cons]
    omega
  obtain ⟨t, ht, -⟩ := h.covered front c behind hsplit (by simpa using hblank) (Nat.zero_le _) hlt
  cases ht

namespace Expression

/-- **A text that is no expression fails with an error that shows it**: a place in the text and
what stands there, or an argument list. -/
theorem parse_error_shows {text : String} {e : Error} (h : parse text = .error e) :
    e.Shows text.toList := by
  obtain ⟨ts, front, rest, hreads, houtcome⟩ := Lexer.exists_reads [] text.toList
  have hcovers : Covers text.toList 0 (byteLength front) ts := hreads.covers rfl
  have hsplit : text.toList = front ++ rest := hreads.places.1
  rw [parse, Source.read] at h
  rcases houtcome with ⟨rfl, hscan⟩ | ⟨cause, hmalformed, hscan⟩
  · rw [List.append_nil] at hsplit
    rw [← hsplit] at hcovers
    have htokens : tokenize text.toList = .ok ⟨ts, byteLength text.toList⟩ :=
      congrArg (Except.map _) hscan
    rw [htokens] at h
    change (Parser.readAll ⟨ts, byteLength text.toList⟩).mapError _ = _ at h
    cases hread : Parser.readAll ⟨ts, byteLength text.toList⟩ with
    | ok x =>
        rw [hread] at h
        cases h
    | error r =>
        rw [hread] at h
        cases h
        match r with
        | .arguments _ _ => exact .arguments
        | .fault cause p =>
            rcases Parser.readAll_points hread with ⟨hnil, rfl⟩ | rfl | ⟨t, ht, rfl⟩
            · obtain rfl : ts = [] := hnil
              exact (ErrorPlace.blank (isGap_of_covers hcovers)).shows cause
            · exact (ErrorPlace.stop htokens).shows cause
            · obtain ⟨front', slice, behind, hstands⟩ := hcovers.stands t ht
              rw [hstands.start_eq]
              exact (ErrorPlace.token htokens ht hstands).shows cause
  · have htokens : tokenize text.toList = .error (.fault cause (byteLength front)) :=
      congrArg (Except.map _) hscan
    rw [htokens] at h
    cases h
    exact (ErrorPlace.malformed hsplit hcovers hmalformed htokens).shows cause

/-- A word behind a call, shown where it stands. -/
theorem trailing_word_shown :
    parse "x() y " = .error (.malformed "Unexpected 'y'" "y" 4) ∧
      Error.Shows "x() y ".toList (.malformed "Unexpected 'y'" "y" 4) := by
  have hread : Source.read "x() y ".toList
      = .error (.fault (.unexpected (some (.word "y"))) 4) := by cbv
  have hfragment : Source.fragment "x() y ".toList 4 = ['y'] := by cbv
  have hparse : parse "x() y " = .error (.malformed "Unexpected 'y'" "y" 4) := by
    rw [parse, hread]
    show Except.error (Source.errorOf _ _) = _
    rw [Source.errorOf, hfragment]
    rfl
  exact ⟨hparse, parse_error_shows hparse⟩

end Expression

end WhenClause
