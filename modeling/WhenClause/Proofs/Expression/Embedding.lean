import WhenClause.Proofs.Expression.Placement
import WhenClause.Proofs.Text.Pieces

set_option autoImplicit false

/-! # Texts inside texts

What a text means does not depend on what it stands in. Between brackets and commas it is read as
it is alone, wherever it begins, whatever operators and names it contains, and also where bare
words would be allowed (`Expression.parse_embedded`). -/

namespace WhenClause

open WhenClause.Parser WhenClause.Lexer

namespace Grammar

variable {offset : Nat} {r : List Char} {behind : List Token} {inside : Bool}

/-! ## Texts that stand for phrases -/

/-- Wherever the text stands and whatever stands behind it, its tokens are a phrase, and the
tokens behind them are those of the text behind. -/
def Stands (inside : Bool) (p : Phrase) (s : List Char) : Prop :=
  ∀ (offset : Nat) (r : List Char) (behind : List Token),
    scan (offset + byteLength s) r = .ok behind →
      ∃ ts, scan offset (s ++ r) = .ok ts ∧ Derives unchained inside p ts behind

/-- A text that stands for an expression is read as it. -/
theorem Stands.parse {text : String} {e : Expression}
    (h : Stands false (.level .or e) text.toList) : Expression.parse text = .ok e := by
  obtain ⟨ts, hts, hmeans⟩ := h 0 [] [] (scan_nil _)
  rw [List.append_nil] at hts
  exact Expression.parse_of_tokens hts hmeans

/-- An operand alone is an expression of its level. -/
theorem Derives.alone (l : Level) {admits : String → List Step → Prop} {e : Expression}
    {ts rest : List Token} (h : Derives admits inside (operand l e) ts rest) :
    Derives admits inside (.level l e) ts rest := by
  have hlevel := Derives.level h (.noMore (l := l))
  have halone : tree l e [] = e := by cases l <;> rfl
  rwa [halone] at hlevel

/-- A term is an operand of every level. -/
theorem Derives.operand {admits : String → List Step → Prop} {e : Expression} {ts rest : List Token}
    (h : Derives admits inside (.unary e) ts rest) (l : Level) :
    Derives admits inside (Grammar.operand l e) ts rest := by
  have hrelational : Derives admits inside (.level .relational e) ts rest := Derives.alone _ h
  have hequality : Derives admits inside (.level .equality e) ts rest := Derives.alone _ hrelational
  cases l with
  | relational => exact h
  | equality => exact hrelational
  | and => exact hequality
  | or => exact Derives.alone .and hequality

/-- An expression of some level is one where any is expected. -/
theorem Derives.or {admits : String → List Step → Prop} {l : Level} {e : Expression}
    {ts rest : List Token} (h : Derives admits inside (.level l e) ts rest) :
    Derives admits inside (.level .or e) ts rest := by
  have hequality : Derives admits inside (.level .equality e) ts rest →
      Derives admits inside (.level .or e) ts rest :=
    fun h => (Derives.alone .and h).alone .or
  cases l with
  | relational => exact hequality (Derives.alone .equality h)
  | equality => exact hequality h
  | and => exact Derives.alone .or h
  | or => exact h

theorem Stands.level {l : Level} {e : Expression} {s : List Char}
    (h : Stands inside (operand l e) s) : Stands inside (.level l e) s := by
  intro offset r behind hbehind
  obtain ⟨ts, hts, hd⟩ := h offset r behind hbehind
  exact ⟨ts, hts, hd.alone l⟩

theorem Stands.operand {e : Expression} {s : List Char} (h : Stands inside (.unary e) s)
    (l : Level) : Stands inside (Grammar.operand l e) s := by
  intro offset r behind hbehind
  obtain ⟨ts, hts, hd⟩ := h offset r behind hbehind
  exact ⟨ts, hts, hd.operand l⟩

/-- An operand with operators of a level behind it. -/
theorem Stands.level_more {l : Level} {e : Expression} {more : List (Operator × Expression)}
    {s s' : List Char} (h : Stands inside (Grammar.operand l e) s)
    (hmore : Stands inside (.more l more) s') :
    Stands inside (.level l (tree l e more)) (s ++ s') := by
  intro offset r behind hbehind
  rw [byteLength_append, ← Nat.add_assoc] at hbehind
  obtain ⟨mid, hmid, hdmore⟩ := hmore _ r behind hbehind
  obtain ⟨ts, hts, hd⟩ := h offset (s' ++ r) mid hmid
  rw [List.append_assoc]
  exact ⟨ts, hts, .level hd hdmore⟩

/-! ### Groups -/

def grouped (t : String) : String := "(" ++ t ++ ")"

theorem toList_grouped (t : String) : (grouped t).toList = '(' :: (t.toList ++ [')']) := by
  rw [grouped, String.toList_append, String.toList_append]
  rfl

theorem stands_grouped {t : String} {e : Expression} (h : Expression.parse t = .ok e) :
    Stands inside (.unary e) (grouped t).toList := by
  intro offset r behind hbehind
  rw [toList_grouped, byteLength_cons, byteLength_append, byteLength_cons, ← Nat.add_assoc,
    ← Nat.add_assoc] at hbehind
  have hclose := scan_alone Listing.arguments.alone_mark hbehind
  obtain ⟨ts, hts, hd⟩ := scan_text inside h (Listing.arguments.delimits_mark r) hclose
  have hopen := scan_alone alone_leftParen hts
  rw [toList_grouped, List.cons_append, List.append_assoc]
  exact ⟨_, hopen, .term rfl (.group rfl hd rfl)⟩

theorem stands_negated {t : String} {e : Expression} (h : Expression.parse t = .ok e) :
    Stands inside (.unary e.negate) ('!' :: (grouped t).toList) := by
  intro offset r behind hbehind
  rw [byteLength_cons, ← Nat.add_assoc] at hbehind
  obtain ⟨ts, hts, hd⟩ := stands_grouped h _ r behind hbehind
  -- Behind the mark stands a parenthesis, so that it does not begin another symbol.
  have hbang : lexeme '!' ((grouped t).toList ++ r) = .ok (.symbol .bang, 0) := by
    rw [toList_grouped]
    rfl
  exact ⟨_, scan_symbol rfl hbang hts, .negation (Or.inl rfl) hd⟩

/-! ### Lists -/

/-- Texts with commas between them. -/
def listed (parsed : List (String × Expression)) : String :=
  ", ".intercalate (parsed.map Prod.fst)

/-- The texts are read as the expressions that they come with. -/
def Parsed (parsed : List (String × Expression)) : Prop :=
  ∀ p ∈ parsed, Expression.parse p.1 = .ok p.2

theorem stands_items (k : Listing) {p : String × Expression} {parsed : List (String × Expression)}
    (h : Parsed (p :: parsed)) :
    Stands inside (.items k ((p :: parsed).map Prod.snd))
      ((listed (p :: parsed)).toList ++ [k.mark]) := by
  have hp : Expression.parse p.1 = .ok p.2 := h p List.mem_cons_self
  induction parsed generalizing p with
  | nil =>
      intro offset r behind hbehind
      rw [byteLength_append, ← Nat.add_assoc] at hbehind
      have hclose := scan_alone k.alone_mark hbehind
      obtain ⟨ts, hts, hd⟩ := scan_text (k.inside inside) hp (k.delimits_mark r) hclose
      rw [List.append_assoc]
      exact ⟨ts, hts, .lastItem hd rfl⟩
  | cons q parsed ih =>
      have htail : Parsed (q :: parsed) := fun x hx => h x (List.mem_cons_of_mem p hx)
      have hsplit : (listed (p :: q :: parsed)).toList
          = p.1.toList ++ ',' :: ' ' :: (listed (q :: parsed)).toList := by
        simp only [listed, List.map_cons, String.intercalate_cons_cons, String.toList_append,
          List.append_assoc]
        rfl
      intro offset r behind hbehind
      rw [hsplit, List.append_assoc, byteLength_append, List.cons_append, List.cons_append,
        byteLength_cons, byteLength_cons, ← Nat.add_assoc, ← Nat.add_assoc, ← Nat.add_assoc]
        at hbehind
      obtain ⟨after, hafter, hdmore⟩ := ih htail (htail q List.mem_cons_self) _ r behind hbehind
      rw [← scan_blank (c := ' ') rfl] at hafter
      have hcomma := scan_alone alone_comma hafter
      obtain ⟨ts, hts, hd⟩ :=
        scan_text (k.inside inside) hp (delimits_comma _) hcomma
      refine ⟨ts, ?_, .item hd rfl hdmore⟩
      simpa only [hsplit, List.append_assoc, List.cons_append] using hts

theorem stands_sequence {parsed : List (String × Expression)} (h : Parsed parsed) :
    Stands inside (.unary (.sequence (parsed.map Prod.snd)))
      ('[' :: ((listed parsed).toList ++ [']'])) := by
  intro offset r behind hbehind
  rw [byteLength_cons, ← Nat.add_assoc] at hbehind
  cases parsed with
  | nil =>
      have hclose := scan_alone Listing.sequence.alone_mark hbehind
      have hopen := scan_alone alone_leftBracket hclose
      exact ⟨_, hopen, .term rfl (.emptySequence rfl rfl)⟩
  | cons p parsed =>
      obtain ⟨ts, hts, hd⟩ := stands_items .sequence h _ r behind hbehind
      have hopen := scan_alone alone_leftBracket hts
      exact ⟨_, hopen, .term rfl (.sequence rfl hd)⟩

theorem stands_arguments {parsed : List (String × Expression)} (h : Parsed parsed) :
    Stands inside (.arguments (parsed.map Prod.snd)) ((listed parsed).toList ++ [')']) := by
  cases parsed with
  | nil =>
      intro offset r behind hbehind
      exact ⟨_, scan_alone Listing.arguments.alone_mark hbehind, .noArguments rfl⟩
  | cons p parsed =>
      intro offset r behind hbehind
      obtain ⟨ts, hts, hd⟩ := stands_items .arguments h _ r behind hbehind
      exact ⟨ts, hts, .arguments hd⟩

/-! ### Calls -/

/-- The name is made of words with points between them. -/
def IsDotted (name : String) : Prop :=
  ∃ first parts, (∀ word ∈ first :: parts, isWord word = true) ∧ name = dottedName first parts

/-- The parts of a name, up to a text that goes on with no word. -/
theorem scan_parts (inside : Bool) {parts : List String} (h : ∀ part ∈ parts, isWord part = true)
    (hr : r.head?.any continuesWord = false)
    (hbehind : scan (offset + byteLength (partsText parts)) r = .ok behind) :
    ∃ ts, scan offset (partsText parts ++ r) = .ok ts ∧
      Derives unchained inside (.dotted parts) ts behind := by
  induction parts generalizing offset with
  | nil => exact ⟨behind, hbehind, .noPart⟩
  | cons part parts ih =>
      have hpart := h part List.mem_cons_self
      have htext : partsText (part :: parts) = '.' :: (part.toList ++ partsText parts) := rfl
      rw [htext, byteLength_cons, byteLength_append, ← Nat.add_assoc, ← Nat.add_assoc] at hbehind
      obtain ⟨mid, hmid, hd⟩ := ih (fun x hx => h x (List.mem_cons_of_mem part hx)) hbehind
      have hstop : (partsText parts ++ r).head?.any continuesWord = false := by
        cases parts with
        | nil => exact hr
        | cons => rfl
      have hword := scan_word hpart hstop (offset + '.'.utf8Size)
      rw [hmid] at hword
      rw [htext, List.cons_append, List.append_assoc]
      exact ⟨_, scan_alone alone_dot hword, .part rfl rfl hd⟩

/-- What stands right behind a word makes it no negation. -/
theorem startsNegation_adjacent {t : Token} {ts : List Token} {s : List Char}
    (hblank : s.head?.any Text.isBlank = false) (h : scan t.stop s = .ok ts) :
    startsNegation t ts = false := by
  cases s with
  | nil =>
      rw [scan_nil] at h
      cases h
      simp [startsNegation]
  | cons c s =>
      obtain ⟨l, n, after, -, -, rfl⟩ := scan_eq_ok (by simpa using hblank) h
      simp [startsNegation]

/-- A call of a name on a list of texts. -/
theorem stands_call {name : String} (hname : IsDotted name)
    {parsed : List (String × Expression)} (h : Parsed parsed) :
    Stands inside (.unary (.call name (parsed.map Prod.snd)))
      (name.toList ++ '(' :: ((listed parsed).toList ++ [')'])) := by
  obtain ⟨first, parts, hwords, rfl⟩ := hname
  intro offset r behind hbehind
  rw [toList_dottedName, List.append_assoc, byteLength_append, byteLength_append,
    byteLength_cons, ← Nat.add_assoc, ← Nat.add_assoc, ← Nat.add_assoc] at hbehind
  have harguments : Stands inside _ _ := stands_arguments h
  obtain ⟨args, hargs, hdargs⟩ := harguments _ r behind hbehind
  have hopen := scan_alone alone_leftParen hargs
  obtain ⟨mid, hmid, hdparts⟩ := scan_parts inside
    (fun part hpart => hwords part (List.mem_cons_of_mem first hpart)) (by rfl) hopen
  -- Behind the first word stands a point or a parenthesis.
  have hadjacent : ∀ p : Char → Bool, p '.' = false → p '(' = false →
      (partsText parts ++ '(' :: ((listed parsed).toList ++ [')'] ++ r)).head?.any p = false := by
    intro p hdot hparen
    cases parts with
    | nil => simpa [partsText] using hparen
    | cons => simpa [partsText] using hdot
  have hword := scan_word (hwords first List.mem_cons_self)
    (hadjacent continuesWord rfl rfl) offset
  rw [hmid] at hword
  rw [toList_dottedName, List.append_assoc, List.append_assoc]
  exact ⟨_, hword, .term (startsNegation_adjacent (hadjacent Text.isBlank rfl rfl) hmid)
    (.call rfl hdparts rfl hdargs .noStep fun hchain => absurd rfl hchain)⟩

/-! ### Operators -/

end Grammar

def Operator.symbol : Operator → Symbol
  | and => .andAnd
  | or => .orOr
  | equal => .equal
  | notEqual => .notEqual
  | less => .less
  | lessEqual => .lessEqual
  | greater => .greater
  | greaterEqual => .greaterEqual

namespace Grammar

variable {offset : Nat} {r : List Char} {behind : List Token} {inside : Bool}

def levelOf : Operator → Level
  | .and => .and
  | .or => .or
  | .equal | .notEqual => .equality
  | .less | .lessEqual | .greater | .greaterEqual => .relational

theorem joins_levelOf (op : Operator) : Joins (levelOf op) (.symbol op.symbol) op := by
  cases op <;> constructor

/-- The symbol of an operator with a blank on either side. -/
def spaced (op : Operator) : String := " " ++ op.symbol.text ++ " "

/-- In front of a blank an operator's symbol is taken whole. -/
theorem lexeme_symbol (op : Operator) :
    ∃ c more, op.symbol.text.toList = c :: more ∧ Text.isBlank c = false ∧
      ∀ r, lexeme c (more ++ ' ' :: r) = .ok (.symbol op.symbol, more.length) := by
  cases op
  case and => exact ⟨'&', ['&'], rfl, rfl, fun _ => rfl⟩
  case or => exact ⟨'|', ['|'], rfl, rfl, fun _ => rfl⟩
  case equal => exact ⟨'=', ['='], rfl, rfl, fun _ => rfl⟩
  case notEqual => exact ⟨'!', ['='], rfl, rfl, fun _ => rfl⟩
  case less => exact ⟨'<', [], rfl, rfl, fun _ => rfl⟩
  case lessEqual => exact ⟨'<', ['='], rfl, rfl, fun _ => rfl⟩
  case greater => exact ⟨'>', [], rfl, rfl, fun _ => rfl⟩
  case greaterEqual => exact ⟨'>', ['='], rfl, rfl, fun _ => rfl⟩

theorem scan_spaced (op : Operator)
    (hbehind : scan (offset + byteLength (spaced op).toList) r = .ok behind) :
    ∃ t, t.lexeme = .symbol op.symbol ∧
      scan offset ((spaced op).toList ++ r) = .ok (t :: behind) := by
  obtain ⟨c, more, htext, hblank, hl⟩ := lexeme_symbol op
  have hspaced : (spaced op).toList = ' ' :: (c :: more ++ [' ']) := by
    rw [spaced, String.toList_append, String.toList_append, htext]
    rfl
  rw [hspaced, byteLength_cons, byteLength_append, ← Nat.add_assoc, ← Nat.add_assoc] at hbehind
  have hblankBehind : scan (offset + ' '.utf8Size + byteLength (c :: more)) (' ' :: r)
      = .ok behind := by
    rw [scan_blank rfl]
    exact hbehind
  rw [hspaced]
  refine ⟨⟨.symbol op.symbol, offset + ' '.utf8Size,
    offset + ' '.utf8Size + byteLength (c :: more)⟩, rfl, ?_⟩
  have htail : c :: more ++ [' '] ++ r = c :: (more ++ ' ' :: r) := by simp
  rw [List.cons_append, scan_blank rfl, htail, scan_lexeme hblank (hl r), List.take_left,
    List.drop_left, hblankBehind]
  rfl

/-- Operands in parentheses, each behind an operator of a level. -/
theorem stands_more (op : Operator) {parsed : List (String × Expression)} (h : Parsed parsed) :
    Stands inside (.more (levelOf op) (parsed.map fun p => (op, p.2)))
      (parsed.flatMap fun p => (spaced op).toList ++ (grouped p.1).toList) := by
  induction parsed with
  | nil => exact fun _ _ behind hbehind => ⟨behind, hbehind, .noMore⟩
  | cons p parsed ih =>
      have hp : Expression.parse p.1 = .ok p.2 := h p List.mem_cons_self
      intro offset r behind hbehind
      rw [List.flatMap_cons, byteLength_append, byteLength_append, ← Nat.add_assoc,
        ← Nat.add_assoc] at hbehind
      obtain ⟨mid, hmid, hdmore⟩ :=
        ih (fun x hx => h x (List.mem_cons_of_mem p hx)) _ r behind hbehind
      have hgrouped : Stands inside (.unary p.2) (grouped p.1).toList := stands_grouped hp
      obtain ⟨operand, hoperand, hd⟩ := hgrouped.operand (levelOf op) _ _ mid hmid
      obtain ⟨t, ht, hts⟩ := scan_spaced op hoperand
      rw [List.flatMap_cons, List.append_assoc, List.append_assoc]
      exact ⟨_, hts, .more (ht ▸ joins_levelOf op) hd hdmore⟩

theorem Stands.or {l : Level} {e : Expression} {s : List Char} (h : Stands inside (.level l e) s) :
    Stands inside (.level .or e) s := by
  intro offset r behind hbehind
  obtain ⟨ts, hts, hd⟩ := h offset r behind hbehind
  exact ⟨ts, hts, hd.or⟩

def chained (op : Operator) (parsed : List (String × Expression)) : String :=
  (spaced op).intercalate (parsed.map fun p => grouped p.1)

theorem stands_chained (op : Operator) {p : String × Expression}
    {parsed : List (String × Expression)} (h : Parsed (p :: parsed)) :
    Stands inside (.level .or (tree (levelOf op) p.2 (parsed.map fun q => (op, q.2))))
      (chained op (p :: parsed)).toList := by
  have hsplit : (chained op (p :: parsed)).toList = (grouped p.1).toList ++
      parsed.flatMap fun q => (spaced op).toList ++ (grouped q.1).toList := by
    rw [chained, List.map_cons, Text.toList_intercalate, List.flatMap_map]
  rw [hsplit]
  exact Stands.or (((stands_grouped (h p List.mem_cons_self)).operand _).level_more
    (stands_more op fun x hx => h x (List.mem_cons_of_mem p hx)))

end Grammar

/-! ## Readings of composed texts -/

namespace Expression

open Grammar

variable {parsed : List (String × Expression)}

theorem parse_grouped {t : String} {e : Expression} (h : parse t = .ok e) :
    parse (grouped t) = .ok e :=
  Stands.parse ((stands_grouped h).operand .or).level

theorem parse_negated {t : String} {e : Expression} (h : parse t = .ok e) :
    parse ("!" ++ grouped t) = .ok e.negate := by
  refine Stands.parse (Stands.level (Stands.operand (l := .or) ?_))
  rw [String.toList_append]
  exact stands_negated h

theorem parse_compared {p q : String × Expression} (h : Parsed [p, q]) {op : Operator}
    (hop : op.isLogical = false) : parse (chained op [p, q]) = .ok (operator op [p.2, q.2]) := by
  have hread := (stands_chained op h).parse
  cases op with
  | and => cases hop
  | or => cases hop
  | _ => exact hread

/-- Two or more operands make one invocation of a logical operator. -/
theorem parse_combined (h : Parsed parsed) (hlength : 2 ≤ parsed.length) {op : Operator}
    (hop : op.isLogical = true) :
    parse (chained op parsed) = .ok (operator op (parsed.map Prod.snd)) := by
  obtain _ | ⟨p, _ | ⟨q, parsed⟩⟩ := parsed
  · contradiction
  · contradiction
  · have hread := (stands_chained op h).parse
    cases op with
    | and => simpa [levelOf, tree, Function.comp_def] using hread
    | or => simpa [levelOf, tree, Function.comp_def] using hread
    | _ => cases hop

theorem parse_sequence (h : Parsed parsed) :
    parse ("[" ++ listed parsed ++ "]") = .ok (.sequence (parsed.map Prod.snd)) := by
  refine Stands.parse (Stands.level (Stands.operand (l := .or) ?_))
  rw [String.toList_append, String.toList_append]
  exact stands_sequence h

theorem parse_call (h : Parsed parsed) {name : String} (hname : IsDotted name) :
    parse (name ++ "(" ++ listed parsed ++ ")") = .ok (call name (parsed.map Prod.snd)) := by
  refine Stands.parse (Stands.level (Stands.operand (l := .or) ?_))
  rw [String.toList_append, String.toList_append, String.toList_append, List.append_assoc,
    List.append_assoc]
  exact stands_call hname h

theorem isDotted_logical {op : Operator} (hop : op.isLogical = true) : IsDotted op.name := by
  cases op with
  | and => exact ⟨"and", [], by decide +kernel, rfl⟩
  | or => exact ⟨"or", [], by decide +kernel, rfl⟩
  | _ => cases hop

/-- **A text is read in every place as it is read alone**: in parentheses, negated, as an operand
of an operator, as an item of a sequence, and as an argument of a call. -/
theorem parse_embedded (h : Parsed parsed) :
    (∀ p ∈ parsed, parse (grouped p.1) = .ok p.2 ∧
      parse ("!" ++ grouped p.1) = .ok p.2.negate) ∧
    (∀ p ∈ parsed, ∀ q ∈ parsed, ∀ op : Operator, op.isLogical = false →
      parse (chained op [p, q]) = .ok (operator op [p.2, q.2])) ∧
    (2 ≤ parsed.length → ∀ op : Operator, op.isLogical = true →
      parse (chained op parsed) = .ok (operator op (parsed.map Prod.snd)) ∧
      parse (op.name ++ "(" ++ listed parsed ++ ")")
        = .ok (operator op (parsed.map Prod.snd))) ∧
    parse ("[" ++ listed parsed ++ "]") = .ok (.sequence (parsed.map Prod.snd)) ∧
    (∀ name, IsDotted name →
      parse (name ++ "(" ++ listed parsed ++ ")") = .ok (call name (parsed.map Prod.snd))) := by
  refine ⟨fun p hp => ⟨parse_grouped (h p hp), parse_negated (h p hp)⟩, ?_, ?_,
    parse_sequence h, fun _ hname => parse_call h hname⟩
  · intro p hp q hq op hop
    have hpair : Parsed [p, q] := by
      intro x hx
      rcases List.mem_pair.mp hx with rfl | rfl
      · exact h x hp
      · exact h x hq
    exact parse_compared hpair hop
  · intro hlength op hop
    exact ⟨parse_combined h hlength hop, parse_call h (isDotted_logical hop)⟩

/-- A text with a negation, quoted brackets, a bare word and an operator, and a comparison. -/
def sampleTexts : List (String × Expression) :=
  [("not f(\"),(\", a.b) || x()", .operator .or
      [.invocation "f" [.literal (.string "),("), .literal (.string "a.b")] true [],
        .call "x" []]),
    ("x() < y().z", .operator .less [.call "x" [], .invocation "y" [] false [.property "z"]])]

theorem sampleTexts_parsed : Parsed sampleTexts := by
  intro p hp
  rcases List.mem_pair.mp hp with rfl | rfl
  · cbv
  · cbv

theorem sampleTexts_embedded :
    parse ("!" ++ grouped "x() < y().z") = .ok (.invocation "<" [.call "x" [],
      .invocation "y" [] false [.property "z"]] true []) ∧
    parse (chained .and sampleTexts) = .ok (.operator .and (sampleTexts.map Prod.snd)) ∧
    parse ("f.g" ++ "(" ++ listed sampleTexts ++ ")")
      = .ok (.call "f.g" (sampleTexts.map Prod.snd)) := by
  obtain ⟨hgrouped, -, hlogical, -, hcall⟩ := parse_embedded sampleTexts_parsed
  exact ⟨(hgrouped _ (List.mem_cons_of_mem _ List.mem_cons_self)).2,
    (hlogical (by decide) .and rfl).1, hcall "f.g" ⟨"f", ["g"], by decide +kernel, rfl⟩⟩

end Expression

end WhenClause
