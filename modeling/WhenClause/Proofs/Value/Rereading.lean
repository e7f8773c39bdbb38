import WhenClause.Proofs.Expression.Embedding
import WhenClause.Proofs.Token.Literals
import WhenClause.Proofs.Value.Quote

set_option autoImplicit false

/-! # Values are read back from their texts

The text of a value that is written down is an expression, and evaluating the expression asks the
host for nothing and gives an equal value (`Value.parse_text`). What is not the same afterwards is
the sign of zero: both zeros are written as `0`.

The text of an item stands in front of a comma, a closing bracket or brace, or at the end, and
there it is read as it is alone (`Grammar.Written`). From the texts of the items the text of an
array is put together, and likewise that of a record. -/

namespace WhenClause

open WhenClause.Parser WhenClause.Lexer

/-! ## Texts that stand where an item ends -/

namespace Grammar

variable {admits : String → List Step → Prop} {inside : Bool} {e : Expression}
  {ts rest : List Token} {s s' : List Char}

theorem Derives.of_unary (h : Derives admits inside (.unary e) ts rest) :
    Derives admits inside (.level .or e) ts rest :=
  (h.operand .or).alone .or

/-- In front of what ends an item, and wherever it begins, the text is read as the expression. -/
def Written (e : Expression) (s : List Char) : Prop :=
  ∀ (inside : Bool) (offset : Nat) (r : List Char) (behind : List Token), EndsItem r →
    scan (offset + byteLength s) r = .ok behind →
      ∃ ts, scan offset (s ++ r) = .ok ts ∧ Derives unchained inside (.level .or e) ts behind

/-- A text that is read as the expression is parsed as it. -/
theorem Written.parse {text : String} (h : Written e text.toList) :
    Expression.parse text = .ok e := by
  obtain ⟨ts, hts, hmeans⟩ := h false 0 [] [] endsItem_nil (scan_nil _)
  rw [List.append_nil] at hts
  exact Expression.parse_of_tokens hts hmeans

/-- A text that stands for a term in front of anything is read as it in front of what ends an
item. -/
theorem written_of_stands (h : ∀ inside, Stands inside (.unary e) s) : Written e s := by
  intro inside offset r behind _ hbehind
  obtain ⟨ts, hts, hd⟩ := h inside offset r behind hbehind
  exact ⟨ts, hts, hd.of_unary⟩

theorem written_literal {good : List Char → Prop} (hgood : ∀ r, EndsItem r → good r) {x : Lexeme}
    {l : Literal} (hl : literal? x = some l) (h : Taken good x s) : Written (.literal l) s := by
  intro inside offset r behind hr hbehind
  have hscan := h.scan (hgood r hr) offset
  rw [hbehind] at hscan
  refine ⟨_, hscan, Derives.of_unary (.term ?_ (.literal hl))⟩
  -- The word of a negation is no literal.
  have hnot : x ≠ .word "not" := by
    rintro rfl
    cases hl
  simp [startsNegation, hnot]

/-! ### Items -/

variable {es : List Expression} {entries : List (String × Expression)}

theorem endsItem_comma (r : List Char) : EndsItem (',' :: r) := rfl

/-- The last item, and the closing bracket. -/
theorem stands_lastItem (h : Written e s) :
    Stands inside (.items .sequence [e]) (s ++ [']']) := by
  intro offset r behind hbehind
  rw [byteLength_append, ← Nat.add_assoc] at hbehind
  have hclose := scan_alone Listing.sequence.alone_mark hbehind
  obtain ⟨ts, hts, hd⟩ := h inside offset (']' :: r) _ rfl hclose
  rw [List.append_assoc]
  exact ⟨ts, hts, .lastItem hd rfl⟩

theorem stands_item (h : Written e s) (hmore : Stands inside (.items .sequence es) s') :
    Stands inside (.items .sequence (e :: es)) (s ++ ',' :: s') := by
  intro offset r behind hbehind
  rw [byteLength_append, byteLength_cons, ← Nat.add_assoc, ← Nat.add_assoc] at hbehind
  obtain ⟨mid, hmid, hdmore⟩ := hmore _ r behind hbehind
  have hcomma := scan_alone alone_comma hmid
  obtain ⟨ts, hts, hd⟩ := h inside offset (',' :: (s' ++ r)) _ (endsItem_comma _) hcomma
  rw [List.append_assoc]
  exact ⟨ts, hts, .item hd rfl hdmore⟩

theorem written_sequence (h : ∀ inside, Stands inside (.items .sequence es) s) :
    Written (.sequence es) ('[' :: s) := by
  refine written_of_stands fun inside offset r behind hbehind => ?_
  rw [byteLength_cons, ← Nat.add_assoc] at hbehind
  obtain ⟨ts, hts, hd⟩ := h inside _ r behind hbehind
  exact ⟨_, scan_alone alone_leftBracket hts, .term rfl (.sequence rfl hd)⟩

theorem written_emptySequence : Written (.sequence []) ['[', ']'] := by
  refine written_of_stands fun inside offset r behind hbehind => ?_
  have hclose := scan_alone Listing.sequence.alone_mark hbehind
  exact ⟨_, scan_alone alone_leftBracket hclose, .term rfl (.emptySequence rfl rfl)⟩

/-! ### Entries -/

def entryText (key : String) (s : List Char) : List Char :=
  Text.Quoted.encode key.toList ++ ':' :: s

/-- A key and a colon, in front of what the value is read as. -/
theorem scan_key (key : String) {offset : Nat} {r : List Char} {ts : List Token}
    (h : scan (offset + byteLength (Text.Quoted.encode key.toList) + ':'.utf8Size) r = .ok ts) :
    ∃ t c, t.lexeme = .string key ∧ c.lexeme = .symbol .colon ∧
      scan offset (Text.Quoted.encode key.toList ++ ':' :: r) = .ok (t :: c :: ts) := by
  have hcolon := scan_alone alone_colon h
  have hkey := (taken_encode key).scan (r := ':' :: r) trivial offset
  rw [hcolon] at hkey
  exact ⟨_, _, rfl, rfl, hkey⟩

/-- The last entry, and the closing brace. -/
theorem stands_lastEntry (key : String) (h : Written e s) :
    Stands inside (.entries [(key, e)]) (entryText key (s ++ ['\x7d'])) := by
  intro offset r behind hbehind
  rw [entryText, byteLength_append, byteLength_cons, byteLength_append, ← Nat.add_assoc,
    ← Nat.add_assoc, ← Nat.add_assoc] at hbehind
  have hclose := scan_alone alone_rightBrace hbehind
  obtain ⟨ts, hts, hd⟩ := h inside _ ('\x7d' :: r) _ rfl hclose
  obtain ⟨t, c, ht, hc, hscan⟩ := scan_key key hts
  rw [entryText, List.append_assoc, List.cons_append, List.append_assoc]
  exact ⟨_, hscan, .lastEntry (by rw [ht]; rfl) hc hd rfl⟩

theorem stands_entry (key : String) (h : Written e s)
    (hmore : Stands inside (.entries entries) s') :
    Stands inside (.entries ((key, e) :: entries)) (entryText key (s ++ ',' :: s')) := by
  intro offset r behind hbehind
  rw [entryText, byteLength_append, byteLength_cons, byteLength_append, byteLength_cons,
    ← Nat.add_assoc, ← Nat.add_assoc, ← Nat.add_assoc, ← Nat.add_assoc] at hbehind
  obtain ⟨mid, hmid, hdmore⟩ := hmore _ r behind hbehind
  have hcomma := scan_alone alone_comma hmid
  obtain ⟨ts, hts, hd⟩ := h inside _ (',' :: (s' ++ r)) _ (endsItem_comma _) hcomma
  obtain ⟨t, c, ht, hc, hscan⟩ := scan_key key hts
  rw [entryText, List.append_assoc, List.cons_append, List.append_assoc]
  exact ⟨_, hscan, .entry (by rw [ht]; rfl) hc hd rfl hdmore⟩

theorem written_record (h : ∀ inside, Stands inside (.entries entries) s) :
    Written (.record entries) ('\x7b' :: s) := by
  refine written_of_stands fun inside offset r behind hbehind => ?_
  rw [byteLength_cons, ← Nat.add_assoc] at hbehind
  obtain ⟨ts, hts, hd⟩ := h inside _ r behind hbehind
  exact ⟨_, scan_alone alone_leftBrace hts, .term rfl (.record rfl hd)⟩

theorem written_emptyRecord : Written (.record []) ['\x7b', '\x7d'] := by
  refine written_of_stands fun inside offset r behind hbehind => ?_
  have hclose := scan_alone alone_rightBrace hbehind
  exact ⟨_, scan_alone alone_leftBrace hclose, .term rfl (.emptyRecord rfl rfl)⟩

end Grammar

/-! ## Values that are written down -/

namespace Value

open Grammar

mutual

/-- The value is data throughout, its numbers are finite, and the fields of its records are in
their order. -/
def Expressible : Value → Prop
  | .null | .bool _ | .string _ => True
  | .number x => x.isFinite = true
  | .array items => ExpressibleItems items
  | .record fields => Dictionary.Sorted fields ∧ ExpressibleFields fields
  | .function _ _ _ | .handle _ => False

def ExpressibleItems : List Value → Prop
  | [] => True
  | v :: rest => Expressible v ∧ ExpressibleItems rest

def ExpressibleFields : List (String × Value) → Prop
  | [] => True
  | (_, v) :: rest => Expressible v ∧ ExpressibleFields rest

end

/-- The text of the value is read as the expression of an equal value. -/
def Reread (v : Value) : Prop :=
  ∃ w : Value, w.Plain ∧ w.deepEq v = true ∧ Written w.quote (v.write shown)

theorem reread_number {x : Number} (hfin : x.isFinite = true) : (Value.number x).Reread := by
  obtain ⟨y, hequal, htaken⟩ := taken_valueText hfin
  exact ⟨.number y, trivial, hequal, written_literal (fun _ hr => hr) rfl htaken⟩

theorem reread_string (s : String) : (Value.string s).Reread :=
  ⟨.string s, trivial, beq_self_eq_true s,
    written_literal (fun _ _ => trivial) rfl (taken_encode s)⟩

theorem reread_null : Value.null.Reread :=
  ⟨.null, trivial, rfl, written_literal (fun _ hr => hr) rfl taken_null⟩

theorem reread_bool (b : Bool) : (Value.bool b).Reread := by
  refine ⟨.bool b, trivial, beq_self_eq_true b, ?_⟩
  cases b with
  | true => exact written_literal (fun _ hr => hr) rfl taken_true
  | false => exact written_literal (fun _ hr => hr) rfl taken_false

/-- Items are read back together when each of them is. -/
theorem reread_items {v : Value} {items : List Value} (hv : v.Reread)
    (hitems : ∀ x ∈ items, Reread x) :
    ∃ w ws, PlainItems (w :: ws) ∧ deepEqItems (w :: ws) (v :: items) = true ∧
      ∀ inside, Stands inside (.items .sequence (quoteItems (w :: ws)))
        (v.write shown ++ writeItems shown items) := by
  obtain ⟨w, hplain, hequal, hwritten⟩ := hv
  -- By induction on the items behind the first one, for the last item brings the bracket with it.
  induction items generalizing v w with
  | nil =>
      refine ⟨w, [], ⟨hplain, trivial⟩, by simp [deepEqItems, hequal], fun inside => ?_⟩
      exact stands_lastItem hwritten
  | cons x items ih =>
      obtain ⟨hx, hrest⟩ := List.forall_mem_cons.mp hitems
      obtain ⟨y, hyplain, hyequal, hywritten⟩ := hx
      obtain ⟨z, zs, hzplain, hzequal, hstands⟩ := ih hrest y hyplain hyequal hywritten
      refine ⟨w, z :: zs, ⟨hplain, hzplain⟩, ?_, fun inside => ?_⟩
      · rw [deepEqItems, hequal, hzequal]
        rfl
      · exact stands_item hwritten (hstands inside)

/-- Fields are read back together, under their keys, when each of their values is. -/
theorem reread_fields {key : String} {v : Value} {fields : List (String × Value)} (hv : v.Reread)
    (hfields : ∀ field ∈ fields, Reread field.2) :
    ∃ gs, gs.map Prod.fst = ((key, v) :: fields).map Prod.fst ∧ PlainFields gs ∧
      deepEqFields gs ((key, v) :: fields) = true ∧
      ∀ inside, Stands inside (.entries (quoteFields gs))
        (entryText key (v.write shown ++ writeFields shown fields)) := by
  obtain ⟨w, hplain, hequal, hwritten⟩ := hv
  induction fields generalizing key v w with
  | nil =>
      refine ⟨[(key, w)], rfl, ⟨hplain, trivial⟩, by simp [deepEqFields, hequal],
        fun inside => ?_⟩
      exact stands_lastEntry key hwritten
  | cons field fields ih =>
      obtain ⟨l, x⟩ := field
      obtain ⟨hx, hrest⟩ := List.forall_mem_cons.mp hfields
      obtain ⟨y, hyplain, hyequal, hywritten⟩ := hx
      obtain ⟨gs, hkeys, hgsplain, hgsequal, hstands⟩ := ih hrest y hyplain hyequal hywritten
      refine ⟨(key, w) :: gs, congrArg (key :: ·) hkeys, ⟨hplain, hgsplain⟩, ?_,
        fun inside => ?_⟩
      · rw [deepEqFields, hequal, hgsequal]
        simp
      · exact stands_entry key hwritten (hstands inside)

/-- Fields with the same keys are in their order together. -/
theorem sorted_of_keys {fields gs : List (String × Value)}
    (hkeys : gs.map Prod.fst = fields.map Prod.fst) (h : Dictionary.Sorted fields) :
    Dictionary.Sorted gs := by
  have hpairwise : (gs.map Prod.fst).Pairwise (· < ·) := by
    rw [hkeys]
    exact List.pairwise_map.mpr h
  exact List.pairwise_map.mp hpairwise

theorem expressibleItems_iff {items : List Value} :
    ExpressibleItems items ↔ ∀ v ∈ items, Expressible v := by
  induction items with
  | nil => simp [ExpressibleItems]
  | cons v rest ih => simp [ExpressibleItems, ih]

theorem expressibleFields_iff {fields : List (String × Value)} :
    ExpressibleFields fields ↔ ∀ field ∈ fields, Expressible field.2 := by
  induction fields with
  | nil => simp [ExpressibleFields]
  | cons field rest ih => simp [ExpressibleFields, ih]

/-- **Every value that is written down is read back.** -/
theorem reread {v : Value} (h : v.Expressible) : v.Reread := by
  match v with
  | .null => exact reread_null
  | .bool b => exact reread_bool b
  | .number x => exact reread_number h
  | .string s => exact reread_string s
  | .array [] => exact ⟨.array [], trivial, rfl, written_emptySequence⟩
  | .array (item :: items) =>
      have hall := expressibleItems_iff.mp h
      have hitems : ∀ x ∈ items, Reread x := fun x hx =>
        reread (hall x (List.mem_cons_of_mem item hx))
      obtain ⟨w, ws, hplain, hequal, hstands⟩ :=
        reread_items (reread (hall item List.mem_cons_self)) hitems
      exact ⟨.array (w :: ws), hplain, hequal, written_sequence hstands⟩
  | .record [] => exact ⟨.record [], ⟨List.Pairwise.nil, trivial⟩, rfl, written_emptyRecord⟩
  | .record ((key, item) :: fields) =>
      obtain ⟨hsorted, hexpressible⟩ := h
      have hall := expressibleFields_iff.mp hexpressible
      have hfields : ∀ field ∈ fields, Reread field.2 := fun field hfield =>
        reread (hall field (List.mem_cons_of_mem _ hfield))
      obtain ⟨gs, hkeys, hplain, hequal, hstands⟩ :=
        reread_fields (reread (hall (key, item) List.mem_cons_self)) hfields
      exact ⟨.record gs, ⟨sorted_of_keys hkeys hsorted, hplain⟩, hequal,
        written_record hstands⟩
termination_by sizeOf v
decreasing_by
  · have hlt : sizeOf x < sizeOf items := List.sizeOf_lt_of_mem hx
    simp only [array.sizeOf_spec, List.cons.sizeOf_spec]
    omega
  · simp only [array.sizeOf_spec, List.cons.sizeOf_spec]
    omega
  · have hlt : sizeOf field < sizeOf fields := List.sizeOf_lt_of_mem hfield
    obtain ⟨l, x⟩ := field
    rw [Prod.mk.sizeOf_spec] at hlt
    simp only [record.sizeOf_spec, List.cons.sizeOf_spec]
    omega
  · simp only [record.sizeOf_spec, List.cons.sizeOf_spec, Prod.mk.sizeOf_spec]
    omega

/-- **The text of a value is an expression for it.** The text of a value without functions and
handles whose numbers are finite is parsed, and for every host the evaluation of what is parsed
asks for nothing, and gives a value equal to it. -/
theorem parse_text {v : Value} (h : v.Expressible) :
    ∃ e w, Expression.parse v.text = .ok e ∧ w.deepEq v = true ∧
      ∀ (m : Type → Type) [Monad m] [LawfulMonad m] (host : Host m), e.eval host = pure w := by
  obtain ⟨w, hplain, hequal, hwritten⟩ := reread h
  have htext : v.text.toList = v.write shown := String.toList_ofList
  refine ⟨w.quote, w, ?_, hequal, fun m _ _ host => eval_quote host hplain⟩
  exact Written.parse (htext ▸ hwritten)

/-- A record with a negative zero and a fraction, a control character in a key, and characters that
are escaped in a string. -/
theorem sample_parse_text :
    let fraction : Number := Decimal.toNumber ⟨true, 25, -1⟩
    let v := Value.record
      [("", .array [.number (Number.ofMagnitude true 0), .number fraction, .bool true, .null]),
        ("a\x01", .record [("b", .string "é\"\n\\"), ("c", .array [])])]
    v.Expressible ∧
      ∃ e w, Expression.parse v.text = .ok e ∧ w.deepEq v = true ∧
        ∀ (m : Type → Type) [Monad m] [LawfulMonad m] (host : Host m), e.eval host = pure w := by
  intro fraction v
  have hfraction : fraction.isFinite = true := by decide +kernel
  have hkeys : ("" : String) < "a\x01" := by decide
  have hinner : ("b" : String) < "c" := by decide
  have h : v.Expressible :=
    ⟨by simpa [Dictionary.Sorted] using hkeys, ⟨rfl, hfraction, trivial, trivial, trivial⟩,
      ⟨by simpa [Dictionary.Sorted] using hinner, trivial, trivial, trivial⟩, trivial⟩
  exact ⟨h, parse_text h⟩

end Value

end WhenClause
