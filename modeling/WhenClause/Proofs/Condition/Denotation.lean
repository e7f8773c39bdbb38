import WhenClause.Condition.Reading
import WhenClause.Proofs.Condition.Translation

set_option autoImplicit false

/-! # What conditions in JSON say

The expression of a JSON value, told by the value itself and not by how it is read. An array falls
into groups with `or` between them, and a group into parts with `and` between them; a part is a
call, a comparison, an array again, or malformed. A JSON value says exactly one expression, and it
is the one that it is read as (`denotes_iff`). -/

namespace WhenClause.Condition

/-! ## Arrays in pieces -/

/-- The items fall into pieces, with a word between any two of them and none in a piece. -/
inductive Pieces (word : String) : List Json → List (List Json) → Prop
  | last {piece} : Json.string word ∉ piece → Pieces word piece [piece]
  | more {piece rest pieces} : Json.string word ∉ piece → Pieces word rest pieces →
      Pieces word (piece ++ .string word :: rest) (piece :: pieces)

/-- Cutting adds no items. -/
theorem Pieces.mem {word : String} {items piece : List Json} {pieces : List (List Json)}
    (h : Pieces word items pieces) (hpiece : piece ∈ pieces) {item : Json} (hitem : item ∈ piece) :
    item ∈ items := by
  induction h with
  | last _ => rwa [List.mem_singleton.mp hpiece] at hitem
  | more _ _ ih =>
      rcases List.mem_cons.mp hpiece with rfl | hpiece
      · exact List.mem_append_left _ hitem
      · exact List.mem_append_right _ (List.mem_cons_of_mem _ (ih hpiece))

def isWord (word : String) (item : Json) : Bool := item.string? == some word

theorem isWord_iff {word : String} {item : Json} :
    isWord word item = true ↔ item = .string word := by
  cases item <;> simp [isWord, Json.string?]

theorem not_isWord_of_ne {word : String} {item : Json} (h : Json.string word ≠ item) :
    ¬ isWord word item = true := fun heq => h (isWord_iff.mp heq).symm

theorem splitOn_free {word : String} {piece : List Json} (h : Json.string word ∉ piece) :
    splitOn (isWord word) piece = [piece] := by
  induction piece with
  | nil => rfl
  | cons item piece ih =>
      rw [List.mem_cons, not_or] at h
      obtain ⟨hitem, hpiece⟩ := h
      rw [splitOn, if_neg (not_isWord_of_ne hitem), ih hpiece]

theorem splitOn_append {word : String} {piece : List Json} (h : Json.string word ∉ piece)
    (rest : List Json) :
    splitOn (isWord word) (piece ++ .string word :: rest)
      = piece :: splitOn (isWord word) rest := by
  induction piece with
  | nil => rw [List.nil_append, splitOn, if_pos (isWord_iff.mpr rfl)]
  | cons item piece ih =>
      rw [List.mem_cons, not_or] at h
      obtain ⟨hitem, hpiece⟩ := h
      rw [List.cons_append, splitOn, if_neg (not_isWord_of_ne hitem), ih hpiece]

theorem pieces_splitOn (word : String) (items : List Json) :
    Pieces word items (splitOn (isWord word) items) := by
  induction items with
  | nil => exact .last List.not_mem_nil
  | cons item rest ih =>
      rw [splitOn]
      split
      next hword =>
        obtain rfl := isWord_iff.mp hword
        exact .more List.not_mem_nil ih
      next hword =>
        have hitem : Json.string word ≠ item := fun heq => hword (isWord_iff.mpr heq.symm)
        -- The item goes to the front of the first piece.
        cases hsplit : splitOn (isWord word) rest with
        | nil => rw [hsplit] at ih; cases ih
        | cons piece pieces =>
            rw [hsplit] at ih
            cases ih with
            | last hpiece => exact .last (List.not_mem_cons_of_ne_of_not_mem hitem hpiece)
            | more hpiece hrest =>
                exact .more (List.not_mem_cons_of_ne_of_not_mem hitem hpiece) hrest

/-- There is one way only to cut an array. -/
theorem pieces_iff {word : String} {items : List Json} {pieces : List (List Json)} :
    Pieces word items pieces ↔ pieces = splitOn (isWord word) items := by
  constructor
  · intro h
    induction h with
    | last hpiece => exact (splitOn_free hpiece).symm
    | more hpiece _ ih => rw [splitOn_append hpiece, ih]
  · rintro rfl
    exact pieces_splitOn word items

/-! ## Expressions of JSON values -/

/-- The invocation that is refused with an error. -/
def refused (r : Refusals) (e : Error) : Expression := .call (r.name e) []

/-- An object with a context, an operator and a value is a comparison. -/
structure IsComparison (j context operator right : Json) : Prop where
  context : j.field? "context" = some context ∧ Call.isCall context = true
  operator : j.field? "operator" = some operator ∧ Call.isCall operator = true
  right : j.field? "value" = some right

/-- A part that is no call, no comparison and no array. -/
inductive Malformed : List Json → Prop
  | one {j} : Call.isCall j = false → (∀ items, j ≠ .array items) →
      (∀ context operator right, ¬ IsComparison j context operator right) → Malformed [j]
  | three {context operator right} : ¬ (Call.isCall context = true ∧ Call.isCall operator = true) →
      Malformed [context, operator, right]
  | other {part} : part.length ≠ 1 → part.length ≠ 3 → Malformed part

/-- The expression of a call. -/
inductive Calling (r : Refusals) (j : Json) : Expression → Prop
  | call {c} : Call.ofJson j = .ok c →
      Calling r j (.invocation c.name (Value.quoteItems c.args) c.negated [])
  | fault {e} : Call.ofJson j = .error e → Calling r j (refused r e)

/-- The expression of a comparison. An operator that does not compare is a command, which is given
a record. -/
inductive Comparing (r : Refusals) (context operator right : Json) : Expression → Prop
  | operator {c o op} : Call.ofJson operator = .ok o → Call.ofJson context = .ok c →
      Operator.ofName? o.name = some op → op.isLogical = false →
      Comparing r context operator right
        (.invocation op.name
          [.invocation c.name (Value.quoteItems c.args) false [], (Value.ofJson right).quote]
          o.negated [])
  | command {c o} : Call.ofJson operator = .ok o → Call.ofJson context = .ok c →
      (∀ op, Operator.ofName? o.name = some op → op.isLogical = true) →
      Comparing r context operator right
        (.invocation o.name
          [.record [("args", .sequence (Value.quoteItems o.args)),
            ("left", .invocation c.name (Value.quoteItems c.args) false []),
            ("right", (Value.ofJson right).quote)]]
          o.negated [])
  | operatorFault {e} : Call.ofJson operator = .error e →
      Comparing r context operator right (refused r e)
  | contextFault {o e} : Call.ofJson operator = .ok o → Call.ofJson context = .error e →
      Comparing r context operator right (refused r e)

/-- JSON, with what it says. -/
inductive Phrase where
  /-- A value where a condition is expected. -/
  | whole (j : Json) (e : Expression)
  | groups (groups : List (List Json)) (es : List Expression)
  | parts (parts : List (List Json)) (es : List Expression)
  | part (items : List Json) (e : Expression)

/-- The JSON says it. -/
inductive Denotes (r : Refusals) : Phrase → Prop
  | array {items groups es} : Pieces "or" items groups → Denotes r (.groups groups es) →
      Denotes r (.whole (.array items) (.operator .or es))
  | noArray {j} : (∀ items, j ≠ .array items) →
      Denotes r (.whole j
        (refused r (.invalidExpression s!"Unexpected context value: {j.compact}")))
  | noGroup : Denotes r (.groups [] [])
  | group {items groups parts es es'} : Pieces "and" items parts → Denotes r (.parts parts es) →
      Denotes r (.groups groups es') →
      Denotes r (.groups (items :: groups) (.operator .and es :: es'))
  | noPart : Denotes r (.parts [] [])
  | part {items parts e es} : Denotes r (.part items e) → Denotes r (.parts parts es) →
      Denotes r (.parts (items :: parts) (e :: es))
  | nested {items e} : Denotes r (.whole (.array items) e) → Denotes r (.part [.array items] e)
  | call {j e} : Call.isCall j = true →
      (∀ context operator right, ¬ IsComparison j context operator right) → Calling r j e →
      Denotes r (.part [j] e)
  | object {j context operator right e} : IsComparison j context operator right →
      Comparing r context operator right e → Denotes r (.part [j] e)
  | comparison {context operator right e} : Call.isCall context = true →
      Call.isCall operator = true → Comparing r context operator right e →
      Denotes r (.part [context, operator, right] e)
  | malformed {items} : Malformed items →
      Denotes r (.part items (refused r (.invalidExpression (Json.array items).compact)))

/-! ## Calls and comparisons -/

variable {r : Refusals}

theorem objectComparison?_eq_some_iff {j context operator right : Json} :
    objectComparison? j = some (context, operator, right) ↔
      IsComparison j context operator right := by
  simp only [objectComparison?, Option.bind_eq_bind, Option.bind_eq_some_iff,
    Option.filter_eq_some_iff, Option.pure_def, Option.some.injEq, Prod.mk.injEq]
  constructor
  · rintro ⟨_, hcontext, _, hoperator, _, hright, rfl, rfl, rfl⟩
    exact ⟨hcontext, hoperator, hright⟩
  · rintro ⟨hcontext, hoperator, hright⟩
    exact ⟨_, hcontext, _, hoperator, _, hright, rfl, rfl, rfl⟩

theorem objectComparison?_eq_none_iff {j : Json} :
    objectComparison? j = none ↔
      ∀ context operator right, ¬ IsComparison j context operator right := by
  simp only [← objectComparison?_eq_some_iff, Option.eq_none_iff_forall_ne_some, Prod.forall, ne_eq]

theorem comparing_iff {context operator right : Json} {e : Expression} :
    Comparing r context operator right e ↔
      e = (ofComparison operator context right).toExpression r := by
  constructor
  -- The operator is read before the context, so its error comes first.
  · rintro (⟨ho, hc, hop, hbinary⟩ | ⟨ho, hc, hop⟩ | ho | ⟨ho, hc⟩)
    · have hsome : comparisonOperator? _ = some _ :=
        Option.filter_eq_some_iff.mpr ⟨hop, by simpa using hbinary⟩
      simp [ofComparison, ho, hc, toExpression, comparisonExpression, hsome, Expression.call]
    · have hnone : comparisonOperator? _ = none :=
        Option.filter_eq_none_iff.mpr fun op hname => by simpa using hop op hname
      simp [ofComparison, ho, hc, toExpression, comparisonExpression, hnone, Expression.call]
    · simp [ofComparison, ho, toExpression, refused]
    · simp [ofComparison, ho, hc, toExpression, refused]
  · rintro rfl
    unfold ofComparison
    cases ho : Call.ofJson operator with
    | error e => exact .operatorFault ho
    | ok o =>
        cases hc : Call.ofJson context with
        | error e => exact .contextFault ho hc
        | ok c =>
            rw [toExpression, comparisonExpression]
            cases hop : comparisonOperator? o.name with
            | some op =>
                obtain ⟨hname, hbinary⟩ := Option.filter_eq_some_iff.mp hop
                exact .operator ho hc hname (by simpa using hbinary)
            | none =>
                refine .command ho hc fun op hname => ?_
                have := Option.filter_eq_none_iff.mp hop op hname
                simpa using this

/-! ## Parts -/

/-- The condition that the items of a part are read as. -/
def readPart (items : List Json) : Condition := ofPart (items.map fun j => (j, ofJson j))

theorem ofItem_object {j context operator right : Json} (h : IsComparison j context operator right)
    (nested : Condition) : ofItem j nested = ofComparison operator context right := by
  simp only [ofItem, objectComparison?_eq_some_iff.mpr h]

theorem calling_iff {j : Json} (h : Call.isCall j = true)
    (hobject : ∀ context operator right, ¬ IsComparison j context operator right)
    (nested : Condition) {e : Expression} :
    Calling r j e ↔ e = (ofItem j nested).toExpression r := by
  simp only [ofItem, objectComparison?_eq_none_iff.mpr hobject, if_pos h]
  constructor
  · rintro (hread | hread) <;> rw [hread] <;> rfl
  · rintro rfl
    cases hread : Call.ofJson j with
    | ok c => exact .call hread
    | error e => exact .fault hread

theorem readPart_three {context operator : Json} (hcontext : Call.isCall context = true)
    (hoperator : Call.isCall operator = true) (right : Json) :
    readPart [context, operator, right] = ofComparison operator context right := by
  simp [readPart, ofPart, hcontext, hoperator]

/-- A malformed part is read as its error. -/
theorem readPart_malformed {items : List Json} (h : Malformed items) :
    readPart items = .fault (.invalidExpression (Json.array items).compact) := by
  cases h with
  | @one j hcall harray hobject =>
      have hnone := objectComparison?_eq_none_iff.mpr hobject
      show ofItem j (ofJson j) = _
      cases j with
      | array items => exact absurd rfl (harray items)
      | _ => simp [ofItem, hnone, hcall]
  | three hcalls => simp [readPart, ofPart, hcalls]
  | other hone hthree =>
      match items, hone, hthree with
      | [], _, _ => rfl
      | [_], hone, _ => exact absurd rfl hone
      | [_, _], _, _ => rfl
      | [_, _, _], _, hthree => exact absurd rfl hthree
      | _ :: _ :: _ :: _ :: _, _, _ => simp [readPart, ofPart, Function.comp_def]

theorem denotes_malformed {items : List Json} (h : Malformed items) :
    Denotes r (.part items ((readPart items).toExpression r)) := by
  rw [readPart_malformed h]
  exact .malformed h

/-- A part of one item has the form of the item. -/
theorem denotes_item {j : Json} (h : Denotes r (.whole j ((ofJson j).toExpression r))) :
    Denotes r (.part [j] ((readPart [j]).toExpression r)) := by
  cases hobject : objectComparison? j with
  | some found =>
      obtain ⟨context, operator, right⟩ := found
      have hcomparison := objectComparison?_eq_some_iff.mp hobject
      refine .object hcomparison (comparing_iff.mpr ?_)
      rw [← ofItem_object hcomparison (ofJson j)]
      rfl
  | none =>
      have hnone := objectComparison?_eq_none_iff.mp hobject
      cases hcall : Call.isCall j with
      | true => exact .call hcall hnone ((calling_iff hcall hnone (ofJson j)).mpr rfl)
      | false =>
          cases j with
          | array items => exact .nested h
          | _ => exact denotes_malformed (.one hcall (fun _ => Json.noConfusion) hnone)

theorem denotes_readPart {items : List Json}
    (h : ∀ j ∈ items, Denotes r (.whole j ((ofJson j).toExpression r))) :
    Denotes r (.part items ((readPart items).toExpression r)) := by
  by_cases hone : items.length = 1
  · obtain ⟨j, rfl⟩ := List.length_eq_one_iff.mp hone
    exact denotes_item (h j List.mem_cons_self)
  by_cases hthree : items.length = 3
  · obtain ⟨context, operator, right, rfl⟩ := List.length_eq_three.mp hthree
    by_cases hcalls : Call.isCall context = true ∧ Call.isCall operator = true
    · rw [readPart_three hcalls.1 hcalls.2]
      exact .comparison hcalls.1 hcalls.2 (comparing_iff.mpr rfl)
    · exact denotes_malformed (.three hcalls)
  · exact denotes_malformed (.other hone hthree)

/-! ## Arrays -/

theorem withConditions_eq (items : List Json) :
    withConditions items = items.map fun j => (j, ofJson j) := by
  induction items with
  | nil => rfl
  | cons j rest ih => rw [withConditions, ih, List.map_cons]

theorem splitOn_map {α β : Type} (f : α → β) (separates : β → Bool) (items : List α) :
    splitOn separates (items.map f) = (splitOn (fun x => separates (f x)) items).map (·.map f) := by
  induction items with
  | nil => rfl
  | cons item rest ih =>
      rw [List.map_cons, splitOn, splitOn, ih]
      split
      · rfl
      · cases splitOn (fun x => separates (f x)) rest <;> rfl

/-- An array is read in groups, and a group in parts. -/
theorem ofJson_array (items : List Json) :
    ofJson (.array items) = .anyOf ((splitOn (isWord "or") items).map fun group =>
      (splitOn (isWord "and") group).map readPart) := by
  rw [ofJson, withConditions_eq, ofItems, splitOn_map, List.map_map]
  congr 1
  refine List.map_congr_left fun group _ => ?_
  show (splitOn (separates "and") (group.map _)).map ofPart = _
  rw [splitOn_map, List.map_map]
  rfl

theorem denotes_parts {parts : List (List Json)}
    (h : ∀ items ∈ parts, ∀ j ∈ items, Denotes r (.whole j ((ofJson j).toExpression r))) :
    Denotes r (.parts parts (partExpressions r (parts.map readPart))) := by
  induction parts with
  | nil => exact .noPart
  | cons items parts ih =>
      obtain ⟨hitems, hparts⟩ := List.forall_mem_cons.mp h
      exact .part (denotes_readPart hitems) (ih hparts)

theorem denotes_groups {groups : List (List Json)}
    (h : ∀ items ∈ groups, ∀ j ∈ items, Denotes r (.whole j ((ofJson j).toExpression r))) :
    Denotes r (.groups groups (groupExpressions r (groups.map fun group =>
      (splitOn (isWord "and") group).map readPart))) := by
  induction groups with
  | nil => exact .noGroup
  | cons items groups ih =>
      obtain ⟨hitems, hgroups⟩ := List.forall_mem_cons.mp h
      refine .group (pieces_splitOn "and" items) (denotes_parts fun part hpart j hj => ?_)
        (ih hgroups)
      exact hitems j ((pieces_splitOn "and" items).mem hpart hj)

/-! ## Readings -/

mutual

/-- **A JSON value says the expression of the condition that it is read as.** -/
theorem denotes_ofJson (j : Json) : Denotes r (.whole j ((ofJson j).toExpression r)) := by
  match j with
  | .array items =>
      rw [ofJson_array]
      refine .array (pieces_splitOn "or" items) (denotes_groups fun group hgroup item hitem => ?_)
      exact denotes_items items item ((pieces_splitOn "or" items).mem hgroup hitem)
  | .null | .bool _ | .integer _ | .float _ | .string _ | .object _ =>
      exact .noArray (fun _ => Json.noConfusion)

theorem denotes_items (items : List Json) :
    ∀ j ∈ items, Denotes r (.whole j ((ofJson j).toExpression r)) := by
  match items with
  | [] => exact List.forall_mem_nil _
  | j :: rest => exact List.forall_mem_cons.mpr ⟨denotes_ofJson j, denotes_items rest⟩

end

/-- The expression is the one that the reading gives. -/
def Phrase.Read (r : Refusals) : Phrase → Prop
  | .whole j e => e = (ofJson j).toExpression r
  | .groups pieces es => es = groupExpressions r (pieces.map fun group =>
      (splitOn (isWord "and") group).map readPart)
  | .parts pieces es => es = partExpressions r (pieces.map readPart)
  | .part items e => e = (readPart items).toExpression r

theorem Denotes.read {p : Phrase} (h : Denotes r p) : p.Read r := by
  -- By induction on what the JSON says: the rules for lists are the equations of the reader, and
  -- each form of a part is read as itself.
  induction h with
  | array hpieces _ ih =>
      obtain rfl := pieces_iff.mp hpieces
      show _ = (ofJson (.array _)).toExpression r
      rw [ofJson_array, toExpression, ih]
  | @noArray j hj =>
      cases j with
      | array items => exact absurd rfl (hj items)
      | _ => rfl
  | noGroup | noPart => rfl
  | group hpieces _ _ ihparts ihgroups =>
      obtain rfl := pieces_iff.mp hpieces
      show _ = groupExpressions r (_ :: _)
      rw [groupExpressions, ihparts, ihgroups]
  | part _ _ ihpart ihparts =>
      show _ = partExpressions r (_ :: _)
      rw [partExpressions, ihpart, ihparts]
  | nested _ ih => exact ih
  | call hcall hobject hcalling => exact (calling_iff hcall hobject _).mp hcalling
  | object hobject hcomparing =>
      show _ = (ofItem _ _).toExpression r
      rw [ofItem_object hobject]
      exact comparing_iff.mp hcomparing
  | comparison hcontext hoperator hcomparing =>
      show _ = (readPart _).toExpression r
      rw [readPart_three hcontext hoperator]
      exact comparing_iff.mp hcomparing
  | malformed h =>
      show _ = (readPart _).toExpression r
      rw [readPart_malformed h]
      rfl

/-- **A JSON value says one expression**, that of the condition that it is read as. -/
theorem denotes_iff {j : Json} {e : Expression} :
    Denotes r (.whole j e) ↔ e = (ofJson j).toExpression r := by
  refine ⟨Denotes.read, ?_⟩
  rintro rfl
  exact denotes_ofJson j

end WhenClause.Condition
