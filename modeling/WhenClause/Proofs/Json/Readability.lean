import WhenClause.Json.Written
import WhenClause.Proofs.Number.JsonText
import WhenClause.Proofs.Value.Sameness

set_option autoImplicit false

/-! # The indented form determines the value

In front of any text that cannot go on with it, the indented form of a JSON value without
infinities and NaN determines the value and the text (`indented_append_inj`). So two such values
with one indented form are one value (`pretty_inj`). -/

namespace WhenClause.Json

open Value (Kind kindOfLead? append_inj_of_run)

/-! ## Values without infinities and NaN -/

mutual

/-- Every float of the value is finite. -/
def Finite : Json → Prop
  | .float x => x.isFinite = true
  | .array items => FiniteItems items
  | .object entries => FiniteEntries entries
  | _ => True

def FiniteItems : List Json → Prop
  | [] => True
  | item :: items => Finite item ∧ FiniteItems items

def FiniteEntries : List (String × Json) → Prop
  | [] => True
  | (_, v) :: entries => Finite v ∧ FiniteEntries entries

end

/-! ## The indented form as characters -/

/-- The characters of a line break and the indentation of a depth. -/
def breakText (depth : Nat) : List Char := '\n' :: List.replicate (2 * depth) ' '

def text (depth : Nat) (j : Json) : List Char := (indented depth j).toList

def itemsText (depth : Nat) (items : List Json) : List Char := (indentedItems depth items).toList

def entriesText (depth : Nat) (entries : List (String × Json)) : List Char :=
  (indentedEntries depth entries).toList

theorem toList_lineBreak (depth : Nat) : (lineBreak depth).toList = breakText depth := by
  simp [lineBreak, breakText]

theorem toList_quote (s : String) :
    (Text.Quoted.quote s).toList = Text.Quoted.encode s.toList := String.toList_ofList

section

attribute [local simp] text itemsText entriesText indented indentedItems indentedEntries
  toList_lineBreak toList_quote

variable (depth : Nat)

theorem text_null : text depth .null = ['n', 'u', 'l', 'l'] := by simp

theorem text_bool (b : Bool) :
    text depth (.bool b) = if b then ['t', 'r', 'u', 'e'] else ['f', 'a', 'l', 's', 'e'] := by
  cases b <;> simp

theorem text_integer (i : Int) : text depth (.integer i) = Decimal.intText i := by simp

theorem text_float (x : Number) : text depth (.float x) = x.jsonText := by simp

theorem text_string (s : String) : text depth (.string s) = Text.Quoted.encode s.toList := by simp

theorem text_array_nil : text depth (.array []) = ['[', ']'] := by simp

theorem text_array_cons (item : Json) (items : List Json) :
    text depth (.array (item :: items)) = '[' :: (breakText (depth + 1) ++ (text (depth + 1) item ++
      (itemsText (depth + 1) items ++ (breakText depth ++ [']'])))) := by
  simp

theorem text_object_nil : text depth (.object []) = ['\x7b', '\x7d'] := by simp

theorem text_object_cons (entry : String × Json) (entries : List (String × Json)) :
    text depth (.object (entry :: entries)) = '\x7b' :: (breakText (depth + 1) ++
      (Text.Quoted.encode entry.1.toList ++ ':' :: ' ' :: (text (depth + 1) entry.2 ++
        (entriesText (depth + 1) entries ++ (breakText depth ++ ['\x7d']))))) := by
  simp

theorem itemsText_nil : itemsText depth [] = [] := by simp

theorem itemsText_cons (item : Json) (items : List Json) :
    itemsText depth (item :: items)
      = ',' :: (breakText depth ++ (text depth item ++ itemsText depth items)) := by
  simp

theorem entriesText_nil : entriesText depth [] = [] := by simp

theorem entriesText_cons (entry : String × Json) (entries : List (String × Json)) :
    entriesText depth (entry :: entries) = ',' :: (breakText depth ++
      (Text.Quoted.encode entry.1.toList ++ ':' :: ' ' :: (text depth entry.2 ++
        entriesText depth entries))) := by
  simp

end

/-! ## The kind of a value shows in the first character -/

def kind : Json → Kind
  | .null => .null
  | .bool _ => .bool
  | .integer _ | .float _ => .number
  | .string _ => .string
  | .array _ => .array
  | .object _ => .record

theorem text_lead {j : Json} (hj : Finite j) (depth : Nat) :
    ∃ c rest, text depth j = c :: rest ∧ kindOfLead? c = some j.kind := by
  have number {c : Char} (hc : c = '-' ∨ Decimal.isDigit c = true) :
      kindOfLead? c = some .number := by
    rcases hc with rfl | hc
    · rfl
    · simp [kindOfLead?, Number.isLeadChar, hc]
  cases j with
  | null => exact ⟨'n', _, text_null depth, rfl⟩
  | bool b => cases b <;> exact ⟨_, _, text_bool depth _, rfl⟩
  | integer i =>
      obtain ⟨c, rest, h, hc⟩ := Number.intText_cons i
      exact ⟨c, rest, (text_integer depth i).trans h, number hc⟩
  | float x =>
      obtain ⟨c, rest, h, hc⟩ := Number.jsonText_cons hj
      exact ⟨c, rest, (text_float depth x).trans h, number hc⟩
  | string s => exact ⟨'"', _, text_string depth s, rfl⟩
  | array items =>
      cases items with
      | nil => exact ⟨'[', _, text_array_nil depth, rfl⟩
      | cons item items => exact ⟨'[', _, text_array_cons depth item items, rfl⟩
  | object entries =>
      cases entries with
      | nil => exact ⟨'\x7b', _, text_object_nil depth, rfl⟩
      | cons entry entries =>
          exact ⟨'\x7b', _, text_object_cons depth entry entries, rfl⟩

/-- Values whose texts begin alike are of one kind. -/
theorem kind_eq_of_append_eq {j k : Json} (hj : Finite j) (hk : Finite k) {depth : Nat}
    {r s : List Char} (h : text depth j ++ r = text depth k ++ s) : j.kind = k.kind := by
  obtain ⟨c, _, htext, hc⟩ := text_lead hj depth
  obtain ⟨d, _, htext', hd⟩ := text_lead hk depth
  rw [htext, htext', List.cons_append, List.cons_append] at h
  rw [(List.cons.inj h).1, hd] at hc
  exact (Option.some.inj hc).symm

/-! ## Cutting an indented text off -/

/-- A text cannot go on with a value: it is empty, or begins with a comma or a line break. -/
def Ends (r : List Char) : Prop := ∀ c ∈ r.head?, c = ',' ∨ c = '\n'

theorem ends_nil : Ends [] := by simp [Ends]

theorem ends_itemsText (depth d : Nat) (items : List Json) (r : List Char) :
    Ends (itemsText depth items ++ (breakText d ++ r)) := by
  cases items with
  | nil => simp [Ends, itemsText_nil, breakText]
  | cons item items => simp [Ends, itemsText_cons]

theorem ends_entriesText (depth d : Nat) (entries : List (String × Json)) (r : List Char) :
    Ends (entriesText depth entries ++ (breakText d ++ r)) := by
  cases entries with
  | nil => simp [Ends, entriesText_nil, breakText]
  | cons entry entries => simp [Ends, entriesText_cons]

theorem Ends.head?_any {r : List Char} (hr : Ends r) : r.head?.any Number.isJsonChar = false := by
  cases r with
  | nil => rfl
  | cons c r =>
      rcases hr c rfl with rfl | rfl
      · rfl
      · rfl

/-- The text of a number determines whether it is an integer, and which number it is. -/
theorem number_append_inj {j k : Json} (hj : Finite j) (hk : Finite k)
    (hjk : j.kind = .number) (hkk : k.kind = .number) {depth : Nat} {r s : List Char} (hr : Ends r)
    (hs : Ends s) (h : text depth j ++ r = text depth k ++ s) : j = k ∧ r = s := by
  have chars {j : Json} (hj : Finite j) (hjk : j.kind = .number) :
      ∀ c ∈ text depth j, Number.isJsonChar c = true := by
    cases j <;> simp only [kind, reduceCtorEq] at hjk
    case integer i =>
      rw [text_integer]
      exact fun c hc => (Number.intText_chars i c hc).1
    case float x =>
      rw [text_float]
      exact (Number.jsonText_chars hj).1
  have unlike {i : Int} {x : Number} (hx : x.isFinite = true)
      (h : Decimal.intText i = x.jsonText) : False := by
    obtain ⟨c, hc, hmark⟩ := (Number.jsonText_chars hx).2
    rw [(Number.intText_chars i c (h ▸ hc)).2] at hmark
    cases hmark
  obtain ⟨htext, rfl⟩ := append_inj_of_run (chars hj hjk) (chars hk hkk) hr.head?_any hs.head?_any h
  refine ⟨?_, rfl⟩
  cases j <;> simp only [kind, reduceCtorEq] at hjk <;> cases k <;>
    simp only [kind, reduceCtorEq] at hkk <;> simp only [text_integer, text_float] at htext
  case integer.integer => rw [Number.intText_inj htext]
  case integer.float => exact (unlike hk htext).elim
  case float.integer => exact (unlike hj htext.symm).elim
  case float.float => rw [Number.jsonText_inj hj hk htext]

mutual

/-- **Unique readability.** In front of texts that cannot go on with a value, an indented text
determines its value and the text behind it. -/
theorem indented_append_inj {j k : Json} (hj : Finite j) (hk : Finite k) {depth : Nat}
    {r s : List Char} (hr : Ends r) (hs : Ends s) (h : text depth j ++ r = text depth k ++ s) :
    j = k ∧ r = s := by
  -- Both values stand at one depth, so what is inside them does too, and what stands behind an
  -- inner value is a comma or a line break, whatever stands behind the whole.
  have hkind := kind_eq_of_append_eq hj hk h
  cases j <;> cases k <;> simp only [kind, reduceCtorEq] at hkind
  case null.null => exact ⟨rfl, List.append_cancel_left h⟩
  case bool.bool a b =>
    cases a <;> cases b <;> simp [text_bool] at h ⊢ <;> exact h
  case integer.integer => exact number_append_inj hj hk rfl rfl hr hs h
  case integer.float => exact number_append_inj hj hk rfl rfl hr hs h
  case float.integer => exact number_append_inj hj hk rfl rfl hr hs h
  case float.float => exact number_append_inj hj hk rfl rfl hr hs h
  case string.string =>
    rw [text_string, text_string] at h
    obtain ⟨hstring, hrest⟩ := Text.Quoted.encode_append_inj h
    exact ⟨congrArg _ (String.toList_inj.mp hstring), hrest⟩
  case array.array as bs =>
    cases as <;> cases bs <;>
      simp only [text_array_nil, text_array_cons, List.cons_append, List.append_assoc,
        List.cons.injEq, true_and, List.append_cancel_left_eq] at h
    · exact ⟨rfl, h⟩
    · simp [breakText] at h
    · simp [breakText] at h
    · obtain ⟨hitem, hitems⟩ := indented_append_inj hj.1 hk.1 (ends_itemsText _ _ _ _)
        (ends_itemsText _ _ _ _) h
      obtain ⟨hmore, hbehind⟩ := items_append_inj hj.2 hk.2 hitems
      exact ⟨by rw [hitem, hmore], by simpa using hbehind⟩
  case object.object as bs =>
    cases as <;> cases bs <;>
      simp only [text_object_nil, text_object_cons, List.cons_append, List.append_assoc,
        List.cons.injEq, true_and, List.append_cancel_left_eq] at h
    · exact ⟨rfl, h⟩
    · simp [breakText] at h
    · simp [breakText] at h
    · obtain ⟨hkey, hcolon⟩ := Text.Quoted.encode_append_inj h
      simp only [List.cons.injEq, true_and] at hcolon
      obtain ⟨hvalue, hentries⟩ := indented_append_inj hj.1 hk.1 (ends_entriesText _ _ _ _)
        (ends_entriesText _ _ _ _) hcolon
      obtain ⟨hmore, hbehind⟩ := entries_append_inj hj.2 hk.2 hentries
      exact ⟨by rw [Prod.ext (String.toList_inj.mp hkey) hvalue, hmore], by simpa using hbehind⟩

theorem items_append_inj {as bs : List Json} (ha : FiniteItems as) (hb : FiniteItems bs)
    {depth d : Nat} {r s : List Char}
    (h : itemsText depth as ++ (breakText d ++ r) = itemsText depth bs ++ (breakText d ++ s)) :
    as = bs ∧ r = s := by
  cases as <;> cases bs <;>
    simp only [itemsText_nil, itemsText_cons, List.nil_append, List.cons_append, List.append_assoc,
      List.cons.injEq, true_and, List.append_cancel_left_eq] at h
  · exact ⟨rfl, h⟩
  · simp [breakText] at h
  · simp [breakText] at h
  · obtain ⟨hitem, hitems⟩ := indented_append_inj ha.1 hb.1 (ends_itemsText _ _ _ _)
      (ends_itemsText _ _ _ _) h
    obtain ⟨hmore, hrest⟩ := items_append_inj ha.2 hb.2 hitems
    exact ⟨by rw [hitem, hmore], hrest⟩

theorem entries_append_inj {as bs : List (String × Json)} (ha : FiniteEntries as)
    (hb : FiniteEntries bs) {depth d : Nat} {r s : List Char}
    (h : entriesText depth as ++ (breakText d ++ r) = entriesText depth bs ++ (breakText d ++ s)) :
    as = bs ∧ r = s := by
  cases as <;> cases bs <;>
    simp only [entriesText_nil, entriesText_cons, List.nil_append, List.cons_append,
      List.append_assoc, List.cons.injEq, true_and, List.append_cancel_left_eq] at h
  · exact ⟨rfl, h⟩
  · simp [breakText] at h
  · simp [breakText] at h
  · obtain ⟨hkey, hcolon⟩ := Text.Quoted.encode_append_inj h
    simp only [List.cons.injEq, true_and] at hcolon
    obtain ⟨hvalue, hentries⟩ := indented_append_inj ha.1 hb.1 (ends_entriesText _ _ _ _)
      (ends_entriesText _ _ _ _) hcolon
    obtain ⟨hmore, hrest⟩ := entries_append_inj ha.2 hb.2 hentries
    exact ⟨by rw [Prod.ext (String.toList_inj.mp hkey) hvalue, hmore], hrest⟩

end

/-- **Values without infinities and NaN with one indented form are one value.** -/
theorem pretty_inj {j k : Json} (hj : Finite j) (hk : Finite k) (h : j.pretty = k.pretty) :
    j = k := by
  have htext : text 0 j ++ [] = text 0 k ++ [] := congrArg (String.toList · ++ []) h
  exact (indented_append_inj hj hk ends_nil ends_nil htext).1

end WhenClause.Json
