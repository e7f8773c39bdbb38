import Mathlib.Data.List.Forall2
import WhenClause.Proofs.Value.Indiscernible
import WhenClause.Proofs.Value.Quote
import WhenClause.Value.Member

set_option autoImplicit false

/-! # Members of the same values

The same data has the same members, and the methods of the same strings and arrays give the same
results for the same arguments, or fail alike. -/

namespace WhenClause

/-! ## Outcomes -/

/-- Both outcomes are results that are related, or the same failure. -/
def EndAlike {ε α β : Type} (P : α → β → Prop) : Except ε α → Except ε β → Prop
  | .ok a, .ok b => P a b
  | .error e, .error f => e = f
  | _, _ => False

namespace EndAlike

variable {ε φ α β : Type} {P Q : α → β → Prop} {x : Except ε α} {y : Except ε β}

theorem elim (h : EndAlike P x y) :
    (∃ a b, x = .ok a ∧ y = .ok b ∧ P a b) ∨ ∃ e, x = .error e ∧ y = .error e := by
  cases x with
  | ok a =>
      cases y with
      | ok b => exact Or.inl ⟨a, b, rfl, rfl, h⟩
      | error e => exact False.elim h
  | error e =>
      cases y with
      | ok b => exact False.elim h
      | error f =>
          obtain rfl : e = f := h
          exact Or.inr ⟨e, rfl, rfl⟩

theorem mono (h : EndAlike P x y) (hPQ : ∀ a b, x = .ok a → y = .ok b → P a b → Q a b) :
    EndAlike Q x y := by
  rcases h.elim with ⟨a, b, rfl, rfl, hab⟩ | ⟨e, rfl, rfl⟩
  · exact hPQ a b rfl rfl hab
  · rfl

theorem mapError (h : EndAlike P x y) (f : ε → φ) : EndAlike P (x.mapError f) (y.mapError f) := by
  rcases h.elim with ⟨a, b, rfl, rfl, hab⟩ | ⟨e, rfl, rfl⟩
  · exact hab
  · rfl

theorem eq {x y : Except ε α} (h : EndAlike Eq x y) : x = y := by
  rcases h.elim with ⟨a, _, rfl, rfl, rfl⟩ | ⟨e, rfl, rfl⟩ <;> rfl

theorem refl (x : Except ε α) : EndAlike Eq x x := by
  cases x <;> rfl

end EndAlike

namespace Value

/-! ## Data -/

/-- Data that is the same. -/
structure SameData (v w : Value) : Prop where
  left : v.Plain
  right : w.Plain
  same : v.same w = true

theorem SameData.refl {v : Value} (h : v.Plain) : SameData v v := ⟨h, h, same_refl v⟩

theorem SameData.items {vs ws : List Value} (h : SameData (.array vs) (.array ws)) :
    List.Forall₂ SameData vs ws := by
  obtain ⟨hvs, hws, hsame⟩ := h
  replace hvs := plainItems_iff.mp hvs
  replace hws := plainItems_iff.mp hws
  replace hsame := same_array.mp hsame
  induction hsame with
  | nil => exact .nil
  | cons hvw _ ih =>
      obtain ⟨hv, hvs⟩ := List.forall_mem_cons.mp hvs
      obtain ⟨hw, hws⟩ := List.forall_mem_cons.mp hws
      exact .cons ⟨hv, hw, hvw⟩ (ih hvs hws)

/-- Of the same records, each has a field where the other has one, with the same data. -/
theorem SameData.find? {fs gs : List (String × Value)} (h : SameData (.record fs) (.record gs))
    (key : String) :
    Option.Rel SameData (Dictionary.find? key fs) (Dictionary.find? key gs) := by
  obtain ⟨⟨-, hfs⟩, ⟨-, hgs⟩, hsame⟩ := h
  replace hfs := plainFields_iff.mp hfs
  replace hgs := plainFields_iff.mp hgs
  replace hsame := same_record.mp hsame
  induction hsame with
  | nil => exact .none
  | @cons f g fs gs hfg _ ih =>
      obtain ⟨hf, hfrest⟩ := List.forall_mem_cons.mp hfs
      obtain ⟨hg, hgrest⟩ := List.forall_mem_cons.mp hgs
      obtain ⟨k, a⟩ := f
      obtain ⟨l, b⟩ := g
      obtain ⟨rfl, hab⟩ : k = l ∧ a.same b = true := hfg
      rw [Dictionary.find?, Dictionary.find?]
      split
      · exact .some ⟨hf, hg, hab⟩
      · exact ih hfrest hgrest

/-! ## Members -/

/-- Of the same data, neither has the member, or both have it with the same data, or it is a
method of both. -/
theorem member?_cases {v w : Value} (h : SameData v w) (key : String) :
    (v.member? key = none ∧ w.member? key = none) ∨
    (∃ x y, v.member? key = some (.value x) ∧ w.member? key = some (.value y) ∧ SameData x y) ∨
    (v.member? key = some .method ∧ w.member? key = some .method) := by
  have hsame := h.same
  unfold Value.same at hsame
  cases v <;> cases w <;> simp only [equalWith, Bool.false_eq_true] at hsame
  case string.string s t =>
    obtain rfl := beq_iff_eq.mp hsame
    by_cases hkey : key = "length"
    · simp only [member?, hkey, if_true]
      exact Or.inr (Or.inl ⟨_, _, rfl, rfl, SameData.refl trivial⟩)
    · simp only [member?, hkey, if_false]
      cases TextMethod.ofName? key with
      | none => exact Or.inl ⟨rfl, rfl⟩
      | some m => exact Or.inr (Or.inr ⟨rfl, rfl⟩)
  case array.array vs ws =>
    have hlength : vs.length = ws.length := (same_array.mp h.same).length_eq
    by_cases hkey : key = "length"
    · simp only [member?, hkey, if_true, hlength]
      exact Or.inr (Or.inl ⟨_, _, rfl, rfl, SameData.refl trivial⟩)
    · simp only [member?, hkey, if_false]
      cases ListMethod.ofName? key with
      | none => exact Or.inl ⟨rfl, rfl⟩
      | some m => exact Or.inr (Or.inr ⟨rfl, rfl⟩)
  case record.record fs gs =>
    have hfind := h.find? key
    simp only [member?]
    generalize Dictionary.find? key fs = found at hfind ⊢
    generalize Dictionary.find? key gs = found' at hfind ⊢
    cases hfind with
    | none => exact Or.inl ⟨rfl, rfl⟩
    | some hdata => exact Or.inr (Or.inl ⟨_, _, rfl, rfl, hdata⟩)
  all_goals exact Or.inl ⟨rfl, rfl⟩

end Value

/-! ## Methods -/

namespace TextMethod

open Value

theorem argument_eq_of_same (m : TextMethod) {args args' : List Value}
    (h : List.Forall₂ (fun v w => v.same w = true) args args') :
    m.argument args = m.argument args' := by
  cases h with
  | nil => rfl
  | @cons v w _ _ hvw _ =>
      have htext := text_eq_of_same hvw
      unfold Value.same at hvw
      cases v <;> cases w <;> simp only [equalWith, Bool.false_eq_true] at hvw
      case string.string => rw [beq_iff_eq.mp hvw]; rfl
      all_goals exact congrArg (fun text : String => Except.ok text.toList) htext

/-- A method of strings gives data, or fails. -/
theorem apply_plain (m : TextMethod) (s : List Char) (args : List Value) :
    EndAlike SameData (m.apply s args) (m.apply s args) := by
  have hbind : ∀ f : List Char → Value, (∀ t, (f t).Plain) →
      EndAlike SameData (m.argument args >>= fun t => pure (f t))
        (m.argument args >>= fun t => pure (f t)) := by
    intro f hf
    cases m.argument args with
    | error e => rfl
    | ok t => exact SameData.refl (hf t)
  cases m with
  | includes => exact hbind _ fun _ => trivial
  | startsWith => exact hbind _ fun _ => trivial
  | endsWith => exact hbind _ fun _ => trivial
  | indexOf => exact hbind _ fun _ => trivial
  | trim => exact SameData.refl trivial
  | toLowerCase => exact SameData.refl trivial
  | toUpperCase => exact SameData.refl trivial

end TextMethod

namespace ListMethod

open Value

theorem needle_of_same {args args' : List Value}
    (h : List.Forall₂ (fun v w => v.same w = true) args args') :
    (needle args).same (needle args') = true := by
  cases h with
  | nil => rfl
  | cons hvw _ => exact hvw

theorem separator_eq_of_same {args args' : List Value}
    (h : List.Forall₂ (fun v w => v.same w = true) args args') :
    separator args = separator args' := by
  cases h with
  | nil => rfl
  | @cons v w _ _ hvw _ =>
      have hstring : v.string? = w.string? := by
        unfold Value.same at hvw
        cases v <;> cases w <;> simp only [equalWith, Bool.false_eq_true] at hvw
        case string.string => rw [beq_iff_eq.mp hvw]
        all_goals rfl
      simp only [separator, List.head?_cons, Option.bind_some, hstring]

theorem itemText_eq_of_same {v w : Value} (h : v.same w = true) : itemText v = itemText w := by
  have htext := text_eq_of_same h
  unfold Value.same at h
  cases v <;> cases w <;> simp only [equalWith, Bool.false_eq_true] at h
  case string.string => rw [beq_iff_eq.mp h]
  all_goals first | rfl | exact htext

/-- A method of arrays gives the same data for the same items and arguments. -/
theorem apply_of_same (m : ListMethod) {items items' args args' : List Value}
    (hitems : List.Forall₂ SameData items items')
    (hargs : List.Forall₂ (fun v w => v.same w = true) args args') :
    SameData (m.apply items args) (m.apply items' args') := by
  have hneedle := needle_of_same hargs
  cases m with
  | includes =>
      have hany : items.any (fun item => item.deepEq (needle args))
          = items'.any fun item => item.deepEq (needle args') := by
        induction hitems with
        | nil => rfl
        | cons hvw _ ih => rw [List.any_cons, List.any_cons, deepEq_eq_of_same hvw.same hneedle, ih]
      show SameData (.bool _) (.bool _)
      rw [hany]
      exact SameData.refl trivial
  | indexOf =>
      have hfind : items.findIdx? (fun item => item.deepEq (needle args))
          = items'.findIdx? fun item => item.deepEq (needle args') := by
        induction hitems with
        | nil => rfl
        | cons hvw _ ih =>
            rw [List.findIdx?_cons, List.findIdx?_cons, deepEq_eq_of_same hvw.same hneedle, ih]
      show SameData (TextMethod.position _) (TextMethod.position _)
      rw [hfind]
      exact SameData.refl trivial
  | join =>
      have htexts : items.map itemText = items'.map itemText := by
        induction hitems with
        | nil => rfl
        | cons hvw _ ih => rw [List.map_cons, List.map_cons, itemText_eq_of_same hvw.same, ih]
      show SameData (.string _) (.string _)
      rw [separator_eq_of_same hargs, htexts]
      exact SameData.refl trivial

end ListMethod

namespace Value

/-- **The methods of the same values end alike** for the same arguments. -/
theorem applyMethod?_of_same {v w : Value} (h : SameData v w) {name : String}
    (hmethod : v.member? name = some .method) {args args' : List Value}
    (hargs : List.Forall₂ (fun v w => v.same w = true) args args') :
    ∃ outcome outcome', v.applyMethod? name args = some outcome ∧
      w.applyMethod? name args' = some outcome' ∧ EndAlike SameData outcome outcome' := by
  have hsame := h.same
  unfold Value.same at hsame
  cases v <;> cases w <;> simp only [equalWith, Bool.false_eq_true] at hsame <;>
    simp only [member?, reduceCtorEq] at hmethod
  case string.string s t =>
    obtain rfl := beq_iff_eq.mp hsame
    split at hmethod
    · cases hmethod
    · obtain ⟨m, hm, -⟩ := Option.map_eq_some_iff.mp hmethod
      refine ⟨m.apply s.toList args, m.apply s.toList args', ?_, ?_, ?_⟩
      · simp only [applyMethod?, hm, Option.map_some]
      · simp only [applyMethod?, hm, Option.map_some]
      · have happly : m.apply s.toList args = m.apply s.toList args' := by
          cases m <;> simp only [TextMethod.apply, TextMethod.argument_eq_of_same _ hargs]
        rw [happly]
        exact TextMethod.apply_plain m _ _
  case array.array vs ws =>
    split at hmethod
    · cases hmethod
    · obtain ⟨m, hm, -⟩ := Option.map_eq_some_iff.mp hmethod
      refine ⟨.ok (m.apply vs args), .ok (m.apply ws args'), ?_, ?_, ?_⟩
      · simp only [applyMethod?, hm, Option.map_some]
      · simp only [applyMethod?, hm, Option.map_some]
      · exact ListMethod.apply_of_same m h.items hargs
  case record.record fs gs =>
    cases hfind : Dictionary.find? name fs <;> simp [hfind] at hmethod

end Value

end WhenClause
