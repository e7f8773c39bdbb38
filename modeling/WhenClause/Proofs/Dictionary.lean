import Mathlib.Data.List.Perm.Subperm
import Mathlib.Data.String.Basic
import WhenClause.Dictionary

set_option autoImplicit false

/-! # The order of entries

Entries put in one after the other stay in ascending order of their keys, each key once. Entries
that are in this order already come out as they went in. -/

namespace WhenClause.Dictionary

variable {α : Type}

/-- Entries in ascending order of their keys, each key once. -/
def Sorted (entries : List (String × α)) : Prop := entries.Pairwise fun a b => a.1 < b.1

theorem mem_insert {key : String} {value : α} {entries : List (String × α)} {e : String × α}
    (h : e ∈ insert key value entries) : e = (key, value) ∨ e ∈ entries := by
  induction entries with
  | nil => exact Or.inl (by simpa [insert] using h)
  | cons head rest ih =>
      obtain ⟨k, v⟩ := head
      unfold insert at h
      split at h
      · rcases List.mem_cons.mp h with rfl | h
        · exact Or.inl rfl
        · exact Or.inr h
      · split at h
        · rcases List.mem_cons.mp h with rfl | h
          · exact Or.inl rfl
          · exact Or.inr (List.mem_cons_of_mem _ h)
        · rcases List.mem_cons.mp h with rfl | h
          · exact Or.inr List.mem_cons_self
          · exact (ih h).imp_right (List.mem_cons_of_mem _)

theorem insert_sorted (key : String) (value : α) {entries : List (String × α)}
    (h : Sorted entries) : Sorted (insert key value entries) := by
  induction entries with
  | nil => exact List.pairwise_singleton _ _
  | cons head rest ih =>
      obtain ⟨k, v⟩ := head
      obtain ⟨hhead, htail⟩ := List.pairwise_cons.mp h
      unfold insert
      split
      next hlt =>
        refine List.pairwise_cons.mpr ⟨?_, h⟩
        intro e he
        rcases List.mem_cons.mp he with rfl | he
        · exact hlt
        · exact lt_trans hlt (hhead e he)
      next hnlt =>
        split
        next heq =>
          subst heq
          exact List.pairwise_cons.mpr ⟨hhead, htail⟩
        next hne =>
          refine List.pairwise_cons.mpr ⟨?_, ih htail⟩
          intro e he
          rcases mem_insert he with rfl | he
          · exact lt_of_le_of_ne (not_lt.mp hnlt) (Ne.symm hne)
          · exact hhead e he

theorem foldl_insert_sorted (entries : List (String × α)) {d : List (String × α)}
    (h : Sorted d) : Sorted (entries.foldl (fun d e => insert e.1 e.2 d) d) := by
  induction entries generalizing d with
  | nil => exact h
  | cons e rest ih => exact ih (insert_sorted e.1 e.2 h)

/-- Whatever the order of the entries, they are sorted when they are in. -/
theorem ofList_sorted (entries : List (String × α)) : Sorted (ofList entries) :=
  foldl_insert_sorted entries List.Pairwise.nil

/-- The entries of a dictionary made from a list are entries of the list. -/
theorem mem_ofList {entries : List (String × α)} {e : String × α} (h : e ∈ ofList entries) :
    e ∈ entries := by
  -- Of a dictionary that is begun, too.
  have hfold : ∀ (rest d : List (String × α)),
      e ∈ rest.foldl (fun d e => insert e.1 e.2 d) d → e ∈ rest ∨ e ∈ d := by
    intro rest
    induction rest with
    | nil => exact fun d h => Or.inr h
    | cons head rest ih =>
        intro d h
        rcases ih _ h with h | h
        · exact Or.inl (List.mem_cons_of_mem _ h)
        · rcases mem_insert h with rfl | h
          · exact Or.inl List.mem_cons_self
          · exact Or.inr h
  exact (hfold entries [] h).resolve_right List.not_mem_nil

/-- The value of a key is the one that was put in last. -/
theorem find?_insert (key : String) (value : α) (entries : List (String × α)) (k : String) :
    find? k (insert key value entries) = if key = k then some value else find? k entries := by
  induction entries with
  | nil => rfl
  | cons head rest ih =>
      obtain ⟨l, v⟩ := head
      unfold insert
      split
      · rfl
      · split
        next heq =>
          subst heq
          simp only [find?]
          split <;> rfl
        next hne =>
          simp only [find?, ih]
          by_cases hl : l = k
          · rw [if_pos hl, if_pos hl, if_neg (fun hkey => hne (hkey.trans hl.symm))]
          · rw [if_neg hl, if_neg hl]

/-- The value of a key is that of the last entry put in, or the one that it had before. -/
theorem find?_foldl_insert (key : String) (entries d : List (String × α)) :
    find? key (entries.foldl (fun d e => insert e.1 e.2 d) d)
      = ((entries.reverse.find? (·.1 == key)).map Prod.snd).or (find? key d) := by
  induction entries generalizing d with
  | nil => rfl
  | cons e rest ih =>
      rw [List.foldl_cons, ih, find?_insert, List.reverse_cons, List.find?_append]
      cases rest.reverse.find? (·.1 == key) with
      | some last => rfl
      | none =>
          by_cases hkey : e.1 = key
          · simp [hkey]
          · simp [hkey]

/-- Of several entries of one key the last counts. -/
theorem find?_ofList (key : String) (entries : List (String × α)) :
    find? key (ofList entries) = (entries.reverse.find? (·.1 == key)).map Prod.snd := by
  rw [ofList, find?_foldl_insert]
  exact Option.or_none

/-- The keys are those that have a value. -/
theorem mem_keys_iff {key : String} {entries : List (String × α)} :
    key ∈ keys entries ↔ (find? key entries).isSome = true := by
  induction entries with
  | nil => simp [keys, find?]
  | cons head rest ih =>
      obtain ⟨k, v⟩ := head
      rw [keys, List.map_cons, List.mem_cons, ← keys, ih, find?]
      by_cases hk : k = key
      · simp [hk]
      · simp [hk, Ne.symm hk]

theorem Sorted.keys {entries : List (String × α)} (h : Sorted entries) :
    (keys entries).Pairwise (· < ·) :=
  List.pairwise_map.mpr h

/-- Of sorted entries, each is found under its key. -/
theorem find?_of_mem {entries : List (String × α)} (h : Sorted entries) {e : String × α}
    (he : e ∈ entries) : find? e.1 entries = some e.2 := by
  induction entries with
  | nil => cases he
  | cons head rest ih =>
      obtain ⟨hhead, hrest⟩ := List.pairwise_cons.mp h
      rcases List.mem_cons.mp he with rfl | he
      · rw [find?, if_pos rfl]
      · rw [find?, if_neg (hhead e he).ne, ih hrest he]

/-- The order of the keys is fixed, so two tables of one size have the same keys at the same places
when one of them has every key of the other. -/
theorem keys_eq_of_subset {β : Type} {as : List (String × α)} {bs : List (String × β)}
    (has : Sorted as) (hbs : Sorted bs) (hlength : as.length = bs.length)
    (hsubset : keys as ⊆ keys bs) : keys as = keys bs := by
  have hnodup : (keys as).Nodup := has.keys.imp fun hlt => hlt.ne
  have hlength' : (keys bs).length ≤ (keys as).length := by
    rw [keys, keys, List.length_map, List.length_map]
    exact hlength.ge
  have hperm : (keys as).Perm (keys bs) :=
    (List.subperm_of_subset hnodup hsubset).perm_of_length_le hlength'
  exact hperm.eq_of_pairwise (fun a b _ _ hab hba => absurd hab (lt_asymm hba)) has.keys hbs.keys

/-- An entry whose key is behind all others goes to the end. -/
theorem insert_last {key : String} {value : α} {entries : List (String × α)}
    (h : ∀ e ∈ entries, e.1 < key) : insert key value entries = entries ++ [(key, value)] := by
  induction entries with
  | nil => rfl
  | cons head rest ih =>
      obtain ⟨k, v⟩ := head
      have hlt : k < key := h (k, v) List.mem_cons_self
      simp only [insert, if_neg (not_lt_of_gt hlt), if_neg (ne_of_gt hlt), List.cons_append]
      rw [ih fun e he => h e (List.mem_cons_of_mem _ he)]

/-- Entries that go behind those that are there come out as they went in. -/
theorem foldl_insert_eq {before entries : List (String × α)} (h : Sorted (before ++ entries)) :
    entries.foldl (fun d e => insert e.1 e.2 d) before = before ++ entries := by
  induction entries generalizing before with
  | nil => exact (List.append_nil before).symm
  | cons e rest ih =>
      have hlast : insert e.1 e.2 before = before ++ [e] :=
        insert_last fun f hf => (List.pairwise_append.mp h).2.2 f hf e List.mem_cons_self
      rw [List.foldl_cons, hlast, ih (by simpa using h), List.append_assoc]
      rfl

/-- Sorted entries come out as they went in. -/
theorem ofList_eq_self {entries : List (String × α)} (h : Sorted entries) :
    ofList entries = entries := by
  have hsorted : Sorted ([] ++ entries) := h
  exact foldl_insert_eq hsorted

end WhenClause.Dictionary
