set_option autoImplicit false

/-! # Entries in the order of their keys

Records, JSON objects, command tables and settings are lists of entries in ascending order of
their keys, each key once. Strings are ordered by their code points, which is also the order of
their bytes in UTF-8. -/

namespace WhenClause.Dictionary

variable {α : Type}

def find? (key : String) : List (String × α) → Option α
  | [] => none
  | (k, v) :: rest => if k = key then some v else find? key rest

/-- The entries with one more, in its place; an entry of the same key is replaced. -/
def insert (key : String) (value : α) : List (String × α) → List (String × α)
  | [] => [(key, value)]
  | (k, v) :: rest =>
      if key < k then (key, value) :: (k, v) :: rest
      else if key = k then (key, value) :: rest
      else (k, v) :: insert key value rest

/-- The entries inserted from left to right, so that the last of a key stays. -/
def ofList (entries : List (String × α)) : List (String × α) :=
  entries.foldl (fun d e => insert e.1 e.2 d) []

def keys (entries : List (String × α)) : List String := entries.map Prod.fst

end WhenClause.Dictionary
