import WhenClause.Text.Occurrence

set_option autoImplicit false

/-! # File paths

Paths as texts whose parts are separated by slashes. Empty parts and parts that are a single point
do not count, and a part of two points names no file. -/

namespace WhenClause.FilePath

/-- The parts of a path that count. -/
def parts (path : List Char) : List (List Char) :=
  (Text.splitAt '/' path).filter fun part => part ≠ [] ∧ part ≠ ['.']

def fileName? (path : List Char) : Option (List Char) :=
  (parts path).getLast?.filter fun part => part ≠ ['.', '.']

/-- The extension of that name: what follows its last point, if something precedes the point. -/
def extension? (path : List Char) : Option (List Char) := do
  let name ← fileName? path
  let ending := (name.reverse.takeWhile (· ≠ '.')).reverse
  if ending.length + 1 < name.length then some ending else none

/-- The path from a base on. A path that starts with a slash stands for itself. -/
def join (base path : List Char) : List Char :=
  if path.head? = some '/' then path
  else if base.isEmpty || base.getLast? = some '/' then base ++ path
  else base ++ '/' :: path

end WhenClause.FilePath
