import WhenClause.Expression.Basic
import WhenClause.Json.Basic

set_option autoImplicit false

/-! # Expressions as JSON

The tree of an expression as a JSON value: an object with one entry that names the kind of the
node. The flag of a negated invocation and the chain of an invocation that has one are written;
an absent entry stands for no negation and no chain. Numbers are always floats, and a number that
JSON cannot write is null. -/

namespace WhenClause

def Literal.toJson : Literal → Json
  | .null => .null
  | .bool b => .bool b
  | .number x => if x.isFinite then .float x else .null
  | .string s => .string s

namespace Expression

mutual

def toJson : Expression → Json
  | .literal value => .object [("literal", value.toJson)]
  | .sequence items => .object [("sequence", .array (itemsToJson items))]
  | .record entries => .object [("record", .array (entriesToJson entries))]
  | .invocation name args negated chain =>
      .object [("invocation", .object
        ([("name", .string name), ("args", .array (itemsToJson args))] ++
          (if negated then [("negated", .bool true)] else []) ++
          (if chain.isEmpty then [] else [("chain", .array (chainToJson chain))])))]
  | .not inner => .object [("not", toJson inner)]

def itemsToJson : List Expression → List Json
  | [] => []
  | e :: rest => toJson e :: itemsToJson rest

/-- The entries of a record as pairs, in their order and with repeated keys. -/
def entriesToJson : List (String × Expression) → List Json
  | [] => []
  | (key, e) :: rest => .array [.string key, toJson e] :: entriesToJson rest

def chainToJson : List Step → List Json
  | [] => []
  | .property key :: rest => .object [("property", .string key)] :: chainToJson rest
  | .method name args :: rest =>
      .object [("method", .object [("name", .string name), ("args", .array (itemsToJson args))])] ::
        chainToJson rest

end

end Expression

end WhenClause
