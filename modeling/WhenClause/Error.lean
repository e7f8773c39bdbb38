set_option autoImplicit false

/-! # Errors

Everything that can go wrong between the text of a predicate and its answer. Each error is
raised where it is found and reaches the caller unchanged; no error is ever taken for a truth
value. -/

namespace WhenClause

/-- What a step of a chain was looking for. -/
inductive MemberKind where
  | property
  | method
deriving DecidableEq

def MemberKind.text : MemberKind → String
  | property => "property"
  | method => "method"

/-- Why there is no answer. -/
inductive Error where
  /-- The text is no expression; what is wrong, the text from there on, and where. -/
  | malformed (message : String) (fragment : String) (position : Nat)
  /-- A comparison with other than two operands. -/
  | arity (operator : String) (count : Nat)
  | unknownCommand (name : String)
  /-- A chain names a member that the value before it, here as text, does not have. -/
  | unknownMember (kind : MemberKind) (key : String) (target : String)
  /-- The argument list of a call is malformed. -/
  | argumentParse (arguments : String) (message : String)
  /-- The argument list of a call in JSON form is no JSON. -/
  | argumentJson (arguments : String)
  /-- The expression cannot be evaluated, whatever the commands are. -/
  | invalidExpression (text : String)
  /-- A command or method failed. -/
  | command (name : String) (failure : String)
  /-- An extension could not be activated or has no commands to give. -/
  | extension (name : String) (failure : String)
  /-- The configuration does not fit the host. -/
  | config (text : String)
  /-- A file could not be read. -/
  | io (text : String)
  | json
  | yaml
deriving DecidableEq

namespace Error

def message : Error → String
  | malformed message fragment position =>
      s!"Syntax error at {Nat.repr position}: {message} near '{fragment}'"
  | arity operator count =>
      s!"Wrong number of arguments for \"{operator}\" operator: {Nat.repr count}"
  | unknownCommand name => s!"Unknown command: {name}"
  | unknownMember kind key target => s!"Unknown {kind.text} \"{key}\" on the object: {target}"
  | argumentParse arguments message => s!"Failed to parse arguments \"{arguments}\": {message}"
  | argumentJson arguments => s!"Failed to parse arguments \"{arguments}\": invalid JSON"
  | invalidExpression text => s!"Invalid expression: {text}"
  | command _ failure => failure
  | extension name failure => s!"Context extension '{name}' failed: {failure}"
  | config text => s!"Configuration error: {text}"
  | io text => text
  | json => "invalid JSON"
  | yaml => "invalid configuration"

/-- The failure that an error reports, where it is one of a command or an extension. -/
def failure? : Error → Option String
  | command _ failure => some failure
  | extension _ failure => some failure
  | _ => none

end Error

end WhenClause
