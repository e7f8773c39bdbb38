import WhenClause.Condition.Check
import WhenClause.Condition.Reading
import WhenClause.Evaluation.Eval
import WhenClause.Expression.Source
import WhenClause.Registry

set_option autoImplicit false

/-! # Predicates

What a host may ask to be checked: an expression as a text, as lines, or as a tree, or a condition
in JSON. Each check remembers its calls on its own. -/

namespace WhenClause

/-- Anything that can be checked. -/
inductive Predicate where
  | text (s : String)
  | lines (ls : List String)
  | expression (e : Expression)
  /-- A condition in JSON. -/
  | condition (j : Json)

variable {m : Type → Type} [Monad m]

def checkText (host : Host m) (s : String) : ExceptT Error m Bool := do
  let e ← ExceptT.mk (pure (Expression.parse s))
  e.check host

def Predicate.check (host : Host m) : Predicate → ExceptT Error m Bool
  | .text s => checkText host s
  | .lines ls => checkText host (String.intercalate " " ls)
  | .expression e => e.check host
  | .condition j => (Condition.ofJson j).check host

/-- The outcome of something done by a new evaluator, and what it logged. -/
def withNewMemory {α : Type} (action : ExceptT Error (StateT Memory m) α) :
    m (Except Error α × Log) := do
  let (result, memory) ← (action.run).run Memory.empty
  return (result, memory.log)

namespace Registry

/-- The truth value of a predicate, with the commands of a table. -/
def check (registry : Registry m) (objects : Objects m) (p : Predicate) :
    m (Except Error Bool × Log) :=
  withNewMemory (p.check ((registry.host objects).memoized registry.debug))

/-- The value of an expression, with the commands of a table. -/
def evaluate (registry : Registry m) (objects : Objects m) (e : Expression) :
    m (Except Error Value × Log) :=
  withNewMemory (e.eval ((registry.host objects).memoized registry.debug))

end Registry

end WhenClause
