import Sexpr.Position
import Sexpr.Scope

/-!
# Faults of evaluation

Why a form cannot be evaluated, and where. A fault has the position of the form at fault, if that
form knows its own; a hole has none.
-/

namespace Sexpr

/-- Why a form cannot be evaluated. -/
inductive EvalFault where
  /-- The empty list was evaluated. -/
  | emptyForm
  /-- The first item of a list, written like this, is no symbol. -/
  | operatorNotSymbol (operator : String)
  /-- What stands in place of a name in a binding list, written like this, is no symbol. -/
  | nameNotSymbol (name : String)
  /-- A conditional has this number of operands. -/
  | ifArity (count : Nat)
  /-- A binding form has this number of operands. -/
  | letArity (count : Nat)
  /-- A native function was called with this number of arguments. -/
  | callArity (f : Native) (count : Nat)
  /-- The condition of a conditional has this value. -/
  | conditionNotInteger (value : Value)
  /-- The first operand of a binding form is no list. -/
  | bindingsNotList
  /-- A native function was called with this value as the argument at `index`, counted from zero,
  where it takes the kind `wanted`. -/
  | argumentKind (f : Native) (index : Nat) (wanted : Kind) (value : Value)
  /-- No frame of the scope binds the name. -/
  | unbound (name : Symbol)
  /-- The name is bound to something that cannot be called. -/
  | notCallable (name : Symbol)
  /-- An integer was to be read, and the input has ended. -/
  | inputEnded
  /-- An integer was to be read, and the input goes on with this word. -/
  | inputNotInteger (word : List Char)
  /-- A list would be evaluated within more lists than the limit. -/
  | tooDeep (limit : Int)
  /-- A hole was evaluated. -/
  | holeEvaluated
  /-- A form with a hole had to be written in a message. -/
  | holeWritten
  /-- A fault was to be located at a hole, which has no position to give. -/
  | holePosition
deriving DecidableEq, Repr

/-- The ending of a noun that is counted. -/
def plural (count : Nat) : String := if count = 1 then "" else "s"

/-- The fault as it is worded for the user. -/
def EvalFault.message : EvalFault → String
  | emptyForm => "an empty list cannot be evaluated"
  | operatorNotSymbol operator => s!"first element of list must be symbol, got {operator}"
  | nameNotSymbol name => s!"expected symbol in let, got {name}"
  | ifArity count => s!"if needs exactly 3 arguments, but got {count}"
  | letArity count =>
      "let needs a binding list and at least 1 body expression, " ++
        s!"but got {count} argument{plural count}"
  | callArity f count =>
      s!"{f.name} needs exactly {f.arity} argument{plural f.arity}, but got {count}"
  | conditionNotInteger value => s!"if condition must be an integer, got {value.display}"
  | bindingsNotList => "second element of let must be a list"
  | argumentKind f index wanted value =>
      s!"argument {index + 1} of {f.name} must be {wanted.phrase}, got {value.typeName}"
  | unbound name => unboundMessage name.name
  | notCallable name => s!"'{name.name}' is not a function"
  | inputEnded => "READ-INT reached end of input"
  | inputNotInteger word =>
      "READ-INT expected an integer, got " ++ String.ofList (Text.quoted word)
  | tooDeep limit => s!"evaluation nested deeper than {limit} levels"
  | holeEvaluated => "Cannot evaluate None"
  | holeWritten => "Not a node: None"
  | holePosition => "'NoneType' object has no attribute 'position'"

/-- A fault together with its place, if that is known. -/
structure EvalError where
  fault : EvalFault
  position : Option Position
deriving DecidableEq, Repr

/-- The fault and its place as they are worded for the user. -/
def EvalError.message (error : EvalError) : String :=
  match error.position with
  | none => error.fault.message
  | some position => s!"{error.fault.message} (at {position.text})"

end Sexpr
