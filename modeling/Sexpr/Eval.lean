import Sexpr.Eval.Computation
import Sexpr.Node
import Sexpr.Word

/-!
# Evaluation

Integers and strings evaluate to themselves and symbols to what the scope says. A list is a
conditional, a binding form or a call of a native function, as its first item says; conditionals
and binding forms are known by their names, whatever the scope binds these names to. Evaluation
follows the form, so it always ends.

The limit of the machine is the only bound on nesting. The call stack of the host is not modelled:
evaluation by calls within calls may use it up within some two hundred and fifty lists, where the
limit has been raised so far, and how it fails then is not described here.
-/

namespace Sexpr

/-- The forms that do not evaluate all their operands as arguments. -/
inductive SpecialForm where
  | conditional
  | binding
deriving DecidableEq, Repr

/-- The special form that a symbol names. -/
def SpecialForm.ofSymbol? (s : Symbol) : Option SpecialForm :=
  if s.name = "IF" then some .conditional
  else if s.name = "LET" then some .binding
  else none

namespace Native

/-- The first argument, counted from `index`, that is not of the kind asked for. -/
def misfit? (index : Nat) : List Kind → List Value → Option (Nat × Kind × Value)
  | kind :: kinds, value :: values =>
      if value.hasKind kind then misfit? (index + 1) kinds values else some (index, kind, value)
  | _, _ => none

/-- What is wrong with arguments that the function does not take: their number, or else the
leftmost of the wrong kind. -/
def misuse (f : Native) (arguments : List Value) : EvalFault :=
  if arguments.length = f.arity then
    match misfit? 0 f.parameters arguments with
    | some (index, kind, value) => .argumentKind f index kind value
    | none => .callArity f arguments.length
  else .callArity f arguments.length

/-- Take the next word of the input, which must be an integer. It is taken even if it is none. -/
def readWord (position : Option Position) : Eval Value := do
  let next ← Eval.takeWord
  match next with
  | none => Eval.fail .inputEnded position
  | some word =>
      if Word.isSigned word then pure (.int (Word.ofSigned word))
      else Eval.fail (.inputNotInteger word) position

/-- Call the function from the form at `position`. Arguments that it does not take are refused
before anything is done. -/
def call (position : Option Position) : Native → List Value → Eval Value
  | printString, [.str text] => do
      Eval.writeLine text.toList
      pure (.int 0)
  | printInt, [.int n] => do
      Eval.writeLine (toString n).toList
      pure (.int 0)
  | readInt, [] => readWord position
  | add, [.int a, .int b] => pure (.int (Word.wrap (a + b)))
  | equal, [.int a, .int b] => pure (.int (if a = b then 1 else 0))
  | exit, [] => Eval.stop .exit
  | f, arguments => Eval.fail (f.misuse arguments) position

end Native

/-- The value of a symbol that stands at `position`. -/
def Scope.fetch (scope : Scope) (s : Symbol) (position : Option Position) : Eval Value :=
  match scope.lookup s with
  | some value => pure value
  | none => Eval.fail (.unbound s) position

/-- What is wrong with a form that is refused with a fault that shows it. A hole within it cannot be
shown, and a hole that stands by itself cannot be located. -/
def Node.refusal (node : Node) (fault : String → EvalFault) : EvalError :=
  match node, node.text? with
  | hole, _ => ⟨.holePosition, none⟩
  | _, some text => ⟨fault text, node.position⟩
  | _, none => ⟨.holeWritten, none⟩

/-- Refuse a form with a fault that shows it. -/
def Node.refuse {α : Type} (node : Node) (fault : String → EvalFault) : Eval α :=
  Eval.fail (node.refusal fault).fault (node.refusal fault).position

namespace Node

mutual

/-- The value of a form in a scope. -/
def eval (scope : Scope) : Node → Eval Value
  | integer value _ => pure (.int value)
  | string text _ => pure (.str text)
  | symbol s position => scope.fetch s position
  | list items position => Eval.nested position (evalForm scope position items)
  | hole => Eval.fail .holeEvaluated none

/-- The value of the list with these items that stands at `position`. -/
def evalForm (scope : Scope) (position : Option Position) : List Node → Eval Value
  | [] => Eval.fail .emptyForm position
  | symbol s place :: operands =>
      match SpecialForm.ofSymbol? s with
      | some .conditional => evalConditional scope position operands
      | some .binding => evalBinding scope position operands
      | none => do
          let arguments ← evalOperands scope operands
          let operator ← scope.fetch s place
          match operator with
          | .native f => f.call position arguments
          | _ => Eval.fail (.notCallable s) place
  | operator :: _ => operator.refuse .operatorNotSymbol

/-- The value of a conditional with these operands: of its second operand unless the first one is
zero, and then of its third. -/
def evalConditional (scope : Scope) (position : Option Position) : List Node → Eval Value
  | [condition, consequent, alternative] => do
      let value ← eval scope condition
      match value with
      | .int n => if n = 0 then eval scope alternative else eval scope consequent
      | _ => Eval.fail (.conditionNotInteger value) condition.position
  | operands => Eval.fail (.ifArity operands.length) position

/-- The value of a binding form with these operands: of its last form, in a scope with one more
frame. -/
def evalBinding (scope : Scope) (position : Option Position) : List Node → Eval Value
  | list pairs _ :: first :: body => do
      let bindings ← evalPairs scope pairs
      let value ← eval (scope.child bindings) first
      evalBody (scope.child bindings) value body
  | hole :: _ :: _ => Eval.fail .holePosition none
  | bindings :: _ :: _ => Eval.fail .bindingsNotList bindings.position
  | operands => Eval.fail (.letArity operands.length) position

/-- The values of the operands of a call, from left to right. -/
def evalOperands (scope : Scope) : List Node → Eval (List Value)
  | [] => pure []
  | operand :: operands => do
      let value ← eval scope operand
      let values ← evalOperands scope operands
      pure (value :: values)

/-- The bindings of a list of alternating names and forms, from left to right. All forms are
evaluated in the scope around the binding form; a last name without a form is ignored. -/
def evalPairs (scope : Scope) : List Node → Eval Bindings
  | symbol s _ :: form :: rest => do
      let value ← eval scope form
      let bindings ← evalPairs scope rest
      pure ((s, value) :: bindings)
  | name :: _ :: _ => name.refuse .nameNotSymbol
  | _ => pure []

/-- The value of the last of some forms evaluated in order, after one with the value `last`. -/
def evalBody (scope : Scope) (last : Value) : List Node → Eval Value
  | [] => pure last
  | form :: forms => do
      let value ← eval scope form
      evalBody scope value forms

end

end Node

end Sexpr
