import Sexpr.Eval
import Sexpr.Reader
import Sexpr.Proofs.Decimal

/-!
# The reference interpreter

What a program does, with as little machinery as it takes. An environment is one function from names
to values, the input is the list of its words, the output is a text, and nothing counts how deep
lists are nested. A result is wrapped once, from its exact value. A source text is read as a whole
before anything is evaluated.
-/

namespace Sexpr.Reference

/-- What a program can change: the words it has not yet read and the text it has written. -/
structure World where
  words : List (List Char)
  output : List Char
deriving DecidableEq, Repr

/-- Computations that change the world and may stop. -/
abbrev Run := ExceptT Stop (StateM World)

/-- The outcome of a computation and the world it leaves. -/
def Run.on {α : Type} (x : Run α) (world : World) : Except Stop α × World :=
  (ExceptT.run x).run world

/-- What follows a computation runs in the world it leaves, unless it stopped. -/
theorem Run.on_bind {α β : Type} (first : Run α) (next : α → Run β) (world : World) :
    (first >>= next).on world =
      match first.on world with
      | (.ok value, after) => (next value).on after
      | (.error stop, after) => (.error stop, after) := by
  show (ExceptT.bindCont next (first.on world).1).run (first.on world).2 = _
  rcases first.on world with ⟨_ | _, _⟩ <;> rfl

/-- Stop with a fault of the form at `position`. -/
def fail {α : Type} (fault : EvalFault) (position : Option Position) : Run α :=
  throw (.failed ⟨fault, position⟩)

/-- Stop with a fault that shows the form at fault. A hole within it cannot be shown, and a hole by
itself cannot be located. -/
def refuse {α : Type} (node : Node) (fault : String → EvalFault) : Run α :=
  match node, node.text? with
  | .hole, _ => fail .holePosition none
  | _, some text => fail (fault text) node.position
  | _, none => fail .holeWritten none

/-- What every name means, if it means anything. -/
abbrev Env := Symbol → Option Value

/-- The names of the native functions mean these functions. -/
def Env.global : Env := fun s => (Native.ofName? s.name).map .native

/-- Each name means what its first pair says, and every other name what it meant before. -/
def Env.bind (env : Env) (pairs : List (Symbol × Value)) : Env := fun s =>
  (pairs.lookup s).or (env s)

/-- The value of a symbol that stands at `position`. -/
def evalSymbol (env : Env) (s : Symbol) (position : Option Position) : Run Value :=
  match env s with
  | some value => pure value
  | none => fail (.unbound s) position

/-- The number that decimal digits stand for, if the text is made of such. -/
def natural? (text : List Char) : Option Nat :=
  if Word.isDigits text then some (Nat.ofDigitChars 10 text 0) else none

/-- The number that decimal digits with at most one sign before them stand for. -/
def integer? : List Char → Option Int
  | '-' :: digits => (natural? digits).map fun n => -(n : Int)
  | '+' :: digits => (natural? digits).map Int.ofNat
  | digits => (natural? digits).map Int.ofNat

/-- Write a line. -/
def print (line : List Char) : Run Value := do
  modify fun world => { world with output := world.output ++ line ++ ['\n'] }
  pure (.int 0)

/-- Take a word of the input, which must be an integer. -/
def readInt (position : Option Position) : Run Value := do
  match (← get).words with
  | [] => fail .inputEnded position
  | word :: words =>
      modify fun world => { world with words := words }
      match integer? word with
      | some n => pure (.int (Word.wrap n))
      | none => fail (.inputNotInteger word) position

/-- With no word left there is no integer to read. -/
theorem readInt_on_nil (position : Option Position) (output : List Char) :
    (readInt position).on ⟨[], output⟩ =
      (.error (.failed ⟨.inputEnded, position⟩), ⟨[], output⟩) := rfl

/-- The first word that is left is taken, whether it is an integer or not. -/
theorem readInt_on_cons (position : Option Position) (word : List Char) (words : List (List Char))
    (output : List Char) :
    (readInt position).on ⟨word :: words, output⟩ =
      (match integer? word with
        | some n => .ok (.int (Word.wrap n))
        | none => .error (.failed ⟨.inputNotInteger word, position⟩), ⟨words, output⟩) := by
  show (match integer? word with
    | some n => pure (Value.int (Word.wrap n))
    | none => fail (.inputNotInteger word) position : Run Value).on ⟨words, output⟩ = _
  cases integer? word <;> rfl

section Call

variable (f : Native) (position : Option Position)

/-- The argument at `index`, which must be an integer. -/
def integerArgument (index : Nat) : Value → Run Int
  | .int n => pure n
  | value => fail (.argumentKind f index .integer value) position

/-- The argument at `index`, which must be a string. -/
def stringArgument (index : Nat) : Value → Run String
  | .str text => pure text
  | value => fail (.argumentKind f index .string value) position

/-- Call a native function: the arguments are counted first and then looked at from left to
right. -/
def apply (arguments : List Value) : Run Value :=
  match f, arguments with
  | .printString, [a] => do
      let text ← stringArgument f position 0 a
      print text.toList
  | .printInt, [a] => do
      let n ← integerArgument f position 0 a
      print (toString n).toList
  | .readInt, [] => readInt position
  | .add, [a, b] => do
      let m ← integerArgument f position 0 a
      let n ← integerArgument f position 1 b
      pure (.int (Word.wrap (m + n)))
  | .equal, [a, b] => do
      let m ← integerArgument f position 0 a
      let n ← integerArgument f position 1 b
      pure (.int (if m = n then 1 else 0))
  | .exit, [] => throw .exit
  | _, _ => fail (.callArity f arguments.length) position

end Call

/-- A call with a wrong number of arguments is refused whatever they are. -/
theorem apply_of_length_ne {f : Native} {arguments : List Value} (h : arguments.length ≠ f.arity)
    (position : Option Position) :
    apply f position arguments = fail (.callArity f arguments.length) position := by
  unfold apply
  split
  all_goals first | exact absurd rfl h | rfl

mutual

/-- The value of a form. -/
def eval (env : Env) : Node → Run Value
  | .integer n _ => pure (.int n)
  | .string text _ => pure (.str text)
  | .symbol s position => evalSymbol env s position
  | .list [] position => fail .emptyForm position
  | .list (.symbol s place :: operands) position =>
      if s.name = "IF" then evalIf env position operands
      else if s.name = "LET" then evalLet env position operands
      else do
        let arguments ← evalAll env operands
        match ← evalSymbol env s place with
        | .native f => apply f position arguments
        | _ => fail (.notCallable s) place
  | .list (head :: _) _ => refuse head .operatorNotSymbol
  | .hole => fail .holeEvaluated none

/-- The value of a conditional. -/
def evalIf (env : Env) (position : Option Position) : List Node → Run Value
  | [condition, consequent, alternative] => do
      match ← eval env condition with
      | .int n => if n ≠ 0 then eval env consequent else eval env alternative
      | value => fail (.conditionNotInteger value) condition.position
  | operands => fail (.ifArity operands.length) position

/-- The value of a binding form: of the last of its bodies. -/
def evalLet (env : Env) (position : Option Position) : List Node → Run Value
  | [] => fail (.letArity 0) position
  | [_] => fail (.letArity 1) position
  | .list pairs _ :: bodies => do
      let bindings ← evalPairs env pairs
      let values ← evalAll (env.bind bindings) bodies
      pure (values.getLastD .nothing)
  | .hole :: _ => fail .holePosition none
  | operand :: _ => fail .bindingsNotList operand.position

/-- The names of adjacent pairs with the values of their forms, from left to right. -/
def evalPairs (env : Env) : List Node → Run (List (Symbol × Value))
  | .symbol s _ :: form :: rest => do
      let value ← eval env form
      let bindings ← evalPairs env rest
      pure ((s, value) :: bindings)
  | name :: _ :: _ => refuse name .nameNotSymbol
  | _ => pure []

/-- The values of forms, from left to right. -/
def evalAll (env : Env) : List Node → Run (List Value)
  | [] => pure []
  | form :: forms => do
      let value ← eval env form
      let values ← evalAll env forms
      pure (value :: values)

end

/-- The value of the last of some forms, `last` if there is none. -/
def evalLast (env : Env) (last : Value) (forms : List Node) : Run Value := do
  let values ← evalAll env forms
  pure (values.getLastD last)

/-- The forms of a source text. -/
def read (source : String) (limit : Int) : Run (List Node) :=
  match parse source limit with
  | .ok forms => pure forms
  | .error error => throw (.misread error)

/-- Evaluate the forms of a source text for what they do. -/
def runSource (source : String) (limit : Int) : Run Unit := do
  let forms ← read source limit
  let _ ← evalAll .global forms

/-- The value of the last form of a source text, absent if there is no form. -/
def evalSource (source : String) (limit : Int) : Run Value := do
  let forms ← read source limit
  evalLast .global .nothing forms

/-- The first form gives the value if it is the last as well. -/
theorem evalLast_cons (env : Env) (last : Value) (form : Node) (forms : List Node) :
    evalLast env last (form :: forms) = (do
      let value ← eval env form
      evalLast env value forms) := by
  simp only [evalLast, evalAll, bind_assoc, pure_bind, List.getLastD_cons]

/-- A word is taken for an integer exactly when it is one, and then it stands for that integer,
wrapped. -/
theorem map_wrap_integer? (word : List Char) :
    (integer? word).map Word.wrap =
      if Word.isSigned word then some (Word.ofSigned word) else none := by
  have hdigits (text : List Char) (h : Word.isDigits text = true) :
      Word.ofDigits text = Word.wrap (Nat.ofDigitChars 10 text 0) := by
    simp only [Word.isDigits, Bool.and_eq_true] at h
    exact Word.ofDigits_eq_wrap h.2
  unfold integer? natural? Word.isSigned Word.ofSigned
  split
  · next digits =>
      by_cases h : Word.isDigits digits = true
      · simp [Word.unsigned, h, hdigits, Word.wrap, Int.bmod_neg_bmod]
      · simp [Word.unsigned, h]
  · next digits =>
      by_cases h : Word.isDigits digits = true
      · simp [Word.unsigned, h, hdigits]
      · simp [Word.unsigned, h]
  · next hminus hplus =>
      rw [Word.unsigned.eq_3 word hplus hminus]
      by_cases h : Word.isDigits word = true
      · simp [h, hdigits]
      · simp [h]

end Sexpr.Reference
