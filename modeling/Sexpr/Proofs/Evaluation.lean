import Sexpr.Interpreter
import Sexpr.Proofs.Input
import Sexpr.Proofs.Tree

/-!
# What evaluation is made of

Evaluation puts together a few kinds of step: values, faults, the end of the program, a word of the
input, a line of the output, and one more list around a computation. A property of computations
that all of them have, and that holds of two computations in a row if it holds of both, holds of
the evaluation of every form: `Node.eval_closed` is the induction over forms, done once. The
property may depend on a number, which bounds how deep the form is nested. Of the interpreter itself
it is enough to know what it does with the forms that it has read.
-/

namespace Sexpr

namespace Eval

variable {α β : Type} {first : Eval α} {next : α → Eval β} {m after : Machine}

/-- After a computation with a result the next one runs. -/
theorem bind_of_ok {value : α} (h : first m = (.ok value, after)) :
    (first >>= next) m = next value after := by
  rw [bind_apply, h]

/-- After a computation that stopped nothing runs. -/
theorem bind_of_error {stop : Stop} (h : first m = (.error stop, after)) :
    (first >>= next) m = (.error stop, after) := by
  rw [bind_apply, h]

end Eval

/-- The machine counts `depth` lists and allows `limit`. -/
structure Machine.At (depth limit : Int) (m : Machine) : Prop where
  depth_eq : m.depth = depth
  limit_eq : m.limit = limit

/-- Taking a word changes neither the depth nor the limit. -/
theorem Machine.At.takeWord {depth limit : Int} {m : Machine} (h : m.At depth limit) :
    m.takeWord.2.At depth limit := by
  obtain ⟨-, -, hframe⟩ := m.takeWord_eq
  rw [hframe]
  exact ⟨h.depth_eq, h.limit_eq⟩

/-- A property of computations, for each bound on nesting, that holds of every kind of step of
evaluation and is kept when steps are put together. -/
structure Eval.Closed (P : Nat → (α : Type) → Eval α → Prop) : Prop where
  pure {α : Type} (n : Nat) (value : α) : P n α (pure value)
  bind {α β : Type} {n : Nat} {first : Eval α} {next : α → Eval β} :
    P n α first → (∀ value, P n β (next value)) → P n β (first >>= next)
  fail {α : Type} {fault : EvalFault} (n : Nat) (position : Option Position) :
    (∀ limit, fault ≠ .tooDeep limit) → P n α (Eval.fail fault position)
  exit {α : Type} (n : Nat) : P n α (Eval.stop .exit)
  writeLine (n : Nat) (line : List Char) : P n Unit (Eval.writeLine line)
  takeWord (n : Nat) : P n (Option (List Char)) Eval.takeWord
  nested {α : Type} {n : Nat} {inner : Eval α} (position : Option Position) :
    P n α inner → P (n + 1) α (Eval.nested position inner)

variable {P : Nat → (α : Type) → Eval α → Prop}

/-- Arguments that a function does not take are no matter of nesting. -/
theorem Native.misuse_ne_tooDeep (f : Native) (arguments : List Value) (limit : Int) :
    f.misuse arguments ≠ .tooDeep limit := by
  unfold Native.misuse
  split
  · split <;> nofun
  · nofun

/-- A closed property holds of calls. -/
theorem Native.call_closed (hP : Eval.Closed P) (n : Nat) (position : Option Position) (f : Native)
    (arguments : List Value) : P n Value (f.call position arguments) := by
  unfold Native.call
  split
  · exact hP.bind (hP.writeLine n _) fun _ => hP.pure n _
  · exact hP.bind (hP.writeLine n _) fun _ => hP.pure n _
  · refine hP.bind (hP.takeWord n) fun next => ?_
    cases next with
    | none => exact hP.fail n _ nofun
    | some word =>
        dsimp only
        split
        · exact hP.pure n _
        · exact hP.fail n _ nofun
  · exact hP.pure n _
  · exact hP.pure n _
  · exact hP.exit n
  · exact hP.fail n _ (f.misuse_ne_tooDeep arguments)

/-- A closed property holds of looking up a name. -/
theorem Scope.fetch_closed (hP : Eval.Closed P) (n : Nat) (scope : Scope) (s : Symbol)
    (position : Option Position) : P n Value (scope.fetch s position) := by
  unfold Scope.fetch
  split
  · exact hP.pure n _
  · exact hP.fail n _ nofun

namespace Node

/-- A closed property holds of refusing a form. -/
theorem refuse_closed (hP : Eval.Closed P) (n : Nat) {α : Type} (node : Node)
    {fault : String → EvalFault} (hfault : ∀ text limit, fault text ≠ .tooDeep limit) :
    P n α (node.refuse fault) := by
  refine hP.fail n _ fun limit => ?_
  unfold refusal
  split
  · exact nofun
  · exact hfault _ limit
  · exact nofun

mutual

/-- A closed property holds of the evaluation of a form. -/
theorem eval_closed (hP : Eval.Closed P) {n : Nat} (scope : Scope) (node : Node)
    (h : node.nesting ≤ n) : P n Value (node.eval scope) := by
  cases node with
  | integer => exact hP.pure n _
  | string => exact hP.pure n _
  | symbol s position => exact scope.fetch_closed hP n s position
  | hole => exact hP.fail n _ nofun
  | list items position =>
      -- The list itself takes one of the lists that the bound allows.
      obtain ⟨k, rfl⟩ : ∃ k, n = k + 1 := ⟨n - 1, by simp only [nesting] at h; omega⟩
      have hitems : nestingItems items ≤ k := by simpa [nesting] using h
      exact hP.nested position (evalForm_closed hP scope position items hitems)

/-- A closed property holds of the evaluation of a list. -/
theorem evalForm_closed (hP : Eval.Closed P) {n : Nat} (scope : Scope)
    (position : Option Position) (items : List Node) (h : nestingItems items ≤ n) :
    P n Value (evalForm scope position items) := by
  match items with
  | [] => exact hP.fail n _ nofun
  | symbol s place :: operands =>
      have hoperands : nestingItems operands ≤ n := by simpa [nestingItems, nesting] using h
      simp only [evalForm]
      split
      · exact evalConditional_closed hP scope position operands hoperands
      · exact evalBinding_closed hP scope position operands hoperands
      · refine hP.bind (evalOperands_closed hP scope operands hoperands) fun arguments => ?_
        refine hP.bind (scope.fetch_closed hP n s place) fun operator => ?_
        cases operator with
        | native f => exact f.call_closed hP n position arguments
        | int | str | bool | nothing => exact hP.fail n _ nofun
  | list _ _ :: _ | string _ _ :: _ | integer _ _ :: _ | hole :: _ =>
      simp only [evalForm]
      exact refuse_closed hP n _ fun _ _ => nofun

/-- A closed property holds of the evaluation of a conditional. -/
theorem evalConditional_closed (hP : Eval.Closed P) {n : Nat} (scope : Scope)
    (position : Option Position) (operands : List Node) (h : nestingItems operands ≤ n) :
    P n Value (evalConditional scope position operands) := by
  match operands with
  | [condition, consequent, alternative] =>
      simp only [nestingItems, Nat.max_le] at h
      refine hP.bind (eval_closed hP scope condition h.1) fun value => ?_
      cases value with
      | int value =>
          dsimp only
          split
          · exact eval_closed hP scope alternative h.2.2.1
          · exact eval_closed hP scope consequent h.2.1
      | str | native | bool | nothing => exact hP.fail n _ nofun
  | [] | [_] | [_, _] | _ :: _ :: _ :: _ :: _ => exact hP.fail n _ nofun

/-- A closed property holds of the evaluation of a binding form. -/
theorem evalBinding_closed (hP : Eval.Closed P) {n : Nat} (scope : Scope)
    (position : Option Position) (operands : List Node) (h : nestingItems operands ≤ n) :
    P n Value (evalBinding scope position operands) := by
  match operands with
  | list pairs _ :: first :: body =>
      -- The forms of the bindings lie one list deeper than they are evaluated, which only helps.
      simp only [nestingItems, nesting, Nat.max_le] at h
      refine hP.bind (evalPairs_closed hP scope pairs (by omega)) fun bindings => ?_
      refine hP.bind (eval_closed hP _ first h.2.1) fun value => ?_
      exact evalBody_closed hP _ value body h.2.2
  | symbol _ _ :: _ :: _ | string _ _ :: _ :: _ | integer _ _ :: _ :: _ | hole :: _ :: _ =>
      exact hP.fail n _ nofun
  | [] => exact hP.fail n _ nofun
  | [operand] => cases operand <;> exact hP.fail n _ nofun

/-- A closed property holds of the evaluation of operands. -/
theorem evalOperands_closed (hP : Eval.Closed P) {n : Nat} (scope : Scope) (operands : List Node)
    (h : nestingItems operands ≤ n) : P n (List Value) (evalOperands scope operands) := by
  match operands with
  | [] => exact hP.pure n _
  | operand :: operands =>
      simp only [nestingItems, Nat.max_le] at h
      refine hP.bind (eval_closed hP scope operand h.1) fun value => ?_
      refine hP.bind (evalOperands_closed hP scope operands h.2) fun values => ?_
      exact hP.pure n _

/-- A closed property holds of the evaluation of bindings. -/
theorem evalPairs_closed (hP : Eval.Closed P) {n : Nat} (scope : Scope) (pairs : List Node)
    (h : nestingItems pairs ≤ n) : P n Bindings (evalPairs scope pairs) := by
  match pairs with
  | symbol s _ :: form :: rest =>
      simp only [nestingItems, Nat.max_le] at h
      refine hP.bind (eval_closed hP scope form h.2.1) fun value => ?_
      refine hP.bind (evalPairs_closed hP scope rest h.2.2) fun bindings => ?_
      exact hP.pure n _
  | list _ _ :: _ :: _ | string _ _ :: _ :: _ | integer _ _ :: _ :: _ | hole :: _ :: _ =>
      exact refuse_closed hP n _ fun _ _ => nofun
  | [] => exact hP.pure n _
  | [name] => cases name <;> exact hP.pure n _

/-- A closed property holds of the evaluation of forms in order. -/
theorem evalBody_closed (hP : Eval.Closed P) {n : Nat} (scope : Scope) (last : Value)
    (forms : List Node) (h : nestingItems forms ≤ n) : P n Value (evalBody scope last forms) := by
  match forms with
  | [] => exact hP.pure n _
  | form :: forms =>
      simp only [nestingItems, Nat.max_le] at h
      refine hP.bind (eval_closed hP scope form h.1) fun value => ?_
      exact evalBody_closed hP scope value forms h.2

end

/-- With room for it, a call of a native function is that function applied to what the operands
come to. -/
theorem eval_native {scope : Scope} {s : Symbol} {place position : Option Position}
    {operands : List Node} {f : Native} {arguments : List Value} {m after : Machine}
    (hname : SpecialForm.ofSymbol? s = none) (hbound : scope.lookup s = some (.native f))
    (hroom : m.depth < m.limit)
    (hoperands : evalOperands scope operands { m with depth := m.depth + 1 } =
      (.ok arguments, after)) :
    eval scope (.list (.symbol s place :: operands) position) m =
      ((f.call position arguments after).1, { (f.call position arguments after).2 with
        depth := (f.call position arguments after).2.depth - 1 }) := by
  have hform : evalForm scope position (.symbol s place :: operands)
      { m with depth := m.depth + 1 } = f.call position arguments after := by
    simp only [evalForm, hname, Scope.fetch, hbound, pure_bind]
    rw [Eval.bind_of_ok hoperands]
  rw [eval, Eval.nested_of_lt hroom, hform]

end Node

namespace Interpreter

/-- A source text that cannot be read ends the call before anything is done. -/
theorem read_of_error {source : String} {m : Machine} {error : ReadError}
    (h : parse source m.limit = .error error) : read source m = (.error (.misread error), m) := by
  unfold parse at h
  unfold read
  rw [Eval.bind_of_ok (Eval.limit_apply m)]
  rcases hread : (Reader.ofText source m.limit).readForms with ⟨result, reader⟩
  rw [hread] at h
  cases h
  rfl

/-- Nothing is done with a source text that cannot be read. -/
theorem bind_read_of_error {α : Type} {next : List Node → Eval α} {source : String} {m : Machine}
    {error : ReadError} (h : parse source m.limit = .error error) :
    (read source >>= next) m = (.error (.misread error), m) :=
  Eval.bind_of_error (read_of_error h)

/-- A source text that can be read gives its forms and leaves a record at most. -/
theorem read_of_ok {source : String} {m : Machine} {forms : List Node}
    (h : parse source m.limit = .ok forms) :
    ∃ log, read source m = (.ok forms, { m with log := log }) := by
  unfold parse at h
  unfold read
  rw [Eval.bind_of_ok (Eval.limit_apply m)]
  rcases hread : (Reader.ofText source m.limit).readForms with ⟨result, reader⟩
  rw [hread] at h
  cases h
  by_cases hend : reader.atEnd = true
  · refine ⟨m.log, ?_⟩
    simp only [if_pos hend]
    rfl
  · refine ⟨(m.report (ignoring reader.skipBlanks.position)).log, ?_⟩
    simp only [if_neg hend]
    rfl

/-- A top-level form is evaluated in the global scope within no list. -/
theorem evalTop_apply (form : Node) (m : Machine) :
    evalTop form m = form.eval .global { m with depth := 0 } := rfl

end Interpreter

end Sexpr
