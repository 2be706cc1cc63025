import Sexpr.Proofs.Arguments
import Sexpr.Proofs.Headroom

/-!
# Native functions check their arguments before they act

A call fails because of the number of its arguments or because of their kinds exactly if these are
wrong, and then nothing else has happened: `Native.refuses_of_call` says that such a failure is a
refusal, which leaves the machine as it was. `Native.callByIndex` looks arguments up by their index,
where a call could miss one; it never does. What this comes to for a form that calls a function is
that only its operands have been evaluated, and all is put together in
`natives_validate_before_acting`.
-/

namespace Sexpr

/-- The fault is that the number of operands or arguments is wrong. -/
inductive EvalFault.IsArity : EvalFault → Prop where
  | conditional (count : Nat) : IsArity (.ifArity count)
  | binding (count : Nat) : IsArity (.letArity count)
  | call (f : Native) (count : Nat) : IsArity (.callArity f count)

/-- The fault is that something is not of the kind that is wanted. -/
inductive EvalFault.IsType : EvalFault → Prop where
  | condition (value : Value) : IsType (.conditionNotInteger value)
  | bindings : IsType .bindingsNotList
  | argument (f : Native) (index : Nat) (wanted : Kind) (value : Value) :
      IsType (.argumentKind f index wanted value)

/-- The computation fails on the machine with a fault of the sort. -/
def Eval.FailsWith {α : Type} (sort : EvalFault → Prop) (x : Eval α) (m : Machine) : Prop :=
  ∃ error after, x m = (.error (.failed error), after) ∧ sort error.fault

namespace Native

variable {f : Native} {arguments : List Value} {position : Option Position}

/-! ## Refusals -/

/-- Reading a word finds fault with the input only. -/
theorem fault_of_readWord {m after : Machine} {error : EvalError}
    (h : readWord position m = (.error (.failed error), after)) :
    error.fault = .inputEnded ∨ ∃ word, error.fault = .inputNotInteger word := by
  unfold readWord at h
  rw [Eval.bind_of_ok (Eval.takeWord_apply m)] at h
  cases hword : m.takeWord.1 with
  | none =>
      rw [hword] at h
      cases h
      exact .inl rfl
  | some word =>
      simp only [hword] at h
      by_cases hsigned : Word.isSigned word = true
      · rw [if_pos hsigned] at h
        cases h
      · rw [if_neg hsigned] at h
        cases h
        exact .inr ⟨word, rfl⟩

/-- A function that acts finds fault with the input only. -/
theorem ActsOn.fault_of_call {m after : Machine} {error : EvalError} (h : f.ActsOn arguments)
    (hcall : f.call position arguments m = (.error (.failed error), after)) :
    error.fault = .inputEnded ∨ ∃ word, error.fault = .inputNotInteger word := by
  cases h with
  | readInt => exact fault_of_readWord hcall
  | printString | printInt | add | equal | exit => cases hcall

/-- A call that fails because of the number or the kinds of its arguments refuses them, and leaves
the machine as it was. -/
theorem refuses_of_call {m after : Machine} {error : EvalError}
    (hcall : f.call position arguments m = (.error (.failed error), after))
    (hsort : error.fault.IsArity ∨ error.fault.IsType) :
    f.Refuses arguments error.fault ∧ error.position = position ∧ after = m := by
  obtain haccepts | ⟨fault, hrefuses⟩ := f.accepts_or_refuses arguments
  · obtain hinput | ⟨word, hinput⟩ := haccepts.actsOn.fault_of_call hcall
    all_goals
      rw [hinput] at hsort
      rcases hsort with h | h <;> cases h
  · rw [call_of_refuses hrefuses] at hcall
    cases hcall
    exact ⟨hrefuses, rfl, rfl⟩

/-- A call fails because of the number of its arguments if and only if that is wrong. -/
theorem failsWith_isArity_iff {m : Machine} :
    (f.call position arguments).FailsWith EvalFault.IsArity m ↔ arguments.length ≠ f.arity := by
  constructor
  · rintro ⟨⟨fault, place⟩, after, hcall, hsort⟩
    obtain ⟨hrefuses, -⟩ := refuses_of_call hcall (.inl hsort)
    cases hrefuses with
    | arity harity => exact harity
    | kind => cases hsort
  · intro harity
    rw [call_of_length_ne harity]
    exact ⟨_, m, rfl, .call f arguments.length⟩

/-- A call with the right number of arguments fails because of their kinds if and only if one of
them is a misfit. -/
theorem failsWith_isType_iff {m : Machine} (harity : arguments.length = f.arity) :
    (f.call position arguments).FailsWith EvalFault.IsType m ↔
      ∃ index wanted value, Misfit f.parameters arguments index wanted value := by
  constructor
  · rintro ⟨⟨fault, place⟩, after, hcall, hsort⟩
    obtain ⟨hrefuses, -⟩ := refuses_of_call hcall (.inr hsort)
    cases hrefuses with
    | arity => cases hsort
    | kind _ hmisfit => exact ⟨_, _, _, hmisfit.toMisfit⟩
  · rintro ⟨index, wanted, value, hmisfit⟩
    obtain haccepts | ⟨fault, hrefuses⟩ := f.accepts_or_refuses arguments
    · exact absurd hmisfit (not_misfit_of_forall₂ haccepts)
    · rw [call_of_refuses hrefuses]
      cases hrefuses with
      | arity hne => exact absurd harity hne
      | kind => exact ⟨_, m, rfl, .argument _ _ _ _⟩

/-! ## Arguments by their index -/

section ByIndex

variable (f position)

/-- The argument at `index` as what a value of the kind holds. There is no outcome if the arguments
end before it. -/
def argumentAt {α : Type} (arguments : List Value) (kind : Kind) (content? : Value → Option α)
    (index : Nat) : OptionT Eval α := do
  let value ← OptionT.mk (pure arguments[index]?)
  match content? value with
  | some content => pure content
  | none => OptionT.lift (Eval.fail (.argumentKind f index kind value) position)

/-- The argument at `index`, which must be an integer. -/
def integerAt (arguments : List Value) (index : Nat) : OptionT Eval Int :=
  argumentAt f position arguments .integer (fun | .int n => some n | _ => none) index

/-- The argument at `index`, which must be a string. -/
def stringAt (arguments : List Value) (index : Nat) : OptionT Eval String :=
  argumentAt f position arguments .string (fun | .str text => some text | _ => none) index

/-- Call the function with arguments that are counted first and then looked up one by one. -/
def callByIndex (arguments : List Value) : OptionT Eval Value :=
  if arguments.length = f.arity then
    match f with
    | printString => do
        let text ← stringAt f position arguments 0
        OptionT.lift (Eval.writeLine text.toList)
        pure (.int 0)
    | printInt => do
        let n ← integerAt f position arguments 0
        OptionT.lift (Eval.writeLine (toString n).toList)
        pure (.int 0)
    | readInt => OptionT.lift (readWord position)
    | add => do
        let a ← integerAt f position arguments 0
        let b ← integerAt f position arguments 1
        pure (.int (Word.wrap (a + b)))
    | equal => do
        let a ← integerAt f position arguments 0
        let b ← integerAt f position arguments 1
        pure (.int (if a = b then 1 else 0))
    | exit => OptionT.lift (Eval.stop .exit)
  else OptionT.lift (Eval.fail (.callArity f arguments.length) position)

end ByIndex

/-- Looking arguments up by their index finds each of them, and comes to the same call. -/
theorem run_callByIndex (f : Native) (position : Option Position) (arguments : List Value) :
    (f.callByIndex position arguments).run = some <$> f.call position arguments := by
  by_cases harity : arguments.length = f.arity
  · unfold callByIndex
    rw [if_pos harity]
    cases f with
    | printString =>
        obtain ⟨a, rfl⟩ := List.length_eq_one_iff.mp harity
        cases a <;> rfl
    | printInt =>
        obtain ⟨a, rfl⟩ := List.length_eq_one_iff.mp harity
        cases a <;> rfl
    | readInt =>
        obtain rfl := List.length_eq_zero_iff.mp harity
        rfl
    | exit =>
        obtain rfl := List.length_eq_zero_iff.mp harity
        rfl
    | add | equal =>
        obtain ⟨a, b, rfl⟩ := List.length_eq_two.mp harity
        cases a with
        | int => cases b <;> rfl
        | str | native | bool | nothing => rfl
  · unfold callByIndex
    rw [if_neg harity, call_of_length_ne harity]
    rfl

end Native

/-! ## Calls as forms -/

namespace Node

/-- The operands of a call are evaluated one by one, from left to right. -/
theorem evalOperands_eq_mapM (scope : Scope) (operands : List Node) :
    evalOperands scope operands = operands.mapM (eval scope) := by
  induction operands with
  | nil => rfl
  | cons operand operands ih => rw [evalOperands, List.mapM_cons, ih]

/-- Evaluating operands leaves the depth as it was. -/
theorem depth_evalOperands (scope : Scope) (operands : List Node) (m : Machine) :
    (evalOperands scope operands m).2.depth = m.depth :=
  (evalOperands_closed Eval.closed_steady scope operands (Nat.le_refl _)).depth_eq m

/-- A form whose function refuses the arguments fails at its own position, and has evaluated its
operands before that and done nothing else. -/
theorem eval_of_refuses {scope : Scope} {s : Symbol} {place position : Option Position}
    {operands : List Node} {f : Native} {arguments : List Value} {fault : EvalFault}
    {m after : Machine} (hname : SpecialForm.ofSymbol? s = none)
    (hbound : scope.lookup s = some (.native f)) (hroom : m.depth < m.limit)
    (hoperands : operands.mapM (eval scope) { m with depth := m.depth + 1 } =
      (.ok arguments, after))
    (hrefuses : f.Refuses arguments fault) :
    eval scope (.list (.symbol s place :: operands) position) m =
      (.error (.failed ⟨fault, position⟩), { after with depth := m.depth }) := by
  rw [← evalOperands_eq_mapM] at hoperands
  have hdepth := depth_evalOperands scope operands { m with depth := m.depth + 1 }
  rw [hoperands] at hdepth
  have hleave : after.depth - 1 = m.depth := by
    dsimp only at hdepth
    omega
  rw [eval_native hname hbound hroom hoperands, Native.call_of_refuses hrefuses, Eval.fail_apply]
  dsimp only
  rw [hleave]

end Node

/-- Native functions check their arguments before they act. Whatever the machine and the arguments,
a call fails because of the number of its arguments if and only if that is not the arity, and with
the right number because of their kinds if and only if one of them is a misfit, which a truth value
always is where an integer is wanted. Such a failure leaves the machine as it was, and its message
names the leftmost misfit. Looking the arguments up by their index never misses one. A form that
calls a function which would fail in this way fails with the same fault at its own position, and
leaves the machine as its operands do, evaluated from left to right within the form. -/
theorem natives_validate_before_acting (f : Native) (position : Option Position)
    (arguments : List Value) :
    (∀ m, (f.call position arguments).FailsWith EvalFault.IsArity m ↔
      arguments.length ≠ f.arity) ∧
    (arguments.length = f.arity →
      ∀ m, (f.call position arguments).FailsWith EvalFault.IsType m ↔
        ∃ index wanted value, Misfit f.parameters arguments index wanted value) ∧
    (∀ b, ¬Kind.integer.Holds (.bool b)) ∧
    (∀ m error after, f.call position arguments m = (.error (.failed error), after) →
      error.fault.IsArity ∨ error.fault.IsType →
      after = m ∧ error.position = position ∧
      (error.fault.IsType → ∃ index wanted value,
        FirstMisfit f.parameters arguments index wanted value ∧
        error.fault.message =
          s!"argument {index + 1} of {f.name} must be {wanted.phrase}, got {value.typeName}")) ∧
    (f.callByIndex position arguments).run = some <$> f.call position arguments ∧
    ∀ (scope : Scope) (s : Symbol) (place : Option Position) (operands : List Node)
      (m after last : Machine) (fault : EvalFault),
      SpecialForm.ofSymbol? s = none → scope.lookup s = some (.native f) → m.depth < m.limit →
      operands.mapM (Node.eval scope) { m with depth := m.depth + 1 } = (.ok arguments, after) →
      f.call none arguments after = (.error (.failed ⟨fault, none⟩), last) →
      fault.IsArity ∨ fault.IsType →
      Node.eval scope (.list (.symbol s place :: operands) position) m =
        (.error (.failed ⟨fault, position⟩), { after with depth := m.depth }) := by
  refine ⟨fun _ => Native.failsWith_isArity_iff, fun harity _ => Native.failsWith_isType_iff harity,
    fun _ => nofun, ?_, f.run_callByIndex position arguments, ?_⟩
  · rintro m ⟨fault, place⟩ after hcall hsort
    obtain ⟨hrefuses, hplace, hafter⟩ := Native.refuses_of_call hcall hsort
    refine ⟨hafter, hplace, fun htype => ?_⟩
    cases hrefuses with
    | arity => cases htype
    | kind _ hmisfit => exact ⟨_, _, _, hmisfit, rfl⟩
  · intro scope s place operands m after last fault hname hbound hroom hoperands hcall hsort
    obtain ⟨hrefuses, -⟩ := Native.refuses_of_call hcall hsort
    exact Node.eval_of_refuses hname hbound hroom hoperands hrefuses

/-- A sum refuses a truth value and the absent value because of the first of them. A sum of a call
that reads and prints an integer and of a string fails because of the string, at the position of the
sum, after the integer has been read and printed. -/
theorem sum_refused_after_its_operands :
    let operator name := Node.symbol (.ofText name) none
    let operands := [Node.list [operator "PRINT-INT", .list [operator "READ-INT"] none] none,
      .string "x" none]
    let m := Machine.ofInput "7 8" 3
    let f := Native.add
    (f.call none [.int 0, .str "x"]).FailsWith EvalFault.IsType m ∧
    (∃ index wanted value,
      FirstMisfit f.parameters [.bool true, .nothing] index wanted value ∧
      "argument 1 of + must be an integer, got boolean" =
        s!"argument {index + 1} of {f.name} must be {wanted.phrase}, got {value.typeName}") ∧
    Node.eval .global (.list (operator "+" :: operands) (some ⟨4, 1, 5⟩)) m =
      (.error (.failed ⟨.argumentKind .add 1 .integer (.str "x"), some ⟨4, 1, 5⟩⟩),
        { m with pending := [['8']], unread := [], output := ['7', '\n'] }) := by
  intro operator operands m f
  let after : Machine :=
    { m with pending := [['8']], unread := [], output := ['7', '\n'], depth := 1 }
  have hoperands : operands.mapM (Node.eval .global) { m with depth := m.depth + 1 } =
      (.ok [.int 0, .str "x"], after) := by decide +kernel
  have hmessage : (EvalFault.argumentKind .add 0 .integer (.bool true)).message =
      "argument 1 of + must be an integer, got boolean" := by decide +kernel
  obtain ⟨-, -, -, -, -, hform⟩ :=
    natives_validate_before_acting .add (some ⟨4, 1, 5⟩) [.int 0, .str "x"]
  obtain ⟨-, hkinds, -⟩ := natives_validate_before_acting .add none [.int 0, .str "x"]
  obtain ⟨-, -, -, hrefused, -⟩ := natives_validate_before_acting .add none [.bool true, .nothing]
  refine ⟨(hkinds rfl m).mpr ⟨1, .integer, .str "x", rfl, rfl, nofun⟩, ?_, ?_⟩
  · obtain ⟨-, -, hnames⟩ := hrefused m ⟨.argumentKind .add 0 .integer (.bool true), none⟩ m rfl
      (.inr (.argument _ _ _ _))
    obtain ⟨index, wanted, value, hfirst, htext⟩ := hnames (.argument _ _ _ _)
    exact ⟨index, wanted, value, hfirst, hmessage.symm.trans htext⟩
  · exact hform .global _ none operands m after after (.argumentKind .add 1 .integer (.str "x")) rfl
      rfl (by decide) hoperands rfl (.inr (.argument _ _ _ _))

end Sexpr
