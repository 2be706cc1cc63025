import Sexpr.Proofs.Arguments
import Sexpr.Proofs.NestingLimit
import Sexpr.Proofs.Reference

/-!
# Evaluation refines the reference interpreter

The machine keeps its input in lines, counts how deep lists are nested and keeps a log, and scopes
are chains of frames. None of it can be observed: seen as a `Reference.World`, a machine goes
through every form as the reference interpreter does, to the same outcome, the same output and the
same words left to read, unless the nesting limit ends it. `Eval.Refines` is that relation between
computations, the induction over forms is `Node.eval_refines`, and `evaluation_refines_reference`
is what follows for programs, whose forms have been read under the same limit.
-/

namespace Sexpr

/-- The words left to read and the text written, which are all that the reference interpreter knows
of a machine. -/
def Machine.world (m : Machine) : Reference.World := ⟨m.words, m.output⟩

/-- The value of a name in a table is that of its first pair. -/
theorem Bindings.find?_eq_lookup (s : Symbol) (bindings : Bindings) :
    Bindings.find? s bindings = bindings.lookup s := by
  induction bindings with
  | nil => rfl
  | cons binding rest ih =>
      obtain ⟨name, value⟩ := binding
      by_cases hs : s = name
      · simp [Bindings.find?, hs]
      · simp [Bindings.find?, List.lookup_cons, hs, beq_false_of_ne hs, ih]

/-- In a scope with one more frame, that frame decides about the names it binds. -/
theorem Scope.lookup_child (scope : Scope) (bindings : Bindings) :
    (scope.child bindings).lookup = Reference.Env.bind scope.lookup bindings := by
  funext s
  unfold Scope.lookup Scope.child Reference.Env.bind
  rw [List.findSome?_cons, ← Bindings.find?_eq_lookup]
  cases h : Bindings.find? s bindings <;> simp [Frame.find?, h]

/-- A native function is bound to its own name. -/
theorem Native.name_symbol (f : Native) : f.symbol.name = f.name := by
  cases f <;> rfl

/-- In a table of native functions a symbol finds the function of its name. -/
theorem Native.find?_map_symbol (s : Symbol) (natives : List Native) :
    Bindings.find? s (natives.map fun f => (f.symbol, .native f)) =
      (natives.find? (·.name == s.name)).map .native := by
  induction natives with
  | nil => rfl
  | cons f natives ih =>
      by_cases hs : f.name = s.name
      · have hsymbol : s = f.symbol := Symbol.eq_of_name_eq (by rw [f.name_symbol, hs])
        simp [Bindings.find?, hs, ← hsymbol]
      · have hsymbol : s ≠ f.symbol := by
          rintro rfl
          exact hs f.name_symbol.symm
        simp [Bindings.find?, hs, hsymbol, ih]

/-- The global scope binds the names of the native functions and no others. -/
theorem Scope.lookup_global : Scope.global.lookup = Reference.Env.global := by
  have hbindings : Frame.global.bindings = Native.all.map fun f => (f.symbol, .native f) := rfl
  funext s
  unfold Scope.lookup Scope.global Reference.Env.global Native.ofName?
  rw [← Native.find?_map_symbol s, ← hbindings]
  simp [Frame.find?]

namespace Eval

variable {α β : Type}

/-- Run on the machine, the computation is ended by the nesting limit. -/
def CutOff (x : Eval α) (m : Machine) : Prop :=
  ∃ position, (x m).1 = .error (.failed ⟨.tooDeep m.limit, position⟩)

/-- Run on the machine, the computation ends like the reference computation and leaves the same
world. -/
def Agrees (x : Eval α) (y : Reference.Run α) (m : Machine) : Prop :=
  y.on m.world = ((x m).1, (x m).2.world)

/-- On every machine the computation agrees with the reference computation, unless the nesting limit
ends it, and leaves that limit alone. -/
def Refines (x : Eval α) (y : Reference.Run α) : Prop :=
  ∀ m, (x m).2.limit = m.limit ∧ (CutOff x m ∨ Agrees x y m)

/-- A value refines itself. -/
theorem Refines.pure (value : α) : Refines (pure value) (pure value) :=
  fun _ => ⟨rfl, .inr rfl⟩

/-- A fault refines itself. -/
theorem Refines.fail (fault : EvalFault) (position : Option Position) :
    Refines (fail fault position : Eval α) (Reference.fail fault position) :=
  fun _ => ⟨rfl, .inr rfl⟩

/-- Computations in a row refine computations in a row. -/
theorem Refines.bind {first : Eval α} {next : α → Eval β} {first' : Reference.Run α}
    {next' : α → Reference.Run β} (hfirst : Refines first first')
    (hnext : ∀ value, Refines (next value) (next' value)) :
    Refines (first >>= next) (first' >>= next') := by
  intro m
  obtain ⟨hlimit, houtcome⟩ := hfirst m
  unfold CutOff Agrees at *
  rcases hresult : first m with ⟨stop | value, after⟩ <;> rw [hresult] at hlimit houtcome
  · -- What cuts off the first computation, or stops both, does so to the whole.
    rw [bind_of_error hresult, Reference.Run.on_bind]
    refine ⟨hlimit, houtcome.imp ?_ ?_⟩
    · rintro ⟨position, ⟨⟩⟩
      exact ⟨position, rfl⟩
    · intro hrun
      rw [hrun]
  · have hrun : first'.on m.world = (.ok value, after.world) := by
      obtain ⟨_, ⟨⟩⟩ | hrun := houtcome
      exact hrun
    rw [bind_of_ok hresult, Reference.Run.on_bind, hrun, ← hlimit]
    exact hnext value after

/-- What the reference interpreter does not know of can come first. -/
theorem Refines.of_change {f : Machine → Machine} {x : Eval α} {y : Reference.Run α}
    (hlimit : ∀ m, (f m).limit = m.limit) (hworld : ∀ m, (f m).world = m.world)
    (h : Refines x y) : Refines (change f >>= fun _ => x) y := by
  intro m
  unfold CutOff Agrees
  rw [bind_of_ok (change_apply f m), ← hworld m, ← hlimit m]
  exact h (f m)

/-- The list around a computation is not known to the reference interpreter. -/
theorem Refines.nested {inner : Eval α} {y : Reference.Run α} (h : Refines inner y)
    (position : Option Position) : Refines (nested position inner) y := by
  intro m
  unfold CutOff Agrees
  by_cases hroom : m.limit ≤ m.depth
  · rw [nested_of_le hroom]
    exact ⟨rfl, .inl ⟨position, rfl⟩⟩
  · rw [nested_of_lt (Int.not_le.mp hroom)]
    exact h { m with depth := m.depth + 1 }

end Eval

open Eval (Refines)

namespace Native

/-- Reading an integer takes the first of the words that are left and looks at its exact value. -/
theorem readWord_refines (position : Option Position) :
    Refines (readWord position) (Reference.readInt position) := by
  intro m
  obtain ⟨hword, hwords, hframe⟩ := m.takeWord_eq
  have hlimit : m.takeWord.2.limit = m.limit := by rw [hframe]
  have hworld : m.takeWord.2.world = ⟨m.words.tail, m.output⟩ := by
    unfold Machine.world
    rw [hwords, hframe]
  unfold readWord Eval.CutOff Eval.Agrees
  rw [Eval.bind_of_ok (Eval.takeWord_apply m), hword, Machine.world]
  cases hleft : m.words with
  | nil =>
      rw [hleft] at hworld
      rw [Reference.readInt_on_nil]
      exact ⟨hlimit, .inr (Prod.ext rfl hworld.symm)⟩
  | cons word words =>
      rw [hleft] at hworld
      have hvalue := Reference.map_wrap_integer? word
      rw [Reference.readInt_on_cons]
      by_cases hsigned : Word.isSigned word = true
      · rw [if_pos hsigned] at hvalue
        obtain ⟨n, hn, hwrap⟩ := Option.map_eq_some_iff.mp hvalue
        simp only [List.head?_cons, if_pos hsigned, hn, hwrap]
        exact ⟨hlimit, .inr (Prod.ext rfl hworld.symm)⟩
      · rw [if_neg hsigned] at hvalue
        have hnone := Option.map_eq_none_iff.mp hvalue
        simp only [List.head?_cons, if_neg hsigned, hnone]
        exact ⟨hlimit, .inr (Prod.ext rfl hworld.symm)⟩

/-- Calls check their arguments and act as in the reference interpreter. -/
theorem call_refines (f : Native) (position : Option Position) (arguments : List Value) :
    Refines (f.call position arguments) (Reference.apply f position arguments) := by
  by_cases hlength : arguments.length = f.arity
  · cases f with
    | printString =>
        obtain ⟨a, rfl⟩ := List.length_eq_one_iff.mp hlength
        cases a with
        | str text => exact fun _ => ⟨rfl, .inr rfl⟩
        | int | native | bool | nothing => exact .fail _ position
    | printInt =>
        obtain ⟨a, rfl⟩ := List.length_eq_one_iff.mp hlength
        cases a with
        | int n => exact fun _ => ⟨rfl, .inr rfl⟩
        | str | native | bool | nothing => exact .fail _ position
    | readInt =>
        obtain rfl := List.length_eq_zero_iff.mp hlength
        exact readWord_refines position
    | exit =>
        obtain rfl := List.length_eq_zero_iff.mp hlength
        exact fun _ => ⟨rfl, .inr rfl⟩
    | add | equal =>
        match arguments, hlength with
        | [.int _, .int _], _ => exact .pure _
        | [.int _, .str _], _ | [.int _, .native _], _ | [.int _, .bool _], _
        | [.int _, .nothing], _ => exact .fail _ position
        | [.str _, _], _ | [.native _, _], _ | [.bool _, _], _ | [.nothing, _], _ =>
            exact .fail _ position
  · rw [call_of_length_ne hlength, Reference.apply_of_length_ne hlength]
    exact .fail _ position

end Native

/-- The value of a name is what the scope, taken as one function, says. -/
theorem Scope.fetch_refines (scope : Scope) (s : Symbol) (position : Option Position) :
    Refines (scope.fetch s position) (Reference.evalSymbol scope.lookup s position) := by
  unfold Scope.fetch Reference.evalSymbol
  cases scope.lookup s with
  | some value => exact .pure value
  | none => exact .fail _ position

namespace Node

/-- A form is refused with the same fault. -/
theorem refuse_refines {α : Type} (node : Node) (fault : String → EvalFault) :
    Refines (node.refuse fault : Eval α) (Reference.refuse node fault) := by
  unfold refuse refusal Reference.refuse
  generalize node.text? = shown
  cases node with
  | hole => exact .fail _ none
  | list | symbol | string | integer => cases shown <;> exact .fail _ _

mutual

/-- Evaluation of a form refines its evaluation by the reference interpreter. -/
theorem eval_refines (scope : Scope) (node : Node) :
    Refines (node.eval scope) (Reference.eval scope.lookup node) := by
  cases node with
  | integer | string => exact .pure _
  | symbol s position => exact scope.fetch_refines s position
  | hole => exact .fail _ none
  | list items position => exact .nested (evalForm_refines scope position items) position

/-- Evaluation of a list, once its depth is counted, refines the reference interpreter. -/
theorem evalForm_refines (scope : Scope) (position : Option Position) (items : List Node) :
    Refines (evalForm scope position items)
      (Reference.eval scope.lookup (.list items position)) := by
  match items with
  | [] => exact .fail _ position
  | symbol s place :: operands =>
      simp only [evalForm, SpecialForm.ofSymbol?, Reference.eval]
      by_cases hif : s.name = "IF"
      · rw [if_pos hif, if_pos hif]
        exact evalConditional_refines scope position operands
      by_cases hlet : s.name = "LET"
      · rw [if_neg hif, if_pos hlet, if_neg hif, if_pos hlet]
        exact evalBinding_refines scope position operands
      rw [if_neg hif, if_neg hlet, if_neg hif, if_neg hlet]
      refine .bind (evalOperands_refines scope operands) fun arguments => ?_
      refine .bind (scope.fetch_refines s place) fun operator => ?_
      cases operator with
      | native f => exact f.call_refines position arguments
      | int | str | bool | nothing => exact .fail _ place
  | list _ _ :: _ | string _ _ :: _ | integer _ _ :: _ | hole :: _ =>
      simp only [evalForm, Reference.eval]
      exact refuse_refines _ _

/-- Evaluation of a conditional refines the reference interpreter. -/
theorem evalConditional_refines (scope : Scope) (position : Option Position)
    (operands : List Node) :
    Refines (evalConditional scope position operands)
      (Reference.evalIf scope.lookup position operands) := by
  match operands with
  | [condition, consequent, alternative] =>
      refine .bind (eval_refines scope condition) fun value => ?_
      cases value with
      | int n =>
          by_cases hn : n = 0
          · simp only [hn, ne_eq, not_true_eq_false, if_true, if_false]
            exact eval_refines scope alternative
          · simp only [hn, ne_eq, not_false_eq_true, if_true, if_false]
            exact eval_refines scope consequent
      | str | native | bool | nothing => exact .fail _ condition.position
  | [] | [_] | [_, _] | _ :: _ :: _ :: _ :: _ => exact .fail _ position

/-- Evaluation of a binding form refines the reference interpreter: its frame is one more layer of
the function that the scope is taken as. -/
theorem evalBinding_refines (scope : Scope) (position : Option Position) (operands : List Node) :
    Refines (evalBinding scope position operands)
      (Reference.evalLet scope.lookup position operands) := by
  match operands with
  | list pairs place :: first :: body =>
      refine .bind (evalPairs_refines scope pairs) fun bindings => ?_
      -- All values of the bodies are kept on one side and only the last one on the other.
      show Refines _
        (Reference.evalLast (Reference.Env.bind scope.lookup bindings) .nothing (first :: body))
      rw [Reference.evalLast_cons, ← Scope.lookup_child]
      refine .bind (eval_refines _ first) fun value => ?_
      exact evalBody_refines _ value body
  | symbol _ _ :: _ :: _ | string _ _ :: _ :: _ | integer _ _ :: _ :: _ | hole :: _ :: _ =>
      exact .fail _ _
  | [] => exact .fail _ position
  | [operand] => cases operand <;> exact .fail _ position

/-- Evaluation of operands refines the reference interpreter. -/
theorem evalOperands_refines (scope : Scope) (operands : List Node) :
    Refines (evalOperands scope operands) (Reference.evalAll scope.lookup operands) := by
  match operands with
  | [] => exact .pure _
  | operand :: operands =>
      refine .bind (eval_refines scope operand) fun value => ?_
      refine .bind (evalOperands_refines scope operands) fun values => ?_
      exact .pure _

/-- Evaluation of bindings refines the reference interpreter. -/
theorem evalPairs_refines (scope : Scope) (pairs : List Node) :
    Refines (evalPairs scope pairs) (Reference.evalPairs scope.lookup pairs) := by
  match pairs with
  | symbol s _ :: form :: rest =>
      refine .bind (eval_refines scope form) fun value => ?_
      refine .bind (evalPairs_refines scope rest) fun bindings => ?_
      exact .pure _
  | list _ _ :: _ :: _ | string _ _ :: _ :: _ | integer _ _ :: _ :: _ | hole :: _ :: _ =>
      exact refuse_refines _ _
  | [] => exact .pure _
  | [name] => cases name <;> exact .pure _

/-- Evaluation of forms in order refines the reference interpreter, which keeps all their values
until the last. -/
theorem evalBody_refines (scope : Scope) (last : Value) (forms : List Node) :
    Refines (evalBody scope last forms) (Reference.evalLast scope.lookup last forms) := by
  match forms with
  | [] => exact .pure _
  | form :: forms =>
      rw [Reference.evalLast_cons]
      refine .bind (eval_refines scope form) fun value => ?_
      exact evalBody_refines scope value forms

end

end Node

namespace Interpreter

/-- Evaluation of a top-level form refines its evaluation in the environment of the native
functions. -/
theorem evalTop_refines (form : Node) :
    Refines (evalTop form) (Reference.eval .global form) := by
  rw [← Scope.lookup_global]
  exact .of_change (fun _ => rfl) (fun _ => rfl) (form.eval_refines .global)

/-- Running forms refines evaluating them all for what they do. -/
theorem runForms_refines (forms : List Node) :
    Refines (runForms forms) (do let _ ← Reference.evalAll .global forms) := by
  induction forms with
  | nil => exact .pure ()
  | cons form forms ih =>
      simp only [Reference.evalAll, bind_assoc, pure_bind]
      refine .of_change (fun _ => rfl) (fun _ => rfl) ?_
      exact .bind (evalTop_refines form) fun _ => ih

/-- Evaluating forms refines evaluating them all for the value of the last. -/
theorem evalForms_refines (last : Value) (forms : List Node) :
    Refines (evalForms last forms) (Reference.evalLast .global last forms) := by
  induction forms generalizing last with
  | nil => exact .pure last
  | cons form forms ih =>
      rw [Reference.evalLast_cons]
      exact .bind (evalTop_refines form) fun value => ih value

/-- If what is done with the forms of a source text refines what the reference interpreter does with
them, and is quiet, the two agree about the source text: it is never the limit on evaluation that
ends the call. -/
theorem agrees_of_refines {α : Type} {next : List Node → Eval α}
    {next' : List Node → Reference.Run α} {source : String} {m : Machine}
    (hnext : ∀ forms, Refines (next forms) (next' forms))
    (hquiet : ∀ forms, Node.nestingItems forms ≤ room m.limit 0 →
      Eval.Quiet (·.limit = m.limit) (next forms)) :
    Eval.Agrees (read source >>= next) (Reference.read source m.limit >>= next') m := by
  unfold Eval.Agrees Reference.read
  cases hparse : parse source m.limit with
  | error error =>
      rw [bind_read_of_error hparse]
      rfl
  | ok forms =>
      obtain ⟨log, hread⟩ := read_of_ok hparse
      rw [Eval.bind_of_ok hread, pure_bind]
      obtain ⟨position, hstop⟩ | hagrees := (hnext forms { m with log := log }).2
      · -- The limit was kept when the text was read.
        have hkind := (hquiet forms (parse_sound hparse).1 { m with log := log } rfl).2 _ hstop
        cases hkind
      · exact hagrees

end Interpreter

/-- Evaluation refines the reference interpreter. A fresh machine shows all the words of its input
and no output. In every scope and on every machine a form evaluates to what it does in the function
that the scope stands for, with the same output and the same words left, unless it is nested
deeper than there is room for and the limit ends it. Source texts, on any machine, end with the
same value, fault or exit, the same output and the same words left. -/
theorem evaluation_refines_reference :
    (∀ (input : String) (limit : Int),
      (Machine.ofInput input limit).world = ⟨Text.words input.toList, []⟩) ∧
    (∀ (scope : Scope) (node : Node) (m : Machine),
      (Reference.eval scope.lookup node).on m.world =
        ((node.eval scope m).1, (node.eval scope m).2.world) ∨
      (m.limit - m.depth).toNat < node.nesting ∧
        ∃ position, (node.eval scope m).1 = .error (.failed ⟨.tooDeep m.limit, position⟩)) ∧
    (∀ (source : String) (m : Machine),
      (Reference.runSource source m.limit).on m.world =
        ((Interpreter.run source m).1, (Interpreter.run source m).2.world)) ∧
    (∀ (source : String) (m : Machine),
      (Reference.evalSource source m.limit).on m.world =
        ((Interpreter.eval source m).1, (Interpreter.eval source m).2.world)) := by
  refine ⟨fun _ _ => rfl, ?_, ?_, ?_⟩
  · intro scope node m
    obtain ⟨position, hstop⟩ | hagrees := (node.eval_refines scope m).2
    · refine .inr ⟨?_, position, hstop⟩
      refine Nat.lt_of_not_le fun hroom => ?_
      have hkind := (node.eval_quiet hroom scope m ⟨rfl, rfl⟩).2 _ hstop
      cases hkind
    · exact .inl hagrees
  · intro source m
    exact Interpreter.agrees_of_refines Interpreter.runForms_refines
      fun _ => Interpreter.runForms_quiet
  · intro source m
    exact Interpreter.agrees_of_refines (Interpreter.evalForms_refines .nothing)
      fun _ hroom => Interpreter.evalForms_quiet hroom .nothing

end Sexpr
