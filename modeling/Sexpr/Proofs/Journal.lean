import Mathlib.Logic.Function.Iterate
import Sexpr.Proofs.Provenance
import Sexpr.Proofs.Session

/-!
# The native calls of a run

Evaluation touches the input and the output through native functions only. A journal lists the calls
that a computation makes, in order, each with the machine on which it is made; `Node.journal` is
that of a form, and `Interpreter.sessionJournal` that of calls of an interpreter one after the
other. `Chain` says that a list of calls is all that happened between two machines: every call is
made on the input and the output that the one before it left. `Node.eval_records` shows that of
evaluation, by a rule for each way of putting computations together (`Eval.Records`). With
`Machine.takeWord_eq` it follows which word each call takes: `input_is_taken_word_by_word`.
-/

namespace Sexpr

/-! ## Calls and what lies between them -/

/-- A call of a native function from the form at `position`, on a machine. -/
structure NativeCall where
  function : Native
  position : Option Position
  arguments : List Value
  machine : Machine

/-- What the call comes to. -/
def NativeCall.perform (call : NativeCall) : Except Stop Value × Machine :=
  call.function.call call.position call.arguments call.machine

/-- The call reads an integer, and it has the number of arguments for that. -/
def NativeCall.isReading (call : NativeCall) : Bool :=
  call.function == .readInt && call.arguments.length == call.function.arity

namespace Machine

/-- From the first machine to the second no input was fetched or taken. -/
structure KeepsInput (m after : Machine) : Prop where
  pending_eq : after.pending = m.pending
  unread_eq : after.unread = m.unread

/-- From the first machine to the second no input was fetched or taken, and nothing was written. -/
structure Idle (m after : Machine) : Prop extends m.KeepsInput after where
  output_eq : after.output = m.output

/-- Where nothing happened twice nothing happened. -/
theorem Idle.trans {m middle after : Machine} (h : m.Idle middle) (hmore : middle.Idle after) :
    m.Idle after :=
  ⟨⟨hmore.pending_eq.trans h.pending_eq, hmore.unread_eq.trans h.unread_eq⟩,
    hmore.output_eq.trans h.output_eq⟩

/-- Where the input was kept the same words are left. -/
theorem KeepsInput.words_eq {m after : Machine} (h : m.KeepsInput after) :
    after.words = m.words := by
  unfold Machine.words
  rw [h.pending_eq, h.unread_eq]

end Machine

/-- `Chain m calls after` says that from the first machine to the second nothing happened to the
input and the output but these calls, one after the other. -/
inductive Chain : Machine → List NativeCall → Machine → Prop where
  | nil {m after : Machine} : m.Idle after → Chain m [] after
  | cons {m after : Machine} {call : NativeCall} {calls : List NativeCall} :
      m.Idle call.machine → Chain call.perform.2 calls after → Chain m (call :: calls) after

namespace Chain

variable {m middle after : Machine} {calls more : List NativeCall}

/-- Nothing may happen before the first call. -/
theorem of_idle (hidle : m.Idle middle) (h : Chain middle calls after) : Chain m calls after := by
  cases h with
  | nil hlast => exact .nil (hidle.trans hlast)
  | cons hfirst hmore => exact .cons (hidle.trans hfirst) hmore

/-- Calls in a row are made one after the other. -/
theorem append (h : Chain m calls middle) (hmore : Chain middle more after) :
    Chain m (calls ++ more) after := by
  induction h with
  | nil hidle => exact .of_idle hidle hmore
  | cons hfirst _ ih => exact .cons hfirst (ih hmore)

/-- Nothing may happen after the last call. -/
theorem then_idle (h : Chain m calls middle) (hidle : middle.Idle after) : Chain m calls after := by
  simpa using h.append (.nil hidle)

end Chain

/-! ## Journals -/

/-- The calls that a computation makes, on each machine. -/
abbrev Journal := Machine → List NativeCall

namespace Journal

/-- No calls. -/
def none : Journal := fun _ => []

/-- One call. -/
def call (f : Native) (position : Option Position) (arguments : List Value) : Journal :=
  fun m => [⟨f, position, arguments, m⟩]

/-- The calls of a computation within one more list, if there is room for that list. -/
def nested (inner : Journal) : Journal := fun m =>
  if m.limit ≤ m.depth then [] else inner { m with depth := m.depth + 1 }

end Journal

namespace Eval

variable {α β : Type}

/-- The calls of a computation, and then those of what follows it unless it stops. -/
def follow (x : Eval α) (calls : Journal) (next : α → Journal) : Journal := fun m =>
  calls m ++
    match x m with
    | (.ok value, after) => next value after
    | (.error _, _) => []

/-- The journal lists all that the computation does to the input and the output. -/
def Records (x : Eval α) (journal : Journal) : Prop := ∀ m, Chain m (journal m) (x m).2

/-- A computation that leaves the input and the output alone makes no calls. -/
theorem Records.of_idle {x : Eval α} (h : ∀ m : Machine, m.Idle (x m).2) : Records x .none :=
  fun m => .nil (h m)

/-- A mere value makes no calls. -/
theorem Records.pure (value : α) : Records (pure value) .none := .of_idle fun _ => ⟨⟨rfl, rfl⟩, rfl⟩

/-- A fault makes no calls. -/
theorem Records.fail (fault : EvalFault) (position : Option Position) :
    Records (fail fault position : Eval α) .none :=
  .of_idle fun _ => ⟨⟨rfl, rfl⟩, rfl⟩

/-- A call is one call. -/
theorem records_call (f : Native) (position : Option Position) (arguments : List Value) :
    Records (f.call position arguments) (.call f position arguments) :=
  fun _ => .cons ⟨⟨rfl, rfl⟩, rfl⟩ (.nil ⟨⟨rfl, rfl⟩, rfl⟩)

/-- The calls of computations in a row. -/
theorem Records.bind {x : Eval α} {next : α → Eval β} {calls : Journal} {later : α → Journal}
    (hx : Records x calls) (hnext : ∀ value, Records (next value) (later value)) :
    Records (x >>= next) (x.follow calls later) := by
  intro m
  have hfirst := hx m
  unfold follow
  rcases hresult : x m with ⟨stop | value, after⟩ <;> rw [hresult] at hfirst
  · rw [bind_of_error hresult, List.append_nil]
    exact hfirst
  · rw [bind_of_ok hresult]
    exact hfirst.append (hnext value after)

/-- What is made of a result makes no calls of its own. -/
theorem Records.map_pure {x : Eval α} {calls : Journal} (h : Records x calls) (f : α → β) :
    Records (x >>= fun value => Pure.pure (f value)) calls := by
  intro m
  have hcalls := h m
  rcases hresult : x m with ⟨stop | value, after⟩ <;> rw [hresult] at hcalls
  · rw [bind_of_error hresult]
    exact hcalls
  · rw [bind_of_ok hresult]
    exact hcalls

/-- The calls of a computation within one more list. -/
theorem Records.nested {inner : Eval α} {calls : Journal} (h : Records inner calls)
    (position : Option Position) : Records (nested position inner) (.nested calls) := by
  intro m
  unfold Journal.nested
  by_cases hfull : m.limit ≤ m.depth
  · rw [nested_of_le hfull, if_pos hfull]
    exact .nil ⟨⟨rfl, rfl⟩, rfl⟩
  · rw [nested_of_lt (Int.not_le.mp hfull), if_neg hfull]
    refine .of_idle ?_ (.then_idle (h { m with depth := m.depth + 1 }) ?_)
    · exact ⟨⟨rfl, rfl⟩, rfl⟩
    · exact ⟨⟨rfl, rfl⟩, rfl⟩

end Eval

open Eval (Records)

namespace Node

mutual

/-- The calls that the evaluation of a form in a scope makes. -/
def journal (scope : Scope) : Node → Journal
  | list items position => .nested (formJournal scope position items)
  | _ => .none

/-- The calls of the list with these items that stands at `position`. -/
def formJournal (scope : Scope) (position : Option Position) : List Node → Journal
  | symbol s _ :: operands =>
      match SpecialForm.ofSymbol? s with
      | some .conditional => conditionalJournal scope operands
      | some .binding => bindingJournal scope operands
      | none =>
          (evalOperands scope operands).follow (journalItems scope operands) fun arguments =>
            match scope.lookup s with
            | some (.native f) => .call f position arguments
            | _ => .none
  | _ => .none

/-- The calls of a conditional with these operands. -/
def conditionalJournal (scope : Scope) : List Node → Journal
  | [condition, consequent, alternative] =>
      (eval scope condition).follow (journal scope condition) fun value =>
        match value with
        | .int n => if n = 0 then journal scope alternative else journal scope consequent
        | _ => .none
  | _ => .none

/-- The calls of a binding form with these operands. -/
def bindingJournal (scope : Scope) : List Node → Journal
  | list pairs _ :: first :: body =>
      (evalPairs scope pairs).follow (pairsJournal scope pairs) fun bindings =>
        journalItems (scope.child bindings) (first :: body)
  | _ => .none

/-- The calls of forms that are evaluated from left to right. -/
def journalItems (scope : Scope) : List Node → Journal
  | [] => .none
  | form :: forms =>
      (eval scope form).follow (journal scope form) fun _ => journalItems scope forms

/-- The calls of a list of alternating names and forms. -/
def pairsJournal (scope : Scope) : List Node → Journal
  | symbol _ _ :: form :: rest =>
      (eval scope form).follow (journal scope form) fun _ => pairsJournal scope rest
  | _ => .none

end

/-- Refusing a form makes no calls. -/
theorem refuse_records {α : Type} (node : Node) (fault : String → EvalFault) :
    Records (node.refuse fault : Eval α) .none :=
  .fail _ _

end Node

/-- Looking up a name makes no calls, and what is done with its value is done with what the scope
says. -/
theorem Scope.records_fetch {α : Type} {scope : Scope} {s : Symbol} (position : Option Position)
    {next : Value → Eval α} {calls : Journal}
    (h : ∀ value, scope.lookup s = some value → Records (next value) calls)
    (hnone : scope.lookup s = none → calls = .none) :
    Records (scope.fetch s position >>= next) calls := by
  intro m
  unfold Scope.fetch
  cases hs : scope.lookup s with
  | none =>
      rw [hnone hs]
      exact .nil ⟨⟨rfl, rfl⟩, rfl⟩
  | some value => exact h value hs m

namespace Node

mutual

/-- The journal of a form lists all that its evaluation does to the input and the output. -/
theorem eval_records (scope : Scope) (node : Node) :
    Records (node.eval scope) (node.journal scope) := by
  cases node with
  | integer | string => exact .pure _
  | symbol s position =>
      simp only [eval, journal]
      rw [← bind_pure (scope.fetch s position)]
      exact scope.records_fetch position (fun value _ => .pure value) fun _ => rfl
  | hole => exact .fail _ _
  | list items position => exact .nested (evalForm_records scope position items) position

/-- The journal of a list lists all that its evaluation does. -/
theorem evalForm_records (scope : Scope) (position : Option Position) (items : List Node) :
    Records (evalForm scope position items) (formJournal scope position items) := by
  match items with
  | [] => exact .fail _ _
  | symbol s place :: operands =>
      simp only [evalForm, formJournal]
      cases SpecialForm.ofSymbol? s with
      | some form =>
          cases form with
          | conditional => exact evalConditional_records scope position operands
          | binding => exact evalBinding_records scope position operands
      | none =>
          refine .bind (evalOperands_records scope operands) fun arguments => ?_
          refine scope.records_fetch place ?_ ?_
          · intro operator hs
            simp only [hs]
            cases operator with
            | native f => exact Eval.records_call f position arguments
            | int | str | bool | nothing => exact .fail _ _
          · intro hs
            simp only [hs]
  | list _ _ :: _ | string _ _ :: _ | integer _ _ :: _ | hole :: _ =>
      simp only [evalForm, formJournal]
      exact refuse_records _ _

/-- The journal of a conditional lists all that its evaluation does. -/
theorem evalConditional_records (scope : Scope) (position : Option Position)
    (operands : List Node) :
    Records (evalConditional scope position operands) (conditionalJournal scope operands) := by
  match operands with
  | [condition, consequent, alternative] =>
      refine .bind (eval_records scope condition) fun value => ?_
      cases value with
      | int n =>
          dsimp only
          split
          · exact eval_records scope alternative
          · exact eval_records scope consequent
      | str | native | bool | nothing => exact .fail _ _
  | [] | [_] | [_, _] | _ :: _ :: _ :: _ :: _ => exact .fail _ _

/-- The journal of a binding form lists all that its evaluation does. -/
theorem evalBinding_records (scope : Scope) (position : Option Position) (operands : List Node) :
    Records (evalBinding scope position operands) (bindingJournal scope operands) := by
  match operands with
  | list pairs _ :: first :: body =>
      refine .bind (evalPairs_records scope pairs) fun bindings => ?_
      refine .bind (eval_records _ first) fun value => ?_
      exact evalBody_records _ value body
  | symbol _ _ :: _ :: _ | string _ _ :: _ :: _ | integer _ _ :: _ :: _ | hole :: _ :: _ =>
      exact .fail _ _
  | [] => exact .fail _ _
  | [operand] => cases operand <;> exact .fail _ _

/-- The journal of operands lists all that their evaluation does. -/
theorem evalOperands_records (scope : Scope) (operands : List Node) :
    Records (evalOperands scope operands) (journalItems scope operands) := by
  match operands with
  | [] => exact .pure _
  | operand :: operands =>
      refine .bind (eval_records scope operand) fun value => ?_
      exact (evalOperands_records scope operands).map_pure _

/-- The journal of bindings lists all that their evaluation does. -/
theorem evalPairs_records (scope : Scope) (pairs : List Node) :
    Records (evalPairs scope pairs) (pairsJournal scope pairs) := by
  match pairs with
  | symbol s _ :: form :: rest =>
      refine .bind (eval_records scope form) fun value => ?_
      exact (evalPairs_records scope rest).map_pure _
  | list _ _ :: _ :: _ | string _ _ :: _ :: _ | integer _ _ :: _ :: _ | hole :: _ :: _ =>
      exact refuse_records _ _
  | [] => exact .pure _
  | [name] => cases name <;> exact .pure _

/-- The journal of forms evaluated in order lists all that their evaluation does. -/
theorem evalBody_records (scope : Scope) (last : Value) (forms : List Node) :
    Records (evalBody scope last forms) (journalItems scope forms) := by
  match forms with
  | [] => exact .pure _
  | form :: forms =>
      refine .bind (eval_records scope form) fun value => ?_
      exact evalBody_records scope value forms

end

end Node

/-! ## Calls of an interpreter -/

namespace Interpreter

/-- The calls of top-level forms that are evaluated in order, after `prepare` for each of them. -/
def formsJournal (prepare : Node → Eval Unit) : List Node → Journal
  | [] => .none
  | form :: forms =>
      (prepare form).follow .none fun _ =>
        (evalTop form).follow (fun m => form.journal .global { m with depth := 0 }) fun _ =>
          formsJournal prepare forms

/-- The native calls that a call of the interpreter makes. -/
def Call.journal : Call → Journal
  | read _ => .none
  | run source =>
      (Interpreter.read source).follow .none
        (formsJournal fun form => Eval.report (evaluating form))
  | eval source => (Interpreter.read source).follow .none (formsJournal fun _ => pure ())

/-- The native calls of an interpreter that is called again and again. -/
def sessionJournal : List Call → Journal
  | [] => .none
  | call :: calls => fun m => call.journal m ++ sessionJournal calls (call.perform m).2

/-- The calls of a top-level form. -/
theorem evalTop_records (form : Node) :
    Records (evalTop form) fun m => form.journal .global { m with depth := 0 } := by
  intro m
  rw [evalTop_apply]
  refine .of_idle ?_ (form.eval_records .global { m with depth := 0 })
  exact ⟨⟨rfl, rfl⟩, rfl⟩

/-- The calls of top-level forms that are run. -/
theorem runForms_records (forms : List Node) :
    Records (runForms forms) (formsJournal (fun form => Eval.report (evaluating form)) forms) := by
  induction forms with
  | nil => exact .pure _
  | cons form forms ih =>
      refine .bind (.of_idle fun _ => ⟨⟨rfl, rfl⟩, rfl⟩) fun _ => ?_
      exact .bind (evalTop_records form) fun _ => ih

/-- The calls of top-level forms that are evaluated for the value of the last. -/
theorem evalForms_records (last : Value) (forms : List Node) :
    Records (evalForms last forms) (formsJournal (fun _ => pure ()) forms) := by
  induction forms generalizing last with
  | nil => exact .pure _
  | cons form forms ih =>
      have hprepared : evalForms last (form :: forms) = (pure () : Eval Unit) >>= fun _ =>
          evalTop form >>= fun value => evalForms value forms := rfl
      rw [hprepared]
      exact .bind (.pure ()) fun _ => .bind (evalTop_records form) fun value => ih value

/-- Reading a source text makes no calls. -/
theorem read_records (source : String) : Records (read source) .none := by
  refine .of_idle fun m => ?_
  cases hparse : parse source m.limit with
  | error error =>
      rw [read_of_error hparse]
      exact ⟨⟨rfl, rfl⟩, rfl⟩
  | ok forms =>
      obtain ⟨log, hread⟩ := read_of_ok hparse
      rw [hread]
      exact ⟨⟨rfl, rfl⟩, rfl⟩

/-- The journal of a call lists all that the call does to the input and the output. -/
theorem Call.perform_records (call : Call) : Records call.perform call.journal := by
  cases call with
  | read source => exact (read_records source).map_pure _
  | run source => exact .map_pure (.bind (read_records source) runForms_records) _
  | eval source => exact .map_pure (.bind (read_records source) (evalForms_records .nothing)) _

/-- The journal of a session lists all that happens in it to the input and the output. -/
theorem session_chain (calls : List Call) (m : Machine) :
    Chain m (sessionJournal calls m) (session calls m) := by
  induction calls generalizing m with
  | nil => exact .nil ⟨⟨rfl, rfl⟩, rfl⟩
  | cons call calls ih => exact (call.perform_records m).append (ih _)

end Interpreter

/-! ## The words that calls take -/

/-- What reading an integer comes to when this is the next word. -/
def Native.reading (position : Option Position) : Option (List Char) → Except Stop Value
  | none => .error (.failed ⟨.inputEnded, position⟩)
  | some word =>
      if Word.isSigned word then .ok (.int (Word.ofSigned word))
      else .error (.failed ⟨.inputNotInteger word, position⟩)

/-- Reading an integer takes the next word and looks at it. -/
theorem Native.readWord_apply (position : Option Position) (m : Machine) :
    readWord position m = (reading position m.words.head?, m.takeWord.2) := by
  obtain ⟨hword, -, -⟩ := m.takeWord_eq
  rw [readWord, Eval.bind_of_ok (Eval.takeWord_apply m), hword]
  cases m.words.head? with
  | none => rfl
  | some word =>
      simp only [reading]
      split <;> rfl

namespace NativeCall

variable {call : NativeCall}

/-- A call that reads takes the next word and looks at it. -/
theorem perform_of_isReading (h : call.isReading = true) :
    call.perform = (Native.reading call.position call.machine.words.head?,
      call.machine.takeWord.2) := by
  obtain ⟨f, position, arguments, m⟩ := call
  obtain ⟨rfl, harity⟩ : f = .readInt ∧ arguments.length = f.arity := by
    simpa [isReading] using h
  obtain rfl := List.length_eq_zero_iff.mp harity
  exact Native.readWord_apply position m

/-- A call that does not read leaves the input alone. -/
theorem keepsInput_of_not_isReading (h : call.isReading = false) :
    call.machine.KeepsInput call.perform.2 := by
  obtain ⟨f, position, arguments, m⟩ := call
  have hstep := f.call_step position arguments
  unfold perform
  dsimp only
  generalize f.call position arguments = x at hstep
  cases hstep with
  | readInt => cases h
  | printString | printInt | add | equal | exit | arity | kind => exact ⟨rfl, rfl⟩

/-- The words that a call leaves. -/
theorem words_perform (call : NativeCall) :
    call.perform.2.words =
      if call.isReading then call.machine.words.tail else call.machine.words := by
  split
  · next h =>
      rw [perform_of_isReading h]
      exact call.machine.takeWord_eq.2.1
  · next h => exact (keepsInput_of_not_isReading (Bool.not_eq_true _ ▸ h)).words_eq

end NativeCall

/-- The calls that read take the words one by one from the first on, and no others are taken. -/
theorem Chain.words_eq {m after : Machine} {calls : List NativeCall} (h : Chain m calls after) :
    after.words = m.words.drop (calls.filter NativeCall.isReading).length ∧
      ∀ i call, (calls.filter NativeCall.isReading)[i]? = some call →
        call.machine.words = m.words.drop i := by
  induction h with
  | nil hidle => exact ⟨by simpa using hidle.words_eq, by simp⟩
  | @cons m after call calls hidle _ ih =>
      obtain ⟨hlast, heach⟩ := ih
      have hwords := call.words_perform
      rw [hidle.words_eq] at hwords
      cases hreading : call.isReading with
      | false =>
          rw [hreading] at hwords
          rw [List.filter_cons_of_neg (by simp [hreading])]
          simp only [hwords] at hlast heach
          exact ⟨hlast, heach⟩
      | true =>
          rw [hreading] at hwords
          rw [List.filter_cons_of_pos hreading]
          refine ⟨?_, ?_⟩
          · rw [hlast, hwords]
            simp [List.drop_tail]
          · intro i other hother
            cases i with
            | zero =>
                cases hother
                simpa using hidle.words_eq
            | succ i =>
                rw [heach i other (by simpa using hother), hwords]
                simp [List.drop_tail]

/-- Taking words one after the other leaves the words after these. -/
theorem Machine.words_iterate_takeWord (m : Machine) (k : Nat) :
    ((fun m => m.takeWord.2)^[k] m).words = m.words.drop k := by
  induction k generalizing m with
  | zero => rfl
  | succ k ih =>
      obtain ⟨-, hwords, -⟩ := m.takeWord_eq
      rw [Function.iterate_succ_apply, ih, hwords, List.drop_tail]

/-- Input is taken word by word, although it is fetched line by line. Words that are taken one after
the other from a fresh machine are the words of its input in order, and none for ever after the
last of them; at any time the words that wait and those of the text not yet fetched are the rest of
the words of the input. When an interpreter is called again and again, its native calls are all that
happens to the input: those that do not read leave it alone, and those that read, whatever follows
from the word, take the words of the input one by one from the first on. -/
theorem input_is_taken_word_by_word (input : String) (limit : Int) :
    (∀ k : Nat,
      let m := (fun m => m.takeWord.2)^[k] (Machine.ofInput input limit)
      m.takeWord.1 = (Text.words input.toList)[k]? ∧
      m.pending ++ Text.words m.unread =
        (Text.words input.toList).drop (min k (Text.words input.toList).length)) ∧
    ∀ calls : List Interpreter.Call,
      let start := Machine.ofInput input limit
      let journal := Interpreter.sessionJournal calls start
      let readings := journal.filter NativeCall.isReading
      Chain start journal (Interpreter.session calls start) ∧
      (Interpreter.session calls start).words =
        (Text.words input.toList).drop readings.length ∧
      (∀ call ∈ journal, call.isReading = false → call.machine.KeepsInput call.perform.2) ∧
      ∀ i call, readings[i]? = some call →
        call.machine.words = (Text.words input.toList).drop i ∧
        call.perform.1 = Native.reading call.position (Text.words input.toList)[i]? ∧
        call.perform.2.words = (Text.words input.toList).drop (i + 1) := by
  have hstart : (Machine.ofInput input limit).words = Text.words input.toList := rfl
  refine ⟨?_, ?_⟩
  · intro k m
    have hleft : m.words = (Text.words input.toList).drop k :=
      Machine.words_iterate_takeWord _ k
    obtain ⟨hword, -, -⟩ := m.takeWord_eq
    refine ⟨?_, ?_⟩
    · rw [hword, hleft, List.head?_drop]
    · refine Eq.trans hleft ?_
      rcases Nat.le_total k (Text.words input.toList).length with hk | hk
      · rw [Nat.min_eq_left hk]
      · rw [Nat.min_eq_right hk, List.drop_length, List.drop_of_length_le hk]
  · intro calls start journal readings
    have hchain := Interpreter.session_chain calls start
    obtain ⟨hlast, heach⟩ := hchain.words_eq
    refine ⟨hchain, hlast, fun _ _ => NativeCall.keepsInput_of_not_isReading, ?_⟩
    intro i call hcall
    have hreading : call.isReading = true :=
      (List.mem_filter.mp (List.mem_of_getElem? hcall)).2
    have hwords := heach i call hcall
    rw [hstart] at hwords
    refine ⟨hwords, ?_, ?_⟩
    · rw [NativeCall.perform_of_isReading hreading, hwords, List.head?_drop]
    · rw [call.words_perform, if_pos hreading, hwords, List.tail_drop]

/-- After a word that was printed, a text that cannot be read and a call with an argument too many,
the second call that reads takes the second word, which is no integer, and leaves the third. -/
theorem second_reading_takes_malformed_word :
    let calls : List Interpreter.Call := [.run "(PRINT-INT (READ-INT))", .read "(",
      .eval "(READ-INT 1)", .eval "(+ (READ-INT) 1)"]
    let start := Machine.ofInput "7\n\n x 9" 2
    let journal := Interpreter.sessionJournal calls start
    (∃ call, (journal.filter NativeCall.isReading)[1]? = some call ∧
      call.perform.1 = .error (.failed ⟨.inputNotInteger ['x'], call.position⟩) ∧
      call.perform.2.words = [['9']]) ∧
    ∃ call ∈ journal, call.function = .readInt ∧ call.machine.KeepsInput call.perform.2 := by
  intro calls start journal
  have hwords : Text.words "7\n\n x 9".toList = [['7'], ['x'], ['9']] := by decide +kernel
  have hcount : (journal.filter NativeCall.isReading).length = 2 := by decide +kernel
  obtain ⟨-, hsession⟩ := input_is_taken_word_by_word "7\n\n x 9" 2
  obtain ⟨-, -, hothers, hreadings⟩ := hsession calls
  refine ⟨?_, ?_⟩
  · obtain ⟨call, hcall⟩ : ∃ call, (journal.filter NativeCall.isReading)[1]? = some call :=
      ⟨_, List.getElem?_eq_getElem (by rw [hcount]; decide)⟩
    obtain ⟨-, hresult, hleft⟩ := hreadings 1 call hcall
    rw [hwords] at hresult hleft
    exact ⟨call, hcall, hresult, hleft⟩
  · obtain ⟨call, hcall, hfunction, harguments⟩ : ∃ call ∈ journal,
        call.function = .readInt ∧ call.isReading = false := by
      decide +kernel
    exact ⟨call, hcall, hfunction, hothers call hcall harguments⟩

end Sexpr
