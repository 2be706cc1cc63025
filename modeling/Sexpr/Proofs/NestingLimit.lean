import Sexpr.Proofs.Acceptance
import Sexpr.Proofs.Evaluation

/-!
# One limit for reading and evaluation

Reading and evaluation refuse nesting beyond the same limit, each with a counter of its own. A form
that is not nested deeper than there is room for never meets the limit again when it is evaluated
(`Node.eval_quiet`), and the reader returns no other forms. So whenever a call ends with a
fault of the kinds the reader knows, it was the reader that found it, and nothing else was done:
`source_faults_are_atomic`.
-/

namespace Sexpr

/-- The kinds of fault that the reader knows: a text that cannot be read, and lists nested beyond
the limit, whoever found them. -/
def Stop.isReaderKind : Stop → Bool
  | exit => false
  | misread _ => true
  | failed error =>
      match error.fault with
      | .tooDeep _ => true
      | _ => false

namespace Eval

/-- On a machine in the state `I` the computation keeps that state and ends with no fault of the
kinds the reader knows. -/
def Quiet (I : Machine → Prop) {α : Type} (x : Eval α) : Prop :=
  ∀ m, I m → I (x m).2 ∧ ∀ stop, (x m).1 = .error stop → stop.isReaderKind = false

/-- A computation that always has a result is quiet. -/
theorem Quiet.of_ok {I : Machine → Prop} {α : Type} {x : Eval α}
    (h : ∀ m, I m → ∃ value after, x m = (.ok value, after) ∧ I after) : Quiet I x := by
  intro m hm
  obtain ⟨value, after, hresult, hkept⟩ := h m hm
  rw [hresult]
  refine ⟨hkept, ?_⟩
  rintro stop ⟨⟩

/-- Quiet computations in a row are quiet. -/
theorem Quiet.bind {I : Machine → Prop} {α β : Type} {first : Eval α} {next : α → Eval β}
    (hfirst : Quiet I first) (hnext : ∀ value, Quiet I (next value)) :
    Quiet I (first >>= next) := by
  intro m hm
  obtain ⟨hkept, hquiet⟩ := hfirst m hm
  rcases hresult : first m with ⟨reason | value, after⟩ <;> rw [hresult] at hkept hquiet
  · rw [bind_of_error hresult]
    refine ⟨hkept, ?_⟩
    rintro stop ⟨⟩
    exact hquiet reason rfl
  · rw [bind_of_ok hresult]
    exact hnext value after hkept

/-- Within one more list a quiet computation is quiet, if there is room for that list. -/
theorem Quiet.nested {depth limit : Int} {α : Type} {inner : Eval α} (hroom : depth < limit)
    (hinner : Quiet (Machine.At (depth + 1) limit) inner) (position : Option Position) :
    Quiet (Machine.At depth limit) (nested position inner) := by
  rintro m ⟨rfl, rfl⟩
  obtain ⟨⟨hdepth, hlimit⟩, hquiet⟩ := hinner { m with depth := m.depth + 1 } ⟨rfl, rfl⟩
  rw [nested_of_lt hroom]
  refine ⟨⟨?_, hlimit⟩, hquiet⟩
  dsimp only
  omega

/-- A fault other than the limit is none of the kinds the reader knows. -/
theorem quiet_fail {I : Machine → Prop} {α : Type} {fault : EvalFault}
    (hfault : ∀ limit, fault ≠ .tooDeep limit) (position : Option Position) :
    Quiet I (fail fault position : Eval α) := by
  refine fun m hm => ⟨hm, ?_⟩
  rintro stop ⟨⟩
  cases fault with
  | tooDeep limit => exact absurd rfl (hfault limit)
  | _ => rfl

/-- With room for its lists, all that evaluation is made of is quiet. -/
theorem closed_quiet : Closed fun n _ x =>
    ∀ depth limit : Int, n ≤ (limit - depth).toNat → Quiet (Machine.At depth limit) x where
  pure _ value _ _ _ := .of_ok fun m hm => ⟨value, m, rfl, hm⟩
  bind hfirst hnext depth limit hroom :=
    (hfirst depth limit hroom).bind fun value => hnext value depth limit hroom
  fail _ position hfault _ _ _ := quiet_fail hfault position
  exit _ _ _ _ _ hm := ⟨hm, by rintro stop ⟨⟩; rfl⟩
  writeLine _ line _ _ _ :=
    .of_ok fun m hm => ⟨(), m.writeLine line, rfl, hm.depth_eq, hm.limit_eq⟩
  takeWord _ _ _ _ := .of_ok fun m hm => ⟨m.takeWord.1, m.takeWord.2, rfl, hm.takeWord⟩
  nested position hinner depth limit hroom :=
    .nested (by omega) (hinner (depth + 1) limit (by omega)) position

end Eval

/-- Evaluation of a form that there is room for is quiet. -/
theorem Node.eval_quiet {node : Node} {depth limit : Int}
    (h : node.nesting ≤ (limit - depth).toNat) (scope : Scope) :
    Eval.Quiet (Machine.At depth limit) (node.eval scope) :=
  Node.eval_closed Eval.closed_quiet scope node (Nat.le_refl _) depth limit h

namespace Interpreter

/-- Evaluation of a top-level form that is not nested deeper than the limit is quiet. -/
theorem evalTop_quiet {limit : Int} {form : Node} (h : form.nesting ≤ room limit 0) :
    Eval.Quiet (·.limit = limit) (evalTop form) := by
  rintro m rfl
  have hroom : form.nesting ≤ (m.limit - 0).toNat := h
  obtain ⟨hkept, hquiet⟩ := form.eval_quiet hroom .global { m with depth := 0 } ⟨rfl, rfl⟩
  rw [evalTop_apply]
  exact ⟨hkept.limit_eq, hquiet⟩

/-- Running forms that are not nested deeper than the limit is quiet. -/
theorem runForms_quiet {limit : Int} {forms : List Node}
    (h : Node.nestingItems forms ≤ room limit 0) :
    Eval.Quiet (·.limit = limit) (runForms forms) := by
  induction forms with
  | nil => exact .of_ok fun m hm => ⟨(), m, rfl, hm⟩
  | cons form forms ih =>
      obtain ⟨hform, hforms⟩ := Nat.max_le.mp h
      refine .bind (.of_ok fun m hm => ⟨(), m.report (evaluating form), rfl, hm⟩) fun _ => ?_
      exact (evalTop_quiet hform).bind fun _ => ih hforms

/-- Evaluating forms that are not nested deeper than the limit is quiet. -/
theorem evalForms_quiet {limit : Int} {forms : List Node}
    (h : Node.nestingItems forms ≤ room limit 0) (last : Value) :
    Eval.Quiet (·.limit = limit) (evalForms last forms) := by
  induction forms generalizing last with
  | nil => exact .of_ok fun m hm => ⟨last, m, rfl, hm⟩
  | cons form forms ih =>
      obtain ⟨hform, hforms⟩ := Nat.max_le.mp h
      exact (evalTop_quiet hform).bind fun value => ih hforms value

/-- If what is done with the forms of a source text is quiet, a fault of the kinds the reader knows
was found by the reader, before anything was done. -/
theorem misread_of_isReaderKind {α : Type} {next : List Node → Eval α} {source : String}
    {m : Machine} {stop : Stop}
    (hnext : ∀ forms, Node.nestingItems forms ≤ room m.limit 0 →
      Eval.Quiet (·.limit = m.limit) (next forms))
    (h : ((read source >>= next) m).1 = .error stop) (hkind : stop.isReaderKind = true) :
    ∃ error, parse source m.limit = .error error ∧
      (read source >>= next) m = (.error (.misread error), m) := by
  cases hparse : parse source m.limit with
  | error error => exact ⟨error, rfl, bind_read_of_error hparse⟩
  | ok forms =>
      obtain ⟨log, hread⟩ := read_of_ok hparse
      rw [Eval.bind_of_ok hread] at h
      have hquiet := (hnext forms (parse_sound hparse).1 { m with log := log } rfl).2 stop h
      rw [hquiet] at hkind
      cases hkind

end Interpreter

/-- Whatever the state of the machine, a call that ends with a fault of the kinds the reader knows
was refused by the reader and left the machine as it was, and a source text that the reader
accepts has no form whose evaluation meets the limit, in whatever scope. -/
theorem source_faults_are_atomic (source : String) (m : Machine) :
    (∀ stop, (Interpreter.run source m).1 = .error stop → stop.isReaderKind = true →
      ∃ error, parse source m.limit = .error error ∧
        Interpreter.run source m = (.error (.misread error), m)) ∧
    (∀ stop, (Interpreter.eval source m).1 = .error stop → stop.isReaderKind = true →
      ∃ error, parse source m.limit = .error error ∧
        Interpreter.eval source m = (.error (.misread error), m)) ∧
    (∀ forms, parse source m.limit = .ok forms → ∀ form ∈ forms, ∀ (scope : Scope)
      (machine : Machine), machine.limit = m.limit → machine.depth ≤ 0 →
      ∀ stop, (form.eval scope machine).1 = .error stop → stop.isReaderKind = false) := by
  refine ⟨?_, ?_, ?_⟩
  · intro stop h hkind
    exact Interpreter.misread_of_isReaderKind (fun _ => Interpreter.runForms_quiet) h hkind
  · intro stop h hkind
    exact Interpreter.misread_of_isReaderKind
      (fun _ hroom => Interpreter.evalForms_quiet hroom .nothing) h hkind
  · intro forms hparse form hform scope machine hlimit hdepth stop h
    have hnesting := Nat.le_trans (Node.nesting_le_of_mem hform) (parse_sound hparse).1
    have hroom : form.nesting ≤ (machine.limit - machine.depth).toNat := by
      unfold room at hnesting
      omega
    exact (form.eval_quiet hroom scope machine ⟨rfl, rfl⟩).2 stop h

/-- Between two steps of a program, a source text with a list too many and one with an open list are
both refused, and the one form of a source text that is accepted fails for a reason of its own. -/
theorem source_faults_between_steps :
    (∃ error, parse "((X))" 1 = .error error ∧
      Interpreter.run "((X))" ⟨[['7']], ['8'], ['x'], [], 3, 1⟩ =
        (.error (.misread error), ⟨[['7']], ['8'], ['x'], [], 3, 1⟩)) ∧
    (∃ error, parse "(READ-INT" 1 = .error error ∧
      Interpreter.eval "(READ-INT" ⟨[['7']], ['8'], ['x'], [], 3, 1⟩ =
        (.error (.misread error), ⟨[['7']], ['8'], ['x'], [], 3, 1⟩)) ∧
    ∃ form stop, parse "(X)" 1 = .ok [form] ∧
      (form.eval .global (.ofInput "" 1)).1 = .error stop ∧ stop.isReaderKind = false := by
  have hdeep : parse "((X))" 1 = .error ⟨.tooDeep 1, ⟨1, 1, 2⟩⟩ := by
    refine parse_of_fault ?_
    rw [resume_of_opened rfl rfl, resume_of_halted rfl rfl]
    rfl
  have hopen : parse "(READ-INT" 1 = .error ⟨.missingClose, ⟨0, 1, 1⟩⟩ := by
    refine parse_of_fault ?_
    rw [resume_of_opened rfl rfl, resume_of_completed rfl rfl, absorb, resume_of_nothing rfl]
    rfl
  have hform : parse "(X)" 1 =
      .ok [.list [.symbol (.ofText "X") (some ⟨1, 1, 2⟩)] (some ⟨0, 1, 1⟩)] := by
    rw [parse_eq_ok_iff, resume_of_opened rfl rfl, resume_of_completed rfl rfl, absorb,
      resume_of_completed rfl rfl, absorb, resume_of_nothing rfl]
    exact ⟨nofun, rfl⟩
  refine ⟨?_, ?_, ?_⟩
  · have hstop : Interpreter.run "((X))" ⟨[['7']], ['8'], ['x'], [], 3, 1⟩ = _ :=
      Interpreter.bind_read_of_error hdeep
    exact (source_faults_are_atomic _ _).1 _ (congrArg Prod.fst hstop) rfl
  · have hstop : Interpreter.eval "(READ-INT" ⟨[['7']], ['8'], ['x'], [], 3, 1⟩ = _ :=
      Interpreter.bind_read_of_error hopen
    exact (source_faults_are_atomic _ _).2.1 _ (congrArg Prod.fst hstop) rfl
  · refine ⟨_, .failed ⟨.unbound (.ofText "X"), some ⟨1, 1, 2⟩⟩, hform, rfl, ?_⟩
    exact (source_faults_are_atomic "(X)" (.ofInput "" 1)).2.2 _ hform _
      (List.mem_singleton.mpr rfl) .global (.ofInput "" 1) rfl (Int.le_refl 0) _ rfl

end Sexpr
