import Sexpr.Proofs.Effects

/-!
# Calls one after the other

An interpreter is called again and again on one machine, and a call may end with a result, with a
fault or because the program ended itself. `session` is the machine after any calls. What it keeps
for the next call is the words that are left to read: `session_keeps_only_input` compares that
call with the same call on a fresh machine whose input has these words.
-/

namespace Sexpr.Interpreter

/-- What an interpreter can be asked to do with a source text. -/
inductive Call where
  | read (source : String)
  | run (source : String)
  | eval (source : String)
deriving DecidableEq, Repr

/-- What a call can return. -/
inductive Answer where
  | forms (forms : List Node)
  | done
  | value (value : Value)

/-- Do what is asked. -/
def Call.perform : Call → Eval Answer
  | read source => do
      let forms ← Interpreter.read source
      pure (.forms forms)
  | run source => do
      Interpreter.run source
      pure .done
  | eval source => do
      let value ← Interpreter.eval source
      pure (.value value)

/-- The machine after calls one after the other, however each of them ended. -/
def session (calls : List Call) (m : Machine) : Machine :=
  calls.foldl (fun m call => (call.perform m).2) m

/-- Every call is uniform: it depends on the words left to read and on the limit alone. -/
theorem Call.perform_uniform (call : Call) : Eval.Uniform Machine.Alike call.perform := by
  cases call with
  | read source => exact (read_uniform source).bind fun _ => .pure _
  | run source =>
      have hrun : Eval.Uniform Machine.Alike (Interpreter.run source) :=
        (read_uniform source).bind runForms_uniform
      exact hrun.bind fun _ => .pure _
  | eval source =>
      have heval : Eval.Uniform Machine.Alike (Interpreter.eval source) :=
        (read_uniform source).bind (evalForms_uniform .nothing)
      exact heval.bind fun _ => .pure _

/-- Calls only add to a machine and take words from the front of its input. -/
theorem session_grows (calls : List Call) (m : Machine) :
    ∃ text records, m.Grows text records (session calls m) := by
  induction calls generalizing m with
  | nil => exact ⟨[], [], .refl m⟩
  | cons call calls ih =>
      obtain ⟨-, -, text, records, hcall, -⟩ := call.perform_uniform m m ⟨rfl, rfl⟩
      obtain ⟨more, later, hcalls⟩ := ih (call.perform m).2
      exact ⟨text ++ more, records ++ later, hcall.trans hcalls⟩

/-- After any calls, what is left of the input could be given to a fresh interpreter as a text. With
any text of these words, the next call ends there with the same answer, fault or exit, writes and
logs what it adds here, and leaves the same words. -/
theorem session_keeps_only_input (limit : Int) (input : String) (calls : List Call) :
    (∃ rest : String, Text.words rest.toList = (session calls (.ofInput input limit)).words) ∧
    ∀ (next : Call) (rest : String),
      Text.words rest.toList = (session calls (.ofInput input limit)).words →
      (next.perform (session calls (.ofInput input limit))).1 =
        (next.perform (.ofInput rest limit)).1 ∧
      (next.perform (session calls (.ofInput input limit))).2.output =
        (session calls (.ofInput input limit)).output ++
          (next.perform (.ofInput rest limit)).2.output ∧
      (next.perform (session calls (.ofInput input limit))).2.log =
        (session calls (.ofInput input limit)).log ++
          (next.perform (.ofInput rest limit)).2.log ∧
      (next.perform (session calls (.ofInput input limit))).2.words =
        (next.perform (.ofInput rest limit)).2.words := by
  obtain ⟨written, logged, hgrows⟩ := session_grows calls (.ofInput input limit)
  generalize session calls (.ofInput input limit) = used at hgrows ⊢
  refine ⟨?_, ?_⟩
  · obtain ⟨rest, hrest⟩ := Text.exists_words_eq_of_suffix hgrows.words_suffix
    exact ⟨String.ofList rest, by rw [String.toList_ofList, hrest]⟩
  · intro next rest hrest
    have halike : used.Alike (.ofInput rest limit) := ⟨hrest.symm, hgrows.limit_eq⟩
    obtain ⟨hsame, hkept, text, records, hused, hfresh⟩ := next.perform_uniform _ _ halike
    -- A fresh machine has written and logged nothing, so all that it has later was added.
    have htext : (next.perform (.ofInput rest limit)).2.output = text := hfresh.output_eq
    have hrecords : (next.perform (.ofInput rest limit)).2.log = records := hfresh.log_eq
    rw [htext, hrecords]
    exact ⟨hsame, hused.output_eq, hused.log_eq, hkept.words_eq⟩

/-- After a number that was printed, a text that cannot be read, a fault within two lists and an
exit, the words left to read are those of another input, which has them on other lines. -/
theorem session_keeps_only_input_after_faults :
    Text.words " 9 \n\n8".toList =
      (session [.run "(PRINT-INT (READ-INT))", .read "((", .run "(+ (READ-INT) 1)", .eval "(EXIT)"]
        (.ofInput "7 x 9\n8" 2)).words ∧
    ((Call.eval "(PRINT-INT (READ-INT))").perform
        (session [.run "(PRINT-INT (READ-INT))", .read "((", .run "(+ (READ-INT) 1)",
          .eval "(EXIT)"] (.ofInput "7 x 9\n8" 2))).2.output =
      ['7', '\n'] ++
        ((Call.eval "(PRINT-INT (READ-INT))").perform (.ofInput " 9 \n\n8" 2)).2.output := by
  have hwords : Text.words " 9 \n\n8".toList =
      (session [.run "(PRINT-INT (READ-INT))", .read "((", .run "(+ (READ-INT) 1)", .eval "(EXIT)"]
        (.ofInput "7 x 9\n8" 2)).words := by
    decide +kernel
  refine ⟨hwords, ?_⟩
  obtain ⟨-, houtput, -, -⟩ := (session_keeps_only_input 2 "7 x 9\n8" _).2
    (.eval "(PRINT-INT (READ-INT))") _ hwords
  refine houtput.trans (congrArg (· ++ _) ?_)
  decide +kernel

end Sexpr.Interpreter
