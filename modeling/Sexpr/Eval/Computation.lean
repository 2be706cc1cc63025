import Sexpr.Eval.Error
import Sexpr.Eval.Machine
import Sexpr.Reader.Error

/-!
# Computations

A computation runs on a machine and either gives a result or stops: because the program asked for
it, because a source text cannot be read, or because a form cannot be evaluated. The changes made
until then remain. `Eval.bind_apply` says how computations follow one another, and
`Eval.nested_of_lt` how the depth changes within a list.
-/

namespace Sexpr

/-- Why a computation gives no result. -/
inductive Stop where
  /-- The program ended itself. -/
  | exit
  | misread (error : ReadError)
  | failed (error : EvalError)
deriving DecidableEq, Repr

/-- The message of a fault that stopped a computation, none if the program ended itself. -/
def Stop.message? : Stop → Option String
  | exit => none
  | misread error => some error.message
  | failed error => some error.message

/-- A computation on a machine: a result or the reason why there is none, and the machine
afterwards. -/
def Eval (α : Type) : Type := Machine → Except Stop α × Machine

namespace Eval

/-- A computation goes on with the next one unless it stops; the changes to the machine add up. -/
instance : Monad Eval where
  pure value := fun m => (.ok value, m)
  bind first next := fun m =>
    match first m with
    | (.ok value, after) => next value after
    | (.error stop, after) => (.error stop, after)

variable {α β : Type}

/-- A mere value leaves the machine as it is. -/
@[simp]
theorem pure_apply (value : α) (m : Machine) : (pure value : Eval α) m = (.ok value, m) := rfl

/-- What follows a computation runs on the machine it leaves, unless it stopped. -/
theorem bind_apply (first : Eval α) (next : α → Eval β) (m : Machine) :
    (first >>= next) m =
      match first m with
      | (.ok value, after) => next value after
      | (.error stop, after) => (.error stop, after) := rfl

/-- Computations form a monad up to equality. -/
instance : LawfulMonad Eval :=
  LawfulMonad.mk' _
    (fun first => by
      funext m
      change (first >>= fun value => pure value) m = first m
      rw [bind_apply]
      rcases first m with ⟨_ | _, _⟩ <;> rfl)
    (fun _ _ => rfl)
    (fun first next last => by
      funext m
      simp only [bind_apply]
      rcases first m with ⟨_ | _, _⟩ <;> rfl)

/-- Stop. -/
def stop (reason : Stop) : Eval α := fun m => (.error reason, m)

/-- Stop with a fault of evaluation. -/
def fail (fault : EvalFault) (position : Option Position) : Eval α :=
  stop (.failed ⟨fault, position⟩)

/-- The nesting limit of the machine. -/
def limit : Eval Int := fun m => (.ok m.limit, m)

/-- Change the machine. -/
def change (f : Machine → Machine) : Eval Unit := fun m => (.ok (), f m)

/-- Write a line to the output. -/
def writeLine (line : List Char) : Eval Unit := change (·.writeLine line)

/-- Add a record to the log. -/
def report (record : LogRecord) : Eval Unit := change (·.report record)

/-- Take the next word of the input; none if only white space is left. -/
def takeWord : Eval (Option (List Char)) := fun m => (.ok m.takeWord.1, m.takeWord.2)

/-- Compute within one more list, and leave that list again however the computation ends. A list
that is one too many is refused. -/
def nested (position : Option Position) (inner : Eval α) : Eval α := fun m =>
  if m.limit ≤ m.depth then fail (.tooDeep m.limit) position m
  else
    let (result, after) := inner { m with depth := m.depth + 1 }
    (result, { after with depth := after.depth - 1 })

/-- Stopping leaves the machine as it is. -/
@[simp]
theorem stop_apply (reason : Stop) (m : Machine) : (stop reason : Eval α) m = (.error reason, m) :=
  rfl

/-- A fault leaves the machine as it is. -/
@[simp]
theorem fail_apply (fault : EvalFault) (position : Option Position) (m : Machine) :
    (fail fault position : Eval α) m = (.error (.failed ⟨fault, position⟩), m) := rfl

/-- Looking at the limit leaves the machine as it is. -/
@[simp]
theorem limit_apply (m : Machine) : limit m = (.ok m.limit, m) := rfl

/-- A change always succeeds. -/
@[simp]
theorem change_apply (f : Machine → Machine) (m : Machine) : change f m = (.ok (), f m) := rfl

/-- Writing a line always succeeds. -/
@[simp]
theorem writeLine_apply (line : List Char) (m : Machine) :
    writeLine line m = (.ok (), m.writeLine line) := rfl

/-- Adding a record always succeeds. -/
@[simp]
theorem report_apply (record : LogRecord) (m : Machine) :
    report record m = (.ok (), m.report record) := rfl

/-- Taking a word always succeeds, with no word if there is none. -/
@[simp]
theorem takeWord_apply (m : Machine) : takeWord m = (.ok m.takeWord.1, m.takeWord.2) := rfl

/-- With no room for one more list nothing is computed. -/
theorem nested_of_le {m : Machine} (h : m.limit ≤ m.depth) (position : Option Position)
    (inner : Eval α) :
    nested position inner m = (.error (.failed ⟨.tooDeep m.limit, position⟩), m) :=
  if_pos h

/-- With room for one more list the depth is one more during the computation and one less after
it. -/
theorem nested_of_lt {m : Machine} (h : m.depth < m.limit) (position : Option Position)
    (inner : Eval α) :
    nested position inner m =
      ((inner { m with depth := m.depth + 1 }).1,
        { (inner { m with depth := m.depth + 1 }).2 with
          depth := (inner { m with depth := m.depth + 1 }).2.depth - 1 }) :=
  if_neg (Int.not_le.mpr h)

end Eval

end Sexpr
