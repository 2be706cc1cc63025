import Sexpr.Eval
import Sexpr.Reader

/-!
# The interpreter

A source text is read as a whole before anything in it is evaluated; its forms are then evaluated in
the global scope, one after the other. What lies behind an unmatched closing parenthesis is
reported and never read. All that one source text leaves for the next is the state of the machine.
-/

namespace Sexpr.Interpreter

/-- A record of the interpreter. -/
def record (level : LogLevel) (message : String) : LogRecord := ⟨level, "cata.interpreter", message⟩

/-- The record of a form that is about to be evaluated. -/
def evaluating (form : Node) : LogRecord :=
  record .debug ("evaluating " ++ String.ofList form.render)

/-- The record of the place where reading ended before the text did. -/
def ignoring (position : Position) : LogRecord :=
  record .warning s!"ignoring input after unmatched ')' at {position.text}"

/-- The forms of a source text up to its end or to an unmatched closing parenthesis. -/
def read (source : String) : Eval (List Node) := do
  let limit ← Eval.limit
  match (Reader.ofText source limit).readForms with
  | (.error error, _) => Eval.stop (.misread error)
  | (.ok forms, reader) =>
      if reader.atEnd then pure forms
      else do
        Eval.report (ignoring reader.skipBlanks.position)
        pure forms

/-- The value of a top-level form. -/
def evalTop (form : Node) : Eval Value := do
  Eval.change fun m => { m with depth := 0 }
  form.eval .global

/-- Evaluate forms in order for what they do. -/
def runForms : List Node → Eval Unit
  | [] => pure ()
  | form :: forms => do
      Eval.report (evaluating form)
      let _ ← evalTop form
      runForms forms

/-- The value of the last of some forms, after one with the value `last`. -/
def evalForms (last : Value) : List Node → Eval Value
  | [] => pure last
  | form :: forms => do
      let value ← evalTop form
      evalForms value forms

/-- Evaluate the forms of a source text for what they do. -/
def run (source : String) : Eval Unit := read source >>= runForms

/-- The value of the last form of a source text, absent if there is no form. -/
def eval (source : String) : Eval Value := read source >>= evalForms .nothing

end Sexpr.Interpreter
