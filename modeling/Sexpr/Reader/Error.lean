import Sexpr.Position
import Sexpr.Text.Quoted

/-!
# Faults of source text

Why a source text cannot be read, and where. Every fault of the reader has a position.
-/

namespace Sexpr

/-- Why a source text cannot be read. -/
inductive ReadFault where
  /-- A form was asked for where the text has ended. -/
  | endOfInput
  /-- A form was asked for at a closing parenthesis. -/
  | strayClose
  /-- The text of one form goes on after it with this character. -/
  | trailing (c : Char)
  /-- A list would be nested deeper than the limit. -/
  | tooDeep (limit : Int)
  /-- The text ends within a list. -/
  | missingClose
  /-- The text ends within a string literal. -/
  | unterminated
  /-- A line ends within a string literal. -/
  | newline
  /-- A string literal escapes a character that has no escape. -/
  | badEscape (c : Char)
deriving DecidableEq, Repr

/-- The fault as it is worded for the user. -/
def ReadFault.message : ReadFault → String
  | endOfInput => "expected a form, got end of input"
  | strayClose => "unexpected ')'"
  | trailing c => "unexpected input after form: " ++ String.ofList (Text.quoted [c])
  | tooDeep limit => s!"lists nested deeper than {limit} levels"
  | missingClose => "missing closing parenthesis"
  | unterminated => "unterminated string literal"
  | newline => "string literal cannot contain newline"
  | badEscape c => "invalid escape sequence '\\" ++ String.singleton c ++ "'"

/-- A fault together with its place. -/
structure ReadError where
  fault : ReadFault
  position : Position
deriving DecidableEq, Repr

/-- The fault and its place as they are worded for the user. -/
def ReadError.message (error : ReadError) : String :=
  s!"{error.fault.message} (at {error.position.text})"

end Sexpr
