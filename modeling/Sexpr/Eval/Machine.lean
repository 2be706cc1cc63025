import Sexpr.Log
import Sexpr.Text.Line
import Sexpr.Text.Space

/-!
# The machine

Everything that evaluation can change is the state of one machine: the input that is still unread,
the output and the log written so far, and the number of lists around the form being evaluated.

Input is taken word by word, but fetched line by line: the words of a fetched line wait in
`pending`.
-/

namespace Sexpr

/-- The state of evaluation. -/
structure Machine where
  /-- The words of the current input line that are not yet taken. -/
  pending : List (List Char)
  /-- The input after the current line. -/
  unread : List Char
  /-- The text written so far. -/
  output : List Char
  /-- The records logged so far. -/
  log : List LogRecord
  /-- The number of lists around the form being evaluated. -/
  depth : Int
  /-- The number of lists that may be around a form. -/
  limit : Int
deriving DecidableEq, Repr

namespace Machine

/-- A fresh machine on an input text. -/
def ofInput (input : String) (limit : Int) : Machine := ⟨[], input.toList, [], [], 0, limit⟩

/-- The machine with a line written to its output. -/
def writeLine (m : Machine) (line : List Char) : Machine :=
  { m with output := m.output ++ line ++ ['\n'] }

/-- The machine with a record added to its log. -/
def report (m : Machine) (record : LogRecord) : Machine := { m with log := m.log ++ [record] }

/-- The words of the first line that has any, and the text after that line. -/
def fetch (text : List Char) : List (List Char) × List Char :=
  if text.isEmpty then ([], [])
  else
    match Text.words (Text.splitLine text).1 with
    | [] => fetch (Text.splitLine text).2
    | words => (words, (Text.splitLine text).2)
termination_by text.length
decreasing_by
  have hshorter := Text.length_splitLine_snd text
  have hpos : 0 < text.length := List.length_pos_iff.mpr (by simpa using ‹¬text.isEmpty = true›)
  omega

/-- Take the next word of the input; none if only white space is left. -/
def takeWord (m : Machine) : Option (List Char) × Machine :=
  match m.pending with
  | word :: pending => (some word, { m with pending := pending })
  | [] =>
      match fetch m.unread with
      | ([], unread) => (none, { m with unread := unread })
      | (word :: pending, unread) => (some word, { m with pending := pending, unread := unread })

end Machine

end Sexpr
