import Sexpr.Node
import Sexpr.Reader.Lexeme
import Sexpr.Word

/-!
# The reader

Lexemes are assembled into forms by keeping the lists that are still open on a stack. Reading goes
on over top-level forms until the text ends, a closing parenthesis closes no list, or a fault is
met; `Outcome` records the forms completed until then, each with the cursor after it. What a
caller asks for is a view of that outcome: `Reader.readForms` wants all forms up to the end or an
unmatched parenthesis, `Reader.readForm` the first form and nothing of what follows it.

The limit is the only bound on nesting. The call stack of the host is not modelled: a reader that
goes down into lists by calling itself may use it up within some three hundred lists, where the
limit has been raised so far, and how it fails then is not described here.
-/

namespace Sexpr

/-- An atom is an integer if all its characters are digits, otherwise a symbol. -/
def Node.ofAtom (text : List Char) (position : Position) : Node :=
  if Word.isDigits text then .integer (Word.ofDigits text) position
  else .symbol (Symbol.ofText (String.ofList text)) position

/-- A list whose closing parenthesis is still to come: where it began, and its items so far, the
last one first. -/
structure OpenList where
  start : Position
  items : List Node

namespace OpenList

/-- The open list with one more item. -/
def push (opened : OpenList) (node : Node) : OpenList :=
  { opened with items := node :: opened.items }

/-- The list that a closing parenthesis makes of an open one. -/
def close (opened : OpenList) : Node := .list opened.items.reverse opened.start

end OpenList

/-- How reading of top-level forms ended. -/
inductive Halt where
  /-- The text ended. -/
  | finished
  /-- A closing parenthesis was met that closes no list. -/
  | unmatched
  | fault (error : ReadError)
deriving DecidableEq, Repr

/-- The top-level forms that were completed, each with the cursor just after it, how reading
ended, and the cursor where it ended. -/
structure Outcome where
  forms : List (Node × Cursor)
  halt : Halt
  cursor : Cursor

/-- What one lexeme does to the lists that are open. -/
inductive Shift where
  /-- These lists are open now. -/
  | opened (stack : List OpenList)
  /-- A form is complete, and these lists are open around it. -/
  | completed (node : Node) (outer : List OpenList)
  /-- Reading ends before this lexeme. -/
  | halted (halt : Halt)

/-- The effect of one lexeme when the lists of `stack`, innermost first, are open within `depth`
others. An opening parenthesis needs room below the limit. -/
def Lexeme.shift (limit : Int) (depth : Nat) (stack : List OpenList) (l : Lexeme) : Shift :=
  match l.token with
  | .opening =>
      if limit ≤ (depth + stack.length : Nat) then
        .halted (.fault ⟨.tooDeep limit, l.start.position⟩)
      else .opened (⟨l.start.position, []⟩ :: stack)
  | .closing =>
      match stack with
      | [] => .halted .unmatched
      | opened :: outer => .completed opened.close outer
  | .atom text => .completed (.ofAtom text l.start.position) stack
  | .literal text => .completed (.string (String.ofList text) l.start.position) stack

/-- How reading ends when there are no more lexemes and the lists of `stack` are open. -/
def Ending.halt (ending : Ending) (stack : List OpenList) : Halt :=
  match ending.fault, stack with
  | some error, _ => .fault error
  | none, [] => .finished
  | none, opened :: _ => .fault ⟨.missingClose, opened.start⟩

/-- Assemble lexemes into forms when the lists of `stack`, innermost first, are open. -/
def assemble (limit : Int) (depth : Nat) (ending : Ending) :
    List OpenList → List Lexeme → Outcome
  | stack, [] => ⟨[], ending.halt stack, ending.stop⟩
  | stack, l :: lexemes =>
      match l.shift limit depth stack with
      | .opened stack => assemble limit depth ending stack lexemes
      | .halted halt => ⟨[], halt, l.start⟩
      | .completed node (opened :: outer) =>
          assemble limit depth ending (opened.push node :: outer) lexemes
      | .completed node [] =>
          let later := assemble limit depth ending [] lexemes
          ⟨(node, l.stop) :: later.forms, later.halt, later.cursor⟩

/-- A cursor over source text, within `depth` lists that are already open, and the number of
lists that may be open at once. -/
structure Reader where
  cursor : Cursor
  depth : Nat
  limit : Int
deriving DecidableEq, Repr

namespace Reader

/-- The reader at the beginning of a source text. -/
def ofText (source : String) (limit : Int) : Reader := ⟨.ofText source.toList, 0, limit⟩

/-- The character at the cursor, none at the end of the text. -/
def peek (reader : Reader) : Option Char := reader.cursor.peek

/-- The place of the cursor. -/
def position (reader : Reader) : Position := reader.cursor.position

/-- The reader after the next character. -/
def advance (reader : Reader) : Reader := { reader with cursor := reader.cursor.advance }

/-- The reader after the blanks at its cursor. -/
def skipBlanks (reader : Reader) : Reader := { reader with cursor := reader.cursor.skipBlanks }

/-- Nothing but blanks is left. -/
def atEnd (reader : Reader) : Bool := reader.skipBlanks.peek.isNone

/-- What reading on from the cursor comes to. -/
def outcome (reader : Reader) : Outcome :=
  let found := scan reader.cursor
  assemble reader.limit reader.depth found.ending [] found.lexemes

/-- The forms up to the end of the text or to a closing parenthesis that closes no list, which
stays unread. -/
def readForms (reader : Reader) : Except ReadError (List Node) × Reader :=
  let outcome := reader.outcome
  let stopped := { reader with cursor := outcome.cursor }
  match outcome.halt with
  | .fault error => (.error error, stopped)
  | _ => (.ok (outcome.forms.map Prod.fst), stopped)

/-- The form at the cursor. What follows it is not looked at. -/
def readForm (reader : Reader) : Except ReadError Node × Reader :=
  let outcome := reader.outcome
  match outcome.forms with
  | (node, cursor) :: _ => (.ok node, { reader with cursor := cursor })
  | [] =>
      let stopped := { reader with cursor := outcome.cursor }
      match outcome.halt with
      | .finished => (.error ⟨.endOfInput, outcome.cursor.position⟩, stopped)
      | .unmatched => (.error ⟨.strayClose, outcome.cursor.position⟩, stopped)
      | .fault error => (.error error, stopped)

end Reader

/-- The top-level forms of a source text up to its end or to an unmatched closing parenthesis. -/
def parse (source : String) (limit : Int) : Except ReadError (List Node) :=
  (Reader.ofText source limit).readForms.1

/-- The one form of a source text; blanks may stand around it. -/
def parseForm (source : String) (limit : Int) : Except ReadError Node :=
  match (Reader.ofText source limit).readForm with
  | (.error error, _) => .error error
  | (.ok node, reader) =>
      match reader.skipBlanks.peek with
      | none => .ok node
      | some c => .error ⟨.trailing c, reader.skipBlanks.position⟩

end Sexpr
