import Sexpr.Binary64.Decimal
import Sexpr.Value

/-!
# Keys

Bindings are offered under keys, of which only a symbol can be bound. A text that is no symbol still
finds the symbol whose name it is, letter for letter. Before a table of entries is bound, entries
under interchangeable keys are made one; numbers are interchangeable if they are equal, however they
are written.
-/

namespace Sexpr

/-- What a binding is offered under: a symbol, or something that is none. -/
inductive Key where
  | symbol (s : Symbol)
  | text (text : String)
  | number (n : Int)
  | real (x : Binary64)
  | bool (b : Bool)
  | nothing
deriving DecidableEq, Repr

namespace Key

/-- The key as it is written out in full, a text between quotes. -/
def display : Key → String
  | symbol s => String.ofList (Text.quoted s.name.toList)
  | text t => String.ofList (Text.quoted t.toList)
  | number n => toString n
  | real x => x.text
  | bool b => if b then "True" else "False"
  | nothing => "None"

/-- The key as it reads within a sentence, a text as it is. -/
def plain : Key → String
  | symbol s => s.name
  | text t => t
  | key => key.display

/-- The key with which it is interchangeable in a table: a symbol is found under its name, a truth
value under its number, and a whole number of any form under the integer. -/
def canonical : Key → Key
  | symbol s => text s.name
  | bool b => number (if b then 1 else 0)
  | real x => (x.whole?.map number).getD (real x)
  | key => key

/-- The symbol that a key finds in a frame, if it can find any: itself, or the symbol whose name the
text is. -/
def symbol? : Key → Option Symbol
  | symbol s => some s
  | text t => if h : upcase t = t then some ⟨t, h⟩ else none
  | _ => none

end Key

/-- Entries of a table, in order. -/
abbrev Entries := List (Key × Value)

/-- Enter a value: under the present key that is interchangeable with the given one, or after the
other entries. -/
def Entries.insert (key : Key) (value : Value) : Entries → Entries
  | [] => [(key, value)]
  | (other, present) :: rest =>
      if key.canonical = other.canonical then (other, value) :: rest
      else (other, present) :: Entries.insert key value rest

/-- The table of a sequence of entries: interchangeable keys keep their first place and spelling,
and have their last value. -/
def Entries.distinct (entries : Entries) : Entries :=
  entries.foldl (fun table entry => table.insert entry.1 entry.2) []

end Sexpr
