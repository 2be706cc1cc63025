import Sexpr.Symbol

/-!
# Native functions

The fixed table of functions that a program can call. What they do is the evaluator's business; here
stand their names and the kinds of argument they take.
-/

namespace Sexpr

/-- The kinds of value that a native function can ask for. -/
inductive Kind where
  | integer
  | string
deriving DecidableEq, Repr

/-- The kind with its article, as messages name it. -/
def Kind.phrase : Kind → String
  | integer => "an integer"
  | string => "a string"

/-- The functions that are there from the start. -/
inductive Native where
  | printString
  | printInt
  | readInt
  | add
  | equal
  | exit
deriving DecidableEq, Repr

namespace Native

/-- Every native function, in the order in which they are bound. -/
def all : List Native := [printString, printInt, readInt, add, equal, exit]

/-- The name by which programs call the function. -/
def name : Native → String
  | printString => "PRINT-STRING"
  | printInt => "PRINT-INT"
  | readInt => "READ-INT"
  | add => "+"
  | equal => "="
  | exit => "EXIT"

/-- The symbol to which the function is bound. -/
def symbol (f : Native) : Symbol := .ofText f.name

/-- The function of a name. -/
def ofName? (name : String) : Option Native := all.find? (·.name == name)

/-- The kinds of argument that the function takes, in order. -/
def parameters : Native → List Kind
  | printString => [.string]
  | printInt => [.integer]
  | readInt => []
  | add => [.integer, .integer]
  | equal => [.integer, .integer]
  | exit => []

/-- The number of arguments that the function takes. -/
def arity (f : Native) : Nat := f.parameters.length

/-- The function as a value is shown. -/
def display (f : Native) : String := s!"<native {f.name}/{f.arity}>"

/-- The table leaves out no function. -/
theorem mem_all (f : Native) : f ∈ all := by cases f <;> decide

end Native

end Sexpr
