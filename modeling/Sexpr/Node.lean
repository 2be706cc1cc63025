import Sexpr.Position
import Sexpr.Symbol

/-!
# Syntax trees

A form is a list, a symbol, a string or an integer, and remembers where it began in its source. A
tree may also hold holes: places where no form was supplied. The reader never makes one, a tree with
a hole cannot be written down, and a hole cannot be evaluated.

`Node.item` selects an item of a list, also counted from its end. `Node.render` writes a tree as
source text, with one space between the items of a list. `Node.same` compares two trees without
looking at positions.
-/

namespace Sexpr

/-- A form of source text, with the place where it began if it is known. -/
inductive Node where
  | list (items : List Node) (position : Option Position)
  | symbol (symbol : Symbol) (position : Option Position)
  | string (text : String) (position : Option Position)
  | integer (value : Int) (position : Option Position)
  | hole
deriving Inhabited

/-- Why a list has no item at an index. -/
inductive IndexFault where
  /-- The list does not reach that far. -/
  | outOfRange
  /-- No list could reach that far. -/
  | notIndex
deriving DecidableEq, Repr

/-- The fault as it is worded for the user. -/
def IndexFault.message : IndexFault → String
  | outOfRange => "tuple index out of range"
  | notIndex => "cannot fit 'int' into an index-sized integer"

/-- The integer is an index: it is not below `-2 ^ 63` and it is below `2 ^ 63`. -/
def isIndex (n : Int) : Bool := -9223372036854775808 ≤ n && n < 9223372036854775808

namespace Node

/-- Where the form began in its source. -/
def position : Node → Option Position
  | list _ p => p
  | symbol _ p => p
  | string _ p => p
  | integer _ p => p
  | hole => none

/-- The items of a list, none for any other form. -/
def items : Node → List Node
  | list items _ => items
  | _ => []

/-- The item at an index, counted from the end when the index is negative. -/
def item? (node : Node) (index : Int) : Option Node :=
  if 0 ≤ index then node.items[index.toNat]?
  else if -index ≤ node.items.length then node.items[(node.items.length + index).toNat]?
  else none

/-- The item at an index, or why there is none. What is no index is refused before the list is
looked at. -/
def item (node : Node) (index : Int) : Except IndexFault Node :=
  if isIndex index then
    match node.item? index with
    | some item => .ok item
    | none => .error .outOfRange
  else .error .notIndex

/-- One character of a string literal: a quote and a line feed are written as escapes. -/
def literalChar (c : Char) : List Char :=
  if c = '"' then ['\\', '"'] else if c = '\n' then ['\\', 'n'] else [c]

/-- The literal that writes a text. A backslash stands for itself. -/
def literal (text : List Char) : List Char :=
  '"' :: text.flatMap literalChar ++ ['"']

mutual

/-- The source text of a form. A hole leaves no text. -/
def render : Node → List Char
  | list items _ => '(' :: renderItems items ++ [')']
  | symbol s _ => s.name.toList
  | string text _ => literal text.toList
  | integer value _ => (toString value).toList
  | hole => []

/-- The source texts of forms, with a space between two of them. -/
def renderItems : List Node → List Char
  | [] => []
  | [node] => render node
  | node :: nodes => render node ++ ' ' :: renderItems nodes

end

mutual

/-- No hole occurs in the form. -/
def isWhole : Node → Bool
  | list items _ => allWhole items
  | hole => false
  | _ => true

/-- No hole occurs in the forms. -/
def allWhole : List Node → Bool
  | [] => true
  | node :: nodes => isWhole node && allWhole nodes

end

/-- The source text of a form without holes. -/
def text? (node : Node) : Option String :=
  if node.isWhole then some (String.ofList node.render) else none

mutual

/-- Two forms have the same shape and the same leaves, wherever they began. -/
def same : Node → Node → Bool
  | list items _, list others _ => sameItems items others
  | symbol s _, symbol t _ => s == t
  | string text _, string other _ => text == other
  | integer value _, integer other _ => value == other
  | hole, hole => true
  | _, _ => false

/-- Two sequences of forms are as long as each other and the same item by item. -/
def sameItems : List Node → List Node → Bool
  | [], [] => true
  | node :: nodes, other :: others => same node other && sameItems nodes others
  | _, _ => false

end

end Node

end Sexpr
