import Sexpr.Native
import Sexpr.Text.Quoted

/-!
# Values

Programs compute with integers, strings and native functions. A scope may also hold truth values and
the absent value, which no program makes by itself: they count as neither integers nor strings.
-/

namespace Sexpr

/-- What a name can be bound to. -/
inductive Value where
  | int (n : Int)
  | str (text : String)
  | native (f : Native)
  | bool (b : Bool)
  | nothing
deriving DecidableEq, Repr

namespace Value

/-- The name of the value's type in messages. -/
def typeName : Value → String
  | int _ => "integer"
  | str _ => "string"
  | native _ => "native function"
  | bool _ => "boolean"
  | nothing => "NoneType"

/-- The value as messages show it: a string stands between quotes. -/
def display : Value → String
  | int n => toString n
  | str text => String.ofList (Text.quoted text.toList)
  | native f => f.display
  | bool b => if b then "True" else "False"
  | nothing => "None"

/-- The value is of the kind that a native function asks for. -/
def hasKind : Value → Kind → Bool
  | int _, .integer => true
  | str _, .string => true
  | _, _ => false

end Value

end Sexpr
