import Sexpr.Scope.Bindings
import Sexpr.Scope.Key

/-!
# Frames

A frame is one level of bindings. It takes bindings one by one until it is frozen. Several entries
are bound in order, and the first that is refused ends it without undoing those before it.
-/

namespace Sexpr

/-- Why a scope refuses an operation. -/
inductive ScopeError where
  /-- Only a symbol can be bound. -/
  | notSymbol (key : Key)
  /-- A frozen frame takes no binding. -/
  | frozen (name : Symbol)
  /-- No frame binds the key. -/
  | unbound (key : Key)
deriving DecidableEq, Repr

/-- How an unbound name is reported. -/
def unboundMessage (name : String) : String := s!"'{name}' does not exist"

/-- The refusal as it is worded for the user. -/
def ScopeError.message : ScopeError → String
  | notSymbol key => s!"Cannot define {key.display} as a symbol"
  | frozen name => s!"Cannot define {name.name} in a frozen scope"
  | unbound key => unboundMessage key.plain

/-- One level of bindings. -/
structure Frame where
  bindings : Bindings
  frozen : Bool
deriving DecidableEq, Repr

namespace Frame

/-- The frame without bindings. -/
def empty : Frame := ⟨[], false⟩

/-- Bind a key in the frame. That it is a symbol is looked at before the frame is. -/
def define (frame : Frame) (key : Key) (value : Value) : Except ScopeError Frame :=
  match key with
  | .symbol name =>
      if frame.frozen then .error (.frozen name)
      else .ok { frame with bindings := frame.bindings.insert name value }
  | key => .error (.notSymbol key)

/-- Bind entries one by one. The first that is refused ends it; those before it stay bound. -/
def defineAll (frame : Frame) : Entries → Option ScopeError × Frame
  | [] => (none, frame)
  | (key, value) :: rest =>
      match frame.define key value with
      | .ok frame => frame.defineAll rest
      | .error error => (some error, frame)

/-- Bind the table of some entries. -/
def update (frame : Frame) (entries : Entries) : Option ScopeError × Frame :=
  frame.defineAll entries.distinct

/-- The frame that takes no more bindings. -/
def freeze (frame : Frame) : Frame := { frame with frozen := true }

/-- The value of a name in the frame. -/
def find? (frame : Frame) (name : Symbol) : Option Value := frame.bindings.find? name

/-- The bindings of the frame in the order of their names. -/
def sorted (frame : Frame) : Bindings :=
  frame.bindings.mergeSort fun a b => a.1.name ≤ b.1.name

end Frame

end Sexpr
