import Sexpr.Scope.Frame

/-!
# Scopes

A scope is a chain of frames, innermost first; a name means what the first frame that binds it says.
The global scope is one frozen frame that binds the native functions.
-/

namespace Sexpr

/-- The entries that bind the native functions. -/
def Native.entries : Entries := Native.all.map fun f => (.symbol f.symbol, .native f)

/-- The frozen frame of the native functions. -/
def Frame.global : Frame := (Frame.empty.update Native.entries).2.freeze

/-- A chain of frames, innermost first. -/
abbrev Scope := List Frame

namespace Scope

/-- The scope that binds the native functions and nothing else. -/
def global : Scope := [.global]

/-- The scope with one more frame inside. -/
def child (scope : Scope) (bindings : Bindings) : Scope := ⟨bindings, false⟩ :: scope

/-- The value of a name: the innermost frame that binds it decides. -/
def lookup (scope : Scope) (name : Symbol) : Option Value := scope.findSome? (·.find? name)

end Scope

end Sexpr
