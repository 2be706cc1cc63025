import Sexpr.Value

/-!
# Bindings

A table from names to values, in the order in which the names were first bound. Its view is
`Bindings.find?`, and `Bindings.find?_insert` says what binding a name does to it.
-/

namespace Sexpr

/-- Names with their values. A name that occurs twice means what its first occurrence says. -/
abbrev Bindings := List (Symbol × Value)

/-- Bind a name: in place of its present value, or after the other names. -/
def Bindings.insert (name : Symbol) (value : Value) : Bindings → Bindings
  | [] => [(name, value)]
  | (other, present) :: rest =>
      if name = other then (name, value) :: rest
      else (other, present) :: Bindings.insert name value rest

/-- The value of a name. -/
def Bindings.find? (name : Symbol) : Bindings → Option Value
  | [] => none
  | (other, value) :: rest => if name = other then some value else Bindings.find? name rest

/-- Binding a name changes the value of that name and of no other. -/
theorem Bindings.find?_insert (name other : Symbol) (value : Value) (bindings : Bindings) :
    (Bindings.insert name value bindings).find? other =
      if other = name then some value else bindings.find? other := by
  induction bindings with
  | nil => simp [insert, find?]
  | cons binding rest ih =>
      obtain ⟨first, present⟩ := binding
      by_cases hf : name = first
      · subst hf
        by_cases ho : other = name <;> simp [insert, find?, ho]
      · by_cases ho : other = first
        · subst ho
          simp [insert, find?, hf, Ne.symm hf]
        · simp [insert, find?, hf, ho, ih]

end Sexpr
