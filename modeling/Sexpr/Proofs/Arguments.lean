import Mathlib.Data.List.Forall2
import Sexpr.Eval

/-!
# Arguments of native functions

What a native function makes of its arguments before it acts. `Kind.Holds` says which values are of
a kind, `Native.Accepts` that there is one argument of the right kind for each parameter, and
`Native.Refuses` with which fault arguments are refused: their number is wrong, or else the leftmost
misfit is named. Arguments are either accepted or refused (`Native.accepts_or_refuses`), arguments
that are accepted are those on which a function acts (`Native.Accepts.actsOn`), and a call with
refused arguments does nothing but fail (`Native.call_of_refuses`).
-/

namespace Sexpr

/-- `kind.Holds value` says the value is of the kind. Integers may be of any size; truth values are
of no kind. -/
inductive Kind.Holds : Kind → Value → Prop where
  | integer (n : Int) : Holds .integer (.int n)
  | string (text : String) : Holds .string (.str text)

/-- The test of the kind says whether the value is of that kind. -/
theorem Value.hasKind_iff {value : Value} {kind : Kind} :
    value.hasKind kind = true ↔ kind.Holds value := by
  constructor
  · intro h
    cases kind with
    | integer =>
        cases value with
        | int n => exact .integer n
        | str | native | bool | nothing => cases h
    | string =>
        cases value with
        | str text => exact .string text
        | int | native | bool | nothing => cases h
  · rintro (n | text) <;> rfl

/-! ## Misfits -/

/-- The value at `index` is not of the kind that is wanted there. -/
structure Misfit (kinds : List Kind) (values : List Value) (index : Nat) (wanted : Kind)
    (value : Value) : Prop where
  wanted_eq : kinds[index]? = some wanted
  value_eq : values[index]? = some value
  not_holds : ¬wanted.Holds value

/-- The value at `index` is not of the kind that is wanted there, and there is no such value further
left. -/
structure FirstMisfit (kinds : List Kind) (values : List Value) (index : Nat) (wanted : Kind)
    (value : Value) : Prop extends Misfit kinds values index wanted value where
  fits_before {i : Nat} {kind : Kind} {other : Value} :
    i < index → ¬Misfit kinds values i kind other

section Misfits

variable {kind wanted : Kind} {kinds : List Kind} {first value : Value} {values : List Value}
  {index : Nat}

/-- A misfit behind the first value is one among the values after it. -/
theorem misfit_succ_iff :
    Misfit (kind :: kinds) (first :: values) (index + 1) wanted value ↔
      Misfit kinds values index wanted value :=
  ⟨fun h => ⟨h.wanted_eq, h.value_eq, h.not_holds⟩, fun h => ⟨h.wanted_eq, h.value_eq, h.not_holds⟩⟩

/-- A first value of the right kind is no misfit. -/
theorem not_misfit_zero (h : kind.Holds first) :
    ¬Misfit (kind :: kinds) (first :: values) 0 wanted value := by
  rintro ⟨⟨⟩, ⟨⟩, hnot⟩
  exact hnot h

/-- The leftmost misfit behind a first value of the right kind is the leftmost of all. -/
theorem FirstMisfit.cons (hfirst : kind.Holds first)
    (h : FirstMisfit kinds values index wanted value) :
    FirstMisfit (kind :: kinds) (first :: values) (index + 1) wanted value where
  toMisfit := misfit_succ_iff.mpr h.toMisfit
  fits_before {i _ _} hi hmisfit := by
    cases i with
    | zero => exact not_misfit_zero hfirst hmisfit
    | succ i => exact h.fits_before (by omega) (misfit_succ_iff.mp hmisfit)

/-- There is at most one leftmost misfit. -/
theorem FirstMisfit.unique {index' : Nat} {wanted' : Kind} {value' : Value}
    (h : FirstMisfit kinds values index wanted value)
    (h' : FirstMisfit kinds values index' wanted' value') :
    index = index' ∧ wanted = wanted' ∧ value = value' := by
  rcases Nat.lt_trichotomy index index' with hlt | rfl | hgt
  · exact absurd h.toMisfit (h'.fits_before hlt)
  · have hwanted := h.wanted_eq.symm.trans h'.wanted_eq
    have hvalue := h.value_eq.symm.trans h'.value_eq
    exact ⟨rfl, Option.some.inj hwanted, Option.some.inj hvalue⟩
  · exact absurd h'.toMisfit (h.fits_before hgt)

/-- Values in the right number of which none is a misfit are all of the kind that is wanted. -/
theorem forall₂_holds_of_no_misfit (hlength : values.length = kinds.length)
    (h : ∀ index wanted value, ¬Misfit kinds values index wanted value) :
    List.Forall₂ Kind.Holds kinds values := by
  refine List.forall₂_iff_get.mpr ⟨hlength.symm, fun i hkind hvalue => ?_⟩
  by_contra hnot
  exact h i _ _ ⟨List.getElem?_eq_getElem hkind, List.getElem?_eq_getElem hvalue, hnot⟩

/-- Values that are all of the kind that is wanted are no misfits. -/
theorem not_misfit_of_forall₂ (h : List.Forall₂ Kind.Holds kinds values) :
    ¬Misfit kinds values index wanted value := by
  rintro ⟨hwanted, hvalue, hnot⟩
  obtain ⟨hi, rfl⟩ := List.getElem?_eq_some_iff.mp hwanted
  obtain ⟨hi', rfl⟩ := List.getElem?_eq_some_iff.mp hvalue
  exact hnot ((List.forall₂_iff_get.mp h).2 index hi hi')

end Misfits

/-- The search gives the leftmost misfit, and nothing only if there is none. -/
theorem Native.misfit?_cases (start : Nat) (kinds : List Kind) (values : List Value) :
    (misfit? start kinds values = none ∧
      ∀ index wanted value, ¬Misfit kinds values index wanted value) ∨
    ∃ index wanted value, misfit? start kinds values = some (start + index, wanted, value) ∧
      FirstMisfit kinds values index wanted value := by
  induction kinds generalizing start values with
  | nil => exact .inl ⟨by cases values <;> rfl, fun _ _ _ h => nomatch h.wanted_eq⟩
  | cons kind kinds ih =>
      cases values with
      | nil => exact .inl ⟨rfl, fun _ _ _ h => nomatch h.value_eq⟩
      | cons first values =>
          unfold misfit?
          split
          · next hkind =>
              have hfirst := Value.hasKind_iff.mp hkind
              obtain ⟨hnone, hfits⟩ | ⟨index, wanted, value, hsome, hmisfit⟩ :=
                ih (start + 1) values
              · refine .inl ⟨hnone, fun index wanted value h => ?_⟩
                cases index with
                | zero => exact not_misfit_zero hfirst h
                | succ index => exact hfits index wanted value (misfit_succ_iff.mp h)
              · refine .inr ⟨index + 1, wanted, value, ?_, hmisfit.cons hfirst⟩
                rw [hsome, Nat.add_right_comm, Nat.add_assoc]
          · next hkind =>
              have hnot := mt Value.hasKind_iff.mpr hkind
              exact .inr ⟨0, kind, first, rfl, ⟨rfl, rfl, hnot⟩, fun hi => absurd hi (by omega)⟩

/-! ## Calls -/

namespace Native

/-- There is one argument of the right kind for each parameter. -/
def Accepts (f : Native) (arguments : List Value) : Prop :=
  List.Forall₂ Kind.Holds f.parameters arguments

/-- `f.Refuses arguments fault` says the function does not take the arguments, and what is wrong
with them. -/
inductive Refuses (f : Native) (arguments : List Value) : EvalFault → Prop where
  | arity : arguments.length ≠ f.arity → Refuses f arguments (.callArity f arguments.length)
  | kind {index : Nat} {wanted : Kind} {value : Value} : arguments.length = f.arity →
      FirstMisfit f.parameters arguments index wanted value →
      Refuses f arguments (.argumentKind f index wanted value)

/-- The arguments on which each function acts. -/
inductive ActsOn : Native → List Value → Prop where
  | printString (text : String) : ActsOn .printString [.str text]
  | printInt (n : Int) : ActsOn .printInt [.int n]
  | readInt : ActsOn .readInt []
  | add (a b : Int) : ActsOn .add [.int a, .int b]
  | equal (a b : Int) : ActsOn .equal [.int a, .int b]
  | exit : ActsOn .exit []

variable {f : Native} {arguments : List Value}

/-- A function acts on the arguments that it accepts. -/
theorem Accepts.actsOn (h : f.Accepts arguments) : f.ActsOn arguments := by
  cases f with
  | printString =>
      obtain _ | ⟨_ | ⟨text⟩, ⟨⟩⟩ := h
      exact .printString text
  | printInt =>
      obtain _ | ⟨⟨n⟩, ⟨⟩⟩ := h
      exact .printInt n
  | readInt =>
      obtain ⟨⟩ := h
      exact .readInt
  | add =>
      obtain _ | ⟨⟨a⟩, _ | ⟨⟨b⟩, ⟨⟩⟩⟩ := h
      exact .add a b
  | equal =>
      obtain _ | ⟨⟨a⟩, _ | ⟨⟨b⟩, ⟨⟩⟩⟩ := h
      exact .equal a b
  | exit =>
      obtain ⟨⟩ := h
      exact .exit

/-- A function takes its arguments, or it finds something wrong with them. -/
theorem accepts_or_refuses (f : Native) (arguments : List Value) :
    f.Accepts arguments ∨ ∃ fault, f.Refuses arguments fault := by
  by_cases harity : arguments.length = f.arity
  · obtain ⟨-, hfits⟩ | ⟨index, wanted, value, -, hmisfit⟩ :=
      misfit?_cases 0 f.parameters arguments
    · exact .inl (forall₂_holds_of_no_misfit harity hfits)
    · exact .inr ⟨_, .kind harity hmisfit⟩
  · exact .inr ⟨_, .arity harity⟩

/-- A call with a wrong number of arguments is refused whatever they are. -/
theorem call_of_length_ne (h : arguments.length ≠ f.arity) (position : Option Position) :
    f.call position arguments = Eval.fail (.callArity f arguments.length) position := by
  unfold call
  split
  all_goals first | exact absurd rfl h | skip
  unfold misuse
  rw [if_neg h]

/-- The search finds the leftmost misfit. -/
theorem misfit?_of_first {kinds : List Kind} {values : List Value} {index : Nat} {wanted : Kind}
    {value : Value} (h : FirstMisfit kinds values index wanted value) :
    misfit? 0 kinds values = some (index, wanted, value) := by
  obtain ⟨-, hfits⟩ | ⟨index', wanted', value', hsome, hmisfit⟩ := misfit?_cases 0 kinds values
  · exact absurd h.toMisfit (hfits index wanted value)
  · obtain ⟨rfl, rfl, rfl⟩ := h.unique hmisfit
    rw [hsome, Nat.zero_add]

/-- A call with refused arguments does nothing but fail. -/
theorem call_of_refuses {fault : EvalFault} (h : f.Refuses arguments fault)
    (position : Option Position) : f.call position arguments = Eval.fail fault position := by
  cases h with
  | arity harity => exact call_of_length_ne harity position
  | kind harity hmisfit =>
      have hfound := misfit?_of_first hmisfit
      unfold call
      split
      all_goals first | cases hfound | skip
      unfold misuse
      rw [if_pos harity, hfound]

end Native

end Sexpr
