import Sexpr.Proofs.Effects
import Sexpr.Proofs.Relocation

/-!
# Programs that do the same

Two computations match under a nesting limit if nothing but the log tells them apart: they end in
the same way, they write the same, and they leave the same words to read (`Eval.Matches`). A source
text that can be read matches the run of its forms, `Interpreter.run_matches`, so that programs
are compared by comparing their forms.
-/

namespace Sexpr

/-- Under the limit, the machines have the same words left to read and have written the same. -/
structure Machine.Level (limit : Int) (m other : Machine) : Prop where
  words_eq : m.words = other.words
  output_eq : m.output = other.output
  limit_left : m.limit = limit
  limit_right : other.limit = limit

namespace Eval

variable {limit : Int} {α β : Type} {x y z : Eval α}

/-- On level machines the computations end in the same way, and they leave level machines. -/
def Matches (limit : Int) (x y : Eval α) : Prop :=
  ∀ m other, Machine.Level limit m other →
    (x m).1 = (y other).1 ∧ Machine.Level limit (x m).2 (y other).2

/-- Matching is symmetric. -/
theorem Matches.symm (h : Matches limit x y) : Matches limit y x := by
  intro m other hm
  obtain ⟨hend, hlevel⟩ :=
    h other m ⟨hm.words_eq.symm, hm.output_eq.symm, hm.limit_right, hm.limit_left⟩
  exact ⟨hend.symm, hlevel.words_eq.symm, hlevel.output_eq.symm, hlevel.limit_right,
    hlevel.limit_left⟩

/-- Matching is transitive. -/
theorem Matches.trans (h : Matches limit x y) (h' : Matches limit y z) : Matches limit x z := by
  intro m other hm
  obtain ⟨hend, hlevel⟩ := h m m ⟨rfl, rfl, hm.limit_left, hm.limit_left⟩
  obtain ⟨hend', hlevel'⟩ := h' m other hm
  exact ⟨hend.trans hend', hlevel.words_eq.trans hlevel'.words_eq,
    hlevel.output_eq.trans hlevel'.output_eq, hlevel.limit_left, hlevel'.limit_right⟩

/-- Computations that match in turn match in a row. -/
theorem Matches.bind {f g : α → Eval β} (h : Matches limit x y)
    (hnext : ∀ value, Matches limit (f value) (g value)) : Matches limit (x >>= f) (y >>= g) := by
  intro m other hm
  obtain ⟨hend, hlevel⟩ := h m other hm
  obtain ⟨stop, after, after', hx, hy⟩ | ⟨value, after, after', hx, hy⟩ := stop_or_value hend
  · rw [hx, hy] at hlevel
    rw [bind_of_error hx, bind_of_error hy]
    exact ⟨rfl, hlevel⟩
  · rw [hx, hy] at hlevel
    rw [bind_of_ok hx, bind_of_ok hy]
    exact hnext value after after' hlevel

/-- Relocated computations match if the computations do. -/
theorem Matches.relocate (h : Matches limit x y) (f : Position → Option Position) :
    Matches limit (x.relocate f) (y.relocate f) := by
  intro m other hm
  obtain ⟨hend, hlevel⟩ := h m other hm
  exact ⟨congrArg (Except.mapError (Stop.relocate f)) hend, hlevel⟩

/-- What depends on the words and the limit alone matches itself. -/
theorem Uniform.matches (h : Uniform Machine.Alike x) : Matches limit x x := by
  intro m other hm
  obtain ⟨hend, hkept, text, records, hgrows, hgrows'⟩ :=
    h m other ⟨hm.words_eq, hm.limit_left.trans hm.limit_right.symm⟩
  refine ⟨hend, hkept.words_eq, ?_, hgrows.limit_eq.trans hm.limit_left,
    hgrows'.limit_eq.trans hm.limit_right⟩
  rw [hgrows.output_eq, hgrows'.output_eq, hm.output_eq]

end Eval

namespace Interpreter

open Eval (Matches)

variable {limit : Int} {source : String} {forms : List Node}

/-- Reading a source text that can be read matches giving its forms. -/
theorem read_matches (h : parse source limit = .ok forms) :
    Matches limit (read source) (pure forms) := by
  rintro m other ⟨hwords, houtput, rfl, hlimit⟩
  obtain ⟨log, hread⟩ := read_of_ok h
  rw [hread]
  exact ⟨rfl, hwords, houtput, rfl, hlimit⟩

/-- Running a source text that can be read matches running its forms. -/
theorem run_matches (h : parse source limit = .ok forms) :
    Matches limit (run source) (runForms forms) := by
  rw [← pure_bind forms runForms]
  exact (read_matches h).bind fun forms => (runForms_uniform forms).matches

end Interpreter

end Sexpr
