import Sexpr.Proofs.Evaluation

/-!
# What a computation does to the machine

A computation adds to the output and to the log and takes words from the front of the input
(`Machine.Grows`). What it adds, and how it ends, depends on the words that are left, the depth and
the limit, and on nothing else of the machine: not on how the input is divided into lines, and not
on what was written or logged before. `Eval.Uniform` says so of one computation run on two machines.
Evaluation of every form is uniform, and what the interpreter does with a source text does not
depend on the depth either, because every top-level form is evaluated within no list.
-/

namespace Sexpr

namespace Machine

/-- From the first machine to the second, `text` was written, `records` were logged and some words
were taken. -/
structure Grows (m : Machine) (text : List Char) (records : List LogRecord) (after : Machine) :
    Prop where
  output_eq : after.output = m.output ++ text
  log_eq : after.log = m.log ++ records
  words_suffix : after.words <:+ m.words
  limit_eq : after.limit = m.limit

/-- A machine grows by nothing into itself. -/
theorem Grows.refl (m : Machine) : m.Grows [] [] m :=
  ⟨by simp, by simp, List.suffix_refl _, rfl⟩

/-- What was added in two steps was added in one. -/
theorem Grows.trans {m middle after : Machine} {text more : List Char}
    {records later : List LogRecord} (h : m.Grows text records middle)
    (hmore : middle.Grows more later after) : m.Grows (text ++ more) (records ++ later) after where
  output_eq := by rw [hmore.output_eq, h.output_eq, List.append_assoc]
  log_eq := by rw [hmore.log_eq, h.log_eq, List.append_assoc]
  words_suffix := hmore.words_suffix.trans h.words_suffix
  limit_eq := hmore.limit_eq.trans h.limit_eq

/-- The depth makes no difference to what was added. -/
theorem Grows.of_depth {m after : Machine} {text : List Char} {records : List LogRecord}
    {depth : Int} (h : Grows { m with depth := depth } text records after) (newDepth : Int) :
    m.Grows text records { after with depth := newDepth } :=
  ⟨h.output_eq, h.log_eq, h.words_suffix, h.limit_eq⟩

/-- Only the output is changed by writing a line. -/
theorem grows_writeLine (m : Machine) (line : List Char) :
    m.Grows (line ++ ['\n']) [] (m.writeLine line) :=
  ⟨List.append_assoc _ _ _, by simp [writeLine], List.suffix_refl _, rfl⟩

/-- Only the log is changed by a record. -/
theorem grows_report (m : Machine) (record : LogRecord) : m.Grows [] [record] (m.report record) :=
  ⟨by simp [report], rfl, List.suffix_refl _, rfl⟩

/-- Only the input is changed by taking a word. -/
theorem grows_takeWord (m : Machine) : m.Grows [] [] m.takeWord.2 := by
  obtain ⟨-, hwords, hframe⟩ := m.takeWord_eq
  refine ⟨?_, ?_, ?_, ?_⟩
  · rw [hframe, List.append_nil]
  · rw [hframe, List.append_nil]
  · rw [hwords]
    exact List.tail_suffix _
  · rw [hframe]

/-- The machines have the same words left to read and the same limit. -/
structure Alike (m other : Machine) : Prop where
  words_eq : m.words = other.words
  limit_eq : m.limit = other.limit

/-- The machines have the same words left to read, the same limit and the same depth. -/
structure Twin (m other : Machine) : Prop extends m.Alike other where
  depth_eq : m.depth = other.depth

end Machine

namespace Eval

open Machine (Alike Twin)

variable {R : Machine → Machine → Prop} {α β : Type}

/-- On machines that are related by `R` the computation ends in the same way, adds the same and
leaves machines that are related again. -/
def Uniform (R : Machine → Machine → Prop) (x : Eval α) : Prop :=
  ∀ m other, R m other → (x m).1 = (x other).1 ∧ R (x m).2 (x other).2 ∧
    ∃ text records, m.Grows text records (x m).2 ∧ other.Grows text records (x other).2

/-- A computation that leaves the machine as it is and ends always in the same way is uniform. -/
theorem Uniform.of_const {x : Eval α} {result : Except Stop α} (h : ∀ m, x m = (result, m)) :
    Uniform R x := by
  intro m other hm
  rw [h m, h other]
  exact ⟨rfl, hm, [], [], .refl m, .refl other⟩

/-- A mere value is uniform. -/
theorem Uniform.pure (value : α) : Uniform R (pure value : Eval α) := .of_const fun _ => rfl

/-- Stopping is uniform. -/
theorem Uniform.stop (reason : Stop) : Uniform R (stop reason : Eval α) := .of_const fun _ => rfl

/-- Computations that end in the same way both stop or both give a value. -/
theorem stop_or_value {x y : Eval α} {m other : Machine} (h : (x m).1 = (y other).1) :
    (∃ stop after after', x m = (.error stop, after) ∧ y other = (.error stop, after')) ∨
      ∃ value after after', x m = (.ok value, after) ∧ y other = (.ok value, after') := by
  cases hend : (x m).1 with
  | error stop => exact .inl ⟨stop, _, _, Prod.ext hend rfl, Prod.ext (h.symm.trans hend) rfl⟩
  | ok value => exact .inr ⟨value, _, _, Prod.ext hend rfl, Prod.ext (h.symm.trans hend) rfl⟩

/-- Uniform computations in a row are uniform. -/
theorem Uniform.bind {first : Eval α} {next : α → Eval β} (hfirst : Uniform R first)
    (hnext : ∀ value, Uniform R (next value)) : Uniform R (first >>= next) := by
  intro m other hm
  obtain ⟨hsame, hkept, text, records, hgrows, hgrows'⟩ := hfirst m other hm
  obtain ⟨stop, after, after', hx, hy⟩ | ⟨value, after, after', hx, hy⟩ := stop_or_value hsame
  · rw [hx, hy] at hkept
    rw [hx] at hgrows
    rw [hy] at hgrows'
    rw [bind_of_error hx, bind_of_error hy]
    exact ⟨rfl, hkept, text, records, hgrows, hgrows'⟩
  · rw [hx, hy] at hkept
    rw [hx] at hgrows
    rw [hy] at hgrows'
    rw [bind_of_ok hx, bind_of_ok hy]
    obtain ⟨hsame, hkept, more, later, hmore, hmore'⟩ := hnext value after after' hkept
    exact ⟨hsame, hkept, text ++ more, records ++ later, hgrows.trans hmore, hgrows'.trans hmore'⟩

/-- Looking at the limit is uniform. -/
theorem uniform_limit : Uniform Alike limit := by
  intro m other hm
  exact ⟨congrArg Except.ok hm.limit_eq, hm, [], [], .refl m, .refl other⟩

/-- Adding a record is uniform. -/
theorem uniform_report (record : LogRecord) : Uniform Alike (report record) := by
  intro m other hm
  exact ⟨rfl, ⟨hm.words_eq, hm.limit_eq⟩, [], [record], m.grows_report record,
    other.grows_report record⟩

/-- Writing a line is uniform. -/
theorem uniform_writeLine (line : List Char) : Uniform Twin (writeLine line) := by
  intro m other hm
  exact ⟨rfl, ⟨⟨hm.words_eq, hm.limit_eq⟩, hm.depth_eq⟩, line ++ ['\n'], [],
    m.grows_writeLine line, other.grows_writeLine line⟩

/-- Taking a word is uniform, however the input is divided into lines. -/
theorem uniform_takeWord : Uniform Twin takeWord := by
  intro m other hm
  obtain ⟨hword, hwords, hframe⟩ := m.takeWord_eq
  obtain ⟨hword', hwords', hframe'⟩ := other.takeWord_eq
  refine ⟨?_, ⟨⟨?_, ?_⟩, ?_⟩, [], [], m.grows_takeWord, other.grows_takeWord⟩
  · show Except.ok m.takeWord.1 = Except.ok other.takeWord.1
    rw [hword, hword', hm.words_eq]
  · show m.takeWord.2.words = other.takeWord.2.words
    rw [hwords, hwords', hm.words_eq]
  · show m.takeWord.2.limit = other.takeWord.2.limit
    rw [hframe, hframe']
    exact hm.limit_eq
  · show m.takeWord.2.depth = other.takeWord.2.depth
    rw [hframe, hframe']
    exact hm.depth_eq

/-- Within one more list a uniform computation is uniform. -/
theorem Uniform.nested {inner : Eval α} (hinner : Uniform Twin inner)
    (position : Option Position) : Uniform Twin (nested position inner) := by
  intro m other hm
  by_cases hroom : m.depth < m.limit
  · have hroom' : other.depth < other.limit := by rwa [← hm.depth_eq, ← hm.limit_eq]
    have hinside : Twin { m with depth := m.depth + 1 } { other with depth := other.depth + 1 } :=
      ⟨⟨hm.words_eq, hm.limit_eq⟩, congrArg (· + 1) hm.depth_eq⟩
    obtain ⟨hsame, hkept, text, records, hgrows, hgrows'⟩ := hinner _ _ hinside
    rw [nested_of_lt hroom, nested_of_lt hroom']
    exact ⟨hsame, ⟨⟨hkept.words_eq, hkept.limit_eq⟩, congrArg (· - 1) hkept.depth_eq⟩, text,
      records, hgrows.of_depth _, hgrows'.of_depth _⟩
  · have hfull : m.limit ≤ m.depth := Int.not_lt.mp hroom
    have hfull' : other.limit ≤ other.depth := by rwa [← hm.depth_eq, ← hm.limit_eq]
    rw [nested_of_le hfull, nested_of_le hfull', hm.limit_eq]
    exact ⟨rfl, hm, [], [], .refl m, .refl other⟩

/-- All that evaluation is made of is uniform. -/
theorem closed_uniform : Closed fun _ _ x => Uniform Twin x where
  pure _ value := .pure value
  bind hfirst hnext := hfirst.bind hnext
  fail _ _ _ := .of_const fun _ => rfl
  exit _ := .stop .exit
  writeLine _ line := uniform_writeLine line
  takeWord _ := uniform_takeWord
  nested position hinner := hinner.nested position

end Eval

/-- Evaluation of a form is uniform. -/
theorem Node.eval_uniform (scope : Scope) (node : Node) :
    Eval.Uniform Machine.Twin (node.eval scope) :=
  node.eval_closed Eval.closed_uniform scope (Nat.le_refl _)

namespace Interpreter

open Eval (Uniform)
open Machine (Alike)

/-- Evaluation of a top-level form is uniform whatever the depth was before. -/
theorem evalTop_uniform (form : Node) : Uniform Alike (evalTop form) := by
  intro m other hm
  have hstart : Machine.Twin { m with depth := 0 } { other with depth := 0 } :=
    ⟨⟨hm.words_eq, hm.limit_eq⟩, rfl⟩
  obtain ⟨hsame, hkept, text, records, hgrows, hgrows'⟩ := form.eval_uniform .global _ _ hstart
  rw [evalTop_apply, evalTop_apply]
  exact ⟨hsame, hkept.toAlike, text, records, hgrows.of_depth _, hgrows'.of_depth _⟩

/-- Running forms is uniform. -/
theorem runForms_uniform (forms : List Node) : Uniform Alike (runForms forms) := by
  induction forms with
  | nil => exact .pure ()
  | cons form forms ih =>
      refine .bind (Eval.uniform_report (evaluating form)) fun _ => ?_
      exact (evalTop_uniform form).bind fun _ => ih

/-- Evaluating forms for the value of the last is uniform. -/
theorem evalForms_uniform (last : Value) (forms : List Node) :
    Uniform Alike (evalForms last forms) := by
  induction forms generalizing last with
  | nil => exact .pure last
  | cons form forms ih => exact (evalTop_uniform form).bind fun value => ih value

/-- Reading a source text is uniform. -/
theorem read_uniform (source : String) : Uniform Alike (read source) := by
  refine Eval.uniform_limit.bind fun limit => ?_
  rcases (Reader.ofText source limit).readForms with ⟨error | forms, reader⟩
  · exact .stop _
  · show Uniform Alike (if reader.atEnd then _ else _)
    split
    · exact .pure forms
    · exact (Eval.uniform_report _).bind fun _ => .pure forms

end Interpreter

end Sexpr
