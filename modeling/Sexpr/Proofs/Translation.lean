import Sexpr.Proofs.Passage
import Sexpr.Proofs.Relocation

/-!
# Reading from another place

A text is read in the same way wherever it stands; only the positions differ. They are moved by a
function that keeps step with the text (`Position.InStep`): moved first and then counted on, or
counted on first and then moved, a position comes out the same. `resume_move` is reading from a
moved cursor, which gives the forms, the faults and the cursors of reading from where it was, all of
them moved.
-/

namespace Sexpr

/-- From the position on, moving by `f` keeps step with any text that is passed. -/
def Position.InStep (f : Position → Position) (p : Position) : Prop :=
  ∀ text, f (p.after text) = (f p).after text

namespace Position.InStep

variable {f : Position → Position} {p : Position}

/-- Moving keeps step with one character. -/
theorem advance_eq (h : InStep f p) (c : Char) : f (p.advance c) = (f p).advance c := h [c]

/-- What is in step stays in step after a text. -/
theorem after (h : InStep f p) (text : List Char) : InStep f (p.after text) := by
  intro more
  rw [← Position.after_append, h, h, Position.after_append]

/-- What is in step stays in step after a character. -/
theorem advance (h : InStep f p) (c : Char) : InStep f (p.advance c) := h.after [c]

/-- What is in step at a cursor is in step wherever that cursor gets. -/
theorem of_reaches {cursor other : Cursor} (h : InStep f cursor.position)
    (hreaches : cursor.Reaches other) : InStep f other.position := by
  obtain ⟨passed, -, hposition⟩ := hreaches
  rw [hposition]
  exact h.after passed

end Position.InStep

open Position (InStep)

/-! ## Everything that has a position -/

/-- The fault at the moved place. -/
def ReadError.move (f : Position → Position) (error : ReadError) : ReadError :=
  { error with position := f error.position }

/-- The cursor at the moved place. -/
def Cursor.move (f : Position → Position) (cursor : Cursor) : Cursor :=
  { cursor with position := f cursor.position }

/-- The literal with the places of its faults moved. -/
def Literal.move (f : Position → Position) : Literal → Literal
  | badEscape c position => badEscape c (f position)
  | newline position => newline (f position)
  | literal => literal

/-- The lexeme at the moved place. -/
def Lexeme.move (f : Position → Position) (l : Lexeme) : Lexeme :=
  ⟨l.token, l.start.move f, l.stop.move f⟩

/-- What comes next, at the moved place. -/
def Upcoming.move (f : Position → Position) : Upcoming → Upcoming
  | nothing stop => nothing (stop.move f)
  | fault error stop => fault (error.move f) (stop.move f)
  | lexeme l => lexeme (l.move f)

/-- The open list at the moved place. -/
def OpenList.move (f : Position → Position) (opened : OpenList) : OpenList :=
  ⟨f opened.start, Node.relocateItems (some ∘ f) opened.items⟩

/-- The end of reading, with its fault moved. -/
def Halt.move (f : Position → Position) : Halt → Halt
  | fault error => fault (error.move f)
  | halt => halt

/-- The effect of a moved lexeme. -/
def Shift.move (f : Position → Position) : Shift → Shift
  | opened stack => opened (stack.map (OpenList.move f))
  | completed node outer => completed (node.relocate (some ∘ f)) (outer.map (OpenList.move f))
  | halted halt => halted (halt.move f)

/-- The outcome of reading at the moved place. -/
def Outcome.move (f : Position → Position) (outcome : Outcome) : Outcome where
  forms := outcome.forms.map fun form => (form.1.relocate (some ∘ f), form.2.move f)
  halt := outcome.halt.move f
  cursor := outcome.cursor.move f

/-! ## Lexemes -/

variable {f : Position → Position}

namespace Literal

/-- A character in front has no place of its own. -/
theorem push_move (c : Char) (literal : Literal) :
    (literal.move f).push c = (literal.push c).move f := by
  cases literal <;> rfl

/-- An escape in front is moved with the literal. -/
theorem pushEscape_move (c : Char) (p : Position) (literal : Literal) :
    (literal.move f).pushEscape c (f p) = (literal.pushEscape c p).move f := by
  unfold pushEscape
  cases unescape? c with
  | some unescaped => exact push_move unescaped literal
  | none => cases literal <;> rfl

/-- A literal is read in the same way at a moved place. -/
theorem read_move {p : Position} (text : List Char) (h : InStep f p) :
    read (f p) text = ((read p text).1.move f, (read p text).2.move f) := by
  fun_induction read p text with
  | case1 => rfl
  | case2 p rest =>
      rw [read_quote]
      simp only [move, Cursor.move, h.advance_eq]
  | case3 p rest | case4 p =>
      rw [read.eq_def]
      simp [move, Cursor.move, h.advance_eq]
  | case5 p rest =>
      rw [read.eq_def]
      simp [move, Cursor.move, h.advance_eq, (h.advance _).advance_eq]
  | case6 p c rest hfeed =>
      rename_i ih
      have hlater := ih ((h.advance _).advance _)
      rw [(h.advance _).advance_eq, h.advance_eq] at hlater
      rw [read_escape hfeed, hlater, pushEscape_move]
  | case7 p c rest hquote hfeed hslash =>
      rename_i ih
      have hlater := ih (h.advance _)
      rw [h.advance_eq] at hlater
      rw [read_plain hfeed hquote hslash, hlater, push_move]

end Literal

namespace Cursor

variable {cursor : Cursor}

/-- Moving keeps step with skipping. -/
theorem skipWhile_move (p : Char → Bool) (h : InStep f cursor.position) :
    (cursor.move f).skipWhile p = (cursor.skipWhile p).move f := by
  unfold skipWhile move
  rw [h]

/-- Moving keeps step with a step. -/
theorem advance_move (h : InStep f cursor.position) :
    (cursor.move f).advance = cursor.advance.move f := by
  obtain ⟨rest, p⟩ := cursor
  cases rest with
  | nil => rfl
  | cons c rest => exact congrArg (Cursor.mk rest) (h.advance_eq c).symm

/-- A literal is found in the same way at a moved place. -/
theorem literal_move (h : InStep f cursor.position) (text : List Char) :
    (cursor.move f).literal text = (cursor.literal text).move f := by
  unfold literal
  rw [show (cursor.move f).position.advance '"' = f (cursor.position.advance '"') from
    (h.advance_eq '"').symm, Literal.read_move text (h.advance '"')]
  rcases Literal.read (cursor.position.advance '"') text with ⟨literal, stop⟩
  cases literal <;> rfl

/-- The next lexeme is found in the same way at a moved place. -/
theorem next_move (h : InStep f cursor.position) : (cursor.move f).next = cursor.next.move f := by
  have hstart : InStep f cursor.skipBlanks.position := h.of_reaches (cursor.reaches_skipWhile _)
  have hskip : (cursor.move f).skipBlanks = cursor.skipBlanks.move f := skipWhile_move _ h
  unfold next
  rw [hskip]
  generalize cursor.skipBlanks = start at hstart
  have hrest : (start.move f).rest = start.rest := rfl
  dsimp only
  rw [hrest]
  split
  · rfl
  · rw [advance_move hstart, literal_move hstart, skipAtom, skipWhile_move _ hstart]
    split
    · rfl
    split
    · rfl
    split
    · rfl
    · rfl

end Cursor

/-! ## Forms -/

/-- An atom is the same form at a moved place. -/
theorem Node.ofAtom_move (text : List Char) (p : Position) :
    Node.ofAtom text (f p) = (Node.ofAtom text p).relocate (some ∘ f) := by
  unfold Node.ofAtom
  split <;> rfl

/-- A moved list is closed in the same way. -/
theorem OpenList.close_move (opened : OpenList) :
    (opened.move f).close = opened.close.relocate (some ∘ f) := by
  unfold OpenList.close OpenList.move
  simp only [Node.relocate, Node.relocateItems_eq_map, List.map_reverse]
  rfl

/-- A moved lexeme has the same effect on moved lists. -/
theorem Lexeme.shift_move (limit : Int) (depth : Nat) (stack : List OpenList) (l : Lexeme) :
    (l.move f).shift limit depth (stack.map (OpenList.move f)) =
      (l.shift limit depth stack).move f := by
  obtain ⟨token, start, stop⟩ := l
  cases token with
  | opening =>
      simp only [Lexeme.shift, Lexeme.move, List.length_map]
      split <;> rfl
  | closing =>
      cases stack with
      | nil => rfl
      | cons opened outer =>
          exact congrArg (Shift.completed · (outer.map (OpenList.move f))) opened.close_move
  | atom text =>
      exact congrArg (Shift.completed · (stack.map (OpenList.move f)))
        (Node.ofAtom_move text start.position)
  | literal text => rfl

/-- Reading is the same at a moved place. -/
theorem resume_move (limit : Int) (depth : Nat) (stack : List OpenList) (cursor : Cursor)
    (h : InStep f cursor.position) :
    resume limit depth (stack.map (OpenList.move f)) (cursor.move f) =
      (resume limit depth stack cursor).move f := by
  induction stack, cursor using resume_induction with
  | step stack cursor ih =>
      have hmoved := Cursor.next_move h
      cases hnext : cursor.next with
      | nothing stop =>
          rw [hnext] at hmoved
          rw [resume_of_nothing hmoved, resume_of_nothing hnext]
          cases stack <;> rfl
      | fault error stop =>
          rw [hnext] at hmoved
          rw [resume_of_fault hmoved, resume_of_fault hnext]
          rfl
      | lexeme l =>
          rw [hnext] at hmoved
          have hstop : InStep f l.stop.position := h.of_reaches (Cursor.reaches_stop hnext)
          have hshift := l.shift_move (f := f) limit depth stack
          cases hcase : l.shift limit depth stack with
          | opened opened =>
              rw [hcase] at hshift
              rw [resume_of_opened hmoved hshift, resume_of_opened hnext hcase]
              exact ih l hnext opened hstop
          | halted halt =>
              rw [hcase] at hshift
              rw [resume_of_halted hmoved hshift, resume_of_halted hnext hcase]
              rfl
          | completed node outer =>
              rw [hcase] at hshift
              rw [resume_of_completed hmoved hshift, resume_of_completed hnext hcase]
              cases outer with
              | nil =>
                  have hlater : resume limit depth [] (l.move f).stop =
                      (resume limit depth [] l.stop).move f := ih l hnext [] hstop
                  simp only [List.map_nil, absorb, hlater]
                  rfl
              | cons opened outer =>
                  exact ih l hnext (⟨opened.start, node :: opened.items⟩ :: outer) hstop

end Sexpr
