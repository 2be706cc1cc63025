import Sexpr.Reader

/-!
# Reading step by step

The reader scans a text first and assembles its lexemes afterwards. `resume` joins the two: it reads
on from a cursor while lists are open, and its equations say what one lexeme does. `absorb` is
reading after forms have been completed, and `resume_induction` proves facts about reading lexeme
by lexeme. `resume_first` says that once a form is complete at the top level, reading goes on as
if it had begun after that form.
-/

namespace Sexpr

/-- Read on from a cursor when the lists of `stack`, innermost first, are open. -/
def resume (limit : Int) (depth : Nat) (stack : List OpenList) (cursor : Cursor) : Outcome :=
  assemble limit depth (scan cursor).ending stack (scan cursor).lexemes

/-- Read on after forms, each given with the cursor after it, have been completed within the
lists of `stack`. -/
def absorb (limit : Int) (depth : Nat) (forms : List (Node × Cursor)) (stop : Cursor) :
    List OpenList → Outcome
  | [] =>
      let later := resume limit depth [] stop
      ⟨forms ++ later.forms, later.halt, later.cursor⟩
  | opened :: outer =>
      let items := (forms.map Prod.fst).reverse ++ opened.items
      resume limit depth (⟨opened.start, items⟩ :: outer) stop

/-- The number of lists that can be opened where `depth` are open and `limit` may be. -/
def room (limit : Int) (depth : Nat) : Nat := (limit - depth).toNat

/-- A cursor determines a scan only through what comes next. -/
theorem scan_congr {cursor other : Cursor} (h : cursor.next = other.next) :
    scan cursor = scan other := by
  cases hnext : cursor.next with
  | nothing stop => rw [scan_of_nothing hnext, scan_of_nothing (h ▸ hnext)]
  | fault error stop => rw [scan_of_fault hnext, scan_of_fault (h ▸ hnext)]
  | lexeme l => exact (scan_of_lexeme hnext).trans (scan_of_lexeme (h ▸ hnext)).symm

/-- Each lexeme shortens the text, so a fact about reading may be assumed after the next one. -/
theorem resume_induction {motive : List OpenList → Cursor → Prop}
    (step : ∀ stack cursor,
      (∀ l, cursor.next = .lexeme l → ∀ stack, motive stack l.stop) → motive stack cursor)
    (stack : List OpenList) (cursor : Cursor) : motive stack cursor := by
  induction hlength : cursor.rest.length using Nat.strongRecOn generalizing stack cursor with
  | ind n ih =>
      refine step stack cursor fun l hnext stack => ?_
      have hshorter : l.stop.rest.length < n := hlength ▸ Cursor.length_next hnext
      exact ih _ hshorter stack l.stop rfl

variable {limit : Int} {depth : Nat} {stack : List OpenList} {cursor : Cursor}

/-- A cursor determines reading only through what comes next. -/
theorem resume_congr {other : Cursor} (h : cursor.next = other.next) :
    resume limit depth stack cursor = resume limit depth stack other := by
  unfold resume
  rw [scan_congr h]

/-- The end of the text ends reading. -/
theorem resume_of_nothing {stop : Cursor} (h : cursor.next = .nothing stop) :
    resume limit depth stack cursor = ⟨[], Ending.halt ⟨none, stop⟩ stack, stop⟩ := by
  simp only [resume, scan_of_nothing h, assemble]

/-- A literal at fault ends reading. -/
theorem resume_of_fault {error : ReadError} {stop : Cursor} (h : cursor.next = .fault error stop) :
    resume limit depth stack cursor = ⟨[], .fault error, stop⟩ := by
  simp only [resume, scan_of_fault h, assemble, Ending.halt]

/-- After an opening parenthesis one more list is open. -/
theorem resume_of_opened {l : Lexeme} {opened : List OpenList} (h : cursor.next = .lexeme l)
    (hshift : l.shift limit depth stack = .opened opened) :
    resume limit depth stack cursor = resume limit depth opened l.stop := by
  simp only [resume, scan_of_lexeme h, assemble, hshift]

/-- Reading can end before a lexeme. -/
theorem resume_of_halted {l : Lexeme} {halt : Halt} (h : cursor.next = .lexeme l)
    (hshift : l.shift limit depth stack = .halted halt) :
    resume limit depth stack cursor = ⟨[], halt, l.start⟩ := by
  simp only [resume, scan_of_lexeme h, assemble, hshift]

/-- A form that a lexeme completes goes to the innermost list around it, or to the top level. -/
theorem resume_of_completed {l : Lexeme} {node : Node} {outer : List OpenList}
    (h : cursor.next = .lexeme l) (hshift : l.shift limit depth stack = .completed node outer) :
    resume limit depth stack cursor = absorb limit depth [(node, l.stop)] l.stop outer := by
  cases outer <;> simp only [resume, scan_of_lexeme h, assemble, hshift] <;> rfl

/-- Without new forms reading simply goes on. -/
theorem absorb_nil (stop : Cursor) :
    absorb limit depth [] stop stack = resume limit depth stack stop := by
  cases stack <;> rfl

/-- A form and those read after it are absorbed together. -/
theorem absorb_cons {form : Node × Cursor} {forms : List (Node × Cursor)} {after stop : Cursor}
    (h : ∀ stack', stack'.length = stack.length →
      resume limit depth stack' after = absorb limit depth forms stop stack') :
    absorb limit depth [form] after stack = absorb limit depth (form :: forms) stop stack := by
  cases stack with
  | nil =>
      simp only [absorb, h [] rfl]
      rfl
  | cons opened outer =>
      have hpush := h (⟨opened.start, form.1 :: opened.items⟩ :: outer) rfl
      simpa [absorb] using hpush

/-- Once a form is complete at the top level, reading goes on as if it began after that form. -/
theorem resume_first {node : Node} {stop : Cursor} {more : List (Node × Cursor)}
    (h : (resume limit depth stack cursor).forms = (node, stop) :: more) :
    resume limit depth stack cursor = absorb limit depth [(node, stop)] stop [] := by
  induction stack, cursor using resume_induction with
  | step stack cursor ih =>
      cases hnext : cursor.next with
      | nothing => simp [resume_of_nothing hnext] at h
      | fault => simp [resume_of_fault hnext] at h
      | lexeme l =>
          cases hshift : l.shift limit depth stack with
          | opened opened =>
              rw [resume_of_opened hnext hshift] at h ⊢
              exact ih l hnext opened h
          | halted halt => simp [resume_of_halted hnext hshift] at h
          | completed done outer =>
              rw [resume_of_completed hnext hshift] at h ⊢
              cases outer with
              | nil =>
                  obtain ⟨hform, -⟩ := List.cons.inj h
                  cases hform
                  rfl
              | cons opened outer =>
                  -- The form only went into a list, so the top level is still to be reached.
                  exact ih l hnext _ h

/-- There is no room for one more list exactly when as many are open as may be. -/
theorem room_le_length_iff :
    room limit depth ≤ stack.length ↔ limit ≤ (depth + stack.length : Nat) := by
  unfold room
  omega

/-- An opening parenthesis that finds room opens a list. -/
theorem shift_opening {start stop : Cursor} (h : stack.length < room limit depth) :
    Lexeme.shift limit depth stack ⟨.opening, start, stop⟩ =
      .opened (⟨start.position, []⟩ :: stack) :=
  if_neg (mt room_le_length_iff.mpr (Nat.not_le.mpr h))

/-- An opening parenthesis that finds no room is a fault. -/
theorem shift_opening_full {start stop : Cursor} (h : room limit depth ≤ stack.length) :
    Lexeme.shift limit depth stack ⟨.opening, start, stop⟩ =
      .halted (.fault ⟨.tooDeep limit, start.position⟩) :=
  if_pos (room_le_length_iff.mp h)

/-- A closing parenthesis completes the innermost list. -/
theorem shift_closing (opened : OpenList) (outer : List OpenList) (start stop : Cursor) :
    Lexeme.shift limit depth (opened :: outer) ⟨.closing, start, stop⟩ =
      .completed opened.close outer := rfl

/-- An atom is a form of its own. -/
theorem shift_atom (text : List Char) (start stop : Cursor) :
    Lexeme.shift limit depth stack ⟨.atom text, start, stop⟩ =
      .completed (.ofAtom text start.position) stack := rfl

/-- A literal is a form of its own. -/
theorem shift_literal (text : List Char) (start stop : Cursor) :
    Lexeme.shift limit depth stack ⟨.literal text, start, stop⟩ =
      .completed (.string (String.ofList text) start.position) stack := rfl

end Sexpr
