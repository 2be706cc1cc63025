import Sexpr.Proofs.Lookahead

/-!
# Readers within lists

The lists that are open while a text is read are a count that goes up and down. `resume_frame` shows
that a list within other lists is read as by a reader of its own, within one list more, and
`Reader.Descends` says how a reader goes down into a list and comes back: it counts one more list
within the parentheses, and one less however it leaves them. `cursor_keeps_count` says what this and
the places of forms come to for a reader that is asked for anything in any order.
-/

namespace Sexpr

/-! ## Lists within lists -/

/-- What reading comes to when a list is open around all that is read: the list goes on to be
closed, to stay open, or to be left by a fault. -/
def Outcome.enclose (limit : Int) (depth : Nat) (opened : OpenList) (inner : Outcome) : Outcome :=
  match inner.halt with
  | .fault error => ⟨[], .fault error, inner.cursor⟩
  | .finished => ⟨[], .fault ⟨.missingClose, opened.start⟩, inner.cursor⟩
  | .unmatched =>
      let node := Node.list (opened.items.reverse ++ inner.forms.map Prod.fst) opened.start
      absorb limit depth [(node, inner.cursor.advance)] inner.cursor.advance []

/-- A form that is read first is an item in front of the others. -/
theorem Outcome.enclose_cons {limit : Int} {depth : Nat} (opened : OpenList)
    (form : Node × Cursor) (forms : List (Node × Cursor)) (halt : Halt) (cursor : Cursor) :
    enclose limit depth opened ⟨form :: forms, halt, cursor⟩ =
      enclose limit depth (opened.push form.1) ⟨forms, halt, cursor⟩ := by
  cases halt with
  | finished | fault => rfl
  | unmatched => simp [enclose, OpenList.push]

/-- What reading after a form comes to is enclosed by the outermost list, if that holds of reading
on from there. -/
theorem absorb_frame {limit : Int} {depth : Nat} {node : Node} {stop : Cursor}
    (h : ∀ stack opened, resume limit depth (stack ++ [opened]) stop =
      (resume limit (depth + 1) stack stop).enclose limit depth opened)
    (stack : List OpenList) (opened : OpenList) :
    absorb limit depth [(node, stop)] stop (stack ++ [opened]) =
      (absorb limit (depth + 1) [(node, stop)] stop stack).enclose limit depth opened := by
  cases stack with
  | nil =>
      have hpush := h [] (opened.push node)
      rw [List.nil_append] at hpush ⊢
      exact hpush.trans (Outcome.enclose_cons opened (node, stop) _ _ _).symm
  | cons innermost outer => exact h (innermost.push node :: outer) opened

/-- A closing parenthesis is one character long. -/
theorem Cursor.stop_of_closing {cursor first stop : Cursor}
    (h : cursor.next = .lexeme ⟨.closing, first, stop⟩) : stop = first.advance := by
  have hrest : first.rest = ')' :: stop.rest := (next_sound h).2.closing_eq
  refine (reaches_lexeme h).1.eq_of_rest_eq first.reaches_advance ?_
  simp [advance, hrest]

/-- Where a list is open around all others, reading comes to what a reader comes to that is within
one list more, enclosed by that list. -/
theorem resume_frame {limit : Int} {depth : Nat} (stack : List OpenList) (cursor : Cursor)
    (opened : OpenList) :
    resume limit depth (stack ++ [opened]) cursor =
      (resume limit (depth + 1) stack cursor).enclose limit depth opened := by
  induction stack, cursor using resume_induction generalizing opened with
  | step stack cursor ih =>
      cases hnext : cursor.next with
      | nothing stop =>
          rw [resume_of_nothing hnext, resume_of_nothing hnext]
          cases stack <;> rfl
      | fault error stop =>
          rw [resume_of_fault hnext, resume_of_fault hnext]
          rfl
      | lexeme l =>
          obtain ⟨token, first, stop⟩ := l
          have hlater := ih _ hnext
          cases token with
          | opening =>
              -- One list more is open around it, and one list less is on the stack.
              have hcount : (stack ++ [opened]).length = stack.length + 1 := List.length_append
              have hroom : room limit (depth + 1) = room limit depth - 1 := by
                unfold room
                omega
              by_cases hfull : room limit (depth + 1) ≤ stack.length
              · rw [resume_of_halted hnext (shift_opening_full hfull),
                  resume_of_halted hnext (shift_opening_full (by omega))]
                rfl
              · rw [resume_of_opened hnext (shift_opening (by omega)),
                  resume_of_opened hnext (shift_opening (by omega))]
                exact hlater (⟨first.position, []⟩ :: stack) opened
          | closing =>
              cases stack with
              | nil =>
                  rw [List.nil_append, resume_of_completed hnext (shift_closing _ _ _ _),
                    resume_of_halted hnext rfl, Cursor.stop_of_closing hnext]
                  simp [Outcome.enclose, OpenList.close]
              | cons innermost outer =>
                  rw [resume_of_completed hnext (shift_closing _ _ _ _), List.cons_append,
                    resume_of_completed hnext (shift_closing _ _ _ _)]
                  exact absorb_frame hlater outer opened
          | atom text =>
              rw [resume_of_completed hnext (shift_atom _ _ _),
                resume_of_completed hnext (shift_atom _ _ _)]
              exact absorb_frame hlater stack opened
          | literal text =>
              rw [resume_of_completed hnext (shift_literal _ _ _),
                resume_of_completed hnext (shift_literal _ _ _)]
              exact absorb_frame hlater stack opened

/-! ## Readers within lists -/

namespace Reader

/-- The reader within the list that begins at its cursor. -/
def enter (reader : Reader) : Reader :=
  ⟨reader.cursor.advance, reader.depth + 1, reader.limit⟩

/-- The reader that has left a list. -/
def leave (reader : Reader) : Reader := { reader with depth := reader.depth - 1 }

/-- What a list at `start` comes to, from what was read within it: it is left in any case, and its
closing parenthesis is passed if it is there. -/
def closeList (start : Position) :
    Except ReadError (List Node) × Reader → Except ReadError Node × Reader
  | (.error error, inner) => (.error error, inner.leave)
  | (.ok items, inner) =>
      if inner.peek = some ')' then (.ok (.list items start), inner.advance.leave)
      else (.error ⟨.missingClose, start⟩, inner.leave)

/-- What forms come to, from what the first of them came to. -/
def thenForms : Except ReadError Node × Reader → Except ReadError (List Node) × Reader
  | (.error error, after) => (.error error, after)
  | (.ok node, after) => (after.readForms.1.map (node :: ·), after.readForms.2)

/-- How a reader goes down into lists and comes back: forms are read one by one, up to the end or a
closing parenthesis; a list is refused where no room is left, and read by the reader within it
otherwise; and the reader that is given back is within as many lists as before. -/
structure Descends (reader : Reader) : Prop where
  readForms_eq : reader.readForms =
    if reader.skipBlanks.peek = none ∨ reader.skipBlanks.peek = some ')' then
      (.ok [], reader.skipBlanks)
    else thenForms reader.readForm
  readForm_eq : reader.skipBlanks.peek = some '(' → reader.readForm =
    if reader.limit ≤ reader.depth then
      (.error ⟨.tooDeep reader.limit, reader.skipBlanks.position⟩, reader.skipBlanks)
    else closeList reader.skipBlanks.position reader.skipBlanks.enter.readForms
  depth_readForm : reader.readForm.2.depth = reader.depth
  depth_readForms : reader.readForms.2.depth = reader.depth

variable {reader : Reader}

/-- Reading a form changes nothing of a reader but its cursor. -/
theorem readForm_keeps (reader : Reader) :
    reader.readForm.2.depth = reader.depth ∧ reader.readForm.2.limit = reader.limit := by
  cases hforms : reader.outcome.forms with
  | nil =>
      rw [readForm_of_nil hforms]
      exact ⟨rfl, rfl⟩
  | cons form more =>
      rw [readForm_of_cons hforms]
      exact ⟨rfl, rfl⟩

/-- Reading that ends with a fault gives no forms. -/
theorem readForms_of_fault {error : ReadError} (h : reader.outcome.halt = .fault error) :
    reader.readForms = (.error error, { reader with cursor := reader.outcome.cursor }) := by
  simp only [readForms, h]

/-- Reading that ends without a fault gives its forms. -/
theorem readForms_of_not_fault (h : ∀ error, reader.outcome.halt ≠ .fault error) :
    reader.readForms =
      (.ok (reader.outcome.forms.map Prod.fst),
        { reader with cursor := reader.outcome.cursor }) := by
  cases hhalt : reader.outcome.halt with
  | finished | unmatched => simp only [readForms, hhalt]
  | fault error => exact absurd hhalt (h error)

/-- A parenthesis at the cursor comes next. -/
theorem next_of_peek (h : reader.skipBlanks.peek = some '(') :
    reader.cursor.next =
      .lexeme ⟨.opening, reader.skipBlanks.cursor, reader.skipBlanks.cursor.advance⟩ := by
  obtain ⟨rest, hrest⟩ := List.head?_eq_some_iff.mp h
  have hskip : reader.cursor.skipBlanks.rest = '(' :: rest := hrest
  simp [Cursor.next, hskip, skipBlanks]

/-- A list without room is refused at its parenthesis. -/
theorem readForm_of_full (h : reader.skipBlanks.peek = some '(')
    (hfull : reader.limit ≤ reader.depth) :
    reader.readForm =
      (.error ⟨.tooDeep reader.limit, reader.skipBlanks.position⟩, reader.skipBlanks) := by
  have hroom : room reader.limit reader.depth ≤ ([] : List OpenList).length := by
    unfold room
    simp only [List.length_nil]
    omega
  have houtcome : reader.outcome = _ :=
    resume_of_halted (next_of_peek h) (shift_opening_full hroom)
  rw [readForm_of_nil (congrArg Outcome.forms houtcome), houtcome]
  rfl

/-- A list with room is read by the reader within it. -/
theorem readForm_of_opening (h : reader.skipBlanks.peek = some '(')
    (hroom : reader.depth < reader.limit) :
    reader.readForm = closeList reader.skipBlanks.position reader.skipBlanks.enter.readForms := by
  have hopen : ([] : List OpenList).length < room reader.limit reader.depth := by
    unfold room
    simp only [List.length_nil]
    omega
  have houtcome : reader.outcome = reader.skipBlanks.enter.outcome.enclose reader.limit
      reader.depth ⟨reader.skipBlanks.position, []⟩ :=
    (resume_of_opened (next_of_peek h) (shift_opening hopen)).trans (resume_frame [] _ _)
  have hfits : reader.skipBlanks.enter.outcome.halt.Fits
      reader.skipBlanks.enter.outcome.cursor.rest := halt_fits_resume _ _ [] _
  cases hhalt : reader.skipBlanks.enter.outcome.halt with
  | fault error =>
      simp only [Outcome.enclose, hhalt] at houtcome
      rw [readForm_of_nil (congrArg Outcome.forms houtcome), houtcome, readForms_of_fault hhalt]
      rfl
  | finished =>
      rw [hhalt] at hfits
      simp only [Outcome.enclose, hhalt] at houtcome
      have hpeek : reader.skipBlanks.enter.outcome.cursor.peek = none :=
        List.head?_eq_none_iff.mpr hfits
      rw [readForm_of_nil (congrArg Outcome.forms houtcome), houtcome,
        readForms_of_not_fault (by simp [hhalt])]
      simp only [closeList, peek, hpeek, reduceCtorEq, if_false]
      rfl
  | unmatched =>
      rw [hhalt] at hfits
      simp only [Outcome.enclose, hhalt] at houtcome
      have hpeek : reader.skipBlanks.enter.outcome.cursor.peek = some ')' := hfits
      rw [readForm_of_cons (congrArg Outcome.forms houtcome),
        readForms_of_not_fault (by simp [hhalt])]
      simp only [closeList, peek, hpeek, if_true]
      rfl

/-- Where only blanks are left, or a closing parenthesis comes next, there are no forms. -/
theorem readForms_of_end
    (h : reader.skipBlanks.peek = none ∨ reader.skipBlanks.peek = some ')') :
    reader.readForms = (.ok [], reader.skipBlanks) := by
  rcases h with hnone | hclosing
  · have hrest : reader.cursor.skipBlanks.rest = [] := List.head?_eq_none_iff.mp hnone
    have houtcome : reader.outcome = ⟨[], .finished, reader.cursor.skipBlanks⟩ :=
      resume_of_skipBlanks hrest
    rw [readForms_of_not_fault (by simp [houtcome]), houtcome]
    rfl
  · obtain ⟨rest, hrest⟩ := List.head?_eq_some_iff.mp hclosing
    have hskip : reader.cursor.skipBlanks.rest = ')' :: rest := hrest
    have hnext : reader.cursor.next = .lexeme
        ⟨.closing, reader.cursor.skipBlanks, reader.cursor.skipBlanks.advance⟩ := by
      simp [Cursor.next, hskip]
    have houtcome : reader.outcome = ⟨[], .unmatched, reader.cursor.skipBlanks⟩ :=
      resume_of_halted hnext rfl
    rw [readForms_of_not_fault (by simp [houtcome]), houtcome]
    rfl

/-- Where reading ends without a form and without a fault, only blanks are left or a closing
parenthesis comes next. -/
theorem peek_of_nil (hforms : reader.outcome.forms = [])
    (h : ∀ error, reader.outcome.halt ≠ .fault error) :
    reader.skipBlanks.peek = none ∨ reader.skipBlanks.peek = some ')' := by
  have hfits : reader.outcome.halt.Fits reader.outcome.cursor.rest := halt_fits_resume _ _ [] _
  have hsequence : Sequence reader.cursor.rest (reader.outcome.forms.map Prod.fst)
      reader.outcome.cursor.rest := (resume_sound reader.limit reader.depth [] reader.cursor h).1
  rw [hforms] at hsequence
  cases hsequence with
  | nil hblanks =>
      have hskip := Cursor.skipBlanks_of_blanks hblanks
      cases hhalt : reader.outcome.halt with
      | finished =>
          rw [hhalt] at hfits
          rw [show reader.outcome.cursor.rest = [] from hfits] at hskip
          exact .inl (List.head?_eq_none_iff.mpr hskip)
      | unmatched =>
          rw [hhalt] at hfits
          obtain ⟨more, hmore⟩ := List.head?_eq_some_iff.mp hfits
          rw [hmore] at hskip
          exact .inr (List.head?_eq_some_iff.mpr ⟨more, hskip⟩)
      | fault error => exact absurd hhalt (h error)

/-- Anywhere else forms are read one by one. -/
theorem readForms_of_form
    (h : ¬(reader.skipBlanks.peek = none ∨ reader.skipBlanks.peek = some ')')) :
    reader.readForms = thenForms reader.readForm := by
  cases hforms : reader.outcome.forms with
  | nil =>
      cases hhalt : reader.outcome.halt with
      | finished | unmatched => exact absurd (peek_of_nil hforms (by simp [hhalt])) h
      | fault error =>
          rw [readForms_of_fault hhalt, readForm_of_nil hforms, refusal, hhalt]
          rfl
  | cons form more =>
      obtain ⟨node, stop⟩ := form
      have hfirst : reader.outcome =
          ⟨(node, stop) :: { reader with cursor := stop }.outcome.forms,
            { reader with cursor := stop }.outcome.halt,
            { reader with cursor := stop }.outcome.cursor⟩ := resume_first hforms
      rw [readForm_of_cons hforms, thenForms]
      cases hhalt : ({ reader with cursor := stop } : Reader).outcome.halt with
      | finished | unmatched =>
          rw [readForms_of_not_fault (by simp [hfirst, hhalt]),
            readForms_of_not_fault (by simp [hhalt]), hfirst]
          rfl
      | fault error =>
          rw [readForms_of_fault ((congrArg Outcome.halt hfirst).trans hhalt),
            readForms_of_fault hhalt, hfirst]
          rfl

/-- Every reader goes down into lists and comes back as described. -/
theorem descends (reader : Reader) : reader.Descends where
  readForms_eq := by
    split
    · next hend => exact readForms_of_end hend
    · next hform => exact readForms_of_form hform
  readForm_eq h := by
    split
    · next hfull => exact readForm_of_full h hfull
    · next hroom => exact readForm_of_opening h (Int.not_le.mp hroom)
  depth_readForm := reader.readForm_keeps.1
  depth_readForms := by
    unfold readForms
    dsimp only
    split <;> rfl

end Reader

/-! ## A reader that is asked for anything in any order -/

/-- A reader at the beginning of a source text is asked for anything, any number of times, and every
time it answers or refuses. After each of these actions its cursor is at a place in the text, with
the right line and column, and leaves what follows that place; it has not moved back, and no list is
open. That is so although the reader that carries the action out goes down into lists, within one
list more in each, and has to come back from all of them, also with a fault. A form that is returned
was passed over. Every form in the answer, and every form within one, has a place in the text, and
they begin one after the other in the order in which they are written; a fault is at a place in the
text too. -/
theorem cursor_keeps_count (source : String) (limit : Int) (actions : List Reader.Action)
    (action : Reader.Action) :
    let before := (Reader.ofText source limit).performAll actions
    let answer := (before.perform action).1
    let after := (before.perform action).2
    after.position.IsIn source.toList ∧
    after.cursor.rest = source.toList.drop after.position.offset.toNat ∧
    before.position.offset ≤ after.position.offset ∧
    after.depth = 0 ∧
    before.Descends ∧
    (action = .readForm → answer.error? = none → before.position.offset < after.position.offset) ∧
    (∀ node ∈ Node.subformsItems answer.nodes,
      ∃ p, node.position = some p ∧ p.IsIn source.toList) ∧
    (Node.subformsItems answer.nodes).Pairwise Node.Precedes ∧
    (∀ error ∈ answer.error?, error.position.IsIn source.toList) := by
  intro before answer after
  obtain ⟨hbefore, hdepth⟩ := (Reader.ofText source limit).performAll_reaches actions
  have hmoves : before.Moves action answer after := before.moves_perform action
  obtain ⟨hplace, hrest⟩ := (hbefore.trans hmoves.reaches).isIn
  obtain ⟨stop, htrail⟩ := hmoves.trail
  obtain ⟨hnodes, hincreasing⟩ := (htrail.of_reaches hbefore).forms
  refine ⟨hplace, hrest, hmoves.reaches.offset_le, hmoves.depth_eq.trans hdepth, before.descends,
    hmoves.passes, hnodes, hincreasing, ?_⟩
  intro error herror
  obtain ⟨place, hreaches, hposition⟩ := hmoves.fault error herror
  rw [hposition]
  exact (hbefore.trans hreaches).isIn.1

/-- A reader that starts within a literal is refused at a list too deep on the next line, and reads
that list when it is asked again. -/
theorem cursor_keeps_count_after_refusal :
    let begun := (Reader.ofText "\"a b\"\n(c (d)) \"e" 1).performAll [.advance]
    let resumed := (Reader.ofText "\"a b\"\n(c (d)) \"e" 1).performAll [.advance, .readForms]
    (begun.perform .readForms).1.error? = some ⟨.tooDeep 1, ⟨9, 2, 4⟩⟩ ∧
    Position.IsIn "\"a b\"\n(c (d)) \"e".toList ⟨9, 2, 4⟩ ∧
    (resumed.perform .readForm).1.error? = none ∧
    resumed.position.offset < (resumed.perform .readForm).2.position.offset ∧
    Node.places (resumed.perform .readForm).1.nodes = [some ⟨9, 2, 4⟩, some ⟨10, 2, 5⟩] ∧
    (Node.subformsItems (resumed.perform .readForm).1.nodes).Pairwise Node.Precedes := by
  intro begun resumed
  have hrefused : (begun.perform .readForms).1.error? = some ⟨.tooDeep 1, ⟨9, 2, 4⟩⟩ := by
    decide +kernel
  have hread : (resumed.perform .readForm).1.error? = none := by decide +kernel
  have hplaces : Node.places (resumed.perform .readForm).1.nodes =
      [some ⟨9, 2, 4⟩, some ⟨10, 2, 5⟩] := by
    decide +kernel
  obtain ⟨-, -, -, -, -, -, -, -, hfault⟩ :=
    cursor_keeps_count "\"a b\"\n(c (d)) \"e" 1 [.advance] .readForms
  obtain ⟨-, -, -, -, -, hpasses, -, hincreasing, -⟩ :=
    cursor_keeps_count "\"a b\"\n(c (d)) \"e" 1 [.advance, .readForms] .readForm
  exact ⟨hrefused, hfault _ hrefused, hread, hpasses rfl hread, hplaces, hincreasing⟩

end Sexpr
