import Mathlib.Logic.Relation
import Sexpr.Proofs.Lookahead

/-!
# The stations of reading

Reading goes from lexeme to lexeme. A `Station` is where it stands after some of them: the forms
that are complete, the lists that are open, and the cursor. `Station.Step` says what one lexeme
does, `Station.Leads` what some of them do, and `Station.Ends` where reading ends and how.
`Station.exists_last` shows that reading ends at a station, and that what reading comes to is
settled there. A text that is continued leads to the same stations (`Step.extend`), and so does one
that is cut off after a station (`Leads.cut`).
-/

namespace Sexpr

/-! ## Lexemes of a text that is cut off -/

/-- A token is spelled the same if the text is cut off somewhere after it. -/
theorem Spells.cut {text ahead more : List Char} {token : Token}
    (h : Spells text token (ahead ++ more)) :
    ∃ written, text = written ++ more ∧ Spells written token ahead := by
  generalize hrest : ahead ++ more = rest at h
  cases h with
  | opening =>
      subst hrest
      exact ⟨'(' :: ahead, rfl, .opening ahead⟩
  | closing =>
      subst hrest
      exact ⟨')' :: ahead, rfl, .closing ahead⟩
  | @atom text _ hatom hends =>
      subst hrest
      refine ⟨text ++ ahead, (List.append_assoc _ _ _).symm, .atom hatom ?_⟩
      intro c hc
      obtain ⟨ahead, rfl⟩ := List.head?_eq_some_iff.mp hc
      exact hends c rfl
  | literal hunits =>
      subst hrest
      obtain ⟨written, rfl, hother⟩ := hunits.replace
      exact ⟨'"' :: written ++ '"' :: ahead, by simp, .literal (hother _)⟩

/-- A lexeme comes next in the same way if the text is cut off somewhere after it. -/
theorem Cursor.next_cut {cursor : Cursor} {ahead more : List Char} {l : Lexeme}
    (h : (cursor.extend more).next = .lexeme l) (hstop : l.stop.rest = ahead ++ more) :
    ∃ first stop, cursor.next = .lexeme ⟨l.token, first, stop⟩ ∧ l.start = first.extend more ∧
      l.stop = stop.extend more := by
  obtain ⟨hblanks, hspells⟩ := next_sound h
  rw [hstop] at hspells
  obtain ⟨written, hwritten, hcut⟩ := hspells.cut
  obtain ⟨blanks, hrest, hall⟩ := hblanks.exists_append
  have hcursor : cursor.rest = blanks ++ written := by
    rw [hwritten, ← List.append_assoc] at hrest
    exact List.append_cancel_right hrest
  obtain ⟨q, hcomplete⟩ := next_complete hcut (cursor.position.after blanks)
  have hnext : cursor.next =
      .lexeme ⟨l.token, ⟨written, cursor.position.after blanks⟩, ⟨ahead, q⟩⟩ := by
    rw [← hcomplete, ← next_append_blanks hall, ← hcursor]
  -- Where the lexeme begins and ends follows from the text that is left there.
  exact ⟨_, _, hnext, (reaches_start h).eq_of_rest_eq ((reaches_start hnext).extend more) hwritten,
    (reaches_stop h).eq_of_rest_eq ((reaches_stop hnext).extend more) hstop⟩

/-! ## Stations -/

/-- The places of the lists that are open after a token that stands at `place`, innermost first,
when those of `opened` are open before it. -/
def Token.openings (place : Position) (opened : List Position) : Token → List Position
  | opening => place :: opened
  | closing => opened.tail
  | _ => opened

/-- Where reading stands: the forms that are complete at the top level, each with the cursor after
it, the lists that are open, innermost first, and the cursor. -/
structure Station where
  forms : List (Node × Cursor)
  stack : List OpenList
  cursor : Cursor

namespace Station

/-- The station before anything is read. -/
def start (cursor : Cursor) : Station := ⟨[], [], cursor⟩

/-- The station after a form that ends at `stop` within the lists of `outer`. -/
def deliver (forms : List (Node × Cursor)) (node : Node) (stop : Cursor) :
    List OpenList → Station
  | [] => ⟨forms ++ [(node, stop)], [], stop⟩
  | opened :: outer => ⟨forms, opened.push node :: outer, stop⟩

/-- The places of the lists that are open, innermost first. -/
def starts (s : Station) : List Position := s.stack.map OpenList.start

/-- After a form the cursor is where the form ends. -/
@[simp]
theorem cursor_deliver (forms : List (Node × Cursor)) (node : Node) (stop : Cursor)
    (outer : List OpenList) : (deliver forms node stop outer).cursor = stop := by
  cases outer <;> rfl

/-- A form opens and closes no list around it. -/
@[simp]
theorem starts_deliver (forms : List (Node × Cursor)) (node : Node) (stop : Cursor)
    (outer : List OpenList) :
    (deliver forms node stop outer).starts = outer.map OpenList.start := by
  cases outer <;> rfl

/-- What one lexeme does. -/
inductive Step (limit : Int) (depth : Nat) : Station → Station → Prop where
  | opening {forms : List (Node × Cursor)} {stack : List OpenList} {cursor first stop : Cursor} :
      cursor.next = .lexeme ⟨.opening, first, stop⟩ → stack.length < room limit depth →
      Step limit depth ⟨forms, stack, cursor⟩ ⟨forms, ⟨first.position, []⟩ :: stack, stop⟩
  | closing {forms : List (Node × Cursor)} {opened : OpenList} {outer : List OpenList}
      {cursor first stop : Cursor} :
      cursor.next = .lexeme ⟨.closing, first, stop⟩ →
      Step limit depth ⟨forms, opened :: outer, cursor⟩ (deliver forms opened.close stop outer)
  | atom {forms : List (Node × Cursor)} {stack : List OpenList} {cursor first stop : Cursor}
      {text : List Char} :
      cursor.next = .lexeme ⟨.atom text, first, stop⟩ →
      Step limit depth ⟨forms, stack, cursor⟩
        (deliver forms (.ofAtom text first.position) stop stack)
  | literal {forms : List (Node × Cursor)} {stack : List OpenList} {cursor first stop : Cursor}
      {text : List Char} :
      cursor.next = .lexeme ⟨.literal text, first, stop⟩ →
      Step limit depth ⟨forms, stack, cursor⟩
        (deliver forms (.string (String.ofList text) first.position) stop stack)

/-- What some lexemes in a row do. -/
def Leads (limit : Int) (depth : Nat) : Station → Station → Prop :=
  Relation.ReflTransGen (Step limit depth)

/-- Reading ends at the station, in this way and with this cursor. -/
inductive Ends (limit : Int) (depth : Nat) (s : Station) : Halt → Cursor → Prop where
  | nothing {stop : Cursor} :
      s.cursor.next = .nothing stop → Ends limit depth s (Ending.halt ⟨none, stop⟩ s.stack) stop
  | fault {error : ReadError} {stop : Cursor} :
      s.cursor.next = .fault error stop → Ends limit depth s (.fault error) stop
  | tooDeep {first stop : Cursor} :
      s.cursor.next = .lexeme ⟨.opening, first, stop⟩ → room limit depth ≤ s.stack.length →
      Ends limit depth s (.fault ⟨.tooDeep limit, first.position⟩) first
  | unmatched {first stop : Cursor} :
      s.cursor.next = .lexeme ⟨.closing, first, stop⟩ → s.stack = [] →
      Ends limit depth s .unmatched first

/-- What reading comes to from the station on. -/
def outcome (limit : Int) (depth : Nat) (s : Station) : Outcome :=
  let later := resume limit depth s.stack s.cursor
  ⟨s.forms ++ later.forms, later.halt, later.cursor⟩

variable {limit : Int} {depth : Nat} {s t : Station}

/-- From the first station on, all of reading is ahead. -/
theorem outcome_start (limit : Int) (depth : Nat) (cursor : Cursor) :
    (start cursor).outcome limit depth = resume limit depth [] cursor := rfl

/-- After a form reading goes on with the form taken. -/
theorem outcome_deliver (forms : List (Node × Cursor)) (node : Node) (stop : Cursor)
    (outer : List OpenList) :
    (deliver forms node stop outer).outcome limit depth =
      let later := absorb limit depth [(node, stop)] stop outer
      ⟨forms ++ later.forms, later.halt, later.cursor⟩ := by
  cases outer with
  | nil => simp [deliver, outcome, absorb]
  | cons opened outer => rfl

/-- A lexeme does not change what reading comes to. -/
theorem Step.outcome_eq (h : Step limit depth s t) :
    s.outcome limit depth = t.outcome limit depth := by
  cases h with
  | opening hnext hroom =>
      simp only [outcome, resume_of_opened hnext (shift_opening hroom)]
  | closing hnext =>
      rw [outcome_deliver, outcome, resume_of_completed hnext (shift_closing _ _ _ _)]
  | atom hnext => rw [outcome_deliver, outcome, resume_of_completed hnext (shift_atom _ _ _)]
  | literal hnext => rw [outcome_deliver, outcome, resume_of_completed hnext (shift_literal _ _ _)]

/-- Lexemes do not change what reading comes to. -/
theorem Leads.outcome_eq (h : Leads limit depth s t) :
    s.outcome limit depth = t.outcome limit depth := by
  induction h with
  | refl => rfl
  | tail _ hstep ih => exact ih.trans hstep.outcome_eq

/-- Where reading ends, what it comes to is settled. -/
theorem Ends.outcome_eq {halt : Halt} {stop : Cursor} (h : s.Ends limit depth halt stop) :
    s.outcome limit depth = ⟨s.forms, halt, stop⟩ := by
  cases h with
  | nothing hnext => simp [outcome, resume_of_nothing hnext]
  | fault hnext => simp [outcome, resume_of_fault hnext]
  | tooDeep hnext hfull => simp [outcome, resume_of_halted hnext (shift_opening_full hfull)]
  | unmatched hnext hstack =>
      rw [outcome, hstack, resume_of_halted hnext rfl]
      simp

/-- At a station either a lexeme leads on or reading ends. -/
theorem step_or_ends (limit : Int) (depth : Nat) (s : Station) :
    (∃ t, Step limit depth s t) ∨ ∃ halt stop, s.Ends limit depth halt stop := by
  obtain ⟨forms, stack, cursor⟩ := s
  cases hnext : cursor.next with
  | nothing stop => exact .inr ⟨_, _, .nothing hnext⟩
  | fault error stop => exact .inr ⟨_, _, .fault hnext⟩
  | lexeme l =>
      obtain ⟨token, first, stop⟩ := l
      cases token with
      | opening =>
          by_cases hroom : stack.length < room limit depth
          · exact .inl ⟨_, .opening hnext hroom⟩
          · exact .inr ⟨_, _, .tooDeep hnext (Nat.not_lt.mp hroom)⟩
      | closing =>
          cases stack with
          | nil => exact .inr ⟨_, _, .unmatched hnext rfl⟩
          | cons opened outer => exact .inl ⟨_, .closing hnext⟩
      | atom text => exact .inl ⟨_, .atom hnext⟩
      | literal text => exact .inl ⟨_, .literal hnext⟩

/-- A step ends where its lexeme does, and opens and closes the lists that its token does. -/
theorem Step.exists_lexeme (h : Step limit depth s t) :
    ∃ l, s.cursor.next = .lexeme l ∧ l.stop = t.cursor ∧
      t.starts = l.token.openings l.start.position s.starts := by
  cases h with
  | opening hnext => exact ⟨_, hnext, rfl, rfl⟩
  | closing hnext | atom hnext | literal hnext =>
      exact ⟨_, hnext, (cursor_deliver _ _ _ _).symm, starts_deliver _ _ _ _⟩

/-- A step moves the cursor forward and leaves less of the text. -/
theorem Step.reaches (h : Step limit depth s t) :
    s.cursor.Reaches t.cursor ∧ t.cursor.rest.length < s.cursor.rest.length := by
  obtain ⟨l, hnext, hstop, -⟩ := h.exists_lexeme
  rw [← hstop]
  exact ⟨Cursor.reaches_stop hnext, Cursor.length_next hnext⟩

/-- Reading ends at some station. -/
theorem exists_last (limit : Int) (depth : Nat) (s : Station) :
    ∃ last halt stop, Leads limit depth s last ∧ last.Ends limit depth halt stop ∧
      s.outcome limit depth = ⟨last.forms, halt, stop⟩ := by
  induction hlength : s.cursor.rest.length using Nat.strongRecOn generalizing s with
  | ind n ih =>
      obtain ⟨t, hstep⟩ | ⟨halt, stop, hends⟩ := step_or_ends limit depth s
      · have hshorter : t.cursor.rest.length < n := hlength ▸ hstep.reaches.2
        obtain ⟨last, halt, stop, hleads, hends, houtcome⟩ := ih _ hshorter t rfl
        exact ⟨last, halt, stop, .head hstep hleads, hends, hstep.outcome_eq.trans houtcome⟩
      · exact ⟨s, halt, stop, .refl, hends, hends.outcome_eq⟩

/-! ## More text and less text -/

/-- The station in a text that goes on with `more`. -/
def extend (s : Station) (more : List Char) : Station :=
  ⟨s.forms.map fun form => (form.1, form.2.extend more), s.stack, s.cursor.extend more⟩

/-- A form is delivered in the same way in a text that goes on. -/
theorem extend_deliver (forms : List (Node × Cursor)) (node : Node) (stop : Cursor)
    (outer : List OpenList) (more : List Char) :
    (deliver forms node stop outer).extend more =
      deliver (forms.map fun form => (form.1, form.2.extend more)) node (stop.extend more)
        outer := by
  cases outer with
  | nil => simp [deliver, extend]
  | cons opened outer => rfl

/-- More text that does not prolong an atom changes no step. -/
theorem Step.extend {more : List Char} (hmore : EndsAtom more) (h : Step limit depth s t) :
    Step limit depth (s.extend more) (t.extend more) := by
  cases h with
  | opening hnext hroom => exact (Step.opening (Cursor.next_extend hnext hmore) hroom :)
  | closing hnext =>
      rw [extend_deliver]
      exact .closing (Cursor.next_extend hnext hmore)
  | atom hnext =>
      rw [extend_deliver]
      exact (Step.atom (Cursor.next_extend hnext hmore) :)
  | literal hnext =>
      rw [extend_deliver]
      exact (Step.literal (Cursor.next_extend hnext hmore) :)

/-- More text that does not prolong an atom leads to the same stations. -/
theorem Leads.extend {more : List Char} (hmore : EndsAtom more) (h : Leads limit depth s t) :
    Leads limit depth (s.extend more) (t.extend more) := by
  induction h with
  | refl => exact .refl
  | tail _ hstep ih => exact .tail ih (hstep.extend hmore)

/-- What a text that goes on comes to is settled from any of its stations on. -/
theorem Leads.resume_append {text more : List Char} (hmore : EndsAtom more)
    (h : Leads limit depth (start (.ofText text)) t) :
    resume limit depth [] (.ofText (text ++ more)) = (t.extend more).outcome limit depth :=
  (h.extend hmore).outcome_eq

/-- A step is the same in a text that is cut off somewhere after it. -/
theorem Step.cut {more ahead : List Char} (h : Step limit depth (s.extend more) t)
    (hrest : t.cursor.rest = ahead ++ more) :
    ∃ before, t = before.extend more ∧ Step limit depth s before := by
  obtain ⟨forms, stack, cursor⟩ := s
  generalize hs : Station.extend ⟨forms, stack, cursor⟩ more = extended at h
  cases h with
  | opening hnext hroom =>
      cases hs
      obtain ⟨first, stop, hcut, hfirst, hstop⟩ := Cursor.next_cut hnext hrest
      cases hfirst
      cases hstop
      exact ⟨_, rfl, .opening hcut hroom⟩
  | closing hnext =>
      cases hs
      rw [cursor_deliver] at hrest
      obtain ⟨first, stop, hcut, hfirst, hstop⟩ := Cursor.next_cut hnext hrest
      cases hstop
      exact ⟨_, (extend_deliver _ _ _ _ _).symm, .closing hcut⟩
  | atom hnext =>
      cases hs
      rw [cursor_deliver] at hrest
      obtain ⟨first, stop, hcut, hfirst, hstop⟩ := Cursor.next_cut hnext hrest
      cases hfirst
      cases hstop
      exact ⟨_, (extend_deliver _ _ _ _ _).symm, (Step.atom hcut :)⟩
  | literal hnext =>
      cases hs
      rw [cursor_deliver] at hrest
      obtain ⟨first, stop, hcut, hfirst, hstop⟩ := Cursor.next_cut hnext hrest
      cases hfirst
      cases hstop
      exact ⟨_, (extend_deliver _ _ _ _ _).symm, (Step.literal hcut :)⟩

/-- A text that is cut off somewhere after a station leads to the same station. -/
theorem Leads.cut {more ahead : List Char} (h : Leads limit depth (s.extend more) t)
    (hrest : t.cursor.rest = ahead ++ more) :
    ∃ before, t = before.extend more ∧ Leads limit depth s before := by
  induction h generalizing ahead with
  | refl => exact ⟨s, rfl, .refl⟩
  | tail _ hstep ih =>
      obtain ⟨⟨passed, hpassed, -⟩, -⟩ := hstep.reaches
      rw [hrest, ← List.append_assoc] at hpassed
      obtain ⟨middle, rfl, hleads⟩ := ih hpassed
      obtain ⟨before, rfl, hcut⟩ := hstep.cut hrest
      exact ⟨before, rfl, .tail hleads hcut⟩

end Station

end Sexpr
