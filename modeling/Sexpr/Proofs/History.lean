import Sexpr.Proofs.Completion
import Sexpr.Proofs.Extents

/-!
# What lies behind a station

At any station of reading, all that the text before it has begun is either one of the lists that
are open or a form that is complete. `Underway` says of the lists that are open what is written of
them so far, and `History` collects what holds of the text behind a station: where its contexts
say that a form begins, a form was read or is being read; no parenthesis was opened without room,
and no line ended within a literal. `History.step` shows that one lexeme keeps it, and
`history_leads` that a whole run does. `Leads.exists_opening` goes back from a list that is open to
the station where it was opened.
-/

namespace Sexpr

/-! ## Forms one after the other -/

namespace Cursor

variable {cursor other last : Cursor} {l : Lexeme}

/-- Blanks and more blanks are blanks. -/
theorem Skips.trans (h : cursor.Skips other) (hlast : other.Skips last) : cursor.Skips last := by
  obtain ⟨blanks, hrest, hall⟩ := h.blanks.exists_append
  refine ⟨?_, h.reaches.trans hlast.reaches⟩
  rw [hrest]
  clear hrest
  induction blanks with
  | nil => exact hlast.blanks
  | cons c blanks ih =>
      obtain ⟨hc, hall⟩ := List.forall_mem_cons.mp hall
      exact .more hc (ih hall)

/-- Before a lexeme there are only blanks. -/
theorem skips_start (h : cursor.next = .lexeme l) : cursor.Skips l.start :=
  ⟨(next_sound h).1, reaches_start h⟩

/-- A lexeme comes next where it begins. -/
theorem next_start (h : cursor.next = .lexeme l) : l.start.next = .lexeme l :=
  (skips_start h).next_eq.symm.trans h

end Cursor

/-- Blanks may stand after the last form. -/
theorem SpansItems.skip {cursor last stop : Cursor} {nodes : List Node}
    (h : SpansItems cursor nodes last) (hskips : last.Skips stop) :
    SpansItems cursor nodes stop := by
  induction nodes generalizing cursor with
  | nil =>
      cases h with
      | nil hblanks => exact .nil (hblanks.trans hskips)
  | cons node nodes ih =>
      cases h with
      | cons hblanks hspans hlater => exact .cons hblanks hspans (ih hlater)

/-- One more form may stand after the last form. -/
theorem SpansItems.snoc {cursor last start stop : Cursor} {nodes : List Node} {node : Node}
    (h : SpansItems cursor nodes last) (hskips : last.Skips start)
    (hspans : Spans start node stop) : SpansItems cursor (nodes ++ [node]) stop := by
  induction nodes generalizing cursor with
  | nil =>
      cases h with
      | nil hblanks => exact .cons (hblanks.trans hskips) hspans (.nil ⟨.none _, .refl _⟩)
  | cons first nodes ih =>
      cases h with
      | cons hblanks hfirst hlater => exact .cons hblanks hfirst (ih hlater)

/-! ## Lists that are open -/

/-- The lists of a stack, innermost first, are being read at the cursor, which is reached from
`origin`. Each list began at a parenthesis, its items so far are written from there up to the list
within it or up to the cursor, and there is room for them. -/
def Underway (room : Nat) (origin : Cursor) : List OpenList → Cursor → Prop
  | [], cursor => origin.Reaches cursor
  | opened :: outer, cursor =>
      ∃ first inside, first.next = .lexeme ⟨.opening, first, inside⟩ ∧
        opened.start = first.position ∧ SpansItems inside opened.items.reverse cursor ∧
        Node.nestingItems opened.items.reverse + (outer.length + 1) ≤ room ∧
        Underway room origin outer first

/-- At the place stands a form with room that ends at the cursor or before it. -/
def Complete (room : Nat) (origin : Cursor) (place : Position) (cursor : Cursor) : Prop :=
  ∃ first node stop, origin.Reaches first ∧ first.position = place ∧ Spans first node stop ∧
    node.nesting ≤ room ∧ stop.Reaches cursor

namespace Underway

variable {room : Nat} {origin cursor first stop : Cursor} {stack outer : List OpenList}
  {opened : OpenList} {node : Node}

/-- The cursor is reached. -/
theorem reaches (h : Underway room origin stack cursor) : origin.Reaches cursor := by
  induction stack generalizing cursor with
  | nil => exact h
  | cons opened outer ih =>
      obtain ⟨first, inside, hfirst, -, hitems, -, houter⟩ := h
      exact (ih houter).trans ((Cursor.reaches_stop hfirst).trans hitems.reaches)

/-- No more lists are open than there is room for. -/
theorem length_le (h : Underway room origin stack cursor) : stack.length ≤ room := by
  cases stack with
  | nil => exact Nat.zero_le room
  | cons opened outer =>
      obtain ⟨-, -, -, -, -, hroom, -⟩ := h
      rw [List.length_cons]
      omega

/-- Blanks do not matter. -/
theorem skip (h : Underway room origin stack cursor) (hskips : cursor.Skips stop) :
    Underway room origin stack stop := by
  cases stack with
  | nil => exact h.trans hskips.reaches
  | cons opened outer =>
      obtain ⟨first, inside, hfirst, hstart, hitems, hroom, houter⟩ := h
      exact ⟨first, inside, hfirst, hstart, hitems.skip hskips, hroom, houter⟩

/-- A form becomes an item of the innermost list. -/
theorem deliver {forms : List (Node × Cursor)} (h : Underway room origin stack first)
    (hspans : Spans first node stop) (hroom : node.nesting + stack.length ≤ room) :
    Underway room origin (Station.deliver forms node stop stack).stack stop := by
  cases stack with
  | nil => exact h.trans hspans.reaches.1
  | cons opened outer =>
      obtain ⟨start, inside, hstart, hopened, hitems, hfits, houter⟩ := h
      have hskips : first.Skips first := ⟨.none _, .refl _⟩
      refine ⟨start, inside, hstart, hopened, ?_, ?_, houter⟩
      · rw [OpenList.push, List.reverse_cons]
        exact hitems.snoc hskips hspans
      · rw [List.length_cons] at hroom
        simp only [OpenList.push, List.reverse_cons, Node.nestingItems_append, Node.nestingItems]
        omega

/-- A list begins at a parenthesis. -/
theorem opening (h : Underway room origin stack cursor)
    (hnext : cursor.next = .lexeme ⟨.opening, first, stop⟩) (hroom : stack.length < room) :
    Underway room origin (⟨first.position, []⟩ :: stack) stop := by
  refine ⟨first, stop, Cursor.next_start hnext, rfl, .nil ⟨.none _, .refl _⟩, ?_,
    h.skip (Cursor.skips_start hnext)⟩
  simp only [List.reverse_nil, Node.nestingItems]
  omega

/-- A list that is closed spans its text from its parenthesis on. -/
theorem closing (h : Underway room origin (opened :: outer) cursor)
    (hnext : cursor.next = .lexeme ⟨.closing, first, stop⟩) :
    ∃ start, opened.start = start.position ∧ Spans start opened.close stop ∧
      opened.close.nesting + outer.length ≤ room ∧ Underway room origin outer start := by
  obtain ⟨start, inside, hstart, hopened, hitems, hroom, houter⟩ := h
  refine ⟨start, hopened, ?_, ?_, houter⟩
  · rw [OpenList.close, hopened]
    exact .list hstart (hitems.skip (Cursor.skips_start hnext)) (Cursor.next_start hnext)
  · simp only [OpenList.close, Node.nesting]
    omega

end Underway

/-- A form that was complete is complete further on. -/
theorem Complete.advance {room : Nat} {origin cursor stop : Cursor} {place : Position}
    (h : Complete room origin place cursor) (hreaches : cursor.Reaches stop) :
    Complete room origin place stop := by
  obtain ⟨first, node, last, hfirst, hplace, hspans, hroom, hlast⟩ := h
  exact ⟨first, node, last, hfirst, hplace, hspans, hroom, hlast.trans hreaches⟩

namespace Station

variable {limit : Int} {depth : Nat} {origin : Cursor} {s t : Station}

/-- A step leads from open lists that are being read to such lists. -/
theorem Step.underway (hstep : Step limit depth s t)
    (h : Underway (room limit depth) origin s.stack s.cursor) :
    Underway (room limit depth) origin t.stack t.cursor := by
  have hlength := h.length_le
  cases hstep with
  | opening hnext hroom => exact h.opening hnext hroom
  | closing hnext =>
      obtain ⟨start, -, hspans, hroom, houter⟩ := h.closing hnext
      rw [cursor_deliver]
      exact houter.deliver hspans hroom
  | atom hnext =>
      rw [cursor_deliver]
      refine (h.skip (Cursor.skips_start hnext)).deliver (.atom (Cursor.next_start hnext)) ?_
      rwa [Node.nesting_ofAtom, Nat.zero_add]
  | literal hnext =>
      rw [cursor_deliver]
      refine (h.skip (Cursor.skips_start hnext)).deliver (.literal (Cursor.next_start hnext)) ?_
      simpa only [Node.nesting, Nat.zero_add] using hlength

/-- A list that is open before a step is open after it or complete. -/
theorem Step.complete_of_mem (hstep : Step limit depth s t)
    (h : Underway (room limit depth) origin s.stack s.cursor) {place : Position}
    (hplace : place ∈ s.starts) :
    place ∈ t.starts ∨ Complete (room limit depth) origin place t.cursor := by
  cases hstep with
  | opening => exact .inl (List.mem_cons_of_mem _ hplace)
  | closing hnext =>
      rw [cursor_deliver, starts_deliver]
      obtain ⟨start, hstart, hspans, hroom, houter⟩ := h.closing hnext
      obtain rfl | hplace := List.mem_cons.mp hplace
      · exact .inr ⟨start, _, _, houter.reaches, hstart.symm, hspans, by omega, .refl _⟩
      · exact .inl hplace
  | atom | literal =>
      rw [starts_deliver]
      exact .inl hplace

/-- What begins with the lexeme of a step is a list that is open after the step, or complete. -/
theorem Step.complete_of_next (hstep : Step limit depth s t)
    (h : Underway (room limit depth) origin s.stack s.cursor) {l : Lexeme}
    (hnext : s.cursor.next = .lexeme l) (hclosing : l.token ≠ .closing) :
    l.start.position ∈ t.starts ∨ Complete (room limit depth) origin l.start.position t.cursor := by
  have hstart : origin.Reaches l.start := h.reaches.trans (Cursor.reaches_start hnext)
  have hlexeme := Cursor.next_start hnext
  cases hstep with
  | opening hother =>
      cases hnext.symm.trans hother
      exact .inl List.mem_cons_self
  | closing hother =>
      cases hnext.symm.trans hother
      exact absurd rfl hclosing
  | atom hother =>
      cases hnext.symm.trans hother
      rw [cursor_deliver]
      refine .inr ⟨_, _, _, hstart, rfl, .atom hlexeme, ?_, .refl _⟩
      rw [Node.nesting_ofAtom]
      exact Nat.zero_le _
  | literal hother =>
      cases hnext.symm.trans hother
      rw [cursor_deliver]
      exact .inr ⟨_, _, _, hstart, rfl, .literal hlexeme, Nat.zero_le _, .refl _⟩

/-- A list is opened only where there is room. -/
theorem Step.length_lt_of_opening (hstep : Step limit depth s t) {l : Lexeme}
    (hnext : s.cursor.next = .lexeme l) (hopening : l.token = .opening) :
    s.stack.length < room limit depth := by
  cases hstep with
  | opening hother hroom => exact hroom
  | closing hother | atom hother | literal hother =>
      cases hnext.symm.trans hother
      cases hopening

end Station

/-! ## The text behind a station -/

/-- What holds of the text that was passed up to a station: the lists that are open are being read;
a parenthesis that counts had room, a line ended outside of literals, and where a form begins a list
is open or a form is complete. -/
structure History (limit : Int) (text passed : List Char) (s : Station) : Prop where
  text_eq : text = passed ++ s.cursor.rest
  fits : (Context.start.passAll passed).Fits s
  underway : Underway (room limit 0) (.ofText text) s.stack s.cursor
  roomy : ∀ found, Context.start.Meets passed found '(' → found.isFree = true →
    found.opened.length < room limit 0
  free : ∀ found, Context.start.Meets passed found '\n' → found.isFree = true
  begun : ∀ found c, Context.start.Meets passed found c → found.begins c = true →
    found.place ∈ s.starts ∨ Complete (room limit 0) (.ofText text) found.place s.cursor

namespace History

variable {limit : Int} {text passed : List Char} {s t : Station}

/-- Nothing is behind the first station. -/
theorem start (limit : Int) (text : List Char) :
    History limit text [] (.start (.ofText text)) where
  text_eq := rfl
  fits := Context.fits_start text
  underway := Cursor.Reaches.refl _
  roomy _ hmeets := absurd hmeets Context.not_meets_nil
  free _ hmeets := absurd hmeets Context.not_meets_nil
  begun _ _ hmeets := absurd hmeets Context.not_meets_nil

/-- A step adds its lexeme to what is behind. -/
theorem step (h : History limit text passed s) (hstep : s.Step limit 0 t) :
    ∃ written, History limit text (passed ++ written) t := by
  obtain ⟨l, written, hnext, hrest, hcovers, hfits⟩ := h.fits.step hstep
  refine ⟨written, ?_, ?_, hstep.underway h.underway, ?_, ?_, ?_⟩
  · rw [List.append_assoc, ← hrest, h.text_eq]
  · rwa [Context.passAll_append]
  · intro found hmeets hfree
    rcases Context.meets_append.mp hmeets with hmeets | hmeets
    · exact h.roomy found hmeets hfree
    · have hopening := hcovers.opening_met found hmeets hfree
      rw [hcovers.opened_met found _ hmeets, h.fits.opened_eq, Station.starts, List.length_map]
      exact hstep.length_lt_of_opening hnext hopening
  · intro found hmeets
    rcases Context.meets_append.mp hmeets with hmeets | hmeets
    · exact h.free found hmeets
    · exact hcovers.free_met found hmeets
  · intro found c hmeets hbegins
    rcases Context.meets_append.mp hmeets with hmeets | hmeets
    · rcases h.begun found c hmeets hbegins with hopen | hcomplete
      · exact hstep.complete_of_mem h.underway hopen
      · exact .inr (hcomplete.advance hstep.reaches.1)
    · obtain ⟨hplace, hclosing⟩ := hcovers.begins_met found c hmeets hbegins
      rw [hplace]
      exact hstep.complete_of_next h.underway hnext hclosing

/-- Blanks after a station change nothing of what is behind. -/
theorem skip {first : Cursor} (h : History limit text passed s) (hskips : s.cursor.Skips first) :
    ∃ blanks, History limit text (passed ++ blanks) { s with cursor := first } := by
  obtain ⟨blanks, hrest, hblanks⟩ := hskips.blanks.exists_append
  obtain ⟨hsettled, hopened, hmet⟩ := (hrest ▸ h.fits.settled).pass_blanks hblanks
  refine ⟨blanks, ?_, ⟨?_, ?_, ?_⟩, h.underway.skip hskips, ?_, ?_, ?_⟩
  · rw [List.append_assoc, ← hrest, h.text_eq]
  · rw [Context.passAll_append, Context.place_passAll, h.fits.place_eq]
    exact (hskips.reaches.position_eq hrest).symm
  · rw [Context.passAll_append, hopened, h.fits.opened_eq]
    rfl
  · rwa [Context.passAll_append]
  · intro found hmeets hfree
    rcases Context.meets_append.mp hmeets with hmeets | hmeets
    · exact h.roomy found hmeets hfree
    · cases (hmet found _ hmeets).2.2
  · intro found hmeets
    rcases Context.meets_append.mp hmeets with hmeets | hmeets
    · exact h.free found hmeets
    · exact (hmet found _ hmeets).1
  · intro found c hmeets hbegins
    rcases Context.meets_append.mp hmeets with hmeets | hmeets
    · exact (h.begun found c hmeets hbegins).imp_right (·.advance hskips.reaches)
    · rw [Context.begins_of_isBlank (hmet found c hmeets).2.2] at hbegins
      cases hbegins

end History

/-- Every station of a text has its history. -/
theorem history_leads {limit : Int} {text : List Char} {s : Station}
    (h : Station.Leads limit 0 (.start (.ofText text)) s) :
    ∃ passed, History limit text passed s := by
  induction h with
  | refl => exact ⟨[], .start limit text⟩
  | tail _ hstep ih =>
      obtain ⟨passed, hhistory⟩ := ih
      obtain ⟨written, hlater⟩ := hhistory.step hstep
      exact ⟨passed ++ written, hlater⟩

/-! ## Back to where a list was opened -/

namespace Station

variable {limit : Int} {depth : Nat} {cursor : Cursor} {s : Station}

/-- A form goes to the innermost list and leaves the lists around it as they are. -/
theorem suffix_of_deliver {forms : List (Node × Cursor)} {node : Node} {stop : Cursor}
    {stack outer : List OpenList} {opened : OpenList}
    (h : (opened :: outer) <:+ (deliver forms node stop stack).stack) :
    ∃ before, (before :: outer) <:+ stack ∧ before.start = opened.start := by
  cases stack with
  | nil => exact absurd (List.suffix_nil.mp h) (by simp)
  | cons innermost around =>
      rcases List.suffix_cons_iff.mp h with heq | hsuffix
      · obtain ⟨rfl, rfl⟩ := List.cons.inj heq
        exact ⟨innermost, List.suffix_rfl, rfl⟩
      · exact ⟨opened, hsuffix.trans (List.suffix_cons _ _), rfl⟩

/-- A list that is open was opened at a station where only the lists around it were open. -/
theorem Leads.exists_opening (h : Leads limit depth (start cursor) s) {opened : OpenList}
    {outer : List OpenList} (hopened : (opened :: outer) <:+ s.stack) :
    ∃ t first stop, Leads limit depth (start cursor) t ∧ t.stack = outer ∧
      t.cursor.next = .lexeme ⟨.opening, first, stop⟩ ∧ opened.start = first.position := by
  induction h generalizing opened with
  | refl => exact absurd (List.suffix_nil.mp hopened) (by simp)
  | tail hleads hstep ih =>
      cases hstep with
      | opening hnext hroom =>
          rcases List.suffix_cons_iff.mp hopened with heq | hsuffix
          · obtain ⟨rfl, rfl⟩ := List.cons.inj heq
            exact ⟨_, _, _, hleads, rfl, hnext, rfl⟩
          · exact ih hsuffix
      | closing hnext =>
          obtain ⟨before, hsuffix, hstart⟩ := suffix_of_deliver hopened
          rw [← hstart]
          exact ih (hsuffix.trans (List.suffix_cons _ _))
      | atom hnext | literal hnext =>
          obtain ⟨before, hsuffix, hstart⟩ := suffix_of_deliver hopened
          rw [← hstart]
          exact ih hsuffix

end Station

end Sexpr
