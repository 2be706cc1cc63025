import Sexpr.Proofs.Lexical
import Sexpr.Proofs.Reading

/-!
# The passage of a cursor through its text

The reader only ever moves forward over the characters of its text and counts positions as it goes.
`Cursor.Reaches` says so of two cursors: the text between them determines the position of the
second. `Cursor.reaches_next` and `reaches_resume` show that every cursor of the reader is reached
from where it began. So the place where a lexeme begins or ends follows from the text that is left
there, which `Cursor.next_extend` uses: more text after a lexeme changes neither the lexeme nor its
place, if it does not prolong an atom.
-/

namespace Sexpr

namespace Cursor

/-- The other cursor is reached from this one by passing over some text. -/
def Reaches (cursor other : Cursor) : Prop :=
  ∃ passed, cursor.rest = passed ++ other.rest ∧ other.position = cursor.position.after passed

variable {cursor other : Cursor}

/-- A cursor is where it is. -/
theorem Reaches.refl (cursor : Cursor) : cursor.Reaches cursor := ⟨[], rfl, rfl⟩

/-- What is passed in two steps can be passed in one. -/
theorem Reaches.trans {last : Cursor} (h : cursor.Reaches other) (hlast : other.Reaches last) :
    cursor.Reaches last := by
  obtain ⟨first, hfirst, hposition⟩ := h
  obtain ⟨second, hsecond, hlast⟩ := hlast
  refine ⟨first ++ second, ?_, ?_⟩
  · rw [hfirst, hsecond, List.append_assoc]
  · rw [hlast, hposition, Position.after_append]

/-- One character is passed at a time. -/
theorem Reaches.cons {c : Char} {rest : List Char} {p : Position}
    (h : Reaches ⟨rest, p.advance c⟩ other) : Reaches ⟨c :: rest, p⟩ other := by
  have hstep : Reaches ⟨c :: rest, p⟩ ⟨rest, p.advance c⟩ := ⟨[c], rfl, rfl⟩
  exact hstep.trans h

/-- The text that is left determines where a cursor is. -/
theorem Reaches.eq_of_rest_eq {last : Cursor} (h : cursor.Reaches other)
    (hlast : cursor.Reaches last) (hrest : other.rest = last.rest) : other = last := by
  obtain ⟨first, hfirst, hposition⟩ := h
  obtain ⟨second, hsecond, hlast⟩ := hlast
  have hsame : first = second := by
    rw [hfirst, hrest] at hsecond
    exact List.append_cancel_right hsecond
  rw [hsame, ← hlast] at hposition
  cases other
  cases last
  simp_all

/-- The position after a text that is passed over. -/
theorem Reaches.position_eq {passed : List Char} (h : cursor.Reaches other)
    (hrest : cursor.rest = passed ++ other.rest) :
    other.position = cursor.position.after passed := by
  obtain ⟨first, hfirst, hposition⟩ := h
  rw [hposition, List.append_cancel_right (hfirst.symm.trans hrest)]

/-- At the end of the text the position is that after all of it. -/
theorem Reaches.position_of_nil (h : cursor.Reaches other) (hrest : other.rest = []) :
    other.position = cursor.position.after cursor.rest := by
  obtain ⟨passed, hpassed, hposition⟩ := h
  rw [hrest, List.append_nil] at hpassed
  rw [hposition, hpassed]

/-- Skipping passes over what it skips. -/
theorem reaches_skipWhile (p : Char → Bool) (cursor : Cursor) :
    cursor.Reaches (cursor.skipWhile p) :=
  ⟨_, List.takeWhile_append_dropWhile.symm, rfl⟩

/-- A step passes over one character. -/
theorem reaches_advance (cursor : Cursor) : cursor.Reaches cursor.advance := by
  obtain ⟨rest, p⟩ := cursor
  cases rest with
  | nil => exact .refl _
  | cons c rest => exact .cons (.refl _)

end Cursor

/-- Reading a literal passes over its characters. -/
theorem Literal.reaches_read (p : Position) (text : List Char) :
    Cursor.Reaches ⟨text, p⟩ (read p text).2 := by
  fun_induction read p text with
  | case1 => exact .refl _
  | case2 | case3 | case4 => exact .cons (.refl _)
  | case5 => exact .cons (.cons (.refl _))
  | case6 =>
      rename_i ih
      exact .cons (.cons ih)
  | case7 =>
      rename_i ih
      exact .cons ih

/-- The cursor where looking for a lexeme stopped. -/
def Upcoming.stop : Upcoming → Cursor
  | nothing stop => stop
  | fault _ stop => stop
  | lexeme l => l.stop

/-- `NextStep start upcoming` says how what stands at `start`, where no blank is, comes about. -/
inductive NextStep (start : Cursor) : Upcoming → Prop where
  | nothing : start.rest = [] → NextStep start (.nothing start)
  | opening {rest : List Char} :
      start.rest = '(' :: rest → NextStep start (.lexeme ⟨.opening, start, start.advance⟩)
  | closing {rest : List Char} :
      start.rest = ')' :: rest → NextStep start (.lexeme ⟨.closing, start, start.advance⟩)
  | literal {rest : List Char} :
      start.rest = '"' :: rest → NextStep start (start.literal rest)
  | atom :
      NextStep start
        (.lexeme ⟨.atom (start.rest.takeWhile (!isDelimiter ·)), start, start.skipAtom⟩)

namespace Cursor

variable {cursor : Cursor} {l : Lexeme}

/-- What comes next comes about in one of the ways listed, after the blanks. -/
theorem next_step (cursor : Cursor) : NextStep cursor.skipBlanks cursor.next := by
  unfold next
  dsimp only
  split
  · next hrest => exact .nothing hrest
  · next c rest hrest =>
      split
      · next hc => exact .opening (hc ▸ hrest)
      split
      · next hc => exact .closing (hc ▸ hrest)
      split
      · next hc => exact .literal (hc ▸ hrest)
      · exact .atom

/-- A literal that is read begins at its quote. -/
theorem start_of_literal {start : Cursor} {rest : List Char}
    (h : start.literal rest = .lexeme l) : l.start = start := by
  unfold literal at h
  split at h <;> cases h
  rfl

/-- Reading a literal at its quote passes over the quote and what is read. -/
theorem reaches_literal {start : Cursor} {rest : List Char} (h : start.rest = '"' :: rest) :
    start.Reaches (start.literal rest).stop := by
  have hread := Literal.reaches_read (start.position.advance '"') rest
  obtain ⟨text, p⟩ := start
  obtain rfl : text = '"' :: rest := h
  unfold literal
  split
  all_goals
    next hliteral =>
      rw [hliteral] at hread
      exact .cons hread

/-- A lexeme begins after the blanks. -/
theorem start_of_next (h : cursor.next = .lexeme l) : l.start = cursor.skipBlanks := by
  have hstep := cursor.next_step
  generalize cursor.skipBlanks = start at hstep ⊢
  rw [h] at hstep
  generalize hupcoming : Upcoming.lexeme l = upcoming at hstep
  cases hstep with
  | nothing => cases hupcoming
  | opening | closing | atom =>
      cases hupcoming
      rfl
  | literal => exact start_of_literal hupcoming.symm

/-- Looking for the next lexeme passes over it. -/
theorem reaches_next (cursor : Cursor) : cursor.Reaches cursor.next.stop := by
  refine (cursor.reaches_skipWhile isBlank).trans ?_
  show cursor.skipBlanks.Reaches cursor.next.stop
  have hstep := cursor.next_step
  generalize cursor.skipBlanks = start, cursor.next = upcoming at hstep ⊢
  cases hstep with
  | nothing => exact .refl start
  | opening | closing => exact start.reaches_advance
  | literal hrest => exact reaches_literal hrest
  | atom => exact start.reaches_skipWhile _

/-- The end of the next lexeme is reached. -/
theorem reaches_stop (h : cursor.next = .lexeme l) : cursor.Reaches l.stop := by
  have hnext := cursor.reaches_next
  rwa [h] at hnext

/-- The beginning of the next lexeme is reached. -/
theorem reaches_start (h : cursor.next = .lexeme l) : cursor.Reaches l.start := by
  rw [start_of_next h]
  exact cursor.reaches_skipWhile isBlank

end Cursor

/-- Reading passes over text up to where it ends. -/
theorem reaches_resume (limit : Int) (depth : Nat) (stack : List OpenList) (cursor : Cursor) :
    cursor.Reaches (resume limit depth stack cursor).cursor := by
  induction stack, cursor using resume_induction with
  | step stack cursor ih =>
      have hnext := cursor.reaches_next
      cases hcase : cursor.next with
      | nothing stop =>
          rw [hcase] at hnext
          rwa [resume_of_nothing hcase]
      | fault error stop =>
          rw [hcase] at hnext
          rwa [resume_of_fault hcase]
      | lexeme l =>
          have hstop := Cursor.reaches_stop hcase
          cases hshift : l.shift limit depth stack with
          | opened opened =>
              rw [resume_of_opened hcase hshift]
              exact hstop.trans (ih l hcase opened)
          | halted halt =>
              rw [resume_of_halted hcase hshift]
              exact Cursor.reaches_start hcase
          | completed node outer =>
              rw [resume_of_completed hcase hshift]
              cases outer with
              | nil => exact hstop.trans (ih l hcase [])
              | cons opened outer => exact hstop.trans (ih l hcase _)

/-! ## More text after a lexeme -/

namespace Cursor

/-- The cursor in a text that goes on with `more`. -/
def extend (cursor : Cursor) (more : List Char) : Cursor := ⟨cursor.rest ++ more, cursor.position⟩

/-- More text after both cursors changes nothing between them. -/
theorem Reaches.extend {cursor other : Cursor} (h : cursor.Reaches other) (more : List Char) :
    (cursor.extend more).Reaches (other.extend more) := by
  obtain ⟨passed, hpassed, hposition⟩ := h
  refine ⟨passed, ?_, hposition⟩
  show cursor.rest ++ more = passed ++ (other.rest ++ more)
  rw [hpassed, List.append_assoc]

end Cursor

/-- Blanks are blanks in front of more text. -/
theorem Blanks.append {text rest : List Char} (h : Blanks text rest) (more : List Char) :
    Blanks (text ++ more) (rest ++ more) := by
  induction h with
  | none => exact .none _
  | more hc _ ih => exact .more hc ih

/-- Blanks are characters in front of the rest. -/
theorem Blanks.exists_append {text rest : List Char} (h : Blanks text rest) :
    ∃ blanks, text = blanks ++ rest ∧ ∀ c ∈ blanks, isBlank c = true := by
  induction h with
  | none => exact ⟨[], rfl, nofun⟩
  | @more c _ _ hc _ ih =>
      obtain ⟨blanks, rfl, hall⟩ := ih
      exact ⟨c :: blanks, rfl, List.forall_mem_cons.mpr ⟨hc, hall⟩⟩

/-- The units of a literal are the same in front of more text. -/
theorem Units.append {text decoded rest : List Char} (h : Units text decoded rest)
    (more : List Char) : Units (text ++ more) decoded (rest ++ more) := by
  induction h with
  | none => exact .none _
  | plain hfeed hquote hslash _ ih => exact .plain hfeed hquote hslash ih
  | lineFeed _ ih => exact .lineFeed ih
  | quote _ ih => exact .quote ih

/-- What ends an atom does so in front of more text, which has to do it at the end of the text. -/
theorem EndsAtom.append {rest more : List Char} (h : EndsAtom rest) (hmore : EndsAtom more) :
    EndsAtom (rest ++ more) := by
  cases rest with
  | nil => exact hmore
  | cons c rest => exact h

/-- A token is spelled the same in front of more text that ends an atom. -/
theorem Spells.append {text rest more : List Char} {token : Token} (h : Spells text token rest)
    (hmore : EndsAtom more) : Spells (text ++ more) token (rest ++ more) := by
  cases h with
  | opening => exact .opening _
  | closing => exact .closing _
  | atom hatom hends =>
      rw [List.append_assoc]
      exact .atom hatom (hends.append hmore)
  | literal hunits => exact .literal (hunits.append more)

namespace Cursor

variable {cursor : Cursor} {more : List Char}

/-- More text that ends an atom changes neither the next lexeme nor its place. -/
theorem next_extend {l : Lexeme} (h : cursor.next = .lexeme l) (hmore : EndsAtom more) :
    (cursor.extend more).next = .lexeme ⟨l.token, l.start.extend more, l.stop.extend more⟩ := by
  obtain ⟨hblanks, hspells⟩ := next_sound h
  obtain ⟨p, hskip⟩ := next_of_blanks (hblanks.append more) cursor.position
  obtain ⟨q, hnext⟩ := next_complete (hspells.append hmore) p
  have hlexeme := hskip.trans hnext
  -- Where the lexeme begins and ends follows from the text that is left there.
  have hstart := (reaches_start hlexeme).eq_of_rest_eq ((reaches_start h).extend more) rfl
  have hstop := (reaches_stop hlexeme).eq_of_rest_eq ((reaches_stop h).extend more) rfl
  refine hlexeme.trans ?_
  rw [← hstart, ← hstop]

/-- Blanks at the cursor are passed over. -/
theorem next_append_blanks {blanks : List Char} (h : ∀ c ∈ blanks, isBlank c = true)
    (rest : List Char) (p : Position) :
    next ⟨blanks ++ rest, p⟩ = next ⟨rest, p.after blanks⟩ := by
  induction blanks generalizing p with
  | nil => rfl
  | cons c blanks ih =>
      rw [List.cons_append, next_of_blank (h c List.mem_cons_self),
        ih fun d hd => h d (List.mem_cons_of_mem c hd)]
      rfl

/-- Where nothing comes next, more text is looked at from its beginning. -/
theorem next_extend_of_nothing {stop : Cursor} (h : cursor.next = .nothing stop) :
    (cursor.extend more).next = (stop.extend more).next := by
  obtain ⟨hblanks, hrest⟩ := next_nothing h
  have hposition : stop.position = cursor.position.after cursor.rest := by
    have hreaches := cursor.reaches_next
    rw [h] at hreaches
    exact hreaches.position_of_nil hrest
  obtain ⟨blanks, htext, hall⟩ := hblanks.exists_append
  rw [List.append_nil] at htext
  unfold extend
  rw [htext, next_append_blanks hall, hposition, hrest, htext]
  rfl

end Cursor

/-- A lexeme never lets reading finish. -/
theorem shift_ne_finished (limit : Int) (depth : Nat) (stack : List OpenList) (l : Lexeme) :
    l.shift limit depth stack ≠ .halted .finished := by
  intro h
  unfold Lexeme.shift at h
  split at h
  · split at h <;> cases h
  · split at h <;> cases h
  · cases h
  · cases h

/-- After a text that is read to its end, reading goes on with more text as if it began there, if
that text does not prolong an atom. -/
theorem resume_extend {limit : Int} {depth : Nat} {more : List Char} (hmore : EndsAtom more)
    (stack : List OpenList) (cursor : Cursor)
    (h : (resume limit depth stack cursor).halt = .finished) :
    (resume limit depth stack (cursor.extend more)).forms.map Prod.fst =
        (resume limit depth stack cursor).forms.map Prod.fst ++
          (resume limit depth []
            ((resume limit depth stack cursor).cursor.extend more)).forms.map Prod.fst ∧
      (resume limit depth stack (cursor.extend more)).halt =
        (resume limit depth [] ((resume limit depth stack cursor).cursor.extend more)).halt := by
  induction stack, cursor using resume_induction with
  | step stack cursor ih =>
      cases hnext : cursor.next with
      | nothing stop =>
          rw [resume_of_nothing hnext] at h ⊢
          -- Reading can only finish where no list is open.
          cases stack with
          | nil =>
              rw [resume_congr (Cursor.next_extend_of_nothing hnext)]
              exact ⟨rfl, rfl⟩
          | cons => cases h
      | fault error stop =>
          rw [resume_of_fault hnext] at h
          cases h
      | lexeme l =>
          have hextended := Cursor.next_extend hnext hmore
          have hshift : Lexeme.shift limit depth stack
              ⟨l.token, l.start.extend more, l.stop.extend more⟩ = l.shift limit depth stack := rfl
          cases hcase : l.shift limit depth stack with
          | opened opened =>
              rw [resume_of_opened hnext hcase] at h ⊢
              rw [resume_of_opened hextended (hshift.trans hcase)]
              exact ih l hnext opened h
          | halted halt =>
              rw [resume_of_halted hnext hcase] at h
              exact absurd (h ▸ hcase) (shift_ne_finished limit depth stack l)
          | completed node outer =>
              rw [resume_of_completed hnext hcase] at h ⊢
              rw [resume_of_completed hextended (hshift.trans hcase)]
              cases outer with
              | nil =>
                  obtain ⟨hforms, hhalt⟩ := ih l hnext [] h
                  refine ⟨?_, hhalt⟩
                  simp only [absorb, List.map_append, List.map_cons, List.map_nil, hforms,
                    List.append_assoc]
              | cons opened outer => exact ih l hnext _ h

end Sexpr
