import Sexpr.Proofs.Context

/-!
# Completing a text with closing parentheses

A text that ends within lists can be completed: closing parentheses after it close the lists that
are open at its end. `Station.Exhausts` says that reading goes through the whole of a text, and
`Exhausts.resume_append` what more closing parentheses then come to: the text is complete if there
are as many of them as lists are open, and only then. A text that is not read through, because of
a fault or an unmatched parenthesis, is not made better by closing parentheses
(`exhausts_of_finished`): a literal at fault stays at fault. `exists_refuses` lists the ways in
which a text can be refused, and `missing_close_iff_completable` says which of them can be made
good.
-/

namespace Sexpr

/-! ## Literals before closing parentheses -/

namespace Literal

/-- The text or the line ends before the literal does. -/
def isOpen : Literal → Bool
  | unterminated => true
  | newline _ => true
  | _ => false

/-- A character in front does not close a literal. -/
@[simp]
theorem isOpen_push (c : Char) (literal : Literal) : (literal.push c).isOpen = literal.isOpen := by
  cases literal <;> rfl

/-- An escape in front does not close a literal. -/
@[simp]
theorem isOpen_pushEscape (c : Char) (p : Position) (literal : Literal) :
    (literal.pushEscape c p).isOpen = literal.isOpen := by
  unfold pushEscape
  split
  · exact isOpen_push _ literal
  · cases literal <;> rfl

/-- Without a quote a literal is not closed. -/
theorem isOpen_read_of_not_mem {p : Position} {text : List Char} (h : '"' ∉ text) :
    (read p text).1.isOpen = true := by
  fun_induction read p text with
  | case1 | case3 | case4 | case5 => rfl
  | case2 => simp at h
  | case6 p d rest hfeed _ _ later ih =>
      have hrest : '"' ∉ rest := fun hmem => h (.tail _ (.tail _ hmem))
      simpa using ih hrest
  | case7 p c rest hquote hfeed hslash later ih =>
      have hrest : '"' ∉ rest := fun hmem => h (.tail _ hmem)
      simpa using ih hrest

/-- A literal that is not closed at the end of a text is not closed by more text without a
quote. -/
theorem isOpen_read_append {p : Position} {text more : List Char}
    (h : (read p text).1 = unterminated) (hmore : '"' ∉ more) :
    (read p (text ++ more)).1.isOpen = true := by
  fun_induction read p text with
  | case1 => exact isOpen_read_of_not_mem hmore
  | case2 | case3 | case5 => cases h
  | case4 p =>
      have hslash : '"' ∉ ['\\'] ++ more := by simpa using hmore
      exact isOpen_read_of_not_mem hslash
  | case6 p d rest hfeed _ _ later ih =>
      rw [List.cons_append, List.cons_append, read_escape hfeed]
      simpa using ih (pushEscape_eq_unterminated_iff.mp h)
  | case7 p c rest hquote hfeed hslash later ih =>
      rw [List.cons_append, read_plain hfeed hquote hslash]
      simpa using ih (push_eq_unterminated_iff.mp h)

end Literal

namespace Cursor

/-- A literal that is not closed is at fault. -/
theorem literal_of_isOpen {start : Cursor} {text : List Char}
    (h : (Literal.read (start.position.advance '"') text).1.isOpen = true) :
    ∃ error stop, start.literal text = .fault error stop := by
  unfold literal
  rcases hread : Literal.read (start.position.advance '"') text with ⟨found, stop⟩
  rw [hread] at h
  cases found with
  | closed | badEscape => cases h
  | newline | unterminated => exact ⟨_, _, rfl⟩

/-- A literal at fault stays at fault if the text goes on without a quote. -/
theorem next_extend_of_fault {cursor stop : Cursor} {error : ReadError} {more : List Char}
    (h : cursor.next = .fault error stop) (hmore : '"' ∉ more) :
    ∃ error stop, (cursor.extend more).next = .fault error stop := by
  have hparallel : Parallel [] more cursor (cursor.extend more) :=
    ⟨cursor.rest, cursor.position, by simp, rfl⟩
  obtain ⟨text, hquote, hliteral⟩ := literal_of_next_fault h
  have hskip : cursor.skipBlanks.rest = '"' :: text ++ [] := by simp [hquote]
  rw [hparallel.next_eq hskip, List.cons_append, next_quote]
  obtain ⟨found, hread, hfound, -⟩ := read_of_literal_fault hliteral
  by_cases hfault : error.fault = .unterminated
  · refine literal_of_isOpen (Literal.isOpen_read_append ?_ hmore)
    rw [hread]
    exact hfound.mpr hfault
  · obtain ⟨written, rfl, hother⟩ := literal_fault_replace hliteral hfault
    rw [List.append_assoc]
    exact ⟨_, _, hother _ (stop.rest ++ more) rfl⟩

/-- A fault that comes next is never that of a list. -/
theorem fault_ne_missingClose {cursor stop : Cursor} {error : ReadError}
    (h : cursor.next = .fault error stop) : error.fault ≠ .missingClose := by
  obtain ⟨text, -, hliteral⟩ := literal_of_next_fault h
  unfold literal at hliteral
  split at hliteral <;> cases hliteral <;> simp

end Cursor

/-! ## Closing parentheses -/

/-- The text only closes lists: it consists of closing parentheses and blanks. -/
def ClosesOnly (text : List Char) : Prop := ∀ c ∈ text, isBlank c = true ∨ c = ')'

instance (text : List Char) : Decidable (ClosesOnly text) :=
  List.decidableBAll (fun c => isBlank c = true ∨ c = ')') text

/-- A text that only closes lists prolongs no atom. -/
theorem ClosesOnly.endsAtom {text : List Char} (h : ClosesOnly text) : EndsAtom text := by
  intro c hc
  rcases h c (List.mem_of_mem_head? hc) with hblank | rfl
  · simp [isDelimiter, hblank]
  · rfl

/-- A text that only closes lists has no quote. -/
theorem ClosesOnly.quote_not_mem {text : List Char} (h : ClosesOnly text) : '"' ∉ text := by
  intro hmem
  rcases h _ hmem with hblank | hclosing
  · cases hblank
  · cases hclosing

/-- The form that comes about at the top level when the lists around a form are closed after it. -/
def OpenList.closeAll (node : Node) : List OpenList → Node
  | [] => node
  | opened :: outer => closeAll (opened.push node).close outer

/-- The forms that come about at the top level when all open lists are closed. -/
def OpenList.collapse : List OpenList → List Node
  | [] => []
  | opened :: outer => [closeAll opened.close outer]

open OpenList (collapse)

variable {limit : Int} {depth : Nat}

/-- Closing parentheses close the lists that are open if there are as many of them; fewer leave a
list open, and more do not match. -/
theorem resume_closers {closers : List Char} (h : ClosesOnly closers) (stack : List OpenList)
    (p : Position) :
    (closers.count ')' = stack.length →
      (resume limit depth stack ⟨closers, p⟩).halt = .finished ∧
      (resume limit depth stack ⟨closers, p⟩).forms.map Prod.fst = collapse stack) ∧
    (closers.count ')' ≠ stack.length →
      (resume limit depth stack ⟨closers, p⟩).halt ≠ .finished) := by
  induction closers generalizing stack p with
  | nil =>
      have hnext : Cursor.next ⟨[], p⟩ = .nothing ⟨[], p⟩ := rfl
      rw [resume_of_nothing hnext]
      cases stack with
      | nil => exact ⟨fun _ => ⟨rfl, rfl⟩, fun hcount => absurd rfl hcount⟩
      | cons => exact ⟨fun hcount => absurd hcount (by simp), fun _ => nofun⟩
  | cons c closers ih =>
      obtain ⟨hc, hclosers⟩ := List.forall_mem_cons.mp h
      rcases hc with hblank | rfl
      · have hcount : (c :: closers).count ')' = closers.count ')' := by
          refine List.count_cons_of_ne ?_
          rintro rfl
          cases hblank
        rw [hcount, resume_congr (Cursor.next_of_blank hblank closers p)]
        exact ih hclosers stack _
      · obtain ⟨q, hnext⟩ := Cursor.next_complete (.closing closers) p
        rw [List.count_cons_self]
        cases stack with
        | nil =>
            rw [resume_of_halted hnext rfl]
            exact ⟨fun hcount => absurd hcount (by simp), fun _ => nofun⟩
        | cons opened outer =>
            rw [resume_of_completed hnext (shift_closing _ _ _ _), List.length_cons,
              Nat.add_right_cancel_iff, ne_eq, Nat.add_right_cancel_iff]
            cases outer with
            | nil =>
                obtain ⟨hall, hnot⟩ := ih hclosers [] q
                refine ⟨fun hcount => ⟨(hall hcount).1, ?_⟩, hnot⟩
                simp [absorb, (hall hcount).2, collapse, OpenList.closeAll]
            | cons next outer => exact ih hclosers (next.push opened.close :: outer) q

/-! ## Texts that are read through -/

/-- The text is read through: reading leads to a station after which only blanks are left. -/
structure Station.Exhausts (limit : Int) (text : List Char) (last : Station) : Prop where
  leads : Station.Leads limit 0 (.start (.ofText text)) last
  nothing : ∃ stop, last.cursor.next = .nothing stop

namespace Station.Exhausts

variable {text more : List Char} {last : Station}

/-- At the end of a text that is read through, the parentheses that the text has opened are those of
the lists that are open. -/
theorem contextAt_eq (h : last.Exhausts limit text) :
    (contextAt text text.length).Settled [] ∧
      (contextAt text text.length).opened = last.starts := by
  obtain ⟨passed, htext, hfits⟩ := Context.fits_leads h.leads
  obtain ⟨stop, hnext⟩ := h.nothing
  obtain ⟨blanks, hrest, hblanks⟩ := (Cursor.next_nothing hnext).1.exists_append
  obtain ⟨hsettled, hopened, -⟩ := (hrest ▸ hfits.settled).pass_blanks hblanks
  rw [hrest, List.append_nil] at htext
  have hcontext : contextAt text text.length = (Context.start.passAll passed).passAll blanks := by
    rw [contextAt, List.take_length, htext, Context.passAll_append]
  rw [hcontext, hopened, hfits.opened_eq]
  exact ⟨hsettled, rfl⟩

/-- What closing parentheses after a text that is read through come to. -/
theorem resume_append (h : last.Exhausts limit text) (hmore : ClosesOnly more) :
    (more.count ')' = last.stack.length →
      (resume limit 0 [] (.ofText (text ++ more))).halt = .finished ∧
      (resume limit 0 [] (.ofText (text ++ more))).forms.map Prod.fst =
        last.forms.map Prod.fst ++ collapse last.stack) ∧
    (more.count ')' ≠ last.stack.length →
      (resume limit 0 [] (.ofText (text ++ more))).halt ≠ .finished) := by
  obtain ⟨stop, hnext⟩ := h.nothing
  have hstop : stop.extend more = ⟨more, stop.position⟩ := by
    simp [Cursor.extend, (Cursor.next_nothing hnext).2]
  have hlast : resume limit 0 last.stack (last.cursor.extend more) =
      resume limit 0 last.stack ⟨more, stop.position⟩ := by
    rw [resume_congr (Cursor.next_extend_of_nothing hnext), hstop]
  obtain ⟨hall, hnot⟩ := @resume_closers limit 0 more hmore last.stack stop.position
  rw [← hlast] at hall hnot
  rw [h.leads.resume_append hmore.endsAtom]
  refine ⟨fun hcount => ⟨(hall hcount).1, ?_⟩, hnot⟩
  simp [outcome, extend, (hall hcount).2]

/-- A text that ends within a list is refused for that. -/
theorem parse_of_cons {source : String} {opened : OpenList} {outer : List OpenList}
    (h : last.Exhausts limit source.toList) (hstack : last.stack = opened :: outer) :
    parse source limit = .error ⟨.missingClose, opened.start⟩ := by
  obtain ⟨stop, hnext⟩ := h.nothing
  refine parse_of_fault ?_
  rw [← outcome_start, h.leads.outcome_eq, outcome, resume_of_nothing hnext, hstack]
  rfl

end Station.Exhausts

open Station (Exhausts)

/-- A text that is complete with closing parentheses is read through without them. -/
theorem exhausts_of_finished {text more : List Char} (hmore : ClosesOnly more)
    (h : (resume limit 0 [] (.ofText (text ++ more))).halt = .finished) :
    ∃ last, Exhausts limit text last := by
  obtain ⟨last, halt, stop, hleads, hends, -⟩ :=
    Station.exists_last limit 0 (.start (.ofText text))
  have hhalt : ∀ halt stop, (last.extend more).Ends limit 0 halt stop → halt = .finished := by
    intro halt stop hlast
    rw [← h, hleads.resume_append hmore.endsAtom, hlast.outcome_eq]
  cases hends with
  | nothing hnext => exact ⟨last, hleads, stop, hnext⟩
  | fault hnext =>
      obtain ⟨error, stop, hfault⟩ := Cursor.next_extend_of_fault hnext hmore.quote_not_mem
      cases hhalt _ _ (.fault hfault)
  | tooDeep hnext hfull =>
      cases hhalt _ _ (.tooDeep (Cursor.next_extend hnext hmore.endsAtom) hfull)
  | unmatched hnext hstack =>
      cases hhalt _ _ (.unmatched (Cursor.next_extend hnext hmore.endsAtom) hstack)

/-- Where the text is refused: `Refuses limit text last error` says that reading leads to the
station `last` and ends there with the fault. -/
inductive Refuses (limit : Int) (text : List Char) (last : Station) : ReadError → Prop where
  /-- The text ends within a list, the innermost one that is open. -/
  | missingClose {opened : OpenList} {outer : List OpenList} :
      Exhausts limit text last → last.stack = opened :: outer →
      Refuses limit text last ⟨.missingClose, opened.start⟩
  /-- A literal is at fault. -/
  | literal {error : ReadError} {stop : Cursor} :
      Station.Leads limit 0 (.start (.ofText text)) last → last.cursor.next = .fault error stop →
      Refuses limit text last error
  /-- There is no room for a list. -/
  | tooDeep {first stop : Cursor} :
      Station.Leads limit 0 (.start (.ofText text)) last →
      last.cursor.next = .lexeme ⟨.opening, first, stop⟩ → room limit 0 ≤ last.stack.length →
      Refuses limit text last ⟨.tooDeep limit, first.position⟩

/-- A text that is refused is refused at some station. -/
theorem exists_refuses {source : String} {error : ReadError}
    (h : parse source limit = .error error) : ∃ last, Refuses limit source.toList last error := by
  obtain ⟨last, halt, stop, hleads, hends, houtcome⟩ :=
    Station.exists_last limit 0 (.start (.ofText source.toList))
  obtain rfl : halt = .fault error := by
    rw [← parse_eq_error_iff.mp h, ← Station.outcome_start, houtcome]
  refine ⟨last, ?_⟩
  generalize hhalt : Halt.fault error = halt at hends
  cases hends with
  | nothing hnext =>
      cases hstack : last.stack with
      | nil =>
          rw [hstack] at hhalt
          cases hhalt
      | cons opened outer =>
          rw [hstack] at hhalt
          cases hhalt
          exact .missingClose ⟨hleads, stop, hnext⟩ hstack
  | fault hnext =>
      cases hhalt
      exact .literal hleads hnext
  | tooDeep hnext hfull =>
      cases hhalt
      exact .tooDeep hleads hnext hfull
  | unmatched => cases hhalt

/-- A text that is refused for a list that is not closed is read through, and a list is open. -/
theorem exhausts_of_missingClose {source : String} {p : Position}
    (h : parse source limit = .error ⟨.missingClose, p⟩) :
    ∃ last, Exhausts limit source.toList last ∧ last.stack ≠ [] := by
  obtain ⟨last, hrefuses⟩ := exists_refuses h
  generalize herror : (⟨.missingClose, p⟩ : ReadError) = error at hrefuses
  cases hrefuses with
  | missingClose hlast hstack => exact ⟨last, hlast, by simp [hstack]⟩
  | literal hleads hnext =>
      subst herror
      exact absurd rfl (Cursor.fault_ne_missingClose hnext)
  | tooDeep => cases herror

/-! ## Completion -/

/-- A reader of the whole text returns these forms and stops at its end. -/
def ReadsThrough (limit : Int) (text : List Char) (forms : List Node) : Prop :=
  ∃ stopped, (Reader.ofText (String.ofList text) limit).readForms = (.ok forms, stopped) ∧
    stopped.cursor.rest = []

/-- A reader stops at the end of a text with forms exactly when reading finishes with them. -/
theorem readsThrough_iff {text : List Char} {forms : List Node} :
    ReadsThrough limit text forms ↔
      (resume limit 0 [] (.ofText text)).halt = .finished ∧
        (resume limit 0 [] (.ofText text)).forms.map Prod.fst = forms := by
  constructor
  · rintro ⟨stopped, hread, hrest⟩
    have hend : stopped.atEnd = true := by
      simp [Reader.atEnd, Reader.skipBlanks, Reader.peek, Cursor.peek, Cursor.skipBlanks,
        Cursor.skipWhile, hrest]
    simpa using resume_of_atEnd hread hend
  · rintro ⟨hhalt, rfl⟩
    have houtcome : (Reader.ofText (String.ofList text) limit).outcome =
        resume limit 0 [] (.ofText text) := by
      rw [Reader.ofText, String.toList_ofList]
      rfl
    have hfits := halt_fits_resume limit 0 [] (.ofText text)
    rw [hhalt] at hfits
    refine ⟨⟨(resume limit 0 [] (.ofText text)).cursor, 0, limit⟩, ?_, hfits⟩
    simp only [Reader.readForms, houtcome, hhalt]
    rfl

/-- A text is refused for a closing parenthesis that is missing exactly when a number of closing
parentheses, at least one, makes it a text that is read to its end. That number is then the number
of parentheses that the text leaves open, and the forms that are read do not depend on the blanks
that stand between the parentheses or around them. -/
theorem missing_close_iff_completable (source : String) (limit : Int) :
    let text := source.toList
    let closers := fun k => List.replicate k ')'
    ((∃ p, parse source limit = .error ⟨.missingClose, p⟩) ↔
      ∃ k forms, 1 ≤ k ∧ ReadsThrough limit (text ++ closers k) forms) ∧
    ∀ k forms, 1 ≤ k → ReadsThrough limit (text ++ closers k) forms →
      k = (contextAt text text.length).opened.length ∧
      ∀ spaced, ClosesOnly spaced → spaced.count ')' = k →
        ReadsThrough limit (text ++ spaced) forms := by
  intro text closers
  have hclosers : ∀ k, ClosesOnly (closers k) := fun k c hc => .inr (List.eq_of_mem_replicate hc)
  have hcount : ∀ k, (closers k).count ')' = k := fun k => List.count_replicate_self
  have hcompleted : ∀ k forms, ReadsThrough limit (text ++ closers k) forms →
      ∃ last, Exhausts limit text last ∧ k = last.stack.length ∧
        forms = last.forms.map Prod.fst ++ collapse last.stack := by
    intro k forms hforms
    obtain ⟨hfinished, hread⟩ := readsThrough_iff.mp hforms
    obtain ⟨last, hlast⟩ := exhausts_of_finished (hclosers k) hfinished
    obtain ⟨hall, hnot⟩ := hlast.resume_append (hclosers k)
    rw [hcount] at hall hnot
    have hk : k = last.stack.length := Decidable.byContradiction fun hk => hnot hk hfinished
    exact ⟨last, hlast, hk, hread.symm.trans (hall hk).2⟩
  refine ⟨⟨?_, ?_⟩, ?_⟩
  · rintro ⟨p, hmissing⟩
    obtain ⟨last, hlast, hstack⟩ := exhausts_of_missingClose hmissing
    exact ⟨last.stack.length, _, List.length_pos_iff.mpr hstack,
      readsThrough_iff.mpr ((hlast.resume_append (hclosers _)).1 (hcount _))⟩
  · rintro ⟨k, forms, hk, hforms⟩
    obtain ⟨last, hlast, rfl, -⟩ := hcompleted k forms hforms
    obtain ⟨opened, outer, hstack⟩ := List.exists_cons_of_length_pos hk
    exact ⟨_, hlast.parse_of_cons hstack⟩
  · intro k forms hk hforms
    obtain ⟨last, hlast, rfl, rfl⟩ := hcompleted k forms hforms
    refine ⟨?_, ?_⟩
    · rw [hlast.contextAt_eq.2, Station.starts, List.length_map]
    · intro spaced hspaced hsame
      exact readsThrough_iff.mpr ((hlast.resume_append hspaced).1 hsame)

/-- A text with a parenthesis within a literal that ends within two lists is completed by two
parentheses, and by two on lines of their own to the same forms. -/
theorem completable_after_quoted_parenthesis :
    let text := "a (f \")\" (g".toList
    ∃ forms, ReadsThrough 2 (text ++ "))".toList) forms ∧
      ReadsThrough 2 (text ++ "\n)\t\n) ".toList) forms := by
  intro text
  have hparse : parse "a (f \")\" (g" 2 = .error ⟨.missingClose, ⟨9, 1, 10⟩⟩ :=
    parse_of_fault (by decide +kernel)
  obtain ⟨⟨hcompletable, -⟩, hunique⟩ := missing_close_iff_completable "a (f \")\" (g" 2
  obtain ⟨k, forms, hk, hforms⟩ := hcompletable ⟨_, hparse⟩
  obtain ⟨hcount, hspaced⟩ := hunique k forms hk hforms
  obtain rfl : k = 2 := hcount.trans (by decide +kernel)
  exact ⟨forms, hforms, hspaced _ (by decide +kernel) (by decide +kernel)⟩

end Sexpr
