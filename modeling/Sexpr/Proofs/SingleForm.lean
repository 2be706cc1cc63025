import Sexpr.Proofs.History
import Sexpr.Proofs.Threshold

/-!
# One form and all forms

A source text can be read for all its forms (`parse`) or as a single one (`parseForm`). Both read
the first form in the same way and part after it: the one reads on, the other only looks whether
anything follows. `Foremost` says in the words of the grammar that a form is the first one from a
cursor on. Such a form is what the reader completes first (`Foremost.resume_eq`), and what it
completes first is such a form (`foremost_of_cons`), even if a fault is met after it.
`one_form_agrees_with_all` puts the two ways of reading beside each other, for every way in which
reading can end.
-/

namespace Sexpr

/-! ## The first form and what follows it -/

/-- The form is the first one from the cursor on and ends at `stop`: only blanks stand before it,
and its lists find room. -/
structure Foremost (room : Nat) (cursor : Cursor) (node : Node) (stop : Cursor) : Prop where
  spans : ∃ start, cursor.Skips start ∧ Spans start node stop
  nesting_le : node.nesting ≤ room

/-- After nothing but blanks, a form begins at `start` with the character `c`. -/
structure Cursor.MeetsForm (cursor start : Cursor) (c : Char) : Prop where
  skips : cursor.Skips start
  peek_eq : start.peek = some c
  not_blank : isBlank c = false
  not_closing : c ≠ ')'

namespace Cursor

variable {cursor : Cursor}

/-- After the blanks the text has ended, or a closing parenthesis or a form comes next. -/
theorem ends_or_meets (cursor : Cursor) :
    (cursor.skipBlanks.rest = [] ∨ ∃ more, cursor.skipBlanks.rest = ')' :: more) ∨
      ∃ c, cursor.MeetsForm cursor.skipBlanks c := by
  cases hrest : cursor.skipBlanks.rest with
  | nil => exact .inl (.inl rfl)
  | cons c rest =>
      by_cases hc : c = ')'
      · subst hc
        exact .inl (.inr ⟨rest, rfl⟩)
      · refine .inr ⟨c, cursor.skips_skipBlanks, ?_, isBlank_of_skipBlanks hrest, hc⟩
        rw [peek, hrest]
        rfl

/-- A closing parenthesis at the cursor comes next. -/
theorem next_closing (h : cursor.peek = some ')') :
    cursor.next = .lexeme ⟨.closing, cursor, cursor.advance⟩ := by
  obtain ⟨rest, hrest⟩ := List.head?_eq_some_iff.mp h
  obtain ⟨text, p⟩ := cursor
  obtain rfl : text = ')' :: rest := hrest
  obtain ⟨q, hnext⟩ := next_complete (.closing rest) p
  rw [hnext, stop_of_closing hnext]

end Cursor

variable {limit : Int} {depth : Nat} {cursor stop : Cursor} {node : Node}
  {more : List (Node × Cursor)}

/-- The first form has the position where the blanks before it end. -/
theorem Foremost.position_eq {room : Nat} (h : Foremost room cursor node stop) :
    node.position = some cursor.skipBlanks.position := by
  obtain ⟨start, hskips, hspans⟩ := h.spans
  have hstart : cursor.skipBlanks = start := by
    cases hspans with
    | list hnext | atom hnext | literal hnext =>
        exact (Cursor.start_of_next (hskips.next_eq.trans hnext)).symm
  rw [hstart]
  exact hspans.position_eq

/-- The first form is read first. -/
theorem Foremost.resume_eq (h : Foremost (room limit depth) cursor node stop) :
    resume limit depth [] cursor = absorb limit depth [(node, stop)] stop [] := by
  obtain ⟨start, hskips, hspans⟩ := h.spans
  rw [resume_congr hskips.next_eq]
  exact hspans.resume_eq h.nesting_le

/-- A list that is complete is read within its parentheses without a fault. -/
theorem foremost_of_opening {first inside : Cursor}
    (hnext : cursor.next = .lexeme ⟨.opening, first, inside⟩)
    (hroom : ([] : List OpenList).length < room limit depth)
    (h : (resume limit depth [] cursor).forms = (node, stop) :: more) :
    Foremost (room limit depth) cursor node stop := by
  have hopened : resume limit depth [] cursor =
      (resume limit (depth + 1) [] inside).enclose limit depth ⟨first.position, []⟩ :=
    (resume_of_opened hnext (shift_opening hroom)).trans (resume_frame [] inside _)
  have hfits := halt_fits_resume limit (depth + 1) [] inside
  rw [hopened, Outcome.enclose] at h
  cases hhalt : (resume limit (depth + 1) [] inside).halt with
  | finished | fault => simp [hhalt] at h
  | unmatched =>
      rw [hhalt] at h hfits
      cases h
      have hquiet : ∀ error, (resume limit (depth + 1) [] inside).halt ≠ .fault error := by
        simp [hhalt]
      have hitems := resume_spans hquiet
      have hinner := (resume_sound limit (depth + 1) [] inside hquiet).2
      refine ⟨⟨first, Cursor.skips_start hnext, ?_⟩, ?_⟩
      · exact .list (Cursor.next_start hnext) hitems (Cursor.next_closing hfits)
      · simp only [List.reverse_nil, List.nil_append, Node.nesting]
        unfold room at hinner hroom ⊢
        omega

/-- What is completed first is the first form. -/
theorem foremost_of_cons (h : (resume limit depth [] cursor).forms = (node, stop) :: more) :
    Foremost (room limit depth) cursor node stop := by
  cases hnext : cursor.next with
  | nothing => simp [resume_of_nothing hnext] at h
  | fault => simp [resume_of_fault hnext] at h
  | lexeme l =>
      obtain ⟨token, first, last⟩ := l
      have hskips := Cursor.skips_start hnext
      have hstart := Cursor.next_start hnext
      cases token with
      | opening =>
          by_cases hroom : ([] : List OpenList).length < room limit depth
          · exact foremost_of_opening hnext hroom h
          · rw [resume_of_halted hnext (shift_opening_full (Nat.not_lt.mp hroom))] at h
            cases h
      | closing =>
          rw [resume_of_halted hnext rfl] at h
          cases h
      | atom text =>
          rw [resume_of_completed hnext (shift_atom _ _ _)] at h
          cases h
          refine ⟨⟨first, hskips, .atom hstart⟩, ?_⟩
          rw [Node.nesting_ofAtom]
          exact Nat.zero_le _
      | literal text =>
          rw [resume_of_completed hnext (shift_literal _ _ _)] at h
          cases h
          exact ⟨⟨first, hskips, .literal hstart⟩, Nat.zero_le _⟩

/-- Where only blanks are left, or a closing parenthesis comes next, reading ends after the
blanks. -/
theorem resume_of_end
    (h : cursor.skipBlanks.rest = [] ∨ ∃ more, cursor.skipBlanks.rest = ')' :: more) :
    (resume limit depth [] cursor).forms = [] ∧
      (resume limit depth [] cursor).cursor = cursor.skipBlanks ∧
      ∀ error, (resume limit depth [] cursor).halt ≠ .fault error := by
  rw [← resume_congr cursor.next_skipBlanks]
  exact resume_at_end h cursor.skipBlanks.position

/-- Where a form or a fault is read, a form begins. -/
theorem exists_meetsForm
    (h : (resume limit depth [] cursor).forms = [] →
      ∃ error, (resume limit depth [] cursor).halt = .fault error) :
    ∃ c, cursor.MeetsForm cursor.skipBlanks c := by
  refine cursor.ends_or_meets.resolve_left fun hend => ?_
  obtain ⟨hforms, -, hquiet⟩ := @resume_of_end limit depth cursor hend
  obtain ⟨error, herror⟩ := h hforms
  exact hquiet error herror

/-- After the first form reading goes on with the others. -/
theorem resume_after_first (h : (resume limit depth [] cursor).forms = (node, stop) :: more) :
    resume limit depth [] stop =
      ⟨more, (resume limit depth [] cursor).halt, (resume limit depth [] cursor).cursor⟩ := by
  have hfirst := resume_first h
  rw [hfirst] at h ⊢
  rw [← (List.cons.inj h).2]
  rfl

/-! ## Reading a text as one form -/

section Texts

variable {source : String}

/-- A text without a form is refused for what reading all of it comes to. -/
theorem parseForm_of_refusal (h : (resume limit 0 [] (.ofText source.toList)).forms = []) :
    parseForm source limit =
      .error (Reader.refusal (resume limit 0 [] (.ofText source.toList))) := by
  have hread := @Reader.readForm_of_nil (.ofText source limit) h
  rw [parseForm, hread]
  rfl

/-- A text with a form and the beginning of another is refused where that begins. -/
theorem parseForm_of_meetsForm {c : Char}
    (h : (resume limit 0 [] (.ofText source.toList)).forms = (node, stop) :: more)
    (hmeets : stop.MeetsForm stop.skipBlanks c) :
    parseForm source limit = .error ⟨.trailing c, stop.skipBlanks.position⟩ := by
  rw [parseForm_of_cons h, hmeets.peek_eq]

/-- Reading without a fault ends with the text exactly when it finishes. -/
theorem rest_eq_nil_iff (h : ∀ error, (resume limit depth [] cursor).halt ≠ .fault error) :
    (resume limit depth [] cursor).cursor.rest = [] ↔
      (resume limit depth [] cursor).halt = .finished := by
  have hfits := halt_fits_resume limit depth [] cursor
  cases hhalt : (resume limit depth [] cursor).halt with
  | finished =>
      rw [hhalt] at hfits
      exact ⟨fun _ => rfl, fun _ => hfits⟩
  | unmatched =>
      rw [hhalt] at hfits
      refine ⟨fun hrest => ?_, nofun⟩
      rw [hrest] at hfits
      cases hfits
  | fault error => exact absurd hhalt (h error)

/-- A text is read as one form exactly when all that is read of it is that form, to its end. -/
theorem parseForm_eq_ok_iff_parse :
    parseForm source limit = .ok node ↔
      parse source limit = .ok [node] ∧
        (resume limit 0 [] (.ofText source.toList)).cursor.rest = [] := by
  rw [parseForm_eq_ok_iff, parse_eq_ok_iff]
  constructor
  · rintro ⟨hhalt, hforms⟩
    have hquiet : ∀ error, (resume limit 0 [] (.ofText source.toList)).halt ≠ .fault error := by
      simp [hhalt]
    exact ⟨⟨hquiet, hforms⟩, (rest_eq_nil_iff hquiet).mpr hhalt⟩
  · rintro ⟨⟨hquiet, hforms⟩, hrest⟩
    exact ⟨(rest_eq_nil_iff hquiet).mp hrest, hforms⟩

/-- A text of two forms or more is refused where the second one begins. -/
theorem parseForm_of_second {first second : Node} {others : List Node}
    (h : parse source limit = .ok (first :: second :: others)) :
    ∃ p c, second.position = some p ∧ source.toList[p.offset.toNat]? = some c ∧
      parseForm source limit = .error ⟨.trailing c, p⟩ := by
  obtain ⟨-, hnodes⟩ := parse_eq_ok_iff.mp h
  obtain ⟨⟨_, stop⟩, more, hforms, rfl, hmore⟩ := List.map_eq_cons_iff.mp hnodes
  obtain ⟨⟨_, last⟩, more, rfl, rfl, -⟩ := List.map_eq_cons_iff.mp hmore
  have hlater := congrArg Outcome.forms (resume_after_first hforms)
  obtain ⟨c, hmeets⟩ := @exists_meetsForm limit 0 stop (by simp [hlater])
  have hstop := reaches_forms limit 0 [] (.ofText source.toList) _ (hforms ▸ List.mem_cons_self)
  have hrest := (hstop.1.trans hmeets.skips.reaches).isIn.2
  refine ⟨_, c, (foremost_of_cons hlater).position_eq, ?_, parseForm_of_meetsForm hforms hmeets⟩
  rw [← List.head?_drop, ← hrest]
  exact hmeets.peek_eq

/-- A text of one form before an unmatched parenthesis is refused at that parenthesis. -/
theorem parseForm_of_unmatched (h : parse source limit = .ok [node])
    (hclosing : (resume limit 0 [] (.ofText source.toList)).cursor.peek = some ')') :
    parseForm source limit =
      .error ⟨.trailing ')', (resume limit 0 [] (.ofText source.toList)).cursor.position⟩ := by
  obtain ⟨hquiet, hnodes⟩ := parse_eq_ok_iff.mp h
  obtain ⟨⟨_, stop⟩, more, hforms, rfl, hmore⟩ := List.map_eq_cons_iff.mp hnodes
  obtain rfl := List.map_eq_nil_iff.mp hmore
  have hlater := resume_after_first hforms
  have hpeek := @Reader.peek_of_nil ⟨stop, 0, limit⟩ (congrArg Outcome.forms hlater)
    fun error herror => hquiet error ((congrArg Outcome.halt hlater).symm.trans herror)
  obtain ⟨-, hcursor, -⟩ := @resume_of_end limit 0 stop
    (hpeek.imp List.head?_eq_none_iff.mp List.head?_eq_some_iff.mp)
  -- Only blanks stand between the form and the parenthesis at which reading ended.
  have hstop : (resume limit 0 [] (.ofText source.toList)).cursor = stop.skipBlanks :=
    (congrArg Outcome.cursor hlater).symm.trans hcursor
  rw [hstop] at hclosing ⊢
  rw [parseForm_of_cons hforms, hclosing]

/-- A text without a form is refused at its end or at an unmatched parenthesis. -/
theorem parseForm_of_nothing (h : parse source limit = .ok []) :
    ((resume limit 0 [] (.ofText source.toList)).cursor.rest = [] →
      parseForm source limit = .error ⟨.endOfInput, Position.start.after source.toList⟩) ∧
    ((resume limit 0 [] (.ofText source.toList)).cursor.peek = some ')' →
      parseForm source limit =
        .error ⟨.strayClose, (resume limit 0 [] (.ofText source.toList)).cursor.position⟩) := by
  obtain ⟨hquiet, hnodes⟩ := parse_eq_ok_iff.mp h
  have hrefusal := parseForm_of_refusal (List.map_eq_nil_iff.mp hnodes)
  have hreaches := reaches_resume limit 0 [] (.ofText source.toList)
  have hfinished := rest_eq_nil_iff hquiet
  rw [hrefusal, Reader.refusal]
  constructor
  · intro hrest
    rw [hfinished.mp hrest, hreaches.position_of_nil hrest]
    rfl
  · intro hclosing
    cases hhalt : (resume limit 0 [] (.ofText source.toList)).halt with
    | finished =>
        rw [Cursor.peek, hfinished.mpr hhalt] at hclosing
        cases hclosing
    | unmatched => rfl
    | fault error => exact absurd hhalt (hquiet error)

/-- A fault in the first form of a text is found in the same way when the text is read as one
form. -/
theorem parseForm_of_error {error : ReadError} (h : parse source limit = .error error)
    (hnone : ¬∃ node stop, Foremost (room limit 0) (.ofText source.toList) node stop) :
    parseForm source limit = .error error := by
  have hhalt := parse_eq_error_iff.mp h
  cases hforms : (resume limit 0 [] (.ofText source.toList)).forms with
  | nil => rw [parseForm_of_refusal hforms, Reader.refusal, hhalt]
  | cons form more => exact absurd ⟨form.1, form.2, foremost_of_cons hforms⟩ hnone

/-- A fault after the first form of a text is not looked for: what follows is too much already. -/
theorem parseForm_of_later_error {error : ReadError} (h : parse source limit = .error error)
    (hfirst : Foremost (room limit 0) (.ofText source.toList) node stop) :
    ∃ start c, stop.MeetsForm start c ∧
      parseForm source limit = .error ⟨.trailing c, start.position⟩ := by
  have hread := hfirst.resume_eq
  have hhalt : (resume limit 0 [] stop).halt = .fault error := by
    rw [← parse_eq_error_iff.mp h, hread]
    rfl
  obtain ⟨c, hmeets⟩ := exists_meetsForm fun _ => ⟨error, hhalt⟩
  exact ⟨_, c, hmeets, parseForm_of_meetsForm (congrArg Outcome.forms hread) hmeets⟩

end Texts

/-- A source text that is to be one form, beside the same text when all its forms are read. The form
is given exactly when it is all that is read, positions included, and the text is read to its end.
In any other case the text is refused. If two forms or more are read, it is refused at the place of
the second, and if one is read up to an unmatched parenthesis, at that parenthesis. If none is read,
it is refused at the end of the text or at the unmatched parenthesis. If reading all forms meets a
fault before a form is complete, it is refused for that fault; if a form is complete, it is refused
where the next one begins, whatever the fault. -/
theorem one_form_agrees_with_all (source : String) (limit : Int) :
    let stopped := (Reader.ofText source limit).readForms.2
    (∀ node, parseForm source limit = .ok node ↔
      parse source limit = .ok [node] ∧ stopped.cursor.rest = []) ∧
    (∀ nodes, parse source limit = .ok nodes →
      stopped.cursor.rest = [] ∨ stopped.peek = some ')') ∧
    (∀ first second more, parse source limit = .ok (first :: second :: more) →
      ∃ p c, second.position = some p ∧ source.toList[p.offset.toNat]? = some c ∧
        parseForm source limit = .error ⟨.trailing c, p⟩) ∧
    (∀ node, parse source limit = .ok [node] → stopped.peek = some ')' →
      parseForm source limit = .error ⟨.trailing ')', stopped.position⟩) ∧
    (parse source limit = .ok [] →
      (stopped.cursor.rest = [] →
        parseForm source limit = .error ⟨.endOfInput, Position.start.after source.toList⟩) ∧
      (stopped.peek = some ')' →
        parseForm source limit = .error ⟨.strayClose, stopped.position⟩)) ∧
    ∀ error, parse source limit = .error error →
      ((¬∃ node stop, Foremost (room limit 0) (.ofText source.toList) node stop) →
        parseForm source limit = .error error) ∧
      ∀ node stop, Foremost (room limit 0) (.ofText source.toList) node stop →
        ∃ start c, stop.MeetsForm start c ∧
          parseForm source limit = .error ⟨.trailing c, start.position⟩ := by
  intro stopped
  have hstopped : stopped.cursor = (resume limit 0 [] (.ofText source.toList)).cursor :=
    Reader.cursor_readForms _
  rw [Reader.peek, Reader.position, hstopped]
  refine ⟨fun node => parseForm_eq_ok_iff_parse, ?_, ?_, ?_, parseForm_of_nothing, ?_⟩
  · intro nodes hparse
    have hquiet := (parse_eq_ok_iff.mp hparse).1
    exact (rest_of_not_fault hquiet).imp_right List.head?_eq_some_iff.mpr
  · intro first second more hparse
    exact parseForm_of_second hparse
  · intro node hparse hclosing
    exact parseForm_of_unmatched hparse hclosing
  · intro error hparse
    exact ⟨parseForm_of_error hparse, fun node stop => parseForm_of_later_error hparse⟩

/-- Of three forms the second is too much, after a single one an unmatched parenthesis is, and
without a form the parenthesis is refused. After an atom the quote of a literal without an end is
too much, and within a list that literal is the fault itself. -/
theorem one_form_refused_on_second_line :
    parseForm "7\n(x) y" 1 = .error ⟨.trailing '(', ⟨2, 2, 1⟩⟩ ∧
    parseForm "(x)\n )(" 1 = .error ⟨.trailing ')', ⟨5, 2, 2⟩⟩ ∧
    parseForm "\n)" 1 = .error ⟨.strayClose, ⟨1, 2, 1⟩⟩ ∧
    (∃ start c, Cursor.MeetsForm ⟨"\n\"y".toList, ⟨1, 1, 2⟩⟩ start c ∧
      parseForm "x\n\"y" 1 = .error ⟨.trailing c, start.position⟩) ∧
    parseForm "(\n\"y" 1 = .error ⟨.unterminated, ⟨2, 2, 1⟩⟩ := by
  refine ⟨?_, ?_, ?_, ?_, ?_⟩
  · obtain ⟨nodes, hnodes, hplaces⟩ : ∃ nodes ∈ (parse "7\n(x) y" 1).toOption,
        nodes.map Node.position = [some ⟨0, 1, 1⟩, some ⟨2, 2, 1⟩, some ⟨6, 2, 5⟩] := by
      decide +kernel
    obtain ⟨first, more, rfl, -, hmore⟩ := List.map_eq_cons_iff.mp hplaces
    obtain ⟨second, others, rfl, hsecond, -⟩ := List.map_eq_cons_iff.mp hmore
    obtain ⟨-, -, htwo, -⟩ := one_form_agrees_with_all "7\n(x) y" 1
    obtain ⟨p, c, hp, hc, hrefused⟩ := htwo _ _ _ (parse_of_mem_toOption hnodes)
    cases hsecond.symm.trans hp
    cases hc
    exact hrefused
  · obtain ⟨nodes, hnodes, hlength⟩ : ∃ nodes ∈ (parse "(x)\n )(" 1).toOption,
        nodes.length = 1 := by
      decide +kernel
    obtain ⟨node, rfl⟩ := List.length_eq_one_iff.mp hlength
    obtain ⟨-, -, -, hone, -⟩ := one_form_agrees_with_all "(x)\n )(" 1
    have hplace : (Reader.ofText "(x)\n )(" 1).readForms.2.position = ⟨5, 2, 2⟩ := by
      decide +kernel
    rw [← hplace]
    exact hone node (parse_of_mem_toOption hnodes) (by decide +kernel)
  · obtain ⟨nodes, hnodes, hlength⟩ : ∃ nodes ∈ (parse "\n)" 1).toOption, nodes.length = 0 := by
      decide +kernel
    obtain rfl := List.length_eq_zero_iff.mp hlength
    obtain ⟨-, -, -, -, hnone, -⟩ := one_form_agrees_with_all "\n)" 1
    have hplace : (Reader.ofText "\n)" 1).readForms.2.position = ⟨1, 2, 1⟩ := by decide +kernel
    rw [← hplace]
    exact (hnone (parse_of_mem_toOption hnodes)).2 (by decide +kernel)
  · obtain ⟨-, -, -, -, -, hfault⟩ := one_form_agrees_with_all "x\n\"y" 1
    have hparse : parse "x\n\"y" 1 = .error ⟨.unterminated, ⟨2, 2, 1⟩⟩ :=
      parse_of_fault (by decide +kernel)
    have hnext : (Cursor.ofText "x\n\"y".toList).next =
        .lexeme ⟨.atom ['x'], .ofText "x\n\"y".toList, ⟨"\n\"y".toList, ⟨1, 1, 2⟩⟩⟩ := by
      decide +kernel
    have hfirst : Foremost (room 1 0) (.ofText "x\n\"y".toList) (.ofAtom ['x'] Position.start)
        ⟨"\n\"y".toList, ⟨1, 1, 2⟩⟩ :=
      ⟨⟨_, ⟨.none _, .refl _⟩, .atom hnext⟩, by decide +kernel⟩
    exact (hfault _ hparse).2 _ _ hfirst
  · obtain ⟨-, -, -, -, -, hfault⟩ := one_form_agrees_with_all "(\n\"y" 1
    have hparse : parse "(\n\"y" 1 = .error ⟨.unterminated, ⟨2, 2, 1⟩⟩ :=
      parse_of_fault (by decide +kernel)
    have hempty : (resume 1 0 [] (.ofText "(\n\"y".toList)).forms.length = 0 := by
      decide +kernel
    refine (hfault _ hparse).1 ?_
    rintro ⟨node, stop, hfirst⟩
    rw [hfirst.resume_eq] at hempty
    cases hempty

end Sexpr
