import Sexpr.Proofs.Layout

/-!
# What the reader accepts

`read_step` lists everything that can happen where the reader stands, in the words of the grammar.
`resume_sound` derives a grammar derivation from reading that ends without a fault: what the lists
still open demand of the text is written down as `Continues`. `parse_complete` goes the other way,
from where derived forms stand in their text. `parse_accepts` puts the two together.
-/

namespace Sexpr

/-- `ReadStep limit depth stack cursor outcome` says how the outcome of reading comes about from
what stands at the cursor while the lists of `stack` are open. -/
inductive ReadStep (limit : Int) (depth : Nat) :
    List OpenList → Cursor → Outcome → Prop where
  | finished {stack : List OpenList} {cursor stop : Cursor} :
      Blanks cursor.rest [] → stop.rest = [] →
      ReadStep limit depth stack cursor ⟨[], Ending.halt ⟨none, stop⟩ stack, stop⟩
  | fault {stack : List OpenList} {cursor stop : Cursor} (error : ReadError) :
      ReadStep limit depth stack cursor ⟨[], .fault error, stop⟩
  | unmatched {cursor stop : Cursor} {more : List Char} :
      Blanks cursor.rest (')' :: more) → stop.rest = ')' :: more →
      ReadStep limit depth [] cursor ⟨[], .unmatched, stop⟩
  | opening {stack : List OpenList} {cursor : Cursor} {l : Lexeme} :
      cursor.next = .lexeme l → Blanks cursor.rest ('(' :: l.stop.rest) →
      stack.length < room limit depth →
      ReadStep limit depth stack cursor
        (resume limit depth (⟨l.start.position, []⟩ :: stack) l.stop)
  | closing {opened : OpenList} {outer : List OpenList} {cursor : Cursor} {l : Lexeme} :
      cursor.next = .lexeme l → Blanks cursor.rest (')' :: l.stop.rest) →
      ReadStep limit depth (opened :: outer) cursor
        (absorb limit depth [(opened.close, l.stop)] l.stop outer)
  | leaf {stack : List OpenList} {cursor : Cursor} {l : Lexeme} {text : List Char} {node : Node} :
      cursor.next = .lexeme l → Blanks cursor.rest text → Form text node l.stop.rest →
      node.nesting = 0 →
      ReadStep limit depth stack cursor (absorb limit depth [(node, l.stop)] l.stop stack)

/-- Reading comes about in one of the ways listed. -/
theorem read_step (limit : Int) (depth : Nat) (stack : List OpenList) (cursor : Cursor) :
    ReadStep limit depth stack cursor (resume limit depth stack cursor) := by
  cases hnext : cursor.next with
  | nothing stop =>
      obtain ⟨hblanks, hstop⟩ := Cursor.next_nothing hnext
      rw [resume_of_nothing hnext]
      exact .finished hblanks hstop
  | fault error stop =>
      rw [resume_of_fault hnext]
      exact .fault error
  | lexeme l =>
      obtain ⟨hblanks, hspells⟩ := Cursor.next_sound hnext
      obtain ⟨token, ⟨text, p⟩, ⟨rest, q⟩⟩ := l
      change Spells text token rest at hspells
      cases hspells with
      | opening =>
          by_cases hroom : stack.length < room limit depth
          · rw [resume_of_opened hnext (shift_opening hroom)]
            exact .opening hnext hblanks hroom
          · rw [resume_of_halted hnext (shift_opening_full (Nat.not_lt.mp hroom))]
            exact .fault _
      | closing =>
          cases stack with
          | nil =>
              rw [resume_of_halted hnext rfl]
              exact .unmatched hblanks rfl
          | cons opened outer =>
              rw [resume_of_completed hnext (shift_closing _ _ _ _)]
              exact .closing hnext hblanks
      | atom hatom hends =>
          rw [resume_of_completed hnext (shift_atom _ _ _)]
          exact .leaf hnext hblanks (.atom hatom hends p) (Node.nesting_ofAtom _ _)
      | literal hunits =>
          rw [resume_of_completed hnext (shift_literal _ _ _)]
          exact .leaf hnext hblanks (.string _ hunits) rfl

/-! ## Soundness -/

/-- What the lists of a stack, innermost first, demand of the text after the form `node` within
them: every list goes on with forms up to its closing parenthesis and makes a form of the list
around it, and what follows the outermost one are the forms at the top level. No new item is
nested deeper than there is room for. -/
def Delivers (room : Nat) : List OpenList → Node → List Char → List Node → List Char → Prop
  | [], node, text, nodes, rest =>
      ∃ later, nodes = node :: later ∧ Sequence text later rest ∧ Node.nestingItems later ≤ room
  | opened :: outer, node, text, nodes, rest =>
      ∃ items more, Sequence text items (')' :: more) ∧
        Node.nestingItems items ≤ room - (outer.length + 1) ∧
        Delivers room outer (.list (opened.items.reverse ++ node :: items) opened.start) more nodes
          rest

/-- What the lists of a stack, innermost first, demand of the text from where they stand. -/
def Continues (room : Nat) : List OpenList → List Char → List Node → List Char → Prop
  | [], text, nodes, rest => Sequence text nodes rest ∧ Node.nestingItems nodes ≤ room
  | opened :: outer, text, nodes, rest =>
      ∃ items more, Sequence text items (')' :: more) ∧
        Node.nestingItems items ≤ room - (outer.length + 1) ∧
        Delivers room outer (.list (opened.items.reverse ++ items) opened.start) more nodes rest

/-- A list that has taken a form demands the same as after that form. -/
theorem continues_push_iff {room : Nat} {opened : OpenList} {outer : List OpenList} {node : Node}
    {text rest : List Char} {nodes : List Node} :
    Continues room (⟨opened.start, node :: opened.items⟩ :: outer) text nodes rest ↔
      Delivers room (opened :: outer) node text nodes rest := by
  simp [Continues, Delivers]

/-- A form in front of what its stack demands after it is what the stack demands before it. -/
theorem Delivers.continues {room : Nat} {stack : List OpenList} {node : Node}
    {text start more rest : List Char} {nodes : List Node}
    (h : Delivers room stack node more nodes rest) (hblanks : Blanks text start)
    (hform : Form start node more) (hnesting : node.nesting ≤ room - stack.length) :
    Continues room stack text nodes rest := by
  cases stack with
  | nil =>
      obtain ⟨later, rfl, hlater, hroom⟩ := h
      exact ⟨.cons hblanks hform hlater, Nat.max_le.mpr ⟨hnesting, hroom⟩⟩
  | cons opened outer =>
      obtain ⟨items, more, hitems, hroom, houter⟩ := h
      exact ⟨node :: items, more, .cons hblanks hform hitems, Nat.max_le.mpr ⟨hnesting, hroom⟩,
        houter⟩

/-- Reading that does not end with a fault goes on as the lists of the stack demand. -/
def Outcome.Accounts (outcome : Outcome) (room : Nat) (stack : List OpenList) (text : List Char) :
    Prop :=
  (∀ error, outcome.halt ≠ .fault error) →
    Continues room stack text (outcome.forms.map Prod.fst) outcome.cursor.rest

/-- After a form its stack gets what it demands, if that holds of reading on from there. -/
theorem delivers_absorb {limit : Int} {depth room : Nat} {stack : List OpenList} {node : Node}
    {stop : Cursor}
    (hlater : ∀ stack, (resume limit depth stack stop).Accounts room stack stop.rest)
    (hhalt : ∀ error, (absorb limit depth [(node, stop)] stop stack).halt ≠ .fault error) :
    Delivers room stack node stop.rest
      ((absorb limit depth [(node, stop)] stop stack).forms.map Prod.fst)
      (absorb limit depth [(node, stop)] stop stack).cursor.rest := by
  cases stack with
  | nil =>
      obtain ⟨hsequence, hroom⟩ := hlater [] hhalt
      exact ⟨_, rfl, hsequence, hroom⟩
  | cons opened outer => exact continues_push_iff.mp (hlater _ hhalt)

/-- Reading that does not end with a fault is accounted for by the grammar. -/
theorem resume_sound (limit : Int) (depth : Nat) (stack : List OpenList) (cursor : Cursor) :
    (resume limit depth stack cursor).Accounts (room limit depth) stack cursor.rest := by
  induction stack, cursor using resume_induction with
  | step stack cursor ih =>
      intro hhalt
      have hstep := read_step limit depth stack cursor
      generalize resume limit depth stack cursor = outcome at hhalt hstep ⊢
      cases hstep with
      | @finished _ _ stop hblanks hstop =>
          cases stack with
          | nil =>
              rw [hstop]
              exact ⟨.nil hblanks, Nat.zero_le _⟩
          | cons => exact absurd rfl (hhalt _)
      | fault => exact absurd rfl (hhalt _)
      | unmatched hblanks hstop =>
          rw [hstop]
          exact ⟨.nil hblanks, Nat.zero_le _⟩
      | opening hnext hblanks hroom =>
          -- The new list demands its items, and then to be a form of the list around it.
          obtain ⟨items, more, hitems, hnesting, houter⟩ := ih _ hnext _ hhalt
          refine houter.continues hblanks (.list _ hitems) ?_
          simp only [List.reverse_nil, List.nil_append, Node.nesting]
          omega
      | closing hnext hblanks =>
          have houter := delivers_absorb (ih _ hnext) hhalt
          exact ⟨[], _, .nil hblanks, Nat.zero_le _, by simpa [OpenList.close] using houter⟩
      | leaf hnext hblanks hform hnesting =>
          have houter := delivers_absorb (ih _ hnext) hhalt
          exact houter.continues hblanks hform (by omega)

/-- Where reading ended without a fault: at the end of the text or before a closing
parenthesis. -/
def Halt.Fits : Halt → List Char → Prop
  | finished, rest => rest = []
  | unmatched, rest => rest.head? = some ')'
  | fault _, _ => True

/-- Reading ends where it says. -/
theorem halt_fits_resume (limit : Int) (depth : Nat) (stack : List OpenList) (cursor : Cursor) :
    (resume limit depth stack cursor).halt.Fits (resume limit depth stack cursor).cursor.rest := by
  induction stack, cursor using resume_induction with
  | step stack cursor ih =>
      have habsorb : ∀ l, cursor.next = .lexeme l → ∀ node stack,
          (absorb limit depth [(node, l.stop)] l.stop stack).halt.Fits
            (absorb limit depth [(node, l.stop)] l.stop stack).cursor.rest := by
        intro l hnext node stack
        cases stack with
        | nil => exact ih l hnext []
        | cons => exact ih l hnext _
      have hstep := read_step limit depth stack cursor
      generalize resume limit depth stack cursor = outcome at hstep ⊢
      cases hstep with
      | finished hblanks hstop =>
          cases stack with
          | nil => exact hstop
          | cons => trivial
      | fault => trivial
      | unmatched hblanks hstop => simp [Halt.Fits, hstop]
      | opening hnext => exact ih _ hnext _
      | closing hnext | leaf hnext => exact habsorb _ hnext _ _

/-! ## Whole texts -/

/-- A text is read as forms exactly when reading from its beginning ends without a fault. -/
theorem parse_eq_ok_iff {source : String} {limit : Int} {nodes : List Node} :
    parse source limit = .ok nodes ↔
      (∀ error, (resume limit 0 [] (.ofText source.toList)).halt ≠ .fault error) ∧
        (resume limit 0 [] (.ofText source.toList)).forms.map Prod.fst = nodes := by
  have houtcome : (Reader.ofText source limit).outcome =
      resume limit 0 [] (.ofText source.toList) := rfl
  unfold parse Reader.readForms
  rw [houtcome]
  cases hhalt : (resume limit 0 [] (.ofText source.toList)).halt <;> simp [hhalt]

/-- A text is not read as forms if reading from its beginning ends with a fault. -/
theorem parse_of_fault {source : String} {limit : Int} {error : ReadError}
    (h : (resume limit 0 [] (.ofText source.toList)).halt = .fault error) :
    parse source limit = .error error := by
  have houtcome : (Reader.ofText source limit).outcome =
      resume limit 0 [] (.ofText source.toList) := rfl
  unfold parse Reader.readForms
  rw [houtcome]
  simp only [h]

/-- A text is refused exactly for the fault with which reading from its beginning ends. -/
theorem parse_eq_error_iff {source : String} {limit : Int} {error : ReadError} :
    parse source limit = .error error ↔
      (resume limit 0 [] (.ofText source.toList)).halt = .fault error := by
  refine ⟨fun h => ?_, parse_of_fault⟩
  cases hcase : (resume limit 0 [] (.ofText source.toList)).halt with
  | fault other =>
      rw [parse_of_fault hcase] at h
      cases h
      rfl
  | finished | unmatched =>
      have hread : parse source limit = .ok _ := parse_eq_ok_iff.mpr ⟨by simp [hcase], rfl⟩
      rw [hread] at h
      cases h

/-- What gives a value is that value and no fault. -/
theorem eq_ok_of_mem_toOption {ε α : Type} {result : Except ε α} {value : α}
    (h : value ∈ result.toOption) : result = .ok value := by
  cases result with
  | error fault => cases h
  | ok other =>
      cases h
      rfl

/-- A text that gives forms is read as these forms. -/
theorem parse_of_mem_toOption {source : String} {limit : Int} {nodes : List Node}
    (h : nodes ∈ (parse source limit).toOption) : parse source limit = .ok nodes :=
  eq_ok_of_mem_toOption h

/-- Reading that ends without a fault ends with the text or before a closing parenthesis. -/
theorem rest_of_not_fault {limit : Int} {depth : Nat} {stack : List OpenList} {cursor : Cursor}
    (h : ∀ error, (resume limit depth stack cursor).halt ≠ .fault error) :
    (resume limit depth stack cursor).cursor.rest = [] ∨
      ∃ more, (resume limit depth stack cursor).cursor.rest = ')' :: more := by
  have hfits := halt_fits_resume limit depth stack cursor
  cases hend : (resume limit depth stack cursor).halt with
  | finished =>
      rw [hend] at hfits
      exact .inl hfits
  | unmatched =>
      rw [hend] at hfits
      exact .inr (List.head?_eq_some_iff.mp hfits)
  | fault error => exact absurd hend (h error)

/-- What was read is derived by the grammar and is not nested deeper than the limit. -/
theorem parse_sound {source : String} {limit : Int} {nodes : List Node}
    (h : parse source limit = .ok nodes) :
    Node.nestingItems nodes ≤ room limit 0 ∧
      (Sequence source.toList nodes [] ∨ ∃ more, Sequence source.toList nodes (')' :: more)) := by
  obtain ⟨hhalt, rfl⟩ := parse_eq_ok_iff.mp h
  obtain ⟨hsequence, hroom⟩ := resume_sound limit 0 [] (.ofText source.toList) hhalt
  refine ⟨hroom, ?_⟩
  rcases rest_of_not_fault hhalt with hend | ⟨more, hmore⟩
  · exact .inl (hend ▸ hsequence)
  · exact .inr ⟨more, hmore ▸ hsequence⟩

/-- Reading ends without a fault at the end of the text and before a closing parenthesis. -/
theorem resume_at_end {limit : Int} {depth : Nat} {rest : List Char}
    (h : rest = [] ∨ ∃ more, rest = ')' :: more) (p : Position) :
    (resume limit depth [] ⟨rest, p⟩).forms = [] ∧
      (resume limit depth [] ⟨rest, p⟩).cursor = ⟨rest, p⟩ ∧
      ∀ error, (resume limit depth [] ⟨rest, p⟩).halt ≠ .fault error := by
  rcases h with rfl | ⟨more, rfl⟩
  · have hnext : Cursor.next ⟨[], p⟩ = .nothing ⟨[], p⟩ := rfl
    rw [resume_of_nothing hnext]
    exact ⟨rfl, rfl, nofun⟩
  · obtain ⟨q, hnext⟩ := Cursor.next_complete (.closing more) p
    rw [resume_of_halted hnext rfl]
    exact ⟨rfl, rfl, nofun⟩

/-- Forms that are read without a fault span the text up to where reading ends. -/
theorem resume_spans {limit : Int} {depth : Nat} {cursor : Cursor}
    (h : ∀ error, (resume limit depth [] cursor).halt ≠ .fault error) :
    SpansItems cursor ((resume limit depth [] cursor).forms.map Prod.fst)
      (resume limit depth [] cursor).cursor := by
  obtain ⟨hsequence, hroom⟩ := resume_sound limit depth [] cursor h
  obtain ⟨reads, q, hsame, hspans⟩ := hsequence.spans cursor.position
  obtain ⟨forms, rfl, hread⟩ := hspans.resume_eq
  obtain ⟨hnone, hstop, -⟩ := @resume_at_end limit depth _ (rest_of_not_fault h) q
  have hfits : Node.nestingItems (forms.map Prod.fst) ≤ room limit depth := by
    rwa [← Node.nestingItems_bare, hsame, Node.nestingItems_bare]
  -- What spans the text is read, and there is only one thing that is read.
  have houtcome := hread limit depth [] hfits
  have hforms : (resume limit depth [] cursor).forms = forms := by
    have hall := congrArg Outcome.forms houtcome
    rwa [absorb, hnone, List.append_nil] at hall
  have hcursor := (congrArg Outcome.cursor houtcome).trans hstop
  rw [hforms]
  exact hcursor ▸ hspans

/-- Forms that span a text to its end, or to a closing parenthesis, are read if they find room. -/
theorem parse_of_spans {source : String} {limit : Int} {nodes : List Node} {rest : List Char}
    {p : Position} (h : SpansItems (.ofText source.toList) nodes ⟨rest, p⟩)
    (hrest : rest = [] ∨ ∃ more, rest = ')' :: more)
    (hroom : Node.nestingItems nodes ≤ room limit 0) : parse source limit = .ok nodes := by
  obtain ⟨forms, rfl, hread⟩ := h.resume_eq
  obtain ⟨hforms, -, hhalt⟩ := @resume_at_end limit 0 rest hrest p
  have houtcome := hread limit 0 [] hroom
  refine parse_eq_ok_iff.mpr ⟨?_, ?_⟩
  · intro error
    rw [houtcome]
    exact hhalt error
  · rw [houtcome]
    simp [absorb, hforms]

/-- What the grammar derives within the limit is read. -/
theorem parse_complete {source : String} {limit : Int} {nodes : List Node} {rest : List Char}
    (h : Sequence source.toList nodes rest) (hrest : rest = [] ∨ ∃ more, rest = ')' :: more)
    (hroom : Node.nestingItems nodes ≤ room limit 0) :
    ∃ read, parse source limit = .ok read ∧ Node.bareItems read = Node.bareItems nodes := by
  obtain ⟨read, q, hsame, hspans⟩ := h.spans .start
  refine ⟨read, parse_of_spans hspans hrest ?_, hsame⟩
  rwa [← Node.nestingItems_bare, hsame, Node.nestingItems_bare]

/-- What was read spans the text from its beginning to its end, or to a closing parenthesis. -/
theorem parse_spans_to {source : String} {limit : Int} {nodes : List Node}
    (h : parse source limit = .ok nodes) :
    ∃ rest p, (rest = [] ∨ ∃ more, rest = ')' :: more) ∧
      SpansItems (.ofText source.toList) nodes ⟨rest, p⟩ := by
  obtain ⟨hhalt, rfl⟩ := parse_eq_ok_iff.mp h
  exact ⟨_, _, rest_of_not_fault hhalt, resume_spans hhalt⟩

/-- What was read spans the text from its beginning. -/
theorem parse_spans {source : String} {limit : Int} {nodes : List Node}
    (h : parse source limit = .ok nodes) :
    ∃ stop, SpansItems (.ofText source.toList) nodes stop := by
  obtain ⟨rest, p, -, hspans⟩ := parse_spans_to h
  exact ⟨_, hspans⟩

/-- Where reading finishes without a form only blanks are left. -/
theorem skipBlanks_of_finished {limit : Int} {depth : Nat} {cursor : Cursor}
    (hforms : (resume limit depth [] cursor).forms = [])
    (hhalt : (resume limit depth [] cursor).halt = .finished) : cursor.skipBlanks.rest = [] := by
  have hrest := halt_fits_resume limit depth [] cursor
  have hsound := resume_sound limit depth [] cursor (by simp [hhalt])
  rw [hhalt] at hrest
  rw [hforms, hrest] at hsound
  cases hsound.1 with
  | nil hblanks => exact Cursor.skipBlanks_of_blanks hblanks

/-- Where only blanks are left reading finishes without a form. -/
theorem resume_of_skipBlanks {limit : Int} {depth : Nat} {cursor : Cursor}
    (h : cursor.skipBlanks.rest = []) :
    resume limit depth [] cursor = ⟨[], .finished, cursor.skipBlanks⟩ := by
  have hnext : cursor.next = .nothing cursor.skipBlanks := by simp [Cursor.next, h]
  exact resume_of_nothing hnext

/-- A text without a form at its beginning is not read as one form. -/
theorem parseForm_of_nil {source : String} {limit : Int}
    (h : (resume limit 0 [] (.ofText source.toList)).forms = []) :
    ∃ error, parseForm source limit = .error error := by
  have hforms : (Reader.ofText source limit).outcome.forms = [] := h
  unfold parseForm Reader.readForm
  simp only [hforms]
  cases (Reader.ofText source limit).outcome.halt <;> exact ⟨_, rfl⟩

/-- The first form of a text is returned unless something other than blanks follows it. -/
theorem parseForm_of_cons {source : String} {limit : Int} {node : Node} {stop : Cursor}
    {more : List (Node × Cursor)}
    (h : (resume limit 0 [] (.ofText source.toList)).forms = (node, stop) :: more) :
    parseForm source limit =
      match stop.skipBlanks.peek with
      | none => .ok node
      | some c => .error ⟨.trailing c, stop.skipBlanks.position⟩ := by
  have hforms : (Reader.ofText source limit).outcome.forms = (node, stop) :: more := h
  unfold parseForm Reader.readForm
  simp only [hforms]
  rfl

/-- A text is read as one form exactly when that form is all that is read from its beginning to its
end. -/
theorem parseForm_eq_ok_iff {source : String} {limit : Int} {node : Node} :
    parseForm source limit = .ok node ↔
      (resume limit 0 [] (.ofText source.toList)).halt = .finished ∧
        (resume limit 0 [] (.ofText source.toList)).forms.map Prod.fst = [node] := by
  cases hforms : (resume limit 0 [] (.ofText source.toList)).forms with
  | nil =>
      obtain ⟨error, herror⟩ := parseForm_of_nil hforms
      simp [herror]
  | cons form more =>
      obtain ⟨first, stop⟩ := form
      have hfirst := resume_first hforms
      rw [parseForm_of_cons hforms, hfirst]
      cases hrest : stop.skipBlanks.rest with
      | nil =>
          rw [hfirst, absorb, resume_of_skipBlanks hrest] at hforms
          cases hforms
          simp [absorb, resume_of_skipBlanks hrest, Cursor.peek, hrest]
      | cons c rest =>
          -- Something follows the first form, so reading cannot have finished after it.
          simp only [Cursor.peek, hrest, List.head?_cons, reduceCtorEq, false_iff, not_and]
          intro hhalt hone
          rw [hfirst] at hforms
          cases hforms
          obtain ⟨-, hlater⟩ : first = node ∧ (resume limit 0 [] stop).forms = [] := by
            simpa using hone
          rw [skipBlanks_of_finished hlater hhalt] at hrest
          cases hrest

/-- At the beginning of a text there is room for as many lists as the limit allows. -/
theorem le_room_iff {n : Nat} {limit : Int} : n ≤ room limit 0 ↔ (n : Int) ≤ max limit 0 := by
  unfold room
  omega

/-- The reader accepts exactly the texts that the grammar derives, up to their end or to a closing
parenthesis that closes no list, as long as their lists are not nested deeper than the limit, and
it returns exactly the trees derived. -/
theorem parse_accepts (source : String) (limit : Int) (nodes : List Node) :
    (∃ read, parse source limit = .ok read ∧ Node.sameItems read nodes = true) ↔
      (Node.nestingItems nodes : Int) ≤ max limit 0 ∧
        (Sequence source.toList nodes [] ∨ ∃ more, Sequence source.toList nodes (')' :: more)) := by
  constructor
  · rintro ⟨read, hread, hsame⟩
    obtain ⟨hroom, hderived⟩ := parse_sound hread
    have hbare := (Node.sameItems_iff read nodes).mp hsame
    rw [← Node.nestingItems_bare, hbare, Node.nestingItems_bare] at hroom
    refine ⟨le_room_iff.mp hroom, ?_⟩
    rcases hderived with hend | ⟨more, hclose⟩
    · exact .inl (hend.congr hbare)
    · exact .inr ⟨more, hclose.congr hbare⟩
  · rintro ⟨hnesting, hderived⟩
    have hroom := le_room_iff.mpr hnesting
    have hread : ∃ read, parse source limit = .ok read ∧
        Node.bareItems read = Node.bareItems nodes := by
      rcases hderived with hend | ⟨more, hclose⟩
      · exact parse_complete hend (.inl rfl) hroom
      · exact parse_complete hclose (.inr ⟨more, rfl⟩) hroom
    obtain ⟨read, hparse, hbare⟩ := hread
    exact ⟨read, hparse, (Node.sameItems_iff read nodes).mpr hbare⟩

end Sexpr
