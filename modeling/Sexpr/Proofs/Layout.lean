import Sexpr.Proofs.Grammar
import Sexpr.Proofs.Passage

/-!
# Where forms stand in a text

`Spans start node stop` says that a form is written from the cursor `start` up to the cursor `stop`
and that every position in it is the one where it is written: it is a derivation of the grammar
with cursors. Every form that the grammar derives spans its text from any position
(`Form.spans`), and a form that spans a text is what is read from there, wherever that is and
whatever lists are open around it (`Spans.resume_eq`).
-/

namespace Sexpr

/-! ## Blanks between cursors -/

/-- Only blanks stand between the cursor and the other. -/
structure Cursor.Skips (cursor other : Cursor) : Prop where
  blanks : Blanks cursor.rest other.rest
  reaches : cursor.Reaches other

/-- Skipping blanks passes over blanks only. -/
theorem Cursor.skips_skipBlanks (cursor : Cursor) : cursor.Skips cursor.skipBlanks :=
  ⟨cursor.blanks_skipBlanks, cursor.reaches_skipWhile isBlank⟩

/-- Blanks make no difference to what comes next. -/
theorem Cursor.Skips.next_eq {cursor other : Cursor} (h : cursor.Skips other) :
    cursor.next = other.next := by
  obtain ⟨blanks, hrest, hblanks⟩ := h.blanks.exists_append
  have hposition := h.reaches.position_eq hrest
  obtain ⟨text, p⟩ := cursor
  obtain rfl : text = blanks ++ other.rest := hrest
  rw [next_append_blanks hblanks, ← show other.position = p.after blanks from hposition]

/-- Blanks that are known to be there stand between cursors. -/
theorem Blanks.skips {text rest : List Char} (h : Blanks text rest) (p : Position) :
    ∃ q, Cursor.Skips ⟨text, p⟩ ⟨rest, q⟩ := by
  obtain ⟨blanks, htext, -⟩ := h.exists_append
  exact ⟨p.after blanks, h, blanks, htext, rfl⟩

/-! ## Forms with their places -/

mutual

/-- `Spans start node stop` says that the form is written from `start` to `stop`, with no blank in
front, and has the positions that it is written at. -/
inductive Spans : Cursor → Node → Cursor → Prop where
  | list {start inside last stop : Cursor} {items : List Node} :
      start.next = .lexeme ⟨.opening, start, inside⟩ → SpansItems inside items last →
      last.next = .lexeme ⟨.closing, last, stop⟩ → Spans start (.list items start.position) stop
  | atom {start stop : Cursor} {text : List Char} :
      start.next = .lexeme ⟨.atom text, start, stop⟩ →
      Spans start (.ofAtom text start.position) stop
  | literal {start stop : Cursor} {text : List Char} :
      start.next = .lexeme ⟨.literal text, start, stop⟩ →
      Spans start (.string (String.ofList text) start.position) stop

/-- `SpansItems cursor nodes stop` says that the forms are written from `cursor` to `stop`, with
blanks anywhere around them. -/
inductive SpansItems : Cursor → List Node → Cursor → Prop where
  | nil {cursor stop : Cursor} : cursor.Skips stop → SpansItems cursor [] stop
  | cons {cursor start after stop : Cursor} {node : Node} {nodes : List Node} :
      cursor.Skips start → Spans start node after → SpansItems after nodes stop →
      SpansItems cursor (node :: nodes) stop

end

mutual

/-- A derived form spans its text from any position, up to the positions in it. -/
theorem Form.spans {text rest : List Char} {node : Node} (h : Form text node rest)
    (p : Position) : ∃ read q, read.bare = node.bare ∧ Spans ⟨text, p⟩ read ⟨rest, q⟩ := by
  cases h with
  | @list text _ _ _ hitems =>
      obtain ⟨q, hopening⟩ := Cursor.next_complete (.opening text) p
      obtain ⟨reads, r, hsame, hspans⟩ := hitems.spans q
      obtain ⟨t, hclosing⟩ := Cursor.next_complete (.closing rest) r
      exact ⟨.list reads p, t, by simp only [Node.bare, hsame], .list hopening hspans hclosing⟩
  | string _ hunits =>
      obtain ⟨q, hnext⟩ := Cursor.next_complete (.literal hunits) p
      exact ⟨.string _ p, q, rfl, .literal hnext⟩
  | @integer text _ _ hatom hends hdigits =>
      obtain ⟨q, hnext⟩ := Cursor.next_complete (.atom hatom hends) p
      refine ⟨.ofAtom text p, q, ?_, .atom hnext⟩
      have hvalue := Word.ofDigits_eq_wrap (Bool.and_eq_true_iff.mp hdigits).2
      simp only [Node.ofAtom, hdigits, if_true, Node.bare, hvalue]
  | @symbol text _ _ hatom hends hdigits =>
      obtain ⟨q, hnext⟩ := Cursor.next_complete (.atom hatom hends) p
      exact ⟨.ofAtom text p, q, by simp [Node.ofAtom, hdigits, Node.bare], .atom hnext⟩

/-- Derived forms span their text from any position, up to the positions in them. -/
theorem Sequence.spans {text rest : List Char} {nodes : List Node} (h : Sequence text nodes rest)
    (p : Position) :
    ∃ reads q, Node.bareItems reads = Node.bareItems nodes ∧
      SpansItems ⟨text, p⟩ reads ⟨rest, q⟩ := by
  cases h with
  | nil hblanks =>
      obtain ⟨q, hskips⟩ := hblanks.skips p
      exact ⟨[], q, rfl, .nil hskips⟩
  | cons hblanks hform hmore =>
      obtain ⟨q, hskips⟩ := hblanks.skips p
      obtain ⟨read, r, hsame, hspans⟩ := hform.spans q
      obtain ⟨reads, t, hsames, hlater⟩ := hmore.spans r
      exact ⟨read :: reads, t, by simp only [Node.bareItems, hsame, hsames],
        .cons hskips hspans hlater⟩

end

mutual

/-- A form that spans a text is derived from it. -/
theorem Spans.form {start stop : Cursor} {node : Node} (h : Spans start node stop) :
    Form start.rest node stop.rest := by
  cases h with
  | list hopening hitems hclosing =>
      have hsequence := hitems.sequence
      rw [(Cursor.next_sound hclosing).2.closing_eq] at hsequence
      rw [(Cursor.next_sound hopening).2.opening_eq]
      exact .list _ hsequence
  | atom hnext =>
      obtain ⟨htext, hatom, hends⟩ := (Cursor.next_sound hnext).2.atom_eq
      rw [htext]
      exact .atom hatom hends _
  | literal hnext =>
      obtain ⟨units, htext, hunits⟩ := (Cursor.next_sound hnext).2.literal_eq
      rw [htext]
      exact .string _ hunits

/-- Forms that span a text are derived from it. -/
theorem SpansItems.sequence {cursor stop : Cursor} {nodes : List Node}
    (h : SpansItems cursor nodes stop) : Sequence cursor.rest nodes stop.rest := by
  cases h with
  | nil hskips => exact .nil hskips.blanks
  | cons hskips hspans hlater => exact .cons hskips.blanks hspans.form hlater.sequence

end

mutual

/-- A form that spans a text and finds room is read from its beginning. -/
theorem Spans.resume_eq {start stop : Cursor} {node : Node} (h : Spans start node stop)
    {limit : Int} {depth : Nat} {stack : List OpenList}
    (hroom : node.nesting + stack.length ≤ room limit depth) :
    resume limit depth stack start = absorb limit depth [(node, stop)] stop stack := by
  cases h with
  | list hopening hitems hclosing =>
      obtain ⟨forms, rfl, hread⟩ := hitems.resume_eq
      simp only [Node.nesting] at hroom
      -- The items are read with one more list open, and the room for it comes from the nesting.
      have hinside := hread limit depth (⟨start.position, []⟩ :: stack)
        (by simp only [List.length_cons]; omega)
      rw [resume_of_opened hopening (shift_opening (by omega)), hinside, absorb,
        resume_of_completed hclosing (shift_closing _ _ _ _)]
      simp [OpenList.close]
  | atom hnext => exact resume_of_completed hnext (shift_atom _ _ _)
  | literal hnext => exact resume_of_completed hnext (shift_literal _ _ _)

/-- Forms that span a text and find room are read from its beginning. -/
theorem SpansItems.resume_eq {cursor stop : Cursor} {nodes : List Node}
    (h : SpansItems cursor nodes stop) :
    ∃ forms : List (Node × Cursor), forms.map Prod.fst = nodes ∧ ∀ limit depth stack,
      Node.nestingItems nodes + stack.length ≤ room limit depth →
      resume limit depth stack cursor = absorb limit depth forms stop stack := by
  cases h with
  | nil hskips =>
      refine ⟨[], rfl, fun limit depth stack _ => ?_⟩
      rw [resume_congr hskips.next_eq, absorb_nil]
  | @cons _ _ after _ node _ hskips hspans hlater =>
      obtain ⟨forms, rfl, hread⟩ := hlater.resume_eq
      refine ⟨(node, after) :: forms, rfl, fun limit depth stack hroom => ?_⟩
      simp only [Node.nestingItems] at hroom
      rw [resume_congr hskips.next_eq, hspans.resume_eq (by omega)]
      exact absorb_cons fun stack' hlength => hread limit depth stack' (by omega)

end

end Sexpr
