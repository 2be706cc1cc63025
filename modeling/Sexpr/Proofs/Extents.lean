import Sexpr.Proofs.Lookahead

/-!
# The extents of forms

The position of a form says where to read it again: a fresh reader that begins at its offset reads
the same form. Where that reader stops is where the form ends, so that every form has an extent in
its source text, from `Node.first` to `Node.last`. `Spans.inside` follows the places of everything
that occurs in a form, and `Spans.apart` says that two forms are nested or separate;
`positions_locate_forms` states both of the forms that are read from a source text.
-/

namespace Sexpr

/-! ## Forms within forms -/

/-- A form has the position where its text begins. -/
theorem Spans.position_eq {start stop : Cursor} {node : Node} (h : Spans start node stop) :
    node.position = some start.position := by
  cases h with
  | list | literal => rfl
  | @atom _ _ text =>
      obtain ⟨value, hvalue⟩ | ⟨s, hs⟩ := Node.ofAtom_eq text start.position
      · rw [hvalue]
        rfl
      · rw [hs]
        rfl

/-- Only itself occurs in what an atom makes, and it has no items. -/
theorem Node.subforms_ofAtom (text : List Char) (p : Position) :
    (ofAtom text p).subforms = [ofAtom text p] ∧ (ofAtom text p).items = [] := by
  obtain ⟨value, hvalue⟩ | ⟨s, hs⟩ := ofAtom_eq text p
  · rw [hvalue]
    exact ⟨rfl, rfl⟩
  · rw [hs]
    exact ⟨rfl, rfl⟩

mutual

/-- A form passes over its text, which is not empty. -/
theorem Spans.reaches {start stop : Cursor} {node : Node} (h : Spans start node stop) :
    start.Reaches stop ∧ start.position.offset < stop.position.offset := by
  cases h with
  | list hopening hitems hclosing =>
      obtain ⟨hfirst, hbegins⟩ := Cursor.reaches_lexeme hopening
      obtain ⟨hlast, hends⟩ := Cursor.reaches_lexeme hclosing
      have hinside := hitems.reaches
      refine ⟨hfirst.trans (hinside.trans hlast), ?_⟩
      have hmoves := hinside.offset_le
      dsimp only at hbegins hends
      omega
  | atom hnext | literal hnext => exact Cursor.reaches_lexeme hnext

/-- Forms pass over their text. -/
theorem SpansItems.reaches {cursor stop : Cursor} {nodes : List Node}
    (h : SpansItems cursor nodes stop) : cursor.Reaches stop := by
  cases h with
  | nil hskips => exact hskips.reaches
  | cons hskips hspans hlater => exact hskips.reaches.trans (hspans.reaches.1.trans hlater.reaches)

end

/-- The form spans the text from `start` to `stop`, which lies between two cursors. -/
structure Within (first last : Cursor) (node : Node) (start stop : Cursor) : Prop where
  after : first.Reaches start
  spans : Spans start node stop
  before : stop.Reaches last

/-- What lies between two cursors lies between cursors further out. -/
theorem Within.mono {first last outer outmost start stop : Cursor} {node : Node}
    (h : Within first last node start stop) (hfirst : outer.Reaches first)
    (hlast : last.Reaches outmost) : Within outer outmost node start stop :=
  ⟨hfirst.trans h.after, h.spans, h.before.trans hlast⟩

mutual

/-- Everything that occurs in a form stands within its text. -/
theorem Spans.inside {start stop : Cursor} {node form : Node} (h : Spans start node stop)
    (hform : form ∈ node.subforms) : ∃ first last, Within start stop form first last := by
  have hself : ∃ first last, Within start stop node first last :=
    ⟨start, stop, .refl start, h, .refl stop⟩
  cases h with
  | list hopening hitems hclosing =>
      rcases List.mem_cons.mp hform with rfl | hform
      · exact hself
      · obtain ⟨first, last, hwithin⟩ := hitems.inside hform
        exact ⟨first, last,
          hwithin.mono (Cursor.reaches_stop hopening) (Cursor.reaches_stop hclosing)⟩
  | @atom _ _ text =>
      rw [(Node.subforms_ofAtom _ _).1] at hform
      obtain rfl := List.mem_singleton.mp hform
      exact hself
  | literal =>
      obtain rfl := List.mem_singleton.mp hform
      exact hself

/-- Everything that occurs in forms stands within their text. -/
theorem SpansItems.inside {cursor stop : Cursor} {nodes : List Node} {form : Node}
    (h : SpansItems cursor nodes stop) (hform : form ∈ Node.subformsItems nodes) :
    ∃ first last, Within cursor stop form first last := by
  cases h with
  | nil => cases hform
  | cons hskips hspans hlater =>
      rcases List.mem_append.mp hform with hform | hform
      · obtain ⟨first, last, hwithin⟩ := hspans.inside hform
        exact ⟨first, last, hwithin.mono hskips.reaches hlater.reaches⟩
      · obtain ⟨first, last, hwithin⟩ := hlater.inside hform
        exact ⟨first, last, hwithin.mono (hskips.reaches.trans hspans.reaches.1) (.refl stop)⟩

end

/-- Between the cursors stand two forms, and one of them ends before the other begins. -/
def Separate (first last : Cursor) (node other : Node) : Prop :=
  ∃ start stop start' stop', Within first last node start stop ∧
    Within first last other start' stop' ∧ (stop.Reaches start' ∨ stop'.Reaches start)

/-- Being separate is symmetric. -/
theorem Separate.symm {first last : Cursor} {node other : Node}
    (h : Separate first last node other) : Separate first last other node := by
  obtain ⟨start, stop, start', stop', hnode, hother, hapart⟩ := h
  exact ⟨start', stop', start, stop, hother, hnode, hapart.symm⟩

/-- What is separate between two cursors is separate between cursors further out. -/
theorem Separate.mono {first last outer outmost : Cursor} {node other : Node}
    (h : Separate first last node other) (hfirst : outer.Reaches first)
    (hlast : last.Reaches outmost) : Separate outer outmost node other := by
  obtain ⟨start, stop, start', stop', hnode, hother, hapart⟩ := h
  exact ⟨start, stop, start', stop', hnode.mono hfirst hlast, hother.mono hfirst hlast, hapart⟩

mutual

/-- Of two forms that occur in a form, one occurs in the other or they are separate. -/
theorem Spans.apart {start stop : Cursor} {node form other : Node} (h : Spans start node stop)
    (hform : form ∈ node.subforms) (hother : other ∈ node.subforms) :
    form ∈ other.subforms ∨ other ∈ form.subforms ∨ Separate start stop form other := by
  cases h with
  | list hopening hitems hclosing =>
      rcases List.mem_cons.mp hform with rfl | hform
      · exact .inr (.inl hother)
      rcases List.mem_cons.mp hother with rfl | hother
      · exact .inl (List.mem_cons_of_mem _ hform)
      · refine (hitems.apart hform hother).imp_right (Or.imp_right fun hapart => ?_)
        exact hapart.mono (Cursor.reaches_stop hopening) (Cursor.reaches_stop hclosing)
  | atom =>
      rw [(Node.subforms_ofAtom _ _).1] at hform hother
      obtain rfl := List.mem_singleton.mp hform
      obtain rfl := List.mem_singleton.mp hother
      exact .inl (Node.self_mem_subforms _)
  | literal =>
      obtain rfl := List.mem_singleton.mp hform
      obtain rfl := List.mem_singleton.mp hother
      exact .inl (Node.self_mem_subforms _)

/-- Of two forms that occur in some forms, one occurs in the other or they are separate. -/
theorem SpansItems.apart {cursor stop : Cursor} {nodes : List Node} {form other : Node}
    (h : SpansItems cursor nodes stop) (hform : form ∈ Node.subformsItems nodes)
    (hother : other ∈ Node.subformsItems nodes) :
    form ∈ other.subforms ∨ other ∈ form.subforms ∨ Separate cursor stop form other := by
  cases h with
  | nil => cases hform
  | @cons _ start after _ node nodes hskips hspans hlater =>
      have hstart := hskips.reaches
      have hafter := hstart.trans hspans.reaches.1
      have hstop := hlater.reaches
      -- What occurs in the first form ends before what occurs in a later one begins.
      have hacross : ∀ {a b}, a ∈ node.subforms → b ∈ Node.subformsItems nodes →
          Separate cursor stop a b := by
        intro a b ha hb
        obtain ⟨_, _, hfirst⟩ := hspans.inside ha
        obtain ⟨_, _, hsecond⟩ := hlater.inside hb
        exact ⟨_, _, _, _, hfirst.mono hstart hstop, hsecond.mono hafter (.refl stop),
          .inl (hfirst.before.trans hsecond.after)⟩
      rcases List.mem_append.mp hform with hform | hform <;>
        rcases List.mem_append.mp hother with hother | hother
      · refine (hspans.apart hform hother).imp_right (Or.imp_right fun hapart => ?_)
        exact hapart.mono hstart hstop
      · exact .inr (.inr (hacross hform hother))
      · exact .inr (.inr (hacross hother hform).symm)
      · refine (hlater.apart hform hother).imp_right (Or.imp_right fun hapart => ?_)
        exact hapart.mono hafter (.refl stop)

end

/-- An item stands strictly within the text of its list. -/
theorem Spans.item {start stop : Cursor} {node item : Node} (h : Spans start node stop)
    (hitem : item ∈ node.items) :
    ∃ first last, Spans first item last ∧ start.Reaches first ∧
      start.position.offset < first.position.offset ∧
      last.position.offset < stop.position.offset := by
  cases h with
  | list hopening hitems hclosing =>
      obtain ⟨hfirst, hbegins⟩ := Cursor.reaches_lexeme hopening
      obtain ⟨-, hends⟩ := Cursor.reaches_lexeme hclosing
      obtain ⟨first, last, hwithin⟩ :=
        hitems.inside (Node.subforms_subset_of_mem hitem item.self_mem_subforms)
      have hafter := hwithin.after.offset_le
      have hbefore := hwithin.before.offset_le
      dsimp only at hbegins hends
      refine ⟨first, last, hwithin.spans, hfirst.trans hwithin.after, ?_, ?_⟩
      · omega
      · omega
  | atom =>
      rw [(Node.subforms_ofAtom _ _).2] at hitem
      cases hitem
  | literal => cases hitem

/-! ## Reading a form again -/

/-- A fresh reader of what follows an offset in a source text. -/
def Reader.startingAt (source : String) (limit : Int) (offset : Int) : Reader :=
  .ofText (String.ofList (source.toList.drop offset.toNat)) limit

namespace Node

/-- The offset where the form begins, zero if that is not known. -/
def first (node : Node) : Int := node.position.elim 0 Position.offset

/-- The offset where the form ends: where a fresh reader stops that begins with the form. -/
def last (source : String) (limit : Int) (node : Node) : Int :=
  node.first + (Reader.startingAt source limit node.first).readForm.2.position.offset

/-- How the text of a form begins: a list with its parenthesis, a string with its quote, and any
other form with the atom that makes it. -/
def Heads (text : List Char) (node : Node) : Prop :=
  match node with
  | list _ _ => text.head? = some '('
  | string _ _ => text.head? = some '"'
  | _ => ∃ atom rest position, text = atom ++ rest ∧ IsAtom atom ∧ EndsAtom rest ∧
      node = ofAtom atom position

end Node

namespace Spans

variable {start stop : Cursor} {node : Node} {source : String} {limit : Int}

/-- A form begins where its position says. -/
theorem first_eq (h : Spans start node stop) : node.first = start.position.offset := by
  rw [Node.first, h.position_eq]
  rfl

/-- The text of a form begins as its kind demands. -/
theorem heads (h : Spans start node stop) : node.Heads start.rest := by
  cases h with
  | list hopening =>
      show start.rest.head? = some '('
      rw [(Cursor.next_sound hopening).2.opening_eq]
      rfl
  | literal hnext =>
      obtain ⟨units, htext, -⟩ := (Cursor.next_sound hnext).2.literal_eq
      show start.rest.head? = some '"'
      rw [htext]
      rfl
  | @atom _ _ text hnext =>
      obtain ⟨htext, hatom, hends⟩ := (Cursor.next_sound hnext).2.atom_eq
      have hmade : ∃ atom rest position, start.rest = atom ++ rest ∧ IsAtom atom ∧
          EndsAtom rest ∧ Node.ofAtom text start.position = .ofAtom atom position :=
        ⟨text, stop.rest, start.position, htext, hatom, hends, rfl⟩
      obtain ⟨value, hvalue⟩ | ⟨s, hs⟩ := Node.ofAtom_eq text start.position
      · rw [hvalue] at hmade ⊢
        exact hmade
      · rw [hs] at hmade ⊢
        exact hmade

/-- A form is read again by a fresh reader that begins where it stands. -/
theorem read_again (h : Spans start node stop)
    (hstart : (Cursor.ofText source.toList).Reaches start) (hroom : node.nesting ≤ room limit 0) :
    ∃ read q, read.bare = node.bare ∧ read.position = some .start ∧
      stop.position.offset = start.position.offset + q.offset ∧
      (Reader.startingAt source limit node.first).readForm =
        (.ok read, ⟨⟨stop.rest, q⟩, 0, limit⟩) := by
  obtain ⟨read, q, hsame, hspans⟩ := h.form.spans .start
  have hrest : source.toList.drop node.first.toNat = start.rest := by
    rw [h.first_eq]
    exact hstart.isIn.2.symm
  have hfits : read.nesting + ([] : List OpenList).length ≤ room limit 0 := by
    rwa [← Node.nesting_bare, hsame, Node.nesting_bare]
  have hforms : (Reader.startingAt source limit node.first).outcome =
      absorb limit 0 [(read, ⟨stop.rest, q⟩)] ⟨stop.rest, q⟩ [] := by
    rw [← hspans.resume_eq hfits, Reader.startingAt, hrest, Reader.ofText, String.toList_ofList]
    rfl
  have hpassed := h.reaches.1.offset_add_length
  have hagain := hspans.reaches.1.offset_add_length
  refine ⟨read, q, hsame, hspans.position_eq, ?_, ?_⟩
  · simp only [Position.start] at hagain
    omega
  · exact Reader.readForm_of_cons (congrArg Outcome.forms hforms)

/-- A form ends where its text does. -/
theorem last_eq (h : Spans start node stop) (hstart : (Cursor.ofText source.toList).Reaches start)
    (hroom : node.nesting ≤ room limit 0) : node.last source limit = stop.position.offset := by
  obtain ⟨read, q, -, -, hoffset, hread⟩ := h.read_again hstart hroom
  rw [Node.last, hread, h.first_eq, hoffset]
  rfl

end Spans

/-- In a source text that is read, every form and every form within one has a position, and a fresh
reader of the text from its offset on reads the same form, at the beginning: there stands a
parenthesis if it is a list, a quote if it is a string, and otherwise the atom that makes it. The
text that this reader passes over is the extent of the form. It is not empty; the extents of two
forms are apart unless one form occurs in the other; and the extent of an item begins after that of
its list and ends before it. -/
theorem positions_locate_forms (source : String) (limit : Int) (nodes : List Node)
    (h : parse source limit = .ok nodes) :
    (∀ node ∈ Node.subformsItems nodes, ∃ p read, node.position = some p ∧ 0 ≤ p.offset ∧
      (Reader.startingAt source limit p.offset).readForm.1 = .ok read ∧
      Node.same read node = true ∧ read.position = some .start ∧
      node.Heads (source.toList.drop p.offset.toNat) ∧
      node.first < node.last source limit) ∧
    (∀ node ∈ Node.subformsItems nodes, ∀ other ∈ Node.subformsItems nodes,
      node ∉ other.subforms → other ∉ node.subforms →
      node.last source limit ≤ other.first ∨ other.last source limit ≤ node.first) ∧
    ∀ node ∈ Node.subformsItems nodes, ∀ item ∈ node.items,
      node.first < item.first ∧ item.last source limit < node.last source limit := by
  obtain ⟨stop, hspans⟩ := parse_spans h
  have hroom : ∀ node ∈ Node.subformsItems nodes, node.nesting ≤ room limit 0 := fun node hnode =>
    Nat.le_trans (Node.nesting_le_of_mem_subformsItems hnode) (parse_sound h).1
  refine ⟨?_, ?_, ?_⟩
  · intro node hnode
    obtain ⟨first, last, hwithin⟩ := hspans.inside hnode
    obtain ⟨hplace, hrest⟩ := hwithin.after.isIn
    have hfirst := hwithin.spans.first_eq
    obtain ⟨read, q, hsame, hstart, -, hread⟩ :=
      hwithin.spans.read_again hwithin.after (hroom node hnode)
    refine ⟨first.position, read, hwithin.spans.position_eq, hplace.offset_nonneg, ?_,
      (Node.same_iff read node).mpr hsame, hstart, ?_, ?_⟩
    · rw [← hfirst, hread]
    · rw [← hrest]
      exact hwithin.spans.heads
    · rw [hfirst, hwithin.spans.last_eq hwithin.after (hroom node hnode)]
      exact hwithin.spans.reaches.2
  · intro node hnode other hother hnot hnot'
    obtain ⟨_, _, _, _, hwithin, hwithin', hapart⟩ :=
      ((hspans.apart hnode hother).resolve_left hnot).resolve_left hnot'
    rw [hwithin.spans.first_eq, hwithin'.spans.first_eq,
      hwithin.spans.last_eq hwithin.after (hroom node hnode),
      hwithin'.spans.last_eq hwithin'.after (hroom other hother)]
    exact hapart.imp Cursor.Reaches.offset_le Cursor.Reaches.offset_le
  · intro node hnode item hitem
    obtain ⟨_, _, hwithin⟩ := hspans.inside hnode
    obtain ⟨_, _, hinside, hafter, hbegins, hends⟩ := hwithin.spans.item hitem
    have hmember := Node.item_mem_subformsItems hnode hitem
    rw [hwithin.spans.first_eq, hinside.first_eq,
      hwithin.spans.last_eq hwithin.after (hroom node hnode),
      hinside.last_eq (hwithin.after.trans hafter) (hroom item hmember)]
    exact ⟨hbegins, hends⟩

/-- In a text with a parenthesis within a literal and no blank after that, the list after the
literal is read again from its offset, the two are apart, and both are inside the list around
them. -/
theorem positions_locate_adjacent_forms :
    let source := " (f \")\"(12))g"
    ∃ nodes outer literal inner read, parse source 2 = .ok nodes ∧ outer ∈ nodes ∧
      literal ∈ outer.items ∧ inner ∈ outer.items ∧ literal.first = 4 ∧ inner.first = 7 ∧
      (Reader.startingAt source 2 7).readForm.1 = .ok read ∧ Node.same read inner = true ∧
      literal.last source 2 ≤ inner.first ∧ outer.first < literal.first ∧
      inner.last source 2 < outer.last source 2 := by
  intro source
  obtain ⟨nodes, hnodes, outer, houter, literal, hliteral, inner, hinner, hfirst, hfirst', hnot,
      hnot'⟩ : ∃ nodes ∈ (parse source 2).toOption, ∃ outer ∈ nodes, ∃ literal ∈ outer.items,
      ∃ inner ∈ outer.items, literal.first = 4 ∧ inner.first = 7 ∧
        (∀ form ∈ inner.subforms, form.first ≠ 4) ∧ ∀ form ∈ literal.subforms, form.first ≠ 7 := by
    decide +kernel
  have hparse := parse_of_mem_toOption hnodes
  obtain ⟨hlocated, hapart, hinside⟩ := positions_locate_forms source 2 nodes hparse
  have hroot := Node.subforms_subset_of_mem houter outer.self_mem_subforms
  have hleft := Node.item_mem_subformsItems hroot hliteral
  have hright := Node.item_mem_subformsItems hroot hinner
  obtain ⟨p, read, hposition, -, hread, hsame, -, -, hextent⟩ := hlocated inner hright
  have hseparate := hapart literal hleft inner hright (fun h => hnot literal h hfirst)
    fun h => hnot' inner h hfirst'
  refine ⟨nodes, outer, literal, inner, read, hparse, houter, hliteral, hinner, hfirst, hfirst',
    ?_, hsame, ?_, (hinside outer hroot literal hliteral).1, (hinside outer hroot inner hinner).2⟩
  · have hoffset : p.offset = 7 := by
      rw [← hfirst', Node.first, hposition]
      rfl
    rwa [hoffset] at hread
  · omega

end Sexpr
