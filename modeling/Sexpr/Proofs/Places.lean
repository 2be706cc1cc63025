import Sexpr.Proofs.Concatenation

/-!
# Where the forms of a text begin

A position is right if its line and its column are those of the place that its offset names
(`Position.IsIn`). The reader counts positions as it goes, and it goes forward only, so that all its
positions are right and the forms that it returns begin one after the other. `Trail` is what holds
of the places of forms at any time while a text is read: of the forms that are complete and of the
lists that are still open. `resume_placed` carries it through reading, also to a fault, and
`Reader.Moves` says what follows for each of the actions that a reader can be asked for.
-/

namespace Sexpr

namespace Position

/-- The position is that of a place in the text: its offset is the number of characters before the
place, its line counts the line feeds among them, and its column counts the characters after the
last of these. -/
structure IsIn (text : List Char) (p : Position) : Prop where
  offset_nonneg : 0 ≤ p.offset
  offset_le : p.offset ≤ text.length
  line_eq : p.line = 1 + (text.take p.offset.toNat).count '\n'
  column_eq : p.column = 1 + ((text.take p.offset.toNat).reverse.takeWhile (· ≠ '\n')).length

/-- The place after the beginning of a text is in that text. -/
theorem isIn_after_start (before rest : List Char) :
    (start.after before).IsIn (before ++ rest) := by
  rw [← shift_start]
  refine ⟨?_, ?_, ?_, ?_⟩
  · simp [shift, start]
  · simp only [shift, start, List.length_append]
    omega
  · simp [shift, start]
  · simp [shift, start]

/-- A text moves the offset by its length. -/
theorem offset_after (p : Position) (text : List Char) :
    (p.after text).offset = p.offset + text.length := by
  induction text generalizing p with
  | nil => simp
  | cons c text ih =>
      have hstep : (p.advance c).offset = p.offset + 1 := by
        unfold advance
        split <;> rfl
      rw [after_cons, ih, hstep, List.length_cons]
      omega

end Position

namespace Cursor

variable {cursor other : Cursor}

/-- Offset and rest of a cursor make up for each other. -/
theorem Reaches.offset_add_length (h : cursor.Reaches other) :
    other.position.offset + other.rest.length = cursor.position.offset + cursor.rest.length := by
  obtain ⟨passed, hrest, hposition⟩ := h
  rw [hposition, hrest, Position.offset_after, List.length_append]
  omega

/-- A cursor moves forward. -/
theorem Reaches.offset_le (h : cursor.Reaches other) :
    cursor.position.offset ≤ other.position.offset := by
  obtain ⟨passed, -, hposition⟩ := h
  rw [hposition, Position.offset_after]
  omega

/-- A cursor that leaves less of the text has moved. -/
theorem Reaches.offset_lt (h : cursor.Reaches other)
    (hshorter : other.rest.length < cursor.rest.length) :
    cursor.position.offset < other.position.offset := by
  have hsum := h.offset_add_length
  omega

/-- A cursor that is reached from the beginning of a text is at a place in the text and leaves what
follows that place. -/
theorem Reaches.isIn {text : List Char} (h : (ofText text).Reaches cursor) :
    cursor.position.IsIn text ∧ cursor.rest = text.drop cursor.position.offset.toNat := by
  obtain ⟨passed, hrest, hposition⟩ := h
  have htext : text = passed ++ cursor.rest := hrest
  have hstart : cursor.position = Position.start.after passed := hposition
  have hoffset : cursor.position.offset.toNat = passed.length := by
    rw [hstart, Position.offset_after]
    simp [Position.start]
  refine ⟨?_, ?_⟩
  · rw [htext, hstart]
    exact Position.isIn_after_start passed cursor.rest
  · rw [hoffset, htext, List.drop_left]

/-- Without its blanks a text goes on in the same way. -/
theorem next_skipBlanks (cursor : Cursor) : cursor.skipBlanks.next = cursor.next := by
  have hskip : cursor.skipBlanks.skipBlanks = cursor.skipBlanks := by
    refine skipBlanks_eq_self fun c hc => ?_
    obtain ⟨rest, hrest⟩ := List.head?_eq_some_iff.mp hc
    exact isBlank_of_skipBlanks hrest
  unfold next
  rw [hskip]

/-- A lexeme reaches from its beginning to its end. -/
theorem reaches_lexeme {l : Lexeme} (h : cursor.next = .lexeme l) :
    l.start.Reaches l.stop ∧ l.start.position.offset < l.stop.position.offset := by
  have hnext : l.start.next = .lexeme l := by
    rw [start_of_next h, next_skipBlanks, h]
  have hreaches := reaches_stop hnext
  exact ⟨hreaches, hreaches.offset_lt (length_next hnext)⟩

end Cursor

/-! ## Faults of literals -/

namespace Literal

/-- The place of a fault within a literal, if the fault has a place of its own. -/
def faultPlace? : Literal → Option Position
  | badEscape _ position => some position
  | newline position => some position
  | _ => none

/-- A character in front does not move a fault. -/
@[simp]
theorem faultPlace?_push (c : Char) (literal : Literal) :
    (literal.push c).faultPlace? = literal.faultPlace? := by
  cases literal <;> rfl

/-- With an escape in front, a fault is where it was or at that escape. -/
theorem faultPlace?_pushEscape {c : Char} {p q : Position} {literal : Literal}
    (h : (literal.pushEscape c p).faultPlace? = some q) :
    q = p ∨ literal.faultPlace? = some q := by
  unfold pushEscape at h
  split at h
  · rw [faultPlace?_push] at h
    exact .inr h
  · cases literal with
    | closed | badEscape =>
        cases h
        exact .inl rfl
    | newline | unterminated => exact .inr h

/-- A fault within a literal is at a place that reading it comes to. -/
theorem reaches_faultPlace {p q : Position} {text : List Char}
    (h : (read p text).1.faultPlace? = some q) :
    ∃ rest, Cursor.Reaches ⟨text, p⟩ ⟨rest, q⟩ := by
  fun_induction read p text with
  | case1 | case2 | case4 => cases h
  | case3 | case5 =>
      cases h
      exact ⟨_, .refl _⟩
  | case6 =>
      rename_i ih
      obtain rfl | hlater := faultPlace?_pushEscape h
      · exact ⟨_, .refl _⟩
      · obtain ⟨rest, hreaches⟩ := ih hlater
        exact ⟨rest, .cons (.cons hreaches)⟩
  | case7 =>
      rename_i ih
      rw [faultPlace?_push] at h
      obtain ⟨rest, hreaches⟩ := ih h
      exact ⟨rest, .cons hreaches⟩

end Literal

namespace Cursor

variable {cursor : Cursor}

/-- A literal at fault has its fault at its opening quote or at a place within. -/
theorem reaches_literal_fault {start stop : Cursor} {text : List Char} {error : ReadError}
    (hquote : start.rest = '"' :: text) (h : start.literal text = .fault error stop) :
    ∃ place, start.Reaches place ∧ error.position = place.position := by
  have hinside : ∀ {q}, (Literal.read (start.position.advance '"') text).1.faultPlace? = some q →
      ∃ place, start.Reaches place ∧ q = place.position := by
    intro q hq
    obtain ⟨rest, hreaches⟩ := Literal.reaches_faultPlace hq
    obtain ⟨all, p⟩ := start
    obtain rfl : all = '"' :: text := hquote
    exact ⟨⟨rest, q⟩, .cons hreaches, rfl⟩
  unfold literal at h
  split at h
  · cases h
  · next c q at_ hread =>
      cases h
      exact hinside (by rw [hread]; rfl)
  · next q at_ hread =>
      cases h
      exact hinside (by rw [hread]; rfl)
  · cases h
    exact ⟨start, .refl start, rfl⟩

/-- A fault that comes next is that of a literal after the blanks. -/
theorem literal_of_next_fault {stop : Cursor} {error : ReadError}
    (h : cursor.next = .fault error stop) :
    ∃ text, cursor.skipBlanks.rest = '"' :: text ∧
      cursor.skipBlanks.literal text = .fault error stop := by
  have hstep := cursor.next_step
  rw [h] at hstep
  generalize hupcoming : Upcoming.fault error stop = upcoming at hstep
  cases hstep with
  | nothing | opening | closing | atom => cases hupcoming
  | literal hquote => exact ⟨_, hquote, rfl⟩

/-- The fault that comes next is at a place from the cursor on. -/
theorem reaches_fault {stop : Cursor} {error : ReadError} (h : cursor.next = .fault error stop) :
    ∃ place, cursor.Reaches place ∧ error.position = place.position := by
  obtain ⟨text, hquote, hliteral⟩ := literal_of_next_fault h
  obtain ⟨place, hreaches, hposition⟩ := reaches_literal_fault hquote hliteral
  exact ⟨place, (cursor.reaches_skipWhile isBlank).trans hreaches, hposition⟩

end Cursor

/-! ## The places of forms -/

namespace Node

/-- Where the forms and all forms within them began, in the order in which they are written. -/
def places (nodes : List Node) : List (Option Position) := (subformsItems nodes).map position

/-- The places of two sequences in a row are those of one and then of the other. -/
theorem places_append (nodes others : List Node) :
    places (nodes ++ others) = places nodes ++ places others := by
  rw [places, subformsItems_append, List.map_append]
  rfl

/-- A list begins before its items. -/
theorem places_list (items : List Node) (position : Option Position) :
    places [list items position] = position :: places items := by
  simp [places, subformsItems, subforms, Node.position]

/-- An atom has one place. -/
theorem places_ofAtom (text : List Char) (p : Position) : places [ofAtom text p] = [some p] := by
  unfold ofAtom
  split <;> rfl

end Node

/-- The places of the lists that are open and of the forms within them so far, in the order in which
they are written. -/
def OpenList.places : List OpenList → List (Option Position)
  | [] => []
  | opened :: outer =>
      OpenList.places outer ++ some opened.start :: Node.places opened.items.reverse

/-- A form that an open list takes is the last one so far. -/
theorem OpenList.places_push (opened : OpenList) (outer : List OpenList) (node : Node) :
    OpenList.places (⟨opened.start, node :: opened.items⟩ :: outer) =
      OpenList.places (opened :: outer) ++ Node.places [node] := by
  simp [OpenList.places, Node.places_append]

/-- Of a text that is read from `origin` and has been read up to `cursor`, these are places where
something begins, one after the other. -/
structure Trail (origin cursor : Cursor) (places : List (Option Position)) : Prop where
  reached : origin.Reaches cursor
  located : ∀ place ∈ places, ∃ start : Cursor, place = some start.position ∧
    origin.Reaches start ∧ start.position.offset < cursor.position.offset
  increasing : places.Pairwise fun place later =>
    ∀ p ∈ place, ∀ q ∈ later, p.offset < q.offset

namespace Trail

variable {origin cursor stop : Cursor} {places more : List (Option Position)}

/-- A text that is only begun has no places yet. -/
theorem nil (h : origin.Reaches cursor) : Trail origin cursor [] := ⟨h, nofun, .nil⟩

/-- What was passed stays passed. -/
theorem advance (h : Trail origin cursor places) (hstop : cursor.Reaches stop) :
    Trail origin stop places := by
  refine ⟨h.reached.trans hstop, ?_, h.increasing⟩
  intro place hplace
  obtain ⟨start, hposition, hreaches, hlt⟩ := h.located place hplace
  exact ⟨start, hposition, hreaches, Int.lt_of_lt_of_le hlt hstop.offset_le⟩

/-- Places that come last may be forgotten. -/
theorem of_append (h : Trail origin cursor (places ++ more)) : Trail origin cursor places := by
  refine ⟨h.reached, ?_, (List.pairwise_append.mp h.increasing).1⟩
  intro place hplace
  exact h.located place (List.mem_append_left more hplace)

/-- A trail from a place that was reached is a trail from where that began. -/
theorem of_reaches {first : Cursor} (h : Trail origin cursor places)
    (hfirst : first.Reaches origin) : Trail first cursor places := by
  refine ⟨hfirst.trans h.reached, ?_, h.increasing⟩
  intro place hplace
  obtain ⟨start, hposition, hreaches, hlt⟩ := h.located place hplace
  exact ⟨start, hposition, hfirst.trans hreaches, hlt⟩

/-- A lexeme from the cursor on begins after all places so far. -/
theorem push (h : Trail origin cursor places) {l : Lexeme} (hnext : cursor.next = .lexeme l) :
    Trail origin l.stop (places ++ [some l.start.position]) := by
  have hstart := Cursor.reaches_start hnext
  obtain ⟨hstop, hlt⟩ := Cursor.reaches_lexeme hnext
  have hpassed := h.advance (hstart.trans hstop)
  refine ⟨hpassed.reached, ?_, ?_⟩
  · intro place hplace
    rcases List.mem_append.mp hplace with hplace | hplace
    · exact hpassed.located place hplace
    · obtain rfl := List.mem_singleton.mp hplace
      exact ⟨l.start, rfl, h.reached.trans hstart, hlt⟩
  · refine List.pairwise_append.mpr ⟨h.increasing, List.pairwise_singleton _ _, ?_⟩
    intro place hplace later hlater p hp q hq
    obtain rfl := List.mem_singleton.mp hlater
    obtain ⟨start, rfl, -, hbefore⟩ := h.located place hplace
    cases hp
    cases hq
    exact Int.lt_of_lt_of_le hbefore hstart.offset_le

end Trail

/-- What reading from `origin` comes to after the forms at `places`: its forms begin after these,
and a fault is at a place of the text. -/
structure Outcome.Placed (outcome : Outcome) (origin : Cursor) (places : List (Option Position)) :
    Prop where
  trail : Trail origin outcome.cursor (places ++ Node.places (outcome.forms.map Prod.fst))
  fault : ∀ error, outcome.halt = .fault error →
    ∃ place : Cursor, origin.Reaches place ∧ error.position = place.position

/-- A form that a lexeme completes comes after the forms and open lists before it. -/
theorem Trail.completed {origin cursor : Cursor} {places : List (Option Position)} {limit : Int}
    {depth : Nat} {stack outer : List OpenList} {node : Node} {l : Lexeme}
    (h : Trail origin cursor (places ++ OpenList.places stack)) (hnext : cursor.next = .lexeme l)
    (hshift : l.shift limit depth stack = .completed node outer) :
    Trail origin l.stop (places ++ (OpenList.places outer ++ Node.places [node])) := by
  have hpush := h.push hnext
  have hadvance := h.advance (Cursor.reaches_stop hnext)
  obtain ⟨token, start, stop⟩ := l
  cases token with
  | opening =>
      simp only [Lexeme.shift] at hshift
      split at hshift <;> cases hshift
  | closing =>
      cases stack with
      | nil => cases hshift
      | cons opened rest =>
          cases hshift
          rw [OpenList.close, Node.places_list]
          exact hadvance
  | atom text =>
      cases hshift
      rw [Node.places_ofAtom, ← List.append_assoc]
      exact hpush
  | literal text =>
      cases hshift
      rw [List.append_assoc] at hpush
      exact hpush

/-- A list that is opened begins where its lexeme does. -/
theorem Lexeme.places_of_opened {limit : Int} {depth : Nat} {stack opened : List OpenList}
    {l : Lexeme} (h : l.shift limit depth stack = .opened opened) :
    OpenList.places opened = OpenList.places stack ++ [some l.start.position] := by
  obtain ⟨token, start, stop⟩ := l
  cases token with
  | opening =>
      simp only [Lexeme.shift] at h
      split at h <;> cases h
      rfl
  | closing => cases stack <;> cases h
  | atom | literal => cases h

/-- A fault that ends reading before a lexeme is a list too deep, where the lexeme begins. -/
theorem Lexeme.error_of_halted {limit : Int} {depth : Nat} {stack : List OpenList} {l : Lexeme}
    {error : ReadError} (h : l.shift limit depth stack = .halted (.fault error)) :
    error = ⟨.tooDeep limit, l.start.position⟩ := by
  obtain ⟨token, start, stop⟩ := l
  cases token with
  | opening =>
      simp only [Lexeme.shift] at h
      split at h <;> cases h
      rfl
  | closing => cases stack <;> cases h
  | atom | literal => cases h

/-- Reading on after a trail of places goes on with it, and a fault is at a place of the text. -/
theorem resume_placed (limit : Int) (depth : Nat) (stack : List OpenList) (cursor : Cursor)
    {origin : Cursor} {places : List (Option Position)}
    (h : Trail origin cursor (places ++ OpenList.places stack)) :
    (resume limit depth stack cursor).Placed origin places := by
  induction stack, cursor using resume_induction generalizing places with
  | step stack cursor ih =>
      have hstop := cursor.reaches_next
      cases hnext : cursor.next with
      | nothing stop =>
          rw [hnext] at hstop
          rw [resume_of_nothing hnext]
          refine ⟨(List.append_nil places).symm ▸ h.of_append.advance hstop, ?_⟩
          intro error herror
          cases stack with
          | nil => cases herror
          | cons opened outer =>
              -- The list that is not closed is the innermost of those that are open.
              cases herror
              obtain ⟨start, hstart, hreaches, -⟩ :=
                h.located (some opened.start) (by simp [OpenList.places])
              exact ⟨start, hreaches, Option.some.inj hstart⟩
      | fault error stop =>
          rw [hnext] at hstop
          rw [resume_of_fault hnext]
          refine ⟨(List.append_nil places).symm ▸ h.of_append.advance hstop, ?_⟩
          rintro other ⟨⟩
          obtain ⟨place, hreaches, hposition⟩ := Cursor.reaches_fault hnext
          exact ⟨place, h.reached.trans hreaches, hposition⟩
      | lexeme l =>
          cases hshift : l.shift limit depth stack with
          | opened opened =>
              rw [resume_of_opened hnext hshift]
              refine ih l hnext opened ?_
              rw [Lexeme.places_of_opened hshift, ← List.append_assoc]
              exact h.push hnext
          | halted halt =>
              have hstart := Cursor.reaches_start hnext
              rw [resume_of_halted hnext hshift]
              refine ⟨(List.append_nil places).symm ▸ h.of_append.advance hstart, ?_⟩
              rintro error rfl
              rw [Lexeme.error_of_halted hshift]
              exact ⟨l.start, h.reached.trans hstart, rfl⟩
          | completed node outer =>
              have hcompleted := h.completed hnext hshift
              rw [resume_of_completed hnext hshift]
              cases outer with
              | nil =>
                  have htrail : Trail origin l.stop
                      (places ++ Node.places [node] ++ OpenList.places []) := by
                    simpa [OpenList.places] using hcompleted
                  have hlater := ih l hnext [] htrail
                  refine ⟨?_, hlater.fault⟩
                  have htrail := hlater.trail
                  rw [List.append_assoc, ← Node.places_append] at htrail
                  exact htrail
              | cons opened outer =>
                  refine ih l hnext _ ?_
                  rw [List.map_singleton, List.reverse_singleton, List.singleton_append,
                    OpenList.places_push]
                  exact hcompleted

/-- Every form that is completed at the top level ends after the cursor from which it was read. -/
theorem reaches_forms (limit : Int) (depth : Nat) (stack : List OpenList) (cursor : Cursor) :
    ∀ form ∈ (resume limit depth stack cursor).forms,
      cursor.Reaches form.2 ∧ form.2.rest.length < cursor.rest.length := by
  induction stack, cursor using resume_induction with
  | step stack cursor ih =>
      have hlater : ∀ l, cursor.next = .lexeme l → ∀ stack,
          ∀ form ∈ (resume limit depth stack l.stop).forms,
            cursor.Reaches form.2 ∧ form.2.rest.length < cursor.rest.length := by
        intro l hnext stack form hform
        obtain ⟨hreaches, hlength⟩ := ih l hnext stack form hform
        exact ⟨(Cursor.reaches_stop hnext).trans hreaches,
          Nat.lt_trans hlength (Cursor.length_next hnext)⟩
      cases hnext : cursor.next with
      | nothing stop => simp [resume_of_nothing hnext]
      | fault error stop => simp [resume_of_fault hnext]
      | lexeme l =>
          cases hshift : l.shift limit depth stack with
          | opened opened =>
              rw [resume_of_opened hnext hshift]
              exact hlater l hnext opened
          | halted halt => simp [resume_of_halted hnext hshift]
          | completed node outer =>
              rw [resume_of_completed hnext hshift]
              cases outer with
              | nil =>
                  intro form hform
                  rcases List.mem_cons.mp hform with rfl | hform
                  · exact ⟨Cursor.reaches_stop hnext, Cursor.length_next hnext⟩
                  · exact hlater l hnext [] form hform
              | cons opened outer => exact hlater l hnext _

/-- The first form begins before the second. -/
def Node.Precedes (node other : Node) : Prop :=
  ∀ p ∈ node.position, ∀ q ∈ other.position, p.offset < q.offset

/-- Forms with a trail of places from the beginning of a text have places in the text, and begin one
after the other. -/
theorem Trail.forms {text : List Char} {stop : Cursor} {nodes : List Node}
    (h : Trail (.ofText text) stop (Node.places nodes)) :
    (∀ node ∈ Node.subformsItems nodes, ∃ p, node.position = some p ∧ p.IsIn text) ∧
      (Node.subformsItems nodes).Pairwise Node.Precedes := by
  refine ⟨?_, (List.pairwise_map (f := Node.position)).mp h.increasing⟩
  intro node hnode
  obtain ⟨start, hposition, hreaches, -⟩ := h.located node.position (List.mem_map_of_mem hnode)
  exact ⟨start.position, hposition, hreaches.isIn.1⟩

/-! ## A reader that is asked for anything in any order -/

namespace Reader

/-- What a reader can be asked for. -/
inductive Action where
  | peek
  | advance
  | position
  | skipBlanks
  | atEnd
  | readForms
  | readForm
deriving DecidableEq, Repr

/-- What a reader can answer. -/
inductive Answer where
  | character (c : Option Char)
  | place (position : Position)
  | done
  | flag (holds : Bool)
  | forms (nodes : List Node)
  | form (node : Node)
  | refused (error : ReadError)

namespace Answer

/-- The forms in the answer. -/
def nodes : Answer → List Node
  | forms nodes => nodes
  | form node => [node]
  | _ => []

/-- The fault with which the reader refused. -/
def error? : Answer → Option ReadError
  | refused error => some error
  | _ => none

end Answer

/-- Do what is asked for: the answer, and the reader afterwards. -/
def perform (reader : Reader) : Action → Answer × Reader
  | .peek => (.character reader.peek, reader)
  | .advance => (.character reader.peek, reader.advance)
  | .position => (.place reader.position, reader)
  | .skipBlanks => (.done, reader.skipBlanks)
  | .atEnd => (.flag reader.atEnd, reader.skipBlanks)
  | .readForms =>
      match reader.readForms with
      | (.ok nodes, after) => (.forms nodes, after)
      | (.error error, after) => (.refused error, after)
  | .readForm =>
      match reader.readForm with
      | (.ok node, after) => (.form node, after)
      | (.error error, after) => (.refused error, after)

/-- The reader after actions one after the other, however each of them ended. -/
def performAll (reader : Reader) (actions : List Action) : Reader :=
  actions.foldl (fun reader action => (reader.perform action).2) reader

/-- What one action does: the cursor moves forward, no list stays open, the forms of the answer and
its fault are at places that were passed, and a form that is returned was passed over. -/
structure Moves (reader : Reader) (action : Action) (answer : Answer) (after : Reader) : Prop where
  reaches : reader.cursor.Reaches after.cursor
  depth_eq : after.depth = reader.depth
  trail : ∃ stop, Trail reader.cursor stop (Node.places answer.nodes)
  fault : ∀ error ∈ answer.error?,
    ∃ place : Cursor, reader.cursor.Reaches place ∧ error.position = place.position
  passes : action = .readForm → answer.error? = none →
    reader.position.offset < after.position.offset

variable (reader : Reader)

/-- An action without forms and without a fault only moves the cursor. -/
theorem moves_of_reaches {action : Action} {answer : Answer} {after : Reader}
    (hreaches : reader.cursor.Reaches after.cursor) (hdepth : after.depth = reader.depth)
    (hnodes : answer.nodes = []) (herror : answer.error? = none) (haction : action ≠ .readForm) :
    reader.Moves action answer after where
  reaches := hreaches
  depth_eq := hdepth
  trail := ⟨reader.cursor, by rw [hnodes]; exact .nil (.refl _)⟩
  fault := by rw [herror]; exact nofun
  passes hread := absurd hread haction

/-- What reading on from a reader comes to. -/
theorem outcome_placed : reader.outcome.Placed reader.cursor [] :=
  resume_placed reader.limit reader.depth [] reader.cursor (.nil (.refl _))

/-- Reading forms moves the cursor to where reading ends. -/
theorem moves_readForms :
    reader.Moves .readForms (reader.perform .readForms).1 (reader.perform .readForms).2 := by
  have hreaches : reader.cursor.Reaches reader.outcome.cursor :=
    reaches_resume reader.limit reader.depth [] reader.cursor
  obtain ⟨htrail, hfault⟩ := reader.outcome_placed
  simp only [perform, readForms]
  cases hhalt : reader.outcome.halt with
  | finished | unmatched => exact ⟨hreaches, rfl, ⟨_, htrail⟩, nofun, nofun⟩
  | fault error =>
      refine ⟨hreaches, rfl, ⟨_, .nil (.refl reader.cursor)⟩, ?_, nofun⟩
      rintro other ⟨⟩
      exact hfault error hhalt

/-- Reading a form moves the cursor past it, or to where reading ends without one. -/
theorem moves_readForm :
    reader.Moves .readForm (reader.perform .readForm).1 (reader.perform .readForm).2 := by
  have hreaches : reader.cursor.Reaches reader.outcome.cursor :=
    reaches_resume reader.limit reader.depth [] reader.cursor
  have hpassed := reaches_forms reader.limit reader.depth [] reader.cursor
  obtain ⟨htrail, hfault⟩ := reader.outcome_placed
  simp only [perform, readForm]
  cases hforms : reader.outcome.forms with
  | cons form more =>
      obtain ⟨node, stop⟩ := form
      obtain ⟨hstop, hshorter⟩ := hpassed (node, stop) (hforms ▸ List.mem_cons_self)
      rw [List.nil_append, hforms, List.map_cons, ← List.singleton_append,
        Node.places_append] at htrail
      exact ⟨hstop, rfl, ⟨_, htrail.of_append⟩, nofun, fun _ _ => hstop.offset_lt hshorter⟩
  | nil =>
      cases hhalt : reader.outcome.halt with
      | finished | unmatched =>
          refine ⟨hreaches, rfl, ⟨_, .nil (.refl reader.cursor)⟩, ?_, nofun⟩
          rintro error ⟨⟩
          exact ⟨_, hreaches, rfl⟩
      | fault error =>
          refine ⟨hreaches, rfl, ⟨_, .nil (.refl reader.cursor)⟩, ?_, nofun⟩
          rintro other ⟨⟩
          exact hfault error hhalt

/-- What every action does. -/
theorem moves_perform (action : Action) :
    reader.Moves action (reader.perform action).1 (reader.perform action).2 := by
  have hblanks : reader.cursor.Reaches reader.skipBlanks.cursor :=
    reader.cursor.reaches_skipWhile isBlank
  cases action with
  | peek | position => exact reader.moves_of_reaches (.refl _) rfl rfl rfl nofun
  | advance => exact reader.moves_of_reaches reader.cursor.reaches_advance rfl rfl rfl nofun
  | skipBlanks | atEnd => exact reader.moves_of_reaches hblanks rfl rfl rfl nofun
  | readForms => exact reader.moves_readForms
  | readForm => exact reader.moves_readForm

/-- Actions one after the other move the cursor forward and leave no list open. -/
theorem performAll_reaches (actions : List Action) :
    reader.cursor.Reaches (reader.performAll actions).cursor ∧
      (reader.performAll actions).depth = reader.depth := by
  induction actions generalizing reader with
  | nil => exact ⟨.refl _, rfl⟩
  | cons action actions ih =>
      have hmoves := reader.moves_perform action
      obtain ⟨hreaches, hdepth⟩ := ih (reader.perform action).2
      exact ⟨hmoves.reaches.trans hreaches, hdepth.trans hmoves.depth_eq⟩

end Reader

end Sexpr
