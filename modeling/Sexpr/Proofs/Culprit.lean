import Sexpr.Proofs.History

/-!
# What a refusal of a text points at

A text is refused at a place, and that place is where the fault is. `FaultyLiteral` lists the ways
in which a literal can be at fault, with the place of each. `Spans.reads_alone` shows that a form
is read in the same way from the text that it spans and from nothing else, and
`LeftOf` collects what holds of the text before the place of a fault: forms that end there are
complete. `Culprit` says for each kind of fault what stands at its place, in terms of the contexts
of the text alone, and `refusals_point_at_culprit` shows that every refusal is of this kind.
-/

namespace Sexpr

/-! ## Literals at fault -/

/-- No unit of a text is a backslash by itself. -/
theorem LiteralUnit.ne_slash_of_mem {text : List Char} {unit : LiteralUnit}
    (h : unit ∈ ofText text) : unit ≠ plain '\\' := by
  fun_induction ofText text with
  | case1 => cases h
  | case2 =>
      obtain rfl := List.mem_singleton.mp h
      simp
  | case3 d rest ih =>
      obtain rfl | h := List.mem_cons.mp h
      · simp
      · exact ih h
  | case4 c rest hslash ih =>
      obtain rfl | h := List.mem_cons.mp h
      · exact fun heq => hslash (LiteralUnit.plain.inj heq)
      · exact ih h

open LiteralUnit (written)

/-- `FaultyLiteral p text error` says that what follows the quote at `p` is at fault, and how. -/
inductive FaultyLiteral (p : Position) : List Char → ReadError → Prop where
  /-- The text ends, perhaps after a backslash. -/
  | unterminated {inner : List LiteralUnit} {slash : List Char} :
      (∀ unit ∈ inner, unit.IsInner) → slash = [] ∨ slash = ['\\'] →
      FaultyLiteral p (written inner ++ slash) ⟨.unterminated, p⟩
  /-- The line ends, perhaps after a backslash. -/
  | newline {inner : List LiteralUnit} {slash rest : List Char} :
      (∀ unit ∈ inner, unit.IsInner) → slash = [] ∨ slash = ['\\'] →
      FaultyLiteral p (written inner ++ (slash ++ '\n' :: rest))
        ⟨.newline, p.after ('"' :: written inner)⟩
  /-- After units with a meaning there is an escape without one. -/
  | badEscape {inner : List LiteralUnit} {c : Char} {rest : List Char} :
      (∀ unit ∈ inner, unit.IsInner ∧ unit.decoded?.isSome = true) → c ≠ 'n' → c ≠ '"' →
      FaultyLiteral p (written inner ++ '\\' :: c :: rest)
        ⟨.badEscape c, p.after ('"' :: written inner)⟩

/-- What the units after a quote come to is a literal or one of the faults listed. -/
theorem faultyLiteral_of_verdict {p : Position} {inner ending : List LiteralUnit}
    {error : ReadError} (hinner : ∀ unit ∈ inner, unit.IsInner)
    (hends : ∀ unit ∈ ending.head?, unit.ends = true)
    (hlast : ∀ last, ending = .slash :: last → last = [])
    (h : (LiteralUnit.verdict (p.advance '"') inner ending.head?).answer p = .error error) :
    FaultyLiteral p (written (inner ++ ending)) error := by
  rw [LiteralUnit.written_append]
  cases ending with
  | nil =>
      cases h
      exact .unterminated hinner (.inl rfl)
  | cons unit later =>
      have hunit : unit.ends = true := hends unit rfl
      cases unit with
      | slash =>
          cases h
          obtain rfl := hlast later rfl
          exact .unterminated hinner (.inr rfl)
      | escape c =>
          obtain rfl : c = '\n' := by simpa [LiteralUnit.ends] using hunit
          cases h
          exact .newline hinner (.inr rfl)
      | plain c =>
          have hc : c = '"' ∨ c = '\n' := by simpa [LiteralUnit.ends] using hunit
          obtain rfl | rfl := hc
          · -- Only here does an escape without a meaning count, the first of them.
            simp only [List.head?_cons, LiteralUnit.verdict] at h
            split at h
            · next c more hbad =>
                cases h
                have hsplit := @List.takeWhile_append_dropWhile _ (·.decoded?.isSome) inner
                have hhead := List.head?_dropWhile_not (·.decoded?.isSome) inner
                rw [hbad] at hsplit hhead
                obtain ⟨hn, hquote⟩ : c ≠ 'n' ∧ c ≠ '"' := by
                  simpa [LiteralUnit.decoded?, ite_eq_iff] using hhead
                have hwritten : written inner =
                    written (inner.takeWhile (·.decoded?.isSome)) ++ '\\' :: c :: written more := by
                  conv_lhs => rw [← hsplit, LiteralUnit.written_append]
                  rfl
                rw [hwritten, List.append_assoc]
                refine .badEscape (fun unit hunit => ⟨hinner unit ?_, ?_⟩) hn hquote
                · exact (List.takeWhile_sublist _).subset hunit
                · exact List.all_eq_true.mp List.all_takeWhile unit hunit
            · cases h
          · cases h
            exact .newline hinner (.inl rfl)

/-- A literal that is at fault is so in one of the ways listed. -/
theorem faultyLiteral_of_literal {start stop : Cursor} {text : List Char} {error : ReadError}
    (h : start.literal text = .fault error stop) : FaultyLiteral start.position text error := by
  have hunits := @List.takeWhile_append_dropWhile _ (!LiteralUnit.ends ·) (LiteralUnit.ofText text)
  have hhead := List.head?_dropWhile_not (!LiteralUnit.ends ·) (LiteralUnit.ofText text)
  have hanswer : (Literal.read (start.position.advance '"') text).1.answer start.position =
      .error error := by
    rcases hread : Literal.read (start.position.advance '"') text with ⟨found, last⟩
    cases found <;> simp only [Cursor.literal, hread] at h <;> cases h <;> rfl
  rw [Literal.read_eq_outcome] at hanswer
  rw [← LiteralUnit.written_ofText text, ← hunits]
  refine faultyLiteral_of_verdict ?_ ?_ ?_ hanswer
  · intro unit hunit
    refine ⟨by simpa using List.all_eq_true.mp List.all_takeWhile unit hunit, ?_⟩
    exact LiteralUnit.ne_slash_of_mem ((List.takeWhile_sublist _).subset hunit)
  · intro unit hunit
    rw [hunit] at hhead
    simpa using hhead
  · intro last hlast
    rw [hlast] at hunits
    exact LiteralUnit.eq_nil_of_slash hunits.symm

/-! ## Forms on their own -/

mutual

/-- A form that spans a text and finds room leads from any station before it to the station after
it. -/
theorem Spans.leads {start stop : Cursor} {node : Node} (h : Spans start node stop) {limit : Int}
    {depth : Nat} {forms : List (Node × Cursor)} {stack : List OpenList} {cursor : Cursor}
    (hcursor : cursor.next = start.next) (hroom : node.nesting + stack.length ≤ room limit depth) :
    Station.Leads limit depth ⟨forms, stack, cursor⟩ (.deliver forms node stop stack) := by
  cases h with
  | @list _ inside last _ items hopening hitems hclosing =>
      simp only [Node.nesting] at hroom
      have hinside : Node.nestingItems items + (stack.length + 1) ≤ room limit depth := by omega
      obtain ⟨before, hskips, hleads⟩ := hitems.leads forms ⟨start.position, []⟩ stack hinside
      have hopen : Station.Step limit depth ⟨forms, stack, cursor⟩
          ⟨forms, ⟨start.position, []⟩ :: stack, inside⟩ :=
        .opening (hcursor.trans hopening) (by omega)
      have hclose := @Station.Step.closing limit depth forms
        ⟨start.position, items.reverse ++ []⟩ stack _ _ _ (hskips.next_eq.trans hclosing)
      have hnode : OpenList.close ⟨start.position, items.reverse ++ []⟩ =
          .list items start.position := by
        simp [OpenList.close]
      rw [hnode] at hclose
      exact (Relation.ReflTransGen.head hopen hleads).tail hclose
  | atom hnext => exact .single (.atom (hcursor.trans hnext))
  | literal hnext => exact .single (.literal (hcursor.trans hnext))

/-- Forms that span a text and find room in a list lead to the station after them. -/
theorem SpansItems.leads {cursor stop : Cursor} {nodes : List Node}
    (h : SpansItems cursor nodes stop) {limit : Int} {depth : Nat} (forms : List (Node × Cursor))
    (opened : OpenList) (outer : List OpenList)
    (hroom : Node.nestingItems nodes + (outer.length + 1) ≤ room limit depth) :
    ∃ last : Cursor, last.Skips stop ∧
      Station.Leads limit depth ⟨forms, opened :: outer, cursor⟩
        ⟨forms, ⟨opened.start, nodes.reverse ++ opened.items⟩ :: outer, last⟩ := by
  cases h with
  | nil hskips => exact ⟨cursor, hskips, .refl⟩
  | @cons _ start after _ node nodes hskips hspans hlater =>
      simp only [Node.nestingItems] at hroom
      have hfirst := @Spans.leads _ _ _ hspans limit depth forms (opened :: outer) cursor
        hskips.next_eq (by rw [List.length_cons]; omega)
      have hrest : Node.nestingItems nodes + (outer.length + 1) ≤ room limit depth := by omega
      obtain ⟨last, hlast, hleads⟩ := hlater.leads forms (opened.push node) outer hrest
      refine ⟨last, hlast, ?_⟩
      rw [List.reverse_cons, List.append_assoc]
      exact hfirst.trans hleads

end

/-- A form is read from the place where it stands, and it is read in the same way if the text
begins and ends with it. -/
theorem Spans.reads_alone {start stop : Cursor} {node : Node} (h : Spans start node stop)
    {limit : Int} (hroom : node.nesting ≤ room limit 0) :
    ∃ read piece, start.rest = piece ++ stop.rest ∧
      (Reader.ofText (String.ofList start.rest) limit).readForm =
        (.ok read, ⟨⟨stop.rest, Position.start.after piece⟩, 0, limit⟩) ∧
      parseForm (String.ofList piece) limit = .ok read := by
  obtain ⟨read, q, hsame, hspans⟩ := h.form.spans .start
  obtain ⟨⟨piece, hpiece, rfl⟩, -⟩ := hspans.reaches
  have hpiece : start.rest = piece ++ stop.rest := hpiece
  have hfits : read.nesting + ([] : List OpenList).length ≤ room limit 0 := by
    rwa [← Node.nesting_bare, hsame, Node.nesting_bare]
  have hleads := @Spans.leads _ _ _ hspans limit 0 [] [] _ rfl hfits
  refine ⟨read, piece, hpiece, ?_, ?_⟩
  · have hforms : (Reader.ofText (String.ofList start.rest) limit).outcome.forms =
        (read, ⟨stop.rest, Position.start.after piece⟩) ::
          (resume limit 0 [] ⟨stop.rest, Position.start.after piece⟩).forms := by
      rw [Reader.ofText, String.toList_ofList]
      exact congrArg Outcome.forms hleads.outcome_eq
    exact Reader.readForm_of_cons hforms
  · rw [hpiece] at hleads
    have hlast : Station.Leads limit 0 ((Station.start (.ofText piece)).extend stop.rest) _ :=
      hleads
    obtain ⟨⟨forms, stack, cursor⟩, hbefore, hcut⟩ := hlast.cut (List.nil_append stop.rest).symm
    obtain ⟨hforms, rfl, hcursor⟩ := Station.mk.inj hbefore
    have hrest : cursor.rest = [] := by
      have hsame := congrArg Cursor.rest hcursor
      simpa [Cursor.extend] using hsame
    have hread : forms.map Prod.fst = [read] := by
      have hsame := congrArg (List.map Prod.fst) hforms
      simpa using hsame.symm
    have hnext : cursor.next = .nothing cursor := by
      obtain ⟨_, p⟩ := cursor
      obtain rfl := hrest
      rfl
    have hexhausts : Station.Exhausts limit piece ⟨forms, [], cursor⟩ := ⟨hcut, _, hnext⟩
    have hnothing : ClosesOnly [] := by simp [ClosesOnly]
    obtain ⟨hfinished, hall⟩ := (hexhausts.resume_append hnothing).1 rfl
    rw [List.append_nil] at hfinished hall
    rw [parseForm_eq_ok_iff, String.toList_ofList]
    refine ⟨hfinished, ?_⟩
    rw [hall, hread]
    rfl

/-! ## The text before a fault -/

/-- The places of the forms around a place: of the lists that are open, and of the literal if one
is. -/
def Context.enclosing (ctx : Context) : List Position :=
  match ctx.mode with
  | .literal quote => quote :: ctx.opened
  | .escape quote => quote :: ctx.opened
  | _ => ctx.opened

/-- A list that is open is around the place. -/
theorem Context.mem_enclosing {ctx : Context} {place : Position} (h : place ∈ ctx.opened) :
    place ∈ ctx.enclosing := by
  unfold enclosing
  split
  · exact List.mem_cons_of_mem _ h
  · exact List.mem_cons_of_mem _ h
  · exact h

/-- The context after the first part of a text. -/
theorem contextAt_append (before after : List Char) :
    contextAt (before ++ after) before.length = Context.start.passAll before := by
  rw [contextAt, List.take_left]

/-- From the beginning of a text, the offset counts characters. -/
theorem Position.offset_after_start (before : List Char) :
    (start.after before).offset = before.length := by
  rw [offset_after]
  exact Int.zero_add _

/-- A character in the first part of a text is met while that part is passed. -/
theorem meets_of_getElem? {before after : List Char} {n : Nat} {c : Char} (hn : n < before.length)
    (hc : (before ++ after)[n]? = some c) :
    Context.start.Meets before (contextAt (before ++ after) n) c := by
  rw [List.getElem?_append_left hn] at hc
  obtain ⟨-, rfl⟩ := List.getElem?_eq_some_iff.mp hc
  refine ⟨before.take n, before.drop (n + 1), ?_, ?_⟩
  · rw [List.getElem_cons_drop, List.take_append_drop]
  · rw [contextAt, List.take_append_of_le_length (Nat.le_of_lt hn)]

/-- What holds of the text before the place of a fault: lines ended outside of literals, and what
has begun is around the place, or it is a form that is complete there. -/
structure LeftOf (limit : Int) (text before : List Char) : Prop where
  free : ∀ found, Context.start.Meets before found '\n' → found.isFree = true
  begun : ∀ found c, Context.start.Meets before found c → found.begins c = true →
    found.place ∈ (Context.start.passAll before).enclosing ∨
      ∃ cursor : Cursor, cursor.position.offset ≤ before.length ∧
        Complete (room limit 0) (.ofText text) found.place cursor

namespace History

variable {limit : Int} {text passed : List Char} {s : Station}

/-- A station is where the text before it ends. -/
theorem position_eq (h : History limit text passed s) :
    s.cursor.position = Position.start.after passed := by
  rw [← h.fits.place_eq, Context.place_passAll]
  rfl

/-- What is behind a station is left of it. -/
theorem leftOf (h : History limit text passed s) : LeftOf limit text passed where
  free := h.free
  begun found c hmeets hbegins := by
    rcases h.begun found c hmeets hbegins with hopen | hcomplete
    · rw [← h.fits.opened_eq] at hopen
      exact .inl (Context.mem_enclosing hopen)
    · refine .inr ⟨s.cursor, Int.le_of_eq ?_, hcomplete⟩
      rw [h.position_eq, Position.offset_after_start]

/-- At a quote a literal begins, and the units that do not end it are within it. -/
theorem within_literal (h : History limit text passed s) {inner : List LiteralUnit}
    {rest : List Char} (hrest : s.cursor.rest = '"' :: (written inner ++ rest))
    (hinner : ∀ unit ∈ inner, unit.IsInner) :
    text = passed ++ '"' :: written inner ++ rest ∧
      s.cursor.position.after ('"' :: written inner) =
        Position.start.after (passed ++ '"' :: written inner) ∧
      (Context.start.passAll (passed ++ '"' :: written inner)).mode =
        .literal s.cursor.position ∧
      LeftOf limit text (passed ++ '"' :: written inner) := by
  have hmode : (Context.start.passAll passed).mode = .between := by
    have hsettled := h.fits.settled
    rw [hrest] at hsettled
    exact hsettled.mode_eq rfl
  obtain ⟨hliteral, hopened⟩ := Context.pass_quote hmode
  rw [h.fits.place_eq] at hliteral
  have hinside := Context.inside_written hinner hliteral
  have hlast : Context.start.passAll (passed ++ '"' :: written inner) =
      ((Context.start.passAll passed).pass '"').passAll (written inner) :=
    Context.passAll_append _ _ _
  rw [hlast]
  refine ⟨?_, ?_, hinside.mode_eq, ?_, ?_⟩
  · rw [h.text_eq, hrest, List.append_assoc, List.cons_append]
  · rw [h.position_eq, Position.after_append]
  · intro found hmeets
    rcases Context.meets_append.mp hmeets with hmeets | hmeets
    · exact h.free found hmeets
    · obtain ⟨-, hc⟩ | hmeets := Context.meets_cons.mp hmeets
      · cases hc
      · exact absurd rfl (hinside.met found _ hmeets).2.2
  · intro found c hmeets hbegins
    rw [hlast]
    have hquote : s.cursor.position ∈
        (((Context.start.passAll passed).pass '"').passAll (written inner)).enclosing := by
      rw [Context.enclosing, hinside.mode_eq]
      exact List.mem_cons_self
    rcases Context.meets_append.mp hmeets with hmeets | hmeets
    · rcases h.begun found c hmeets hbegins with hopen | hcomplete
      · rw [← h.fits.opened_eq, ← hopened, ← hinside.opened_eq] at hopen
        exact .inl (Context.mem_enclosing hopen)
      · refine .inr ⟨s.cursor, ?_, hcomplete⟩
        rw [h.position_eq, Position.offset_after_start, List.length_append]
        omega
    · obtain ⟨rfl, -⟩ | hmeets := Context.meets_cons.mp hmeets
      · rw [h.fits.place_eq]
        exact .inl hquote
      · rw [Context.begins_of_not_free (hinside.met found c hmeets).1] at hbegins
        cases hbegins

end History

/-- Every form that begins before the place of a fault and is not around it ends before it, and it
is read from where it stands as it is read on its own. -/
theorem LeftOf.forms_read {source : String} {limit : Int} {before after : List Char}
    (h : LeftOf limit source.toList before) (htext : source.toList = before ++ after) {n : Nat}
    {c : Char} (hn : n < before.length) (hc : source.toList[n]? = some c)
    (hbegins : (contextAt source.toList n).begins c = true)
    (houtside : (contextAt source.toList n).place ∉ (Context.start.passAll before).enclosing) :
    ∃ node stopped, (Reader.startingAt source limit n).readForm = (.ok node, stopped) ∧
      n + stopped.position.offset ≤ before.length ∧
      parseForm (String.ofList ((source.toList.drop n).take stopped.position.offset.toNat)) limit =
        .ok node := by
  have hmeets : Context.start.Meets before (contextAt source.toList n) c := by
    rw [htext] at hc ⊢
    exact meets_of_getElem? hn hc
  obtain ⟨cursor, hcursor, first, node, stop, hfirst, hplace, hspans, hroom, hstop⟩ :=
    (h.begun _ c hmeets hbegins).resolve_left houtside
  have hlength : n ≤ source.toList.length := by
    rw [htext, List.length_append]
    omega
  have hoffset : first.position.offset = n := by
    rw [hplace, contextAt, Context.place_passAll]
    show (Position.start.after _).offset = _
    rw [Position.offset_after_start, List.length_take, Nat.min_eq_left hlength]
  have hrest : first.rest = source.toList.drop n := by
    rw [hfirst.isIn.2, hoffset, Int.toNat_natCast]
  obtain ⟨read, piece, hpiece, hread, halone⟩ := hspans.reads_alone hroom
  have hend : stop.position.offset = n + piece.length := by
    rw [hspans.reaches.1.position_eq hpiece, Position.offset_after, hoffset]
  have hpassed : (Position.start.after piece).offset = piece.length :=
    Position.offset_after_start piece
  refine ⟨read, ⟨⟨stop.rest, Position.start.after piece⟩, 0, limit⟩, ?_, ?_, ?_⟩
  · rw [Reader.startingAt, Int.toNat_natCast, ← hrest]
    exact hread
  · have hle := hstop.offset_le
    simp only [Reader.position, hpassed]
    omega
  · simp only [Reader.position, hpassed, Int.toNat_natCast]
    rw [← hrest, hpiece, List.take_left]
    exact halone

/-! ## Culprits -/

/-- What stands at the place of a fault, by the kind of the fault: a parenthesis at which as many
lists are open as may be, the first such, with a text before it that can be completed; the
innermost parenthesis that is open at the end; the quote of the literal that is open at the end; the
first line feed within a literal, or the backslash that takes it; or the first backslash of its
literal that has no meaning. There are no other faults. -/
def Culprit (text : List Char) (limit : Int) (error : ReadError) : Prop :=
  let place := error.position.offset.toNat
  let last := contextAt text text.length
  match error.fault with
  | .tooDeep bound =>
      bound = limit ∧ text[place]? = some '(' ∧ (contextAt text place).isFree = true ∧
      (contextAt text place).opened.length = max limit 0 ∧
      (∀ n < place, text[n]? = some '(' → (contextAt text n).isFree = true →
        (contextAt text n).opened.length < max limit 0) ∧
      ∃ forms, ReadsThrough limit (text.take place ++ List.replicate (max limit 0).toNat ')') forms
  | .missingClose =>
      text[place]? = some '(' ∧ (contextAt text place).isFree = true ∧ last.isFree = true ∧
      last.opened.head? = some error.position
  | .unterminated =>
      text[place]? = some '"' ∧ (contextAt text place).mode = .between ∧
      (last.mode = .literal error.position ∨ last.mode = .escape error.position)
  | .newline =>
      ∃ n, text[n]? = some '\n' ∧
        (match (contextAt text n).mode with
          | .literal _ => place = n
          | .escape _ => place + 1 = n ∧ text[place]? = some '\\'
          | _ => False) ∧
        ∀ m < n, text[m]? = some '\n' → (contextAt text m).isFree = true
  | .badEscape c =>
      text[place]? = some '\\' ∧ text[place + 1]? = some c ∧ c ≠ 'n' ∧ c ≠ '"' ∧
      ∃ quote, (contextAt text place).mode = .literal quote ∧
        ∀ n < place, quote.offset < n → text[n]? = some '\\' →
          text[n + 1]? = some 'n' ∨ text[n + 1]? = some '"'
  | _ => False

/-- A fault that is at a place in the text, with what stands there and what is left of it. -/
structure Located (limit : Int) (text : List Char) (error : ReadError) (before after : List Char) :
    Prop where
  text_eq : text = before ++ after
  nonempty : after ≠ []
  position_eq : error.position = Position.start.after before
  leftOf : LeftOf limit text before
  culprit : Culprit text limit error

/-- The offset of a place counts the characters before it. -/
theorem place_eq_length {p : Position} {before : List Char} (h : p = Position.start.after before) :
    p.offset.toNat = before.length := by
  rw [h, Position.offset_after_start, Int.toNat_natCast]

/-- At the beginning of a text there is room for as many lists as the limit allows. -/
theorem room_eq_max (limit : Int) : (room limit 0 : Int) = max limit 0 := by
  unfold room
  omega

section Culprits

variable {limit : Int} {text : List Char} {s : Station} {first stop : Cursor}

/-- A place after a station and blanks has its history. -/
theorem exists_history (hleads : Station.Leads limit 0 (.start (.ofText text)) s)
    (hskips : s.cursor.Skips first) :
    ∃ before, History limit text before { s with cursor := first } := by
  obtain ⟨passed, hhistory⟩ := history_leads hleads
  obtain ⟨blanks, hskipped⟩ := hhistory.skip hskips
  exact ⟨passed ++ blanks, hskipped⟩

/-- A text is read through if it is cut off after a station and blanks. -/
theorem exhausts_of_leads {before : List Char}
    (hleads : Station.Leads limit 0 (.start (.ofText text)) s) (hskips : s.cursor.Skips first)
    (htext : text = before ++ first.rest) :
    ∃ last : Station, last.Exhausts limit before ∧ last.stack = s.stack := by
  obtain ⟨blanks, hrest, hblanks⟩ := hskips.blanks.exists_append
  have hextended :
      Station.Leads limit 0 ((Station.start (.ofText before)).extend first.rest) s := by
    rw [htext] at hleads
    exact hleads
  obtain ⟨last, rfl, hcut⟩ := hextended.cut hrest
  refine ⟨last, ⟨hcut, ⟨[], last.cursor.position.after blanks⟩, ?_⟩, rfl⟩
  have hlast : last.cursor = ⟨blanks ++ [], last.cursor.position⟩ := by
    rw [List.append_nil, ← List.append_cancel_right hrest]
  rw [hlast, Cursor.next_append_blanks hblanks]
  rfl

/-- A parenthesis that finds no room is the first at which so many lists are open, and the text
before it can be completed. -/
theorem located_of_tooDeep (hleads : Station.Leads limit 0 (.start (.ofText text)) s)
    (hnext : s.cursor.next = .lexeme ⟨.opening, first, stop⟩)
    (hfull : room limit 0 ≤ s.stack.length) :
    ∃ before after, Located limit text ⟨.tooDeep limit, first.position⟩ before after := by
  have hskips : s.cursor.Skips first := Cursor.skips_start hnext
  obtain ⟨before, hhistory⟩ := exists_history hleads hskips
  have hrest : first.rest = '(' :: stop.rest := (Cursor.next_sound hnext).2.opening_eq
  have htext : text = before ++ first.rest := hhistory.text_eq
  have hposition : first.position = Position.start.after before := hhistory.position_eq
  have hlength : s.stack.length = room limit 0 := Nat.le_antisymm hhistory.underway.length_le hfull
  have hopened : (Context.start.passAll before).opened.length = room limit 0 := by
    rw [hhistory.fits.opened_eq, ← hlength]
    exact List.length_map _
  have hmax := room_eq_max limit
  obtain ⟨last, hlast, hstack⟩ := exhausts_of_leads hleads hskips htext
  refine ⟨before, first.rest, htext, by simp [hrest], hposition, hhistory.leftOf, ?_⟩
  simp only [Culprit, place_eq_length hposition]
  subst htext
  refine ⟨trivial, ?_, ?_, ?_, ?_, ?_⟩
  · simp [hrest]
  · rw [contextAt_append]
    exact hhistory.fits.settled.isFree
  · rw [contextAt_append, hopened, hmax]
  · intro n hn hc hfree
    have hroomy := hhistory.roomy _ (meets_of_getElem? hn hc) hfree
    omega
  · rw [List.take_left]
    refine ⟨_, readsThrough_iff.mpr ((hlast.resume_append ?_).1 ?_)⟩
    · exact fun c hc => .inr (List.eq_of_mem_replicate hc)
    · rw [List.count_replicate_self, hstack]
      omega

/-- Where a list is not closed, the parenthesis of the fault is the innermost one that is open at
the end. -/
theorem located_of_missingClose {last : Station} {opened : OpenList} {outer : List OpenList}
    (hlast : last.Exhausts limit text) (hstack : last.stack = opened :: outer) :
    ∃ before after, Located limit text ⟨.missingClose, opened.start⟩ before after := by
  have hsuffix : (opened :: outer) <:+ last.stack := ⟨[], hstack.symm⟩
  obtain ⟨t, first, stop, hleads, -, hnext, hstart⟩ := hlast.leads.exists_opening hsuffix
  obtain ⟨before, hhistory⟩ := exists_history hleads (Cursor.skips_start hnext)
  have hrest : first.rest = '(' :: stop.rest := (Cursor.next_sound hnext).2.opening_eq
  have htext : text = before ++ first.rest := hhistory.text_eq
  have hposition : opened.start = Position.start.after before := hstart.trans hhistory.position_eq
  obtain ⟨hsettled, hopened⟩ := hlast.contextAt_eq
  refine ⟨before, first.rest, htext, by simp [hrest], hposition, hhistory.leftOf, ?_⟩
  simp only [Culprit, place_eq_length hposition]
  refine ⟨?_, ?_, hsettled.isFree, ?_⟩
  · simp [htext, hrest]
  · rw [htext, contextAt_append]
    exact hhistory.fits.settled.isFree
  · rw [hopened, Station.starts, hstack]
    rfl

/-- Units with a meaning have no backslash without one. -/
theorem escape_of_getElem? {units : List LiteralUnit} {n : Nat}
    (h : ∀ unit ∈ units, unit.IsInner ∧ unit.decoded?.isSome = true)
    (hn : (written units)[n]? = some '\\') :
    (written units)[n + 1]? = some 'n' ∨ (written units)[n + 1]? = some '"' := by
  induction units generalizing n with
  | nil => cases hn
  | cons unit units ih =>
      obtain ⟨⟨⟨hends, hslash⟩, hmeaning⟩, hunits⟩ := List.forall_mem_cons.mp h
      cases unit with
      | slash => cases hends
      | plain c =>
          cases n with
          | zero =>
              obtain rfl : c = '\\' := Option.some.inj hn
              exact absurd rfl hslash
          | succ n => exact ih hunits hn
      | escape c =>
          have hc : c = 'n' ∨ c = '"' := by
            unfold LiteralUnit.decoded? at hmeaning
            grind
          match n with
          | 0 => exact hc.imp (congrArg some) (congrArg some)
          | 1 =>
              obtain rfl : c = '\\' := Option.some.inj hn
              simp at hc
          | n + 2 => exact ih hunits hn

/-- Where a literal is not closed, its quote is that of the literal that is open at the end. -/
theorem located_of_unterminated {passed slash : List Char} {inner : List LiteralUnit}
    (h : History limit text passed s) (hrest : s.cursor.rest = '"' :: (written inner ++ slash))
    (hinner : ∀ unit ∈ inner, unit.IsInner) (hslash : slash = [] ∨ slash = ['\\']) :
    ∃ before after, Located limit text ⟨.unterminated, s.cursor.position⟩ before after := by
  obtain ⟨htext, -, hmode, -⟩ := h.within_literal hrest hinner
  have hsettled := h.fits.settled
  rw [hrest] at hsettled
  refine ⟨passed, s.cursor.rest, h.text_eq, by simp [hrest], h.position_eq, h.leftOf, ?_⟩
  simp only [Culprit, place_eq_length h.position_eq]
  refine ⟨?_, ?_, ?_⟩
  · simp [h.text_eq, hrest]
  · rw [h.text_eq, contextAt_append]
    exact hsettled.mode_eq rfl
  · rw [contextAt, List.take_length, htext, Context.passAll_append]
    rcases hslash with rfl | rfl
    · exact .inl hmode
    · exact .inr (Context.mode_pass_slash hmode)

/-- Where a line ends within a literal, the fault is at the first line feed within a literal or at
the backslash that takes it. -/
theorem located_of_newline {passed slash rest : List Char} {inner : List LiteralUnit}
    (h : History limit text passed s)
    (hrest : s.cursor.rest = '"' :: (written inner ++ (slash ++ '\n' :: rest)))
    (hinner : ∀ unit ∈ inner, unit.IsInner) (hslash : slash = [] ∨ slash = ['\\']) :
    ∃ before after,
      Located limit text ⟨.newline, s.cursor.position.after ('"' :: written inner)⟩ before
        after := by
  obtain ⟨htext, hposition, hmode, hleft⟩ := h.within_literal hrest hinner
  refine ⟨_, _, htext, by simp, hposition, hleft, ?_⟩
  simp only [Culprit, place_eq_length hposition]
  generalize passed ++ '"' :: written inner = before at *
  subst htext
  rcases hslash with rfl | rfl
  · refine ⟨before.length, by simp, ?_, ?_⟩
    · rw [List.nil_append, contextAt_append, hmode]
    · intro n hn hc
      exact hleft.free _ (meets_of_getElem? hn hc)
  · have hlast : contextAt (before ++ (['\\'] ++ '\n' :: rest)) (before.length + 1) =
        (Context.start.passAll before).pass '\\' := by
      have hsplit := contextAt_append (before ++ ['\\']) ('\n' :: rest)
      rw [List.append_assoc, List.length_append, Context.passAll_append] at hsplit
      exact hsplit
    refine ⟨before.length + 1, by simp, ?_, ?_⟩
    · rw [hlast, Context.mode_pass_slash hmode]
      simp
    · intro n hn hc
      obtain hn | rfl := Nat.lt_succ_iff_lt_or_eq.mp hn
      · exact hleft.free _ (meets_of_getElem? hn hc)
      · simp at hc

/-- Where an escape has no meaning, the fault is at the first such backslash of its literal. -/
theorem located_of_badEscape {passed rest : List Char} {inner : List LiteralUnit} {c : Char}
    (h : History limit text passed s)
    (hrest : s.cursor.rest = '"' :: (written inner ++ '\\' :: c :: rest))
    (hinner : ∀ unit ∈ inner, unit.IsInner ∧ unit.decoded?.isSome = true) (hn : c ≠ 'n')
    (hquote : c ≠ '"') :
    ∃ before after,
      Located limit text ⟨.badEscape c, s.cursor.position.after ('"' :: written inner)⟩ before
        after := by
  obtain ⟨htext, hposition, hmode, hleft⟩ :=
    h.within_literal hrest fun unit hunit => (hinner unit hunit).1
  refine ⟨_, _, htext, by simp, hposition, hleft, ?_⟩
  simp only [Culprit, place_eq_length hposition]
  refine ⟨by simp [htext], ?_, hn, hquote, s.cursor.position, ?_, ?_⟩
  · rw [htext, List.getElem?_append_right (Nat.le_add_right _ 1), Nat.add_sub_cancel_left]
    rfl
  · rw [htext, contextAt_append]
    exact hmode
  · intro n hlt hafter hc
    rw [h.position_eq, Position.offset_after_start] at hafter
    rw [List.length_append, List.length_cons] at hlt
    -- The backslash is within the units before the fault, and so is the character after it.
    obtain ⟨m, rfl⟩ : ∃ m, n = passed.length + 1 + m := ⟨n - (passed.length + 1), by omega⟩
    have hinside : ∀ k < (written inner).length,
        text[passed.length + 1 + k]? = (written inner)[k]? := by
      intro k hk
      have hindex : passed.length + 1 + k - passed.length = k + 1 := by omega
      rw [htext, List.append_assoc, List.cons_append, List.getElem?_append_right (by omega), hindex,
        List.getElem?_cons_succ, List.getElem?_append_left hk]
    rw [hinside m (by omega)] at hc
    have hnext := escape_of_getElem? hinner hc
    have hlater : m + 1 < (written inner).length := by
      rcases hnext with hd | hd
      · exact (List.getElem?_eq_some_iff.mp hd).1
      · exact (List.getElem?_eq_some_iff.mp hd).1
    rwa [Nat.add_assoc, hinside (m + 1) hlater]

/-- A literal at fault has its culprit where the fault is. -/
theorem located_of_fault {error : ReadError}
    (hleads : Station.Leads limit 0 (.start (.ofText text)) s)
    (hnext : s.cursor.next = .fault error stop) :
    ∃ before after, Located limit text error before after := by
  obtain ⟨body, hquote, hliteral⟩ := Cursor.literal_of_next_fault hnext
  obtain ⟨passed, hhistory⟩ := exists_history hleads s.cursor.skips_skipBlanks
  cases faultyLiteral_of_literal hliteral with
  | unterminated hinner hslash => exact located_of_unterminated hhistory hquote hinner hslash
  | newline hinner hslash => exact located_of_newline hhistory hquote hinner hslash
  | badEscape hinner hn hc => exact located_of_badEscape hhistory hquote hinner hn hc

end Culprits

/-- A text that is refused is refused at a place in it, and the fault is located there. -/
theorem exists_located {source : String} {limit : Int} {error : ReadError}
    (h : parse source limit = .error error) :
    ∃ before after, Located limit source.toList error before after := by
  obtain ⟨last, hrefuses⟩ := exists_refuses h
  cases hrefuses with
  | missingClose hlast hstack => exact located_of_missingClose hlast hstack
  | literal hleads hnext => exact located_of_fault hleads hnext
  | tooDeep hleads hnext hfull => exact located_of_tooDeep hleads hnext hfull

/-- A text that is refused is refused for one of five faults, at a place in the text where something
stands, and what stands there is the culprit of that fault. Every form that begins before it and
does not contain it ends before it, and is read without a fault, from where it stands and on its
own. -/
theorem refusals_point_at_culprit (source : String) (limit : Int) (error : ReadError)
    (h : parse source limit = .error error) :
    let text := source.toList
    let place := error.position.offset.toNat
    error.position.IsIn text ∧ error.position.offset < text.length ∧ Culprit text limit error ∧
    ∀ n < place, ∀ c, text[n]? = some c → (contextAt text n).begins c = true →
      (contextAt text n).place ∉ (contextAt text place).enclosing →
      ∃ node stopped, (Reader.startingAt source limit n).readForm = (.ok node, stopped) ∧
        n + stopped.position.offset ≤ place ∧
        parseForm (String.ofList ((text.drop n).take stopped.position.offset.toNat)) limit =
          .ok node := by
  intro text place
  obtain ⟨before, after, hlocated⟩ := exists_located h
  have htext : text = before ++ after := hlocated.text_eq
  have hplace : place = before.length := place_eq_length hlocated.position_eq
  have hpositive := List.length_pos_iff.mpr hlocated.nonempty
  refine ⟨?_, ?_, hlocated.culprit, ?_⟩
  · rw [hlocated.position_eq, htext]
    exact Position.isIn_after_start before after
  · rw [hlocated.position_eq, Position.offset_after_start, htext, List.length_append]
    omega
  · intro n hn c hc hbegins houtside
    rw [hplace] at hn ⊢
    rw [hplace, htext, contextAt_append, ← htext] at houtside
    exact hlocated.leftOf.forms_read htext hn hc hbegins houtside

/-- With at most two lists open at once, a third parenthesis after a literal with a parenthesis in
it is refused where it stands, and the list that ended before it is read on its own. -/
theorem refusal_points_at_third_parenthesis :
    let source := "x \"(\" (f (g) (h (\n"
    let error : ReadError := ⟨.tooDeep 2, ⟨16, 1, 17⟩⟩
    parse source 2 = .error error ∧ Culprit source.toList 2 error ∧
      ∃ node stopped, (Reader.startingAt source 2 9).readForm = (.ok node, stopped) ∧
        9 + stopped.position.offset ≤ 16 ∧
        parseForm (String.ofList ((source.toList.drop 9).take stopped.position.offset.toNat)) 2 =
          .ok node := by
  intro source error
  have hparse : parse source 2 = .error error := parse_of_fault (by decide +kernel)
  obtain ⟨-, -, hculprit, hread⟩ := refusals_point_at_culprit source 2 error hparse
  exact ⟨hparse, hculprit, hread 9 (by decide) '(' (by decide +kernel) (by decide +kernel)
    (by decide +kernel)⟩

end Sexpr
