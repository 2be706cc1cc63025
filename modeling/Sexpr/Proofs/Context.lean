import Sexpr.Proofs.LiteralUnits
import Sexpr.Proofs.Stations

/-!
# What stands around a place in a text

A text is passed character by character, without reading it: `Context.pass` keeps count of the
parentheses that are open, and of whether an atom or a literal has begun. `contextAt` is what is
known in this way at an offset of a text. `Context.covers_lexeme` shows what passing over one lexeme
comes to, and `Context.Fits` relates a context to a station of reading: the lists that are open
there are those that the text has opened (`Context.Fits.step`, `fits_leads`).
-/

namespace Sexpr

/-- What a place in a text is within. -/
inductive Mode where
  /-- Neither an atom nor a literal has begun. -/
  | between
  /-- An atom has begun. -/
  | atom
  /-- A literal has begun with the quote at `quote`. -/
  | literal (quote : Position)
  /-- A literal has begun with the quote at `quote`, and a backslash takes the next character. -/
  | escape (quote : Position)
deriving DecidableEq, Repr

/-- What stands around a place: what it is within, and the places of the parentheses that are open
there, innermost first. -/
structure Context where
  place : Position
  mode : Mode
  opened : List Position
deriving DecidableEq, Repr

namespace Context

/-- The context at the beginning of a text. -/
def start : Context := ⟨.start, .between, []⟩

/-- No literal is open. -/
def isFree (ctx : Context) : Bool :=
  match ctx.mode with
  | .between | .atom => true
  | _ => false

/-- The context after the character `c`. Within a literal only a quote and a backslash matter;
elsewhere a quote begins a literal unless it is part of an atom. -/
def pass (ctx : Context) (c : Char) : Context where
  place := ctx.place.advance c
  mode :=
    match ctx.mode with
    | .literal quote =>
        if c = '"' then .between else if c = '\\' then .escape quote else .literal quote
    | .escape quote => .literal quote
    | mode =>
        if isDelimiter c then .between
        else if c = '"' ∧ mode = .between then .literal ctx.place
        else .atom
  opened :=
    if ctx.isFree = false then ctx.opened
    else if c = '(' then ctx.place :: ctx.opened
    else if c = ')' then ctx.opened.tail
    else ctx.opened

/-- The context after a text. -/
def passAll (ctx : Context) (text : List Char) : Context := text.foldl pass ctx

/-- A form begins with the character `c`: it is an opening parenthesis, or it begins an atom or a
literal. -/
def begins (ctx : Context) (c : Char) : Bool :=
  ctx.isFree && (c == '(' || ctx.mode == .between && !isDelimiter c)

/-- While a text is passed, the context before a character `c` of it is `found`. -/
def Meets (ctx : Context) (text : List Char) (found : Context) (c : Char) : Prop :=
  ∃ before after, text = before ++ c :: after ∧ found = ctx.passAll before

end Context

/-- What stands around the place at an offset of a text. -/
def contextAt (text : List Char) (offset : Nat) : Context :=
  Context.start.passAll (text.take offset)

namespace Context

variable {ctx found : Context} {c : Char} {text : List Char}

/-- Two texts in a row are passed one after the other. -/
theorem passAll_append (ctx : Context) (first second : List Char) :
    ctx.passAll (first ++ second) = (ctx.passAll first).passAll second :=
  List.foldl_append

/-- Passing a text moves the place by that text. -/
@[simp]
theorem place_passAll (ctx : Context) (text : List Char) :
    (ctx.passAll text).place = ctx.place.after text := by
  induction text generalizing ctx with
  | nil => rfl
  | cons c text ih => exact ih (ctx.pass c)

/-- Nothing is met in an empty text. -/
theorem not_meets_nil : ¬ctx.Meets [] found c := by
  rintro ⟨before, after, h, -⟩
  simp at h

/-- The first character is met at once, the others after it. -/
theorem meets_cons {d : Char} :
    ctx.Meets (d :: text) found c ↔ found = ctx ∧ c = d ∨ (ctx.pass d).Meets text found c := by
  constructor
  · rintro ⟨before, after, h, rfl⟩
    cases before with
    | nil =>
        obtain ⟨rfl, -⟩ := List.cons.inj h
        exact .inl ⟨rfl, rfl⟩
    | cons e before =>
        obtain ⟨rfl, rfl⟩ := List.cons.inj h
        exact .inr ⟨before, after, rfl, rfl⟩
  · rintro (⟨rfl, rfl⟩ | ⟨before, after, rfl, rfl⟩)
    · exact ⟨[], text, rfl, rfl⟩
    · exact ⟨d :: before, after, rfl, rfl⟩

/-- What is met in two texts in a row is met in one or in the other. -/
theorem meets_append {first second : List Char} :
    ctx.Meets (first ++ second) found c ↔
      ctx.Meets first found c ∨ (ctx.passAll first).Meets second found c := by
  induction first generalizing ctx with
  | nil => simp [not_meets_nil, passAll]
  | cons d first ih =>
      rw [List.cons_append, meets_cons, meets_cons, ih, or_assoc]
      rfl

/-! ## Passing over a literal -/

/-- Within a literal no parenthesis counts. -/
theorem opened_pass_of_not_free (h : ctx.isFree = false) : (ctx.pass c).opened = ctx.opened := by
  simp [pass, h]

/-- A character that is no parenthesis opens and closes nothing. -/
theorem opened_pass_of_ne (hopening : c ≠ '(') (hclosing : c ≠ ')') :
    (ctx.pass c).opened = ctx.opened := by
  simp [pass, hopening, hclosing]

/-- All characters of a text are met within the literal that begins at `quote`, and no line ends
there; after them the literal goes on. -/
structure Inside (quote : Position) (ctx : Context) (text : List Char) : Prop where
  mode_eq : (ctx.passAll text).mode = .literal quote
  opened_eq : (ctx.passAll text).opened = ctx.opened
  met : ∀ found c, ctx.Meets text found c →
    found.isFree = false ∧ found.opened = ctx.opened ∧ c ≠ '\n'

variable {quote : Position}

/-- Before anything is passed a literal is where it was. -/
theorem Inside.nil (h : ctx.mode = .literal quote) : Inside quote ctx [] :=
  ⟨h, rfl, fun _ _ hmeets => absurd hmeets not_meets_nil⟩

/-- What is inside a literal in two steps is inside it in one. -/
theorem Inside.append {first second : List Char} (h : Inside quote ctx first)
    (hsecond : Inside quote (ctx.passAll first) second) : Inside quote ctx (first ++ second) where
  mode_eq := by rw [passAll_append, hsecond.mode_eq]
  opened_eq := by rw [passAll_append, hsecond.opened_eq, h.opened_eq]
  met found c hmeets := by
    rcases meets_append.mp hmeets with hmeets | hmeets
    · exact h.met found c hmeets
    · obtain ⟨hfree, hopened, hc⟩ := hsecond.met found c hmeets
      exact ⟨hfree, hopened.trans h.opened_eq, hc⟩

end Context

/-- The unit can stand inside a literal. -/
def LiteralUnit.IsInner (unit : LiteralUnit) : Prop := unit.ends = false ∧ unit ≠ .plain '\\'

namespace Context

variable {ctx found : Context} {c : Char} {text : List Char} {quote : Position}

/-- A backslash within a literal takes the next character. -/
theorem mode_pass_slash (h : ctx.mode = .literal quote) : (ctx.pass '\\').mode = .escape quote := by
  simp [pass, h]

/-- A unit that does not end a literal is inside it. -/
theorem inside_unit {unit : LiteralUnit} (hunit : unit.IsInner)
    (hmode : ctx.mode = .literal quote) : Inside quote ctx unit.text := by
  have hfree : ctx.isFree = false := by simp [isFree, hmode]
  obtain ⟨hends, hslash⟩ := hunit
  cases unit with
  | slash => cases hends
  | plain c =>
      obtain ⟨hquote, hfeed⟩ : c ≠ '"' ∧ c ≠ '\n' := by simpa [LiteralUnit.ends] using hends
      have hc : c ≠ '\\' := fun h => hslash (congrArg LiteralUnit.plain h)
      refine ⟨?_, opened_pass_of_not_free hfree, ?_⟩
      · show (ctx.pass c).mode = _
        simp [pass, hmode, hquote, hc]
      · intro found d hmeets
        obtain ⟨rfl, rfl⟩ | hmeets := meets_cons.mp hmeets
        · exact ⟨hfree, rfl, hfeed⟩
        · exact absurd hmeets not_meets_nil
  | escape c =>
      have hfeed : c ≠ '\n' := by simpa [LiteralUnit.ends] using hends
      have hescape : (ctx.pass '\\').mode = .escape quote := mode_pass_slash hmode
      have hfree' : (ctx.pass '\\').isFree = false := by simp [isFree, hescape]
      have hopened : (ctx.pass '\\').opened = ctx.opened := opened_pass_of_not_free hfree
      refine ⟨?_, (opened_pass_of_not_free hfree').trans hopened, ?_⟩
      · show ((ctx.pass '\\').pass c).mode = _
        rw [pass, hescape]
      · intro found d hmeets
        obtain ⟨rfl, rfl⟩ | hmeets := meets_cons.mp hmeets
        · exact ⟨hfree, rfl, by decide⟩
        obtain ⟨rfl, rfl⟩ | hmeets := meets_cons.mp hmeets
        · exact ⟨hfree', hopened, hfeed⟩
        · exact absurd hmeets not_meets_nil

/-- Units that do not end a literal are inside it. -/
theorem inside_written {units : List LiteralUnit} (hunits : ∀ unit ∈ units, unit.IsInner)
    (hmode : ctx.mode = .literal quote) : Inside quote ctx (LiteralUnit.written units) := by
  induction units generalizing ctx with
  | nil => exact .nil hmode
  | cons unit units ih =>
      have hfirst := inside_unit (hunits unit List.mem_cons_self) hmode
      refine hfirst.append (ih ?_ hfirst.mode_eq)
      exact fun other hother => hunits other (List.mem_cons_of_mem unit hother)

end Context

/-- The units of a closed literal are inside it. -/
theorem Units.exists_written {text decoded rest : List Char} (h : Units text decoded rest) :
    ∃ units, text = LiteralUnit.written units ++ rest ∧ ∀ unit ∈ units, unit.IsInner := by
  induction h with
  | none => exact ⟨[], rfl, nofun⟩
  | @plain c _ _ _ hfeed hquote hslash _ ih =>
      obtain ⟨units, rfl, hunits⟩ := ih
      refine ⟨.plain c :: units, rfl, List.forall_mem_cons.mpr ⟨⟨?_, ?_⟩, hunits⟩⟩
      · simp [LiteralUnit.ends, hquote, hfeed]
      · simpa using hslash
  | lineFeed _ ih =>
      obtain ⟨units, rfl, hunits⟩ := ih
      exact ⟨.escape 'n' :: units, rfl, List.forall_mem_cons.mpr ⟨⟨by decide, by decide⟩, hunits⟩⟩
  | quote _ ih =>
      obtain ⟨units, rfl, hunits⟩ := ih
      exact ⟨.escape '"' :: units, rfl, List.forall_mem_cons.mpr ⟨⟨by decide, by decide⟩, hunits⟩⟩

namespace Context

variable {ctx found : Context} {c : Char} {text rest : List Char}

/-! ## Passing over a lexeme -/

/-- No literal is open, and an atom that has begun does not go on with `rest`. -/
def Settled (ctx : Context) (rest : List Char) : Prop :=
  ctx.mode = .between ∨ ctx.mode = .atom ∧ EndsAtom rest

/-- Where nothing goes on no literal is open. -/
theorem Settled.isFree (h : ctx.Settled rest) : ctx.isFree = true := by
  rcases h with h | ⟨h, -⟩ <;> simp [Context.isFree, h]

/-- Before a character that does not end an atom, no atom has begun. -/
theorem Settled.mode_eq (h : ctx.Settled (c :: rest)) (hc : isDelimiter c = false) :
    ctx.mode = .between := by
  rcases h with h | ⟨-, hends⟩
  · exact h
  · rw [hends c rfl] at hc
    cases hc

/-- Where no literal is open a delimiter ends an atom. -/
theorem mode_pass_of_isDelimiter (hfree : ctx.isFree = true) (hc : isDelimiter c = true) :
    (ctx.pass c).mode = .between := by
  unfold isFree at hfree
  cases hmode : ctx.mode with
  | between | atom => simp [pass, hmode, hc]
  | literal | escape => simp [hmode] at hfree

/-- Blanks are passed without changing anything but an atom that has begun. -/
theorem Settled.pass_blanks {blanks : List Char} (h : ctx.Settled (blanks ++ rest))
    (hblanks : ∀ c ∈ blanks, isBlank c = true) :
    (ctx.passAll blanks).Settled rest ∧ (ctx.passAll blanks).opened = ctx.opened ∧
      ∀ found c, ctx.Meets blanks found c →
        found.isFree = true ∧ found.opened = ctx.opened ∧ isBlank c = true := by
  induction blanks generalizing ctx with
  | nil => exact ⟨h, rfl, fun _ _ hmeets => absurd hmeets not_meets_nil⟩
  | cons d blanks ih =>
      obtain ⟨hd, hblanks⟩ := List.forall_mem_cons.mp hblanks
      have hmode : (ctx.pass d).mode = .between :=
        mode_pass_of_isDelimiter h.isFree (by simp [isDelimiter, hd])
      have hopened : (ctx.pass d).opened = ctx.opened := by
        have hopening : d ≠ '(' := by
          rintro rfl
          cases hd
        have hclosing : d ≠ ')' := by
          rintro rfl
          cases hd
        exact opened_pass_of_ne hopening hclosing
      have hnow : (ctx.pass d).Settled (blanks ++ rest) := .inl hmode
      obtain ⟨hsettled, hlater, hmet⟩ := ih hnow hblanks
      refine ⟨hsettled, hlater.trans hopened, ?_⟩
      intro found c hmeets
      obtain ⟨rfl, rfl⟩ | hmeets := meets_cons.mp hmeets
      · exact ⟨h.isFree, rfl, hd⟩
      · obtain ⟨hfree, hsame, hc⟩ := hmet found c hmeets
        exact ⟨hfree, hsame.trans hopened, hc⟩

/-- The characters of an atom after the first are met within it. -/
theorem pass_atom (hmode : ctx.mode = .atom) (htext : ∀ c ∈ text, isDelimiter c = false) :
    (ctx.passAll text).mode = .atom ∧ (ctx.passAll text).opened = ctx.opened ∧
      ∀ found c, ctx.Meets text found c →
        found.mode = .atom ∧ found.opened = ctx.opened ∧ isDelimiter c = false := by
  induction text generalizing ctx with
  | nil => exact ⟨hmode, rfl, fun _ _ hmeets => absurd hmeets not_meets_nil⟩
  | cons d text ih =>
      obtain ⟨hd, htext⟩ := List.forall_mem_cons.mp htext
      have hatom : (ctx.pass d).mode = .atom := by simp [pass, hmode, hd]
      obtain ⟨⟨-, hopening⟩, hclosing⟩ : (isBlank d = false ∧ d ≠ '(') ∧ d ≠ ')' := by
        simpa [isDelimiter] using hd
      have hopened : (ctx.pass d).opened = ctx.opened := opened_pass_of_ne hopening hclosing
      obtain ⟨hlast, hlater, hmet⟩ := ih hatom htext
      refine ⟨hlast, hlater.trans hopened, ?_⟩
      intro found c hmeets
      obtain ⟨rfl, rfl⟩ | hmeets := meets_cons.mp hmeets
      · exact ⟨hmode, rfl, hd⟩
      · obtain ⟨hfound, hsame, hc⟩ := hmet found c hmeets
        exact ⟨hfound, hsame.trans hopened, hc⟩

/-- What passing over a text that ends with the token, which stands at `place`, comes to: the lists
that it opens and closes are open and closed, and what begins in the text is the token. -/
structure Covers (ctx : Context) (text rest : List Char) (token : Token) (place : Position) :
    Prop where
  settled : (ctx.passAll text).Settled rest
  opened_eq : (ctx.passAll text).opened = token.openings place ctx.opened
  opened_met : ∀ found c, ctx.Meets text found c → found.opened = ctx.opened
  free_met : ∀ found, ctx.Meets text found '\n' → found.isFree = true
  opening_met : ∀ found, ctx.Meets text found '(' → found.isFree = true → token = .opening
  begins_met : ∀ found c, ctx.Meets text found c → found.begins c = true →
    found.place = place ∧ token ≠ .closing

/-- Nothing begins within a literal. -/
theorem begins_of_not_free (h : ctx.isFree = false) : ctx.begins c = false := by
  simp [begins, h]

/-- Only a parenthesis begins something where a delimiter stands. -/
theorem begins_of_isDelimiter (hdelimiter : isDelimiter c = true) (hc : c ≠ '(') :
    ctx.begins c = false := by
  simp [begins, hdelimiter, hc]

/-- Nothing begins with a blank. -/
theorem begins_of_isBlank (h : isBlank c = true) : ctx.begins c = false := by
  refine begins_of_isDelimiter (by simp [isDelimiter, h]) ?_
  rintro rfl
  cases h

/-- A parenthesis is passed as it is. -/
theorem covers_parenthesis {token : Token} (hfree : ctx.isFree = true)
    (hc : c = '(' ∧ token = .opening ∨ c = ')' ∧ token = .closing) :
    ctx.Covers [c] rest token ctx.place where
  settled := by
    refine .inl (mode_pass_of_isDelimiter hfree ?_)
    rcases hc with ⟨rfl, -⟩ | ⟨rfl, -⟩ <;> rfl
  opened_eq := by
    show (ctx.pass c).opened = _
    rcases hc with ⟨rfl, rfl⟩ | ⟨rfl, rfl⟩ <;> simp [pass, hfree, Token.openings]
  opened_met found d hmeets := by
    obtain ⟨rfl, -⟩ | hmeets := meets_cons.mp hmeets
    · rfl
    · exact absurd hmeets not_meets_nil
  free_met found hmeets := by
    obtain ⟨rfl, -⟩ | hmeets := meets_cons.mp hmeets
    · exact hfree
    · exact absurd hmeets not_meets_nil
  opening_met found hmeets _ := by
    obtain ⟨-, rfl⟩ | hmeets := meets_cons.mp hmeets
    · exact (hc.resolve_right (by simp)).2
    · exact absurd hmeets not_meets_nil
  begins_met found d hmeets hbegins := by
    obtain ⟨rfl, rfl⟩ | hmeets := meets_cons.mp hmeets
    · refine ⟨rfl, ?_⟩
      rcases hc with ⟨-, rfl⟩ | ⟨rfl, rfl⟩
      · simp
      · rw [begins_of_isDelimiter rfl (by decide)] at hbegins
        cases hbegins
    · exact absurd hmeets not_meets_nil

/-- An atom is passed from its first character to its last. -/
theorem covers_atom {atom : List Char} (hmode : ctx.mode = .between) (hatom : IsAtom text)
    (hends : EndsAtom rest) : ctx.Covers text rest (.atom atom) ctx.place := by
  obtain ⟨hnonempty, hplain, hquote⟩ := hatom
  obtain ⟨d, text, rfl⟩ := List.exists_cons_of_ne_nil hnonempty
  obtain ⟨hd, hplain⟩ := List.forall_mem_cons.mp hplain
  have hquote : d ≠ '"' := by simpa using hquote
  obtain ⟨⟨hblank, hopening⟩, hclosing⟩ : (isBlank d = false ∧ d ≠ '(') ∧ d ≠ ')' := by
    simpa [isDelimiter] using hd
  have hatom : (ctx.pass d).mode = .atom := by simp [pass, hmode, hd, hquote]
  have hopened : (ctx.pass d).opened = ctx.opened := opened_pass_of_ne hopening hclosing
  obtain ⟨hlast, hlater, hmet⟩ := pass_atom hatom hplain
  have hinner : ∀ found c, (ctx.pass d).Meets text found c →
      c ≠ '\n' ∧ c ≠ '(' ∧ found.begins c = false := by
    intro found c hmeets
    obtain ⟨hfound, -, hc⟩ := hmet found c hmeets
    have hparen : c ≠ '(' := by
      rintro rfl
      cases hc
    refine ⟨?_, hparen, ?_⟩
    · rintro rfl
      cases hc
    · simp [begins, hfound, hparen]
  refine ⟨.inr ⟨hlast, hends⟩, hlater.trans hopened, ?_, ?_, ?_, ?_⟩
  · intro found c hmeets
    obtain ⟨rfl, -⟩ | hmeets := meets_cons.mp hmeets
    · rfl
    · exact (hmet found c hmeets).2.1.trans hopened
  · intro found hmeets
    obtain ⟨rfl, -⟩ | hmeets := meets_cons.mp hmeets
    · simp [isFree, hmode]
    · exact absurd rfl (hinner found _ hmeets).1
  · intro found hmeets _
    obtain ⟨-, rfl⟩ | hmeets := meets_cons.mp hmeets
    · exact absurd rfl hopening
    · exact absurd rfl (hinner found _ hmeets).2.1
  · intro found c hmeets hbegins
    obtain ⟨rfl, -⟩ | hmeets := meets_cons.mp hmeets
    · exact ⟨rfl, by simp⟩
    · rw [(hinner found c hmeets).2.2] at hbegins
      cases hbegins

/-- After its opening quote a literal is open. -/
theorem pass_quote (hmode : ctx.mode = .between) :
    (ctx.pass '"').mode = .literal ctx.place ∧ (ctx.pass '"').opened = ctx.opened := by
  refine ⟨?_, opened_pass_of_ne (by decide) (by decide)⟩
  simp [pass, hmode, isDelimiter, isBlank]

/-- A quote within a literal closes it. -/
theorem mode_pass_quote {quote : Position} (h : ctx.mode = .literal quote) :
    (ctx.pass '"').mode = .between := by
  simp [pass, h]

/-- A literal is passed from its opening quote to its closing quote. -/
theorem covers_literal {decoded : List Char} {units : List LiteralUnit}
    (hmode : ctx.mode = .between) (hunits : ∀ unit ∈ units, unit.IsInner) :
    ctx.Covers ('"' :: (LiteralUnit.written units ++ ['"'])) rest (.literal decoded) ctx.place := by
  obtain ⟨hliteral, hopened⟩ := pass_quote hmode
  have hinside := inside_written hunits hliteral
  generalize LiteralUnit.written units = text at hinside ⊢
  have hfree : ((ctx.pass '"').passAll text).isFree = false := by simp [isFree, hinside.mode_eq]
  have hlast : ctx.passAll ('"' :: (text ++ ['"'])) = ((ctx.pass '"').passAll text).pass '"' :=
    passAll_append (ctx.pass '"') text ['"']
  -- All characters after the opening quote are met within the literal.
  have hinner : ∀ found c, (ctx.pass '"').Meets (text ++ ['"']) found c →
      found.isFree = false ∧ found.opened = ctx.opened ∧ c ≠ '\n' := by
    intro found c hmeets
    rcases meets_append.mp hmeets with hmeets | hmeets
    · obtain ⟨hfound, hsame, hc⟩ := hinside.met found c hmeets
      exact ⟨hfound, hsame.trans hopened, hc⟩
    · obtain ⟨rfl, rfl⟩ | hmeets := meets_cons.mp hmeets
      · exact ⟨hfree, hinside.opened_eq.trans hopened, by decide⟩
      · exact absurd hmeets not_meets_nil
  refine ⟨?_, ?_, ?_, ?_, ?_, ?_⟩
  · rw [hlast]
    exact .inl (mode_pass_quote hinside.mode_eq)
  · rw [hlast, opened_pass_of_not_free hfree, hinside.opened_eq, hopened]
    rfl
  · intro found c hmeets
    obtain ⟨rfl, -⟩ | hmeets := meets_cons.mp hmeets
    · rfl
    · exact (hinner found c hmeets).2.1
  · intro found hmeets
    obtain ⟨-, hc⟩ | hmeets := meets_cons.mp hmeets
    · exact absurd hc (by decide)
    · exact absurd rfl (hinner found _ hmeets).2.2
  · intro found hmeets hfound
    obtain ⟨-, hc⟩ | hmeets := meets_cons.mp hmeets
    · exact absurd hc (by decide)
    · rw [(hinner found _ hmeets).1] at hfound
      cases hfound
  · intro found c hmeets hbegins
    obtain ⟨rfl, -⟩ | hmeets := meets_cons.mp hmeets
    · exact ⟨rfl, by simp⟩
    · rw [begins_of_not_free (hinner found c hmeets).1] at hbegins
      cases hbegins

/-- The text of a token is passed from its first character to its last. -/
theorem covers_token {token : Token} (h : ctx.Settled text) (hspells : Spells text token rest) :
    ∃ written, text = written ++ rest ∧ ctx.Covers written rest token ctx.place := by
  cases hspells with
  | opening => exact ⟨['('], rfl, covers_parenthesis h.isFree (.inl ⟨rfl, rfl⟩)⟩
  | closing => exact ⟨[')'], rfl, covers_parenthesis h.isFree (.inr ⟨rfl, rfl⟩)⟩
  | @atom text _ hatom hends =>
      refine ⟨text, rfl, covers_atom ?_ hatom hends⟩
      obtain ⟨hnonempty, hplain, -⟩ := hatom
      obtain ⟨d, text, rfl⟩ := List.exists_cons_of_ne_nil hnonempty
      exact h.mode_eq (hplain d List.mem_cons_self)
  | literal hunits =>
      obtain ⟨units, rfl, hinner⟩ := hunits.exists_written
      exact ⟨_, by simp, covers_literal (h.mode_eq rfl) hinner⟩

/-- Blanks in front of what is passed change nothing. -/
theorem Covers.after_blanks {blanks : List Char} {token : Token} {place : Position}
    (h : ctx.Settled (blanks ++ text ++ rest)) (hblanks : ∀ c ∈ blanks, isBlank c = true)
    (hcovers : (ctx.passAll blanks).Covers text rest token place) :
    ctx.Covers (blanks ++ text) rest token place := by
  rw [List.append_assoc] at h
  obtain ⟨-, hopened, hmet⟩ := h.pass_blanks hblanks
  refine ⟨?_, ?_, ?_, ?_, ?_, ?_⟩
  · rw [passAll_append]
    exact hcovers.settled
  · rw [passAll_append, hcovers.opened_eq, hopened]
  · intro found c hmeets
    rcases meets_append.mp hmeets with hmeets | hmeets
    · exact (hmet found c hmeets).2.1
    · exact (hcovers.opened_met found c hmeets).trans hopened
  · intro found hmeets
    rcases meets_append.mp hmeets with hmeets | hmeets
    · exact (hmet found _ hmeets).1
    · exact hcovers.free_met found hmeets
  · intro found hmeets hfree
    rcases meets_append.mp hmeets with hmeets | hmeets
    · cases (hmet found _ hmeets).2.2
    · exact hcovers.opening_met found hmeets hfree
  · intro found c hmeets hbegins
    rcases meets_append.mp hmeets with hmeets | hmeets
    · rw [begins_of_isBlank (hmet found c hmeets).2.2] at hbegins
      cases hbegins
    · exact hcovers.begins_met found c hmeets hbegins

/-- What passing over the next lexeme comes to. -/
theorem covers_lexeme {cursor : Cursor} {l : Lexeme} (h : ctx.Settled cursor.rest)
    (hplace : ctx.place = cursor.position) (hnext : cursor.next = .lexeme l) :
    ∃ written, cursor.rest = written ++ l.stop.rest ∧
      ctx.Covers written l.stop.rest l.token l.start.position := by
  obtain ⟨hblanks, hspells⟩ := Cursor.next_sound hnext
  obtain ⟨blanks, hrest, hall⟩ := hblanks.exists_append
  have hstart : (ctx.passAll blanks).place = l.start.position := by
    rw [place_passAll, hplace, (Cursor.reaches_start hnext).position_eq hrest]
  rw [hrest] at h
  obtain ⟨written, hwritten, hcovers⟩ := covers_token (h.pass_blanks hall).1 hspells
  rw [hstart] at hcovers
  rw [hwritten, ← List.append_assoc] at h hrest
  exact ⟨blanks ++ written, hrest, hcovers.after_blanks h hall⟩

/-! ## Contexts and stations -/

/-- The context is that of the station: what the text has opened are the lists that are open. -/
structure Fits (ctx : Context) (s : Station) : Prop where
  place_eq : ctx.place = s.cursor.position
  opened_eq : ctx.opened = s.starts
  settled : ctx.Settled s.cursor.rest

/-- Before anything is read nothing is open. -/
theorem fits_start (text : List Char) : start.Fits (.start (.ofText text)) :=
  ⟨rfl, rfl, .inl rfl⟩

variable {limit : Int} {depth : Nat} {s t : Station}

/-- Passing over the lexeme of a step leads to the context of the next station. -/
theorem Fits.step (h : ctx.Fits s) (hstep : s.Step limit depth t) :
    ∃ l written, s.cursor.next = .lexeme l ∧ s.cursor.rest = written ++ t.cursor.rest ∧
      ctx.Covers written t.cursor.rest l.token l.start.position ∧ (ctx.passAll written).Fits t := by
  obtain ⟨l, hnext, hstop, hstarts⟩ := hstep.exists_lexeme
  obtain ⟨written, hrest, hcovers⟩ := covers_lexeme h.settled h.place_eq hnext
  rw [hstop] at hrest hcovers
  refine ⟨l, written, hnext, hrest, hcovers, ?_, ?_, hcovers.settled⟩
  · rw [place_passAll, h.place_eq, hstep.reaches.1.position_eq hrest]
  · rw [hcovers.opened_eq, hstarts, h.opened_eq]

/-- The stations of a text are where the text says. -/
theorem fits_leads {text : List Char}
    (h : Station.Leads limit depth (.start (.ofText text)) s) :
    ∃ passed, text = passed ++ s.cursor.rest ∧ (start.passAll passed).Fits s := by
  induction h with
  | refl => exact ⟨[], rfl, fits_start text⟩
  | tail _ hstep ih =>
      obtain ⟨passed, htext, hfits⟩ := ih
      obtain ⟨-, written, -, hrest, -, hlater⟩ := hfits.step hstep
      refine ⟨passed ++ written, ?_, ?_⟩
      · rw [List.append_assoc, ← hrest, htext]
      · rwa [passAll_append]

end Context

end Sexpr
