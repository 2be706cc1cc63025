import Sexpr.Reader.Lexeme

/-!
# The spelling of lexemes

`Spells text token rest` says without a cursor that `text` begins with the token and goes on with
`rest`. `Cursor.next_sound` and `Cursor.next_complete` show that the scanner finds exactly the
lexemes that are spelled there, with the blanks before them passed over. What stands between the
quotes of a literal is described unit by unit in `Units`, which `Literal.read` decodes.
-/

namespace Sexpr

/-- `Blanks text rest` says that `text` begins with blanks, or with none, and goes on with
`rest`. -/
inductive Blanks : List Char → List Char → Prop where
  | none (rest : List Char) : Blanks rest rest
  | more {c : Char} {text rest : List Char} :
      isBlank c = true → Blanks text rest → Blanks (c :: text) rest

/-- `Units text decoded rest` says that `text` begins with units of a literal that stand for
`decoded` and goes on with `rest`. A unit is a character other than a line feed, a quote and a
backslash, or one of the two escapes. -/
inductive Units : List Char → List Char → List Char → Prop where
  | none (rest : List Char) : Units rest [] rest
  | plain {c : Char} {text decoded rest : List Char} :
      c ≠ '\n' → c ≠ '"' → c ≠ '\\' → Units text decoded rest →
      Units (c :: text) (c :: decoded) rest
  | lineFeed {text decoded rest : List Char} :
      Units text decoded rest → Units ('\\' :: 'n' :: text) ('\n' :: decoded) rest
  | quote {text decoded rest : List Char} :
      Units text decoded rest → Units ('\\' :: '"' :: text) ('"' :: decoded) rest

/-- The text of an atom: a run of characters that are no delimiters, not empty, and not beginning
with a quote. -/
structure IsAtom (text : List Char) : Prop where
  nonempty : text ≠ []
  plain : ∀ c ∈ text, isDelimiter c = false
  unquoted : text.head? ≠ some '"'

/-- An atom can end before this text: it is empty or begins with a delimiter. -/
def EndsAtom (rest : List Char) : Prop := ∀ c ∈ rest.head?, isDelimiter c = true

/-- `Spells text token rest` says that `text` begins with the token and goes on with `rest`. -/
inductive Spells : List Char → Token → List Char → Prop where
  | opening (rest : List Char) : Spells ('(' :: rest) .opening rest
  | closing (rest : List Char) : Spells (')' :: rest) .closing rest
  | atom {text rest : List Char} :
      IsAtom text → EndsAtom rest → Spells (text ++ rest) (.atom text) rest
  | literal {text decoded rest : List Char} :
      Units text decoded ('"' :: rest) → Spells ('"' :: text) (.literal decoded) rest

namespace Spells

variable {text rest : List Char}

/-- An opening parenthesis is spelled by itself. -/
theorem opening_eq (h : Spells text .opening rest) : text = '(' :: rest := by
  cases h
  rfl

/-- A closing parenthesis is spelled by itself. -/
theorem closing_eq (h : Spells text .closing rest) : text = ')' :: rest := by
  cases h
  rfl

/-- An atom is spelled by its text, where it can end. -/
theorem atom_eq {atom : List Char} (h : Spells text (.atom atom) rest) :
    text = atom ++ rest ∧ IsAtom atom ∧ EndsAtom rest := by
  cases h with
  | atom hatom hends => exact ⟨rfl, hatom, hends⟩

/-- A literal is spelled by its units between quotes. -/
theorem literal_eq {decoded : List Char} (h : Spells text (.literal decoded) rest) :
    ∃ units, text = '"' :: units ∧ Units units decoded ('"' :: rest) := by
  cases h with
  | literal hunits => exact ⟨_, rfl, hunits⟩

end Spells

namespace Literal

/-- A literal is closed after a character in front only if it is closed without it. -/
theorem push_eq_closed {c : Char} {literal : Literal} {decoded : List Char}
    (h : literal.push c = closed decoded) :
    ∃ later, literal = closed later ∧ decoded = c :: later := by
  cases literal with
  | closed later =>
      cases h
      exact ⟨later, rfl, rfl⟩
  | badEscape | newline | unterminated => cases h

/-- A literal is closed after an escape in front only if the escape has a meaning. -/
theorem pushEscape_eq_closed {c : Char} {p : Position} {literal : Literal} {decoded : List Char}
    (h : literal.pushEscape c p = closed decoded) :
    ∃ unescaped later, unescape? c = some unescaped ∧ literal = closed later ∧
      decoded = unescaped :: later := by
  unfold pushEscape at h
  split at h
  · rename_i unescaped hc
    obtain ⟨later, hlater, hdecoded⟩ := push_eq_closed h
    exact ⟨unescaped, later, hc, hlater, hdecoded⟩
  · cases literal <;> cases h

/-- The two escapes and what they stand for. -/
theorem unescape?_eq_some {c unescaped : Char} (h : unescape? c = some unescaped) :
    c = 'n' ∧ unescaped = '\n' ∨ c = '"' ∧ unescaped = '"' := by
  unfold unescape? at h
  split at h
  · exact .inl ⟨‹_›, (Option.some.inj h).symm⟩
  · split at h
    · exact .inr ⟨‹_›, (Option.some.inj h).symm⟩
    · cases h

/-- A quote closes the literal. -/
theorem read_quote (p : Position) (text : List Char) :
    read p ('"' :: text) = (closed [], ⟨text, p.advance '"'⟩) := by
  rw [read.eq_def]
  simp

/-- A character that is neither a line feed nor a quote nor a backslash stands for itself. -/
theorem read_plain {c : Char} (hfeed : c ≠ '\n') (hquote : c ≠ '"') (hslash : c ≠ '\\')
    (p : Position) (text : List Char) :
    read p (c :: text) = ((read (p.advance c) text).1.push c, (read (p.advance c) text).2) := by
  rw [read.eq_def]
  simp [hfeed, hquote, hslash]

/-- A backslash takes the next character with it. -/
theorem read_escape {c : Char} (hfeed : c ≠ '\n') (p : Position) (text : List Char) :
    read p ('\\' :: c :: text) =
      ((read ((p.advance '\\').advance c) text).1.pushEscape c p,
        (read ((p.advance '\\').advance c) text).2) := by
  rw [read.eq_def]
  simp [hfeed]

/-- What a closed literal was read from are units and the closing quote. -/
theorem units_of_read {p : Position} {text decoded : List Char}
    (h : (read p text).1 = closed decoded) : Units text decoded ('"' :: (read p text).2.rest) := by
  -- Of the cases of `read`, only a quote, an escape and a plain character can lead to its end.
  fun_induction read p text generalizing decoded with
  | case1 | case3 | case4 | case5 => cases h
  | case2 =>
      cases h
      exact .none _
  | case6 =>
      rename_i ih
      obtain ⟨unescaped, text, hmeaning, hlater, rfl⟩ := pushEscape_eq_closed h
      obtain ⟨rfl, rfl⟩ | ⟨rfl, rfl⟩ := unescape?_eq_some hmeaning
      · exact .lineFeed (ih hlater)
      · exact .quote (ih hlater)
  | case7 =>
      rename_i hquote hfeed hslash _ ih
      obtain ⟨text, hlater, rfl⟩ := push_eq_closed h
      exact .plain hfeed hquote hslash (ih hlater)

/-- Units and a closing quote are read as a closed literal. -/
theorem read_of_units {text decoded rest : List Char} (h : Units text decoded ('"' :: rest))
    (p : Position) : ∃ q, read p text = (closed decoded, ⟨rest, q⟩) := by
  -- The text after the units stays the same throughout, but the induction needs it as a variable.
  generalize hend : '"' :: rest = ending at h
  induction h generalizing p with
  | none =>
      subst hend
      exact ⟨_, read_quote p rest⟩
  | plain hfeed hquote hslash _ ih =>
      obtain ⟨q, hq⟩ := ih _ hend
      exact ⟨q, by rw [read_plain hfeed hquote hslash, hq]; rfl⟩
  | lineFeed _ ih =>
      obtain ⟨q, hq⟩ := ih _ hend
      exact ⟨q, by rw [read_escape (by decide), hq]; rfl⟩
  | quote _ ih =>
      obtain ⟨q, hq⟩ := ih _ hend
      exact ⟨q, by rw [read_escape (by decide), hq]; rfl⟩

end Literal

namespace Cursor

/-- Skipping passes over blanks up to the first other character. -/
theorem blanks_skipBlanks (cursor : Cursor) : Blanks cursor.rest cursor.skipBlanks.rest := by
  show Blanks cursor.rest (cursor.rest.dropWhile isBlank)
  induction cursor.rest with
  | nil => exact .none []
  | cons c text ih =>
      by_cases hc : isBlank c = true
      · rw [List.dropWhile_cons_of_pos hc]
        exact .more hc ih
      · rw [List.dropWhile_cons_of_neg hc]
        exact .none _

/-- Skipping passes over blanks that are known to be there. -/
theorem skipBlanks_of_blanks {cursor : Cursor} {rest : List Char} (h : Blanks cursor.rest rest) :
    cursor.skipBlanks.rest = rest.dropWhile isBlank := by
  show cursor.rest.dropWhile isBlank = rest.dropWhile isBlank
  generalize cursor.rest = text at h ⊢
  induction h with
  | none => rfl
  | more hc _ ih => rw [List.dropWhile_cons_of_pos hc, ih]

/-- After skipping there is no blank at the cursor. -/
theorem isBlank_of_skipBlanks {cursor : Cursor} {c : Char} {rest : List Char}
    (h : cursor.skipBlanks.rest = c :: rest) : isBlank c = false := by
  have hhead := List.head?_dropWhile_not isBlank cursor.rest
  rw [show cursor.rest.dropWhile isBlank = c :: rest from h] at hhead
  simpa using hhead

/-- Without a blank at the cursor there is nothing to skip. -/
theorem skipBlanks_eq_self {text : List Char} {p : Position}
    (h : ∀ c ∈ text.head?, isBlank c = false) : skipBlanks ⟨text, p⟩ = ⟨text, p⟩ := by
  cases text with
  | nil => rfl
  | cons c rest =>
      have hc : ¬isBlank c = true := by simp [h c rfl]
      simp [skipBlanks, skipWhile, hc]

/-- A blank at the cursor makes no difference to what comes next, apart from its place. -/
theorem next_of_blank {c : Char} (hc : isBlank c = true) (text : List Char) (p : Position) :
    next ⟨c :: text, p⟩ = next ⟨text, p.advance c⟩ := by
  have hskip : skipBlanks ⟨c :: text, p⟩ = skipBlanks ⟨text, p.advance c⟩ := by
    simp [skipBlanks, skipWhile, hc]
  unfold next
  rw [hskip]

/-- Blanks at the cursor make no difference to what comes next, apart from its place. -/
theorem next_of_blanks {text rest : List Char} (h : Blanks text rest) (p : Position) :
    ∃ q, next ⟨text, p⟩ = next ⟨rest, q⟩ := by
  induction h generalizing p with
  | none => exact ⟨p, rfl⟩
  | @more c _ _ hc _ ih =>
      obtain ⟨q, hq⟩ := ih (p.advance c)
      exact ⟨q, (next_of_blank hc _ p).trans hq⟩

/-- When nothing comes next, only blanks were left. -/
theorem next_nothing {cursor stop : Cursor} (h : cursor.next = .nothing stop) :
    Blanks cursor.rest [] ∧ stop.rest = [] := by
  have hblanks := cursor.blanks_skipBlanks
  unfold next at h
  dsimp only at h
  split at h
  · rename_i hrest
    cases h
    rw [hrest] at hblanks
    exact ⟨hblanks, hrest⟩
  · split at h
    · cases h
    split at h
    · cases h
    split at h
    · unfold literal at h
      split at h <;> cases h
    · cases h

/-- The literal that is read at a cursor is spelled after its opening quote. -/
theorem spells_of_literal {start : Cursor} {text : List Char} {l : Lexeme}
    (h : start.literal text = .lexeme l) :
    l.start = start ∧ Spells ('"' :: text) l.token l.stop.rest := by
  have hread := @Literal.units_of_read (start.position.advance '"') text
  unfold literal at h
  split at h
  · rename_i decoded stop hclosed
    cases h
    rw [hclosed] at hread
    exact ⟨rfl, .literal (hread rfl)⟩
  all_goals cases h

/-- A run of characters that are no delimiters ends where an atom can end. -/
theorem endsAtom_dropWhile (text : List Char) : EndsAtom (text.dropWhile (!isDelimiter ·)) := by
  intro c hc
  have hhead := List.head?_dropWhile_not (!isDelimiter ·) text
  rw [Option.mem_def.mp hc] at hhead
  simpa using hhead

/-- The lexeme that comes next stands after blanks and is spelled there. -/
theorem next_sound {cursor : Cursor} {l : Lexeme} (h : cursor.next = .lexeme l) :
    Blanks cursor.rest l.start.rest ∧ Spells l.start.rest l.token l.stop.rest := by
  have hblanks := cursor.blanks_skipBlanks
  unfold next at h
  dsimp only at h
  split at h
  · cases h
  · rename_i c rest hrest
    split at h
    · rename_i hc
      cases h
      refine ⟨hblanks, ?_⟩
      simp only [advance, hrest, hc]
      exact .opening rest
    split at h
    · rename_i hc
      cases h
      refine ⟨hblanks, ?_⟩
      simp only [advance, hrest, hc]
      exact .closing rest
    split at h
    · rename_i hc
      obtain ⟨hstart, hspells⟩ := spells_of_literal h
      rw [hstart]
      rw [← hc, ← hrest] at hspells
      exact ⟨hblanks, hspells⟩
    · rename_i hopen hclose hquote
      cases h
      refine ⟨hblanks, ?_⟩
      have hatom : IsAtom (cursor.skipBlanks.rest.takeWhile (!isDelimiter ·)) := by
        have hc : isDelimiter c = false := by
          simp [isDelimiter, isBlank_of_skipBlanks hrest, hopen, hclose]
        refine ⟨?_, ?_, ?_⟩
        · simp [hrest, hc]
        · intro d hd
          simpa using List.all_eq_true.mp List.all_takeWhile d hd
        · simpa [hrest, hc] using hquote
      have hspells := Spells.atom hatom (endsAtom_dropWhile cursor.skipBlanks.rest)
      rwa [List.takeWhile_append_dropWhile] at hspells

/-- A text that ends an atom is not entered by the run of characters that are no delimiters. -/
theorem span_atom {text rest : List Char} (hatom : IsAtom text) (hends : EndsAtom rest) :
    (text ++ rest).takeWhile (!isDelimiter ·) = text ∧
      (text ++ rest).dropWhile (!isDelimiter ·) = rest := by
  have hall : ∀ c ∈ text, (!isDelimiter c) = true := by
    intro c hc
    simp [hatom.plain c hc]
  have hstop : rest.takeWhile (!isDelimiter ·) = [] ∧ rest.dropWhile (!isDelimiter ·) = rest := by
    cases rest with
    | nil => exact ⟨rfl, rfl⟩
    | cons c rest => simp [hends c rfl]
  rw [List.takeWhile_append_of_pos hall, List.dropWhile_append_of_pos hall, hstop.1, hstop.2]
  exact ⟨List.append_nil text, rfl⟩

/-- What is spelled at a cursor is the lexeme that comes next. -/
theorem next_complete {text rest : List Char} {token : Token} (h : Spells text token rest)
    (p : Position) : ∃ q, next ⟨text, p⟩ = .lexeme ⟨token, ⟨text, p⟩, ⟨rest, q⟩⟩ := by
  cases h with
  | opening =>
      have hskip : skipBlanks ⟨'(' :: rest, p⟩ = ⟨'(' :: rest, p⟩ :=
        skipBlanks_eq_self (by simp [isBlank])
      exact ⟨p.advance '(', by simp [next, hskip, advance]⟩
  | closing =>
      have hskip : skipBlanks ⟨')' :: rest, p⟩ = ⟨')' :: rest, p⟩ :=
        skipBlanks_eq_self (by simp [isBlank])
      exact ⟨p.advance ')', by simp [next, hskip, advance]⟩
  | @literal text decoded _ hunits =>
      have hskip : skipBlanks ⟨'"' :: text, p⟩ = ⟨'"' :: text, p⟩ :=
        skipBlanks_eq_self (by simp [isBlank])
      obtain ⟨q, hread⟩ := Literal.read_of_units hunits (p.advance '"')
      exact ⟨q, by simp [next, hskip, literal, hread]⟩
  | @atom text _ hatom hends =>
      obtain ⟨htake, hdrop⟩ := span_atom hatom hends
      obtain ⟨c, tail, rfl⟩ := List.exists_cons_of_ne_nil hatom.nonempty
      have hc : isDelimiter c = false := hatom.plain c List.mem_cons_self
      obtain ⟨⟨hblank, hopen⟩, hclose⟩ : (isBlank c = false ∧ c ≠ '(') ∧ c ≠ ')' := by
        simpa [isDelimiter] using hc
      have hquote : c ≠ '"' := by simpa using hatom.unquoted
      have hskip : skipBlanks ⟨c :: tail ++ rest, p⟩ = ⟨c :: tail ++ rest, p⟩ :=
        skipBlanks_eq_self (by simpa using hblank)
      rw [List.cons_append] at htake hdrop hskip
      refine ⟨p.after (c :: tail), ?_⟩
      simp only [next, List.cons_append, hskip, hopen, hclose, hquote, if_false, skipAtom,
        skipWhile, htake, hdrop]

end Cursor

end Sexpr
