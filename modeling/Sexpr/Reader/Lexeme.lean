import Sexpr.Reader.Error
import Sexpr.Reader.Literal

/-!
# Lexemes

A source text is a sequence of parentheses, string literals and atoms, with blanks anywhere between
them. `Cursor.next` finds the lexeme at a cursor, and `scan` finds all of them up to the end of the
text or to the first literal that is at fault.
-/

namespace Sexpr

/-- The blanks that may stand between forms. -/
def isBlank (c : Char) : Bool := c == ' ' || c == '\t' || c == '\r' || c == '\n'

/-- The characters that end an atom. -/
def isDelimiter (c : Char) : Bool := isBlank c || c == '(' || c == ')'

/-- The smallest parts of a source text that have a meaning. -/
inductive Token where
  | opening
  | closing
  /-- A run of characters that are no delimiters, as it is written. -/
  | atom (text : List Char)
  /-- A string literal and the text it stands for. -/
  | literal (text : List Char)
deriving DecidableEq, Repr

/-- A token with the cursors at its first character and just after its last one. -/
structure Lexeme where
  token : Token
  start : Cursor
  stop : Cursor
deriving DecidableEq, Repr

/-- What stands at a cursor after the blanks there. -/
inductive Upcoming where
  /-- The text has ended. -/
  | nothing (stop : Cursor)
  /-- A string literal is at fault; reading it stopped at `stop`. -/
  | fault (error : ReadError) (stop : Cursor)
  | lexeme (lexeme : Lexeme)
deriving DecidableEq, Repr

namespace Cursor

/-- The cursor after the blanks at the cursor. -/
def skipBlanks (cursor : Cursor) : Cursor := cursor.skipWhile isBlank

/-- The cursor after the atom at the cursor. -/
def skipAtom (cursor : Cursor) : Cursor := cursor.skipWhile (!isDelimiter ·)

/-- The literal with its opening quote at `start`, which is read from `text` on. -/
def literal (start : Cursor) (text : List Char) : Upcoming :=
  match Literal.read (start.position.advance '"') text with
  | (.closed decoded, stop) => .lexeme ⟨.literal decoded, start, stop⟩
  | (.badEscape c position, stop) => .fault ⟨.badEscape c, position⟩ stop
  | (.newline position, stop) => .fault ⟨.newline, position⟩ stop
  | (.unterminated, stop) => .fault ⟨.unterminated, start.position⟩ stop

/-- The lexeme after the blanks at the cursor. -/
def next (cursor : Cursor) : Upcoming :=
  let start := cursor.skipBlanks
  match start.rest with
  | [] => .nothing start
  | c :: rest =>
      if c = '(' then .lexeme ⟨.opening, start, start.advance⟩
      else if c = ')' then .lexeme ⟨.closing, start, start.advance⟩
      else if c = '"' then start.literal rest
      else .lexeme ⟨.atom (start.rest.takeWhile (!isDelimiter ·)), start, start.skipAtom⟩

/-- A literal takes characters of the text. -/
theorem length_literal {start : Cursor} {text : List Char} {l : Lexeme}
    (h : start.literal text = .lexeme l) : l.stop.rest.length ≤ text.length := by
  have hread := Literal.length_read (start.position.advance '"') text
  unfold literal at h
  split at h
  all_goals simp_all
  rw [← h]
  exact hread

/-- A lexeme takes at least one character of the text. -/
theorem length_next {cursor : Cursor} {l : Lexeme} (h : cursor.next = .lexeme l) :
    l.stop.rest.length < cursor.rest.length := by
  have hskip : cursor.skipBlanks.rest.length ≤ cursor.rest.length :=
    cursor.length_skipWhile isBlank
  unfold next at h
  dsimp only at h
  split at h
  · cases h
  · rename_i c rest hrest
    have hadvance : cursor.skipBlanks.advance.rest.length < cursor.skipBlanks.rest.length := by
      simp [advance, hrest]
    split at h
    · cases h
      exact Nat.lt_of_lt_of_le hadvance hskip
    split at h
    · cases h
      exact Nat.lt_of_lt_of_le hadvance hskip
    split at h
    · have hl := length_literal h
      rw [hrest, List.length_cons] at hskip
      omega
    · rename_i hopen hclose hquote
      cases h
      have hblank : isBlank c = false := by
        have hhead := List.head?_dropWhile_not isBlank cursor.rest
        rw [show cursor.rest.dropWhile isBlank = c :: rest from hrest] at hhead
        simpa using hhead
      have hatom : (!isDelimiter c) = true := by simp [isDelimiter, hblank, hopen, hclose]
      exact Nat.lt_of_lt_of_le (length_skipWhile_lt _ hrest hatom) hskip

end Cursor

/-- How a scan ended: at the end of the text, or at a string literal that is at fault. -/
structure Ending where
  fault : Option ReadError
  stop : Cursor
deriving DecidableEq, Repr

/-- The lexemes of a text, and how the scan for them ended. -/
structure Scan where
  lexemes : List Lexeme
  ending : Ending
deriving DecidableEq, Repr

/-- All lexemes from a cursor on. -/
def scan (cursor : Cursor) : Scan :=
  match _ : cursor.next with
  | .nothing stop => ⟨[], none, stop⟩
  | .fault error stop => ⟨[], some error, stop⟩
  | .lexeme lexeme =>
      let later := scan lexeme.stop
      ⟨lexeme :: later.lexemes, later.ending⟩
termination_by cursor.rest.length
decreasing_by exact Cursor.length_next ‹_›

/-- At the end of the text there is no lexeme. -/
theorem scan_of_nothing {cursor stop : Cursor} (h : cursor.next = .nothing stop) :
    scan cursor = ⟨[], none, stop⟩ := by
  rw [scan]
  split <;> simp_all

/-- A literal at fault ends the scan. -/
theorem scan_of_fault {cursor stop : Cursor} {error : ReadError}
    (h : cursor.next = .fault error stop) : scan cursor = ⟨[], some error, stop⟩ := by
  rw [scan]
  split <;> simp_all

/-- A lexeme comes before those from the cursor after it. -/
theorem scan_of_lexeme {cursor : Cursor} {l : Lexeme} (h : cursor.next = .lexeme l) :
    scan cursor = ⟨l :: (scan l.stop).lexemes, (scan l.stop).ending⟩ := by
  rw [scan]
  split <;> simp_all

end Sexpr
