/-!
# Places in a text

A position counts the characters before a place, its line, and its column within the line; lines
and columns count from one. Only a line feed ends a line. Trees that were not read from a text may
have positions of any kind, so the three coordinates are integers.
-/

namespace Sexpr

/-- A place in a text. -/
structure Position where
  offset : Int
  line : Int
  column : Int
deriving DecidableEq, Repr

namespace Position

/-- The beginning of a text. -/
def start : Position := ⟨0, 1, 1⟩

/-- The place after the character `c` that stands here. -/
def advance (p : Position) (c : Char) : Position :=
  if c = '\n' then ⟨p.offset + 1, p.line + 1, 1⟩ else ⟨p.offset + 1, p.line, p.column + 1⟩

/-- The place after a text that stands here. -/
def after (p : Position) (text : List Char) : Position := text.foldl advance p

/-- After the empty text the place is the same. -/
@[simp]
theorem after_nil (p : Position) : p.after [] = p := rfl

/-- A text is passed character by character. -/
@[simp]
theorem after_cons (p : Position) (c : Char) (text : List Char) :
    p.after (c :: text) = (p.advance c).after text := rfl

/-- Two texts in a row are passed one after the other. -/
theorem after_append (p : Position) (first second : List Char) :
    p.after (first ++ second) = (p.after first).after second :=
  List.foldl_append

/-- Line and column, as messages give them. -/
def text (p : Position) : String := s!"{p.line}:{p.column}"

end Position

end Sexpr
