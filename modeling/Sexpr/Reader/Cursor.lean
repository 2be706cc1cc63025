import Sexpr.Position

/-!
# Cursors

A cursor is the part of a text that is still to be read, together with the place where that part
begins. Moving a cursor past characters keeps the place in step.
-/

namespace Sexpr

/-- The rest of a text and the place where it begins. -/
structure Cursor where
  rest : List Char
  position : Position
deriving DecidableEq, Repr

namespace Cursor

/-- The cursor at the beginning of a text. -/
def ofText (text : List Char) : Cursor := ⟨text, .start⟩

/-- The character at the cursor, none at the end of the text. -/
def peek (cursor : Cursor) : Option Char := cursor.rest.head?

/-- The cursor after the next character; at the end of the text it stays. -/
def advance (cursor : Cursor) : Cursor :=
  match cursor.rest with
  | [] => cursor
  | c :: rest => ⟨rest, cursor.position.advance c⟩

/-- The cursor after the longest run of characters that satisfy `p`. -/
def skipWhile (p : Char → Bool) (cursor : Cursor) : Cursor :=
  ⟨cursor.rest.dropWhile p, cursor.position.after (cursor.rest.takeWhile p)⟩

/-- Skipping characters leaves no more than there was. -/
theorem length_skipWhile (p : Char → Bool) (cursor : Cursor) :
    (cursor.skipWhile p).rest.length ≤ cursor.rest.length :=
  (List.dropWhile_sublist p).length_le

/-- Skipping takes the character at the cursor if it satisfies `p`. -/
theorem length_skipWhile_lt (p : Char → Bool) {cursor : Cursor} {c : Char} {rest : List Char}
    (hrest : cursor.rest = c :: rest) (hc : p c = true) :
    (cursor.skipWhile p).rest.length < cursor.rest.length := by
  simp only [skipWhile, hrest, List.dropWhile_cons_of_pos hc, List.length_cons]
  exact Nat.lt_succ_of_le (List.dropWhile_sublist p).length_le

end Cursor

end Sexpr
