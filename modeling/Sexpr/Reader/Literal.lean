import Sexpr.Reader.Cursor

/-!
# String literals

A literal is read from the character after its opening quote up to its closing quote. A backslash
takes the next character with it and stands for a line feed before `n` and for a quote before a
quote. A line may not end within a literal, not even after a backslash. A backslash before any other
character is a fault too, but one that is noted only if the literal is closed: a text or a line
that ends too early weighs more.
-/

namespace Sexpr

/-- What follows an opening quote. -/
inductive Literal where
  /-- A closed literal and the text it stands for. -/
  | closed (text : List Char)
  /-- A closed literal whose first backslash without meaning stands at `position` before `c`. -/
  | badEscape (c : Char) (position : Position)
  /-- The line ends; its line feed, or the backslash before that, stands at `position`. -/
  | newline (position : Position)
  /-- The text ends. -/
  | unterminated
deriving DecidableEq, Repr

namespace Literal

/-- What a backslash and the character after it stand for. -/
def unescape? (c : Char) : Option Char :=
  if c = 'n' then some '\n' else if c = '"' then some '"' else none

/-- The literal with one more character in front. -/
def push (c : Char) : Literal → Literal
  | closed text => closed (c :: text)
  | other => other

/-- The literal with a meaningless backslash at `position` in front, which hides any later one. -/
def refuse (c : Char) (position : Position) : Literal → Literal
  | closed _ => badEscape c position
  | badEscape _ _ => badEscape c position
  | other => other

/-- The literal with the backslash at `position` and the character `c` after it in front. -/
def pushEscape (c : Char) (position : Position) (literal : Literal) : Literal :=
  match unescape? c with
  | some unescaped => literal.push unescaped
  | none => literal.refuse c position

/-- Read the literal whose next character stands at `p`, and give the cursor where reading
stopped. -/
def read (p : Position) : List Char → Literal × Cursor
  | [] => (unterminated, ⟨[], p⟩)
  | c :: rest =>
      if c = '"' then (closed [], ⟨rest, p.advance c⟩)
      else if c = '\n' then (newline p, ⟨rest, p.advance c⟩)
      else if c = '\\' then
        match rest with
        | [] => (unterminated, ⟨[], p.advance c⟩)
        | d :: rest =>
            if d = '\n' then (newline p, ⟨rest, (p.advance c).advance d⟩)
            else
              let later := read ((p.advance c).advance d) rest
              (later.1.pushEscape d p, later.2)
      else
        let later := read (p.advance c) rest
        (later.1.push c, later.2)

/-- Reading a literal leaves no more than there was. -/
theorem length_read (p : Position) (text : List Char) :
    (read p text).2.rest.length ≤ text.length := by
  fun_induction read p text <;> simp_all +zetaDelta <;> omega

end Literal

end Sexpr
