/-!
# Machine integers

The integers a program computes with are signed 32-bit words in two's complement. Every result is
brought into their range by `wrap`, which keeps the residue modulo their number; a run of digits is
wrapped after each of its digits.
-/

namespace Sexpr.Word

/-- The number of words, which is `2 ^ 32`. -/
def size : Nat := 4294967296

/-- The integer is a word: it is not below `-2 ^ 31` and it is below `2 ^ 31`. -/
def InRange (n : Int) : Prop := -2147483648 ≤ n ∧ n < 2147483648

/-- Two comparisons decide whether an integer is a word. -/
instance (n : Int) : Decidable (InRange n) := inferInstanceAs (Decidable (_ ∧ _))

/-- The word congruent to `n` modulo `size`. -/
def wrap (n : Int) : Int := n.bmod size

/-- A wrapped integer is a word. -/
theorem inRange_wrap (n : Int) : InRange (wrap n) :=
  ⟨Int.le_bmod (by decide), Int.bmod_lt (by decide)⟩

/-- A word is its own residue. -/
theorem wrap_eq_self {n : Int} (h : InRange n) : wrap n = n :=
  Int.bmod_eq_of_le (by simpa [size] using h.1) (by simpa [size] using h.2)

/-- Wrapping keeps the residue modulo the number of words. -/
theorem wrap_emod (n : Int) : wrap n % size = n % size :=
  Int.bmod_emod

/-- An ASCII decimal digit. -/
def isDigit (c : Char) : Bool := '0' ≤ c && c ≤ '9'

/-- A non-empty run of ASCII decimal digits. -/
def isDigits (text : List Char) : Bool := !text.isEmpty && text.all isDigit

/-- Append one decimal digit to a word. -/
def pushDigit (n : Int) (digit : Char) : Int :=
  wrap (n * 10 + (digit.toNat - '0'.toNat : Int))

/-- The word that a run of digits stands for, zero for none. -/
def ofDigits (text : List Char) : Int := text.foldl pushDigit 0

/-- The text without its sign, if it begins with one. -/
def unsigned : List Char → List Char
  | '+' :: text => text
  | '-' :: text => text
  | text => text

/-- A run of digits with at most one sign before it. -/
def isSigned (text : List Char) : Bool := isDigits (unsigned text)

/-- The word that a run of digits with at most one sign before it stands for. -/
def ofSigned (text : List Char) : Int :=
  match text with
  | '-' :: digits => wrap (-ofDigits digits)
  | _ => ofDigits (unsigned text)

end Sexpr.Word
