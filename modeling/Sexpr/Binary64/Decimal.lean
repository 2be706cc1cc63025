import Sexpr.Binary64

/-!
# Numbers as decimals

A number is written with the fewest digits that read back as the same number: on each decimal grid,
from the coarsest on, the two neighbours of the number are tried. Numbers of moderate size are
written out with a point, which always has a digit on either side, and the others with an exponent.
-/

namespace Sexpr.Binary64

/-- A natural number times a power of ten. -/
structure Decimal where
  digits : Nat
  exponent : Int
deriving DecidableEq, Repr

namespace Decimal

/-- The exponent of the greatest power of ten that a positive quotient reaches. -/
def log10Div (num den : Nat) : Int :=
  if den ≤ num then (digitCount (num / den) : Int) - 1
  else -(digitCount ((den - 1) / num) : Int)

/-- Of the two neighbours of a quotient on the grid of `10 ^ exponent`, those that satisfy `p`, the
nearer one first; of two that are equally near, the even one is first. -/
def neighbours (p : Decimal → Bool) (num den : Nat) (exponent : Int) : List Decimal :=
  let top := scaleDown 10 num exponent
  let bottom := scaleUp 10 den exponent
  let near := roundDiv top bottom
  let far := if near = top / bottom then near + 1 else near - 1
  [⟨near, exponent⟩, ⟨far, exponent⟩].filter p

/-- The decimal with the fewest digits, at most seventeen, that satisfies `p` and is a neighbour of
a positive quotient. -/
def shortest? (p : Decimal → Bool) (num den : Nat) : Option Decimal :=
  let top := log10Div num den
  (List.range 17).findSome? fun (count : Nat) => (neighbours p num den (top - count)).head?

/-- The decimal without the zeros at its end, given a bound on their number. -/
def stripZeros : Nat → Decimal → Decimal
  | 0, d => d
  | bound + 1, d =>
      if d.digits % 10 = 0 then stripZeros bound ⟨d.digits / 10, d.exponent + 1⟩ else d

/-- The shortest decimal that reads back as `mantissa * 2 ^ exponent`. Seventeen digits always
suffice; were it otherwise, the number would be written out exactly. -/
def ofPositive (mantissa : Nat) (exponent : Int) : Decimal :=
  let readsBack (d : Decimal) : Bool :=
    ofDecimal false d.digits d.exponent = .finite false mantissa exponent
  match shortest? readsBack (scaleUp 2 mantissa exponent) (scaleDown 2 1 exponent) with
  | some d => d.stripZeros 17
  | none => ⟨scaleUp 2 mantissa exponent * Nat.pow 5 (-exponent).toNat, min exponent 0⟩

/-- Digits times a power of ten, written out with a point. -/
def positional (digits : List Char) (exponent : Int) : List Char :=
  let whole := digits ++ List.replicate exponent.toNat '0'
  let places := (-exponent).toNat
  let padded := List.replicate (places + 1 - whole.length) '0' ++ whole
  let fraction := padded.drop (padded.length - places)
  padded.take (padded.length - places) ++ '.' :: if fraction.isEmpty then ['0'] else fraction

/-- One digit before the point, the others behind it, and the power of ten of the first digit. -/
def scientific (digits : List Char) (power : Int) : List Char :=
  let magnitude := Nat.toDigits 10 power.natAbs
  let fraction := if digits.tail.isEmpty then [] else '.' :: digits.tail
  digits.take 1 ++ fraction ++ 'e' :: (if power < 0 then '-' else '+') ::
    (List.replicate (2 - magnitude.length) '0' ++ magnitude)

/-- The decimal as text: positional if its first digit stands for at least `10 ^ (-4)` and for less
than `10 ^ 16`. -/
def text (d : Decimal) : List Char :=
  let digits := Nat.toDigits 10 d.digits
  let power := digits.length - 1 + d.exponent
  if -4 ≤ power ∧ power < 16 then positional digits d.exponent else scientific digits power

end Decimal

/-- The number as text. Zero keeps its sign. -/
def text : Binary64 → String
  | finite negative mantissa exponent =>
      let decimal : Decimal := if mantissa = 0 then ⟨0, 0⟩ else .ofPositive mantissa exponent
      String.ofList (if negative then '-' :: decimal.text else decimal.text)
  | infinite negative => if negative then "-inf" else "inf"
  | undefined => "nan"

end Sexpr.Binary64
