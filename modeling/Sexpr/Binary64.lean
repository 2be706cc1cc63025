/-!
# Double-precision numbers

A finite number is a natural number below `2 ^ 53` times a power of two from `2 ^ (-1074)` on; the
others are the two infinities and the result that is no number. `Binary64.ofDecimal` gives the
number nearest to a decimal, in exact arithmetic, and `Binary64.whole?` the integer that a number
is exactly equal to.
-/

namespace Sexpr

/-- A number of double precision. A finite one is `mantissa * 2 ^ exponent` with a sign; its
mantissa is at least `2 ^ 52` unless its exponent is the least one. -/
inductive Binary64 where
  | finite (negative : Bool) (mantissa : Nat) (exponent : Int)
  | infinite (negative : Bool)
  | undefined
deriving DecidableEq, Repr

namespace Binary64

/-- The least mantissa of a number above the least exponent, which is `2 ^ 52`. -/
def normal : Nat := 4503599627370496

/-- The exponent below which there is no number. -/
def leastExponent : Int := -1074

/-- The exponent above which there is no number. -/
def greatestExponent : Int := 971

/-- The zero of a sign. -/
def zero (negative : Bool) : Binary64 := .finite negative 0 leastExponent

/-- The natural number nearest to a quotient, the even one of two that are equally near. -/
def roundDiv (num den : Nat) : Nat :=
  match compare (2 * (num % den)) den with
  | .lt => num / den
  | .eq => num / den + num / den % 2
  | .gt => num / den + 1

/-- `n * base ^ exponent`, or `n` if the exponent is negative. -/
def scaleUp (base n : Nat) (exponent : Int) : Nat := n * Nat.pow base exponent.toNat

/-- `n * base ^ (-exponent)`, or `n` if the exponent is positive. What multiplies a quotient by a
power of `base` is to scale its numerator up and its denominator down. -/
def scaleDown (base n : Nat) (exponent : Int) : Nat := n * Nat.pow base (-exponent).toNat

/-- The exponent of the greatest power of two that a positive quotient reaches. -/
def log2Div (num den : Nat) : Int :=
  let guess : Int := num.log2 - den.log2
  if scaleDown 2 num guess < scaleUp 2 den guess then guess - 1 else guess

/-- The number nearest to a positive quotient, with a sign. -/
def ofQuotient (negative : Bool) (num den : Nat) : Binary64 :=
  let exponent := max (log2Div num den - 52) leastExponent
  let mantissa := roundDiv (scaleDown 2 num exponent) (scaleUp 2 den exponent)
  -- Rounding up can reach the next power of two.
  let (mantissa, exponent) :=
    if mantissa = 2 * normal then (normal, exponent + 1) else (mantissa, exponent)
  if greatestExponent < exponent then .infinite negative else .finite negative mantissa exponent

/-- The number of decimal digits of a natural number. -/
def digitCount (n : Nat) : Nat := (Nat.toDigits 10 n).length

/-- The number nearest to `digits * 10 ^ exponent`, with a sign. Decimals that are far outside the
range are told by their number of digits alone. -/
def ofDecimal (negative : Bool) (digits : Nat) (exponent : Int) : Binary64 :=
  if digits = 0 then zero negative
  else if digitCount digits + exponent < -400 then zero negative
  else if 400 < digitCount digits + exponent then .infinite negative
  else ofQuotient negative (scaleUp 10 digits exponent) (scaleDown 10 1 exponent)

/-- The integer that a number is equal to, if it is one. -/
def whole? : Binary64 → Option Int
  | finite negative mantissa exponent =>
      let num := scaleUp 2 mantissa exponent
      let den := scaleDown 2 1 exponent
      let magnitude : Int := (num / den : Nat)
      if num % den ≠ 0 then none else if negative then some (-magnitude) else some magnitude
  | _ => none

end Binary64

end Sexpr
