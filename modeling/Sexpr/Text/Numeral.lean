/-!
# Integers written in any script

A numeral is an optional sign followed by decimal digits. The digits may come from any script that
has decimal digits, single underscores may stand between them, and their number is bounded, so
that reading a numeral never takes unreasonable time.
-/

namespace Sexpr.Text

/-- The zeros of the scripts with decimal digits; the other nine digits of a script follow its
zero. -/
def zeros : List Nat :=
  [0x30, 0x660, 0x6F0, 0x7C0, 0x966, 0x9E6, 0xA66, 0xAE6, 0xB66, 0xBE6, 0xC66, 0xCE6, 0xD66, 0xDE6,
   0xE50, 0xED0, 0xF20, 0x1040, 0x1090, 0x17E0, 0x1810, 0x1946, 0x19D0, 0x1A80, 0x1A90, 0x1B50,
   0x1BB0, 0x1C40, 0x1C50, 0xA620, 0xA8D0, 0xA900, 0xA9D0, 0xA9F0, 0xAA50, 0xABF0, 0xFF10, 0x104A0,
   0x10D30, 0x11066, 0x110F0, 0x11136, 0x111D0, 0x112F0, 0x11450, 0x114D0, 0x11650, 0x116C0,
   0x11730, 0x118E0, 0x11950, 0x11C50, 0x11D50, 0x11DA0, 0x16A60, 0x16AC0, 0x16B50, 0x1D7CE,
   0x1D7D8, 0x1D7E2, 0x1D7EC, 0x1D7F6, 0x1E140, 0x1E2F0, 0x1E950, 0x1FBF0]

/-- The value of a decimal digit of any script. -/
def digit? (c : Char) : Option Nat :=
  (zeros.find? fun z => z ≤ c.toNat && c.toNat < z + 10).map (c.toNat - ·)

/-- The values of a run of digits. A single underscore may stand between two digits, but neither
first nor last nor beside another one. -/
def digits? : List Char → Option (List Nat)
  | [] => none
  | [c] => (digit? c).map ([·])
  | c :: '_' :: rest => do
      let digit ← digit? c
      let digits ← digits? rest
      pure (digit :: digits)
  | c :: rest => do
      let digit ← digit? c
      let digits ← digits? rest
      pure (digit :: digits)

/-- The largest number of digits a numeral may have, leading zeros included. -/
def maxDigits : Nat := 4300

/-- The number that digits, most significant first, stand for. -/
def ofDigits (digits : List Nat) : Nat :=
  digits.foldl (fun value digit => 10 * value + digit) 0

/-- Why a text stands for no number. -/
inductive NumeralFault where
  | malformed
  /-- It has this number of digits, which is too large. -/
  | tooLong (count : Nat)
deriving DecidableEq, Repr

/-- The number a run of digits stands for. -/
def natural (text : List Char) : Except NumeralFault Nat :=
  match digits? text with
  | none => .error .malformed
  | some digits =>
      if digits.length ≤ maxDigits then .ok (ofDigits digits) else .error (.tooLong digits.length)

/-- The integer a numeral stands for: an optional sign followed by a run of digits. -/
def integer : List Char → Except NumeralFault Int
  | '-' :: text => (natural text).map fun n => -(n : Int)
  | '+' :: text => (natural text).map Int.ofNat
  | text => (natural text).map Int.ofNat

end Sexpr.Text
