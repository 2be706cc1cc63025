import Sexpr.Text.Printable

/-!
# Quoted texts in messages

A text shown in a message stands between quotes, with everything that does not show as itself
escaped. The single quote is preferred; the double quote is taken when the text holds a single
quote and no double one, so that a quote is escaped only when both kinds occur.
-/

namespace Sexpr.Text

/-- A number in lower-case hexadecimal, filled up with zeros to the given width. -/
def hex (width n : Nat) : List Char :=
  let digits := Nat.toDigits 16 n
  List.replicate (width - digits.length) '0' ++ digits

/-- The shortest numeric escape that has room for the character's code point. -/
def numericEscape (c : Char) : List Char :=
  if c.toNat < 0x100 then '\\' :: 'x' :: hex 2 c.toNat
  else if c.toNat < 0x10000 then '\\' :: 'u' :: hex 4 c.toNat
  else '\\' :: 'U' :: hex 8 c.toNat

/-- One character as it stands between two `quote` characters. -/
def escape (quote c : Char) : List Char :=
  if c == quote || c == '\\' then ['\\', c]
  else if c == '\t' then ['\\', 't']
  else if c == '\n' then ['\\', 'n']
  else if c == '\r' then ['\\', 'r']
  else if isPrintable c then [c]
  else numericEscape c

/-- The single quote character. -/
def singleQuote : Char := '\x27'

/-- The quote that needs no escape in the text, the single one if both or neither would. -/
def quoteFor (text : List Char) : Char :=
  if text.contains singleQuote && !text.contains '"' then '"' else singleQuote

/-- The text between quotes, with all that does not show as itself escaped. -/
def quoted (text : List Char) : List Char :=
  let quote := quoteFor text
  quote :: text.flatMap (escape quote) ++ [quote]

end Sexpr.Text
