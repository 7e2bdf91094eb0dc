/-
The quoted form of a text, for use in messages: in double quotes, on one line, with an escape for
each character that would not show, would not show alone, or would end the quotation.
-/
import LineRing.Text.Extender
import LineRing.Text.Ignorable
import LineRing.Text.Unprintable

namespace LineRing

/-- The lower-case hexadecimal digits of a code point, without leading zeros. -/
def hexDigits (code : Nat) : List Char := Nat.toDigits 16 code

/-- One character of a quoted text. -/
def quotedChar (c : Char) : List Char :=
  if c = '\t' then ['\\', 't']
  else if c = '\r' then ['\\', 'r']
  else if c = '\n' then ['\\', 'n']
  else if c = '"' then ['\\', '"']
  else if c = '\\' then ['\\', '\\']
  else if c = '\x00' then ['\\', '0']
  else if isExtender c || isIgnorable c || isUnprintable c then
    ['\\', 'u', '\x7b'] ++ hexDigits c.toNat ++ ['\x7d']
  else [c]

/-- The quoted form of a text. -/
def quoted (text : List Char) : List Char := '"' :: text.flatMap quotedChar ++ ['"']

end LineRing
