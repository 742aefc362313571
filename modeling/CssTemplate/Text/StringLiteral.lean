import CssTemplate.Text.Numeral

/-!
# String literals of the rendered program

A literal stands between double quotes. Only the double quote, the backslash and the control
characters below the space are escaped; every other character stands for itself.
-/

namespace CssTemplate

/-- One character inside a string literal. -/
def literalChar (c : Char) : List Char :=
  if c = '"' then ['\\', '"']
  else if c = '\\' then ['\\', '\\']
  else if c = '\n' then ['\\', 'n']
  else if c = '\r' then ['\\', 'r']
  else if c = '\t' then ['\\', 't']
  else if c.toNat = 0x08 then ['\\', 'b']
  else if c.toNat = 0x0C then ['\\', 'f']
  else if c.toNat < 0x20 then '\\' :: 'u' :: hexLower 4 c.toNat
  else [c]

/-- A text as a string literal. -/
def stringLiteral (text : List Char) : List Char :=
  '"' :: (text.flatMap literalChar ++ ['"'])

end CssTemplate
