import CssTemplate.Text.Numeral
import CssTemplate.Text.Printable

/-!
# Texts shown in messages

A message shows a text between quotes, on one line and with every unprintable character
escaped. Single quotes are used, unless the text holds a single quote and no double quote.
-/

namespace CssTemplate

/-- The quote that is put around a text. -/
def quoteFor (text : List Char) : Char :=
  if text.contains '\'' && !text.contains '"' then '"' else '\''

/-- One character of a shown text: the backslash, the quote in use, line ends and tabs have
short escapes, other unprintable characters numeric ones of two, four or eight digits. -/
def quotedChar (quote c : Char) : List Char :=
  if c = '\\' || c = quote then ['\\', c]
  else if c = '\n' then ['\\', 'n']
  else if c = '\r' then ['\\', 'r']
  else if c = '\t' then ['\\', 't']
  else if isPrintable c then [c]
  else if c.toNat < 0x100 then '\\' :: 'x' :: hexLower 2 c.toNat
  else if c.toNat < 0x10000 then '\\' :: 'u' :: hexLower 4 c.toNat
  else '\\' :: 'U' :: hexLower 8 c.toNat

/-- A text between quotes, with its escapes. -/
def quoted (text : List Char) : List Char :=
  let quote := quoteFor text
  quote :: (text.flatMap (quotedChar quote) ++ [quote])

end CssTemplate
