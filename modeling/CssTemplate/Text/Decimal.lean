import CssTemplate.Text.Blank

/-!
# Decimal digits and integers

Every decimal digit of Unicode 15 (category Nd) stands in a run of ten that begins with its
zero, so a table of zeros gives both the class and the value of a digit. `readInteger?` reads
the decimal notation of an integer that the command line accepts.
-/

namespace CssTemplate

/-- The code points of the zeros, in ascending order. -/
def digitZeros : List Nat :=
  [0x30, 0x660, 0x6F0, 0x7C0, 0x966, 0x9E6, 0xA66, 0xAE6, 0xB66, 0xBE6, 0xC66, 0xCE6, 0xD66,
   0xDE6, 0xE50, 0xED0, 0xF20, 0x1040, 0x1090, 0x17E0, 0x1810, 0x1946, 0x19D0, 0x1A80, 0x1A90,
   0x1B50, 0x1BB0, 0x1C40, 0x1C50, 0xA620, 0xA8D0, 0xA900, 0xA9D0, 0xA9F0, 0xAA50, 0xABF0, 0xFF10,
   0x104A0, 0x10D30, 0x11066, 0x110F0, 0x11136, 0x111D0, 0x112F0, 0x11450, 0x114D0, 0x11650,
   0x116C0, 0x11730, 0x118E0, 0x11950, 0x11C50, 0x11D50, 0x11DA0, 0x11F50, 0x16A60, 0x16AC0,
   0x16B50, 0x1D7CE, 0x1D7D8, 0x1D7E2, 0x1D7EC, 0x1D7F6, 0x1E140, 0x1E2F0, 0x1E4F0, 0x1E950,
   0x1FBF0]

/-- The value of a decimal digit of any script. -/
def digitValue? (c : Char) : Option Nat :=
  (digitZeros.find? fun start => start ≤ c.toNat && c.toNat < start + 10).map (c.toNat - ·)

/-- A decimal digit of any script. -/
def isDecimal (c : Char) : Bool :=
  (digitValue? c).isSome

/-! ## Reading an integer -/

/-- White space around a number: the blank characters without the ASCII separators
`U+001C` to `U+001F`. -/
def isNumberPadding (c : Char) : Bool :=
  isBlank c && !(0x1C ≤ c.toNat && c.toNat ≤ 0x1F)

/-- Digits with single underscores between them, read on from the value so far. `afterDigit`
says whether the character before was a digit. -/
def readDigits? (value : Nat) (afterDigit : Bool) : List Char → Option Nat
  | [] => if afterDigit then some value else none
  | '_' :: rest => if afterDigit then readDigits? value false rest else none
  | c :: rest =>
    match digitValue? c with
    | some d => readDigits? (10 * value + d) true rest
    | none => none

/-- An integer in decimal notation: padding, an optional sign, digits of any script with
single underscores between them, padding. -/
def readInteger? (text : List Char) : Option Int :=
  match trimBy isNumberPadding text with
  | '-' :: digits => (readDigits? 0 false digits).map fun n => -(n : Int)
  | '+' :: digits => (readDigits? 0 false digits).map fun n => (n : Int)
  | digits => (readDigits? 0 false digits).map fun n => (n : Int)

end CssTemplate
