/-!
# Positional numerals

Numbers written in base ten and sixteen, padded with zeros to a least width, and the reading
of hexadecimal digits.
-/

namespace CssTemplate

/-- The decimal numeral of a number, without leading zeros. -/
def decimal (n : Nat) : List Char :=
  Nat.toDigits 10 n

/-- The decimal numeral of an integer, with a minus sign when it is negative. -/
def integer : Int → List Char
  | .ofNat n => decimal n
  | .negSucc n => '-' :: decimal (n + 1)

/-- Zeros in front of a numeral up to a least width. -/
def padZeros (width : Nat) (digits : List Char) : List Char :=
  List.replicate (width - digits.length) '0' ++ digits

/-- The lower-case hexadecimal numeral of a number, at least `width` digits long. -/
def hexLower (width n : Nat) : List Char :=
  padZeros width (Nat.toDigits 16 n)

/-- The upper-case hexadecimal numeral of a number, at least `width` digits long. -/
def hexUpper (width n : Nat) : List Char :=
  (hexLower width n).map Char.toUpper

/-- A code point in the notation `U+XXXX`. -/
def codePoint (n : Nat) : List Char :=
  'U' :: '+' :: hexUpper 4 n

/-- An ASCII hexadecimal digit. -/
def isHexDigit (c : Char) : Bool :=
  c.isDigit || ('a' ≤ c && c ≤ 'f') || ('A' ≤ c && c ≤ 'F')

/-- The value of a hexadecimal digit; other characters count as zero. -/
def hexValue (c : Char) : Nat :=
  if c.isDigit then c.toNat - '0'.toNat
  else if 'a' ≤ c && c ≤ 'f' then c.toNat - 'a'.toNat + 10
  else if 'A' ≤ c && c ≤ 'F' then c.toNat - 'A'.toNat + 10
  else 0

/-- The number that a hexadecimal numeral stands for. -/
def hexNumber (digits : List Char) : Nat :=
  digits.foldl (fun n c => 16 * n + hexValue c) 0

end CssTemplate
