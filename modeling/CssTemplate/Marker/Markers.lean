import CssTemplate.Template.Segment

/-!
# Markers

During compilation one character stands for the class name, and one for every occurrence of an
expression. The class name takes the base code point, the occurrences the code points after it,
in order. All markers of occurrences lie below the surrogates.
-/

namespace CssTemplate

/-- The first code point that cannot be a marker of an occurrence. -/
def firstSurrogate : Nat :=
  0xD800

/-- The markers of one compilation: the code point of the class name, and the occurrences in
the order of their markers. -/
structure Markers where
  base : Nat
  occurrences : List Expression := []
  deriving DecidableEq, Repr

/-- What a marker stands for. -/
inductive Meaning where
  | className
  | expression (expression : Expression)
  deriving DecidableEq, Repr

/-- Why a marker cannot be had or understood. -/
inductive MarkerFault where
  /-- The base is no code point. -/
  | baseOutOfRange
  /-- The next marker would have the given code point. -/
  | exhausted (code : Nat)
  /-- No occurrence has the given index. -/
  | noOccurrence (index : Int)
  /-- The character with the given code point stands for nothing. -/
  | unknownMarker (code : Nat)
  /-- A segment is neither a literal nor an expression. -/
  | unknownSegment (found : Foreign)
  /-- A literal holds a marker, at the given offset of the encoded text. -/
  | reserved (char : Char) (offset : Nat)
  deriving Repr

namespace MarkerFault

/-- The fault in words. -/
def message : MarkerFault → List Char
  | .baseOutOfRange => "chr() arg not in range(0x110000)".toList
  | .exhausted code =>
    "Too many substitutions: marker code point ".toList ++ codePoint code ++
      " is out of range".toList
  | .noOccurrence index => integer index
  | .unknownMarker code => "Unknown marker character ".toList ++ codePoint code
  | .unknownSegment found => "Unknown segment: ".toList ++ found.display
  | .reserved char offset =>
    "Literal text contains reserved character ".toList ++ codePoint char.toNat ++
      " at offset ".toList ++ decimal offset

/-- The character that the fault is about, where one is reported beside the message. -/
def detail : MarkerFault → Option (List Char)
  | .reserved char _ => some [char]
  | _ => none

end MarkerFault

namespace Markers

/-- The markers with a given base and no occurrences yet. -/
def ofBase (base : Int) : Except MarkerFault Markers :=
  if 0 ≤ base ∧ base ≤ 0x10FFFF then .ok { base := base.toNat } else .error .baseOutOfRange

/-- The marker of the class name. -/
def classChar (m : Markers) : Char :=
  Char.ofNat m.base

/-- The number of occurrences. -/
def size (m : Markers) : Nat :=
  m.occurrences.length

/-- Gives the next marker to an occurrence. -/
def add (m : Markers) (e : Expression) : Except MarkerFault (Char × Markers) :=
  let code := m.base + m.size + 1
  if firstSurrogate ≤ code then .error (.exhausted code)
  else .ok (Char.ofNat code, { m with occurrences := m.occurrences ++ [e] })

/-- The marker of the occurrence with the given index. -/
def charOf (m : Markers) (index : Int) : Except MarkerFault Char :=
  if 0 ≤ index ∧ index < m.size then .ok (Char.ofNat (m.base + index.toNat + 1))
  else .error (.noOccurrence index)

/-- Whether a character is a marker. -/
def contains (m : Markers) (c : Char) : Bool :=
  m.base ≤ c.toNat && c.toNat ≤ m.base + m.size

/-- Whether a character is the marker of the class name. -/
def isClass (m : Markers) (c : Char) : Bool :=
  c.toNat == m.base

/-- What a character stands for. -/
def meaning (m : Markers) (c : Char) : Except MarkerFault Meaning :=
  if m.isClass c then .ok .className
  else if c.toNat < m.base then .error (.unknownMarker c.toNat)
  else
    match m.occurrences[c.toNat - m.base - 1]? with
    | some e => .ok (.expression e)
    | none => .error (.unknownMarker c.toNat)

/-- A name for a character that can be printed: `<cls>` for the class name, otherwise the
distance from the marker of the first occurrence. -/
def display (m : Markers) (c : Char) : List Char :=
  if m.isClass c then "<cls>".toList
  else "<e".toList ++ integer ((c.toNat : Int) - m.base - 1) ++ ['>']

/-- A text with its markers replaced by names that can be printed. -/
def displayText (m : Markers) (text : List Char) : List Char :=
  text.flatMap fun c => if m.contains c then m.display c else [c]

end Markers

end CssTemplate
