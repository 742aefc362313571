import CssTemplate.Output.Term
import CssTemplate.Text.Numeral

/-!
# Slots

Slots give parameters to occurrences, in the order in which they are first asked for.
An occurrence is known by the text that stands for it, its marker. Slots are named by a common
stem and their place in this order, and never change once they are bound.
-/

namespace CssTemplate

/-- The slots bound so far, each with its marker, in the order of binding. -/
structure Slots where
  stem : List Char
  entries : List (List Char × Slot) := []
  deriving DecidableEq, Repr

namespace Slots

/-- The slots in the order of binding. -/
def toList (s : Slots) : List Slot :=
  s.entries.map (·.2)

/-- The number of slots. -/
def size (s : Slots) : Nat :=
  s.entries.length

/-- The slot of a marker, if it has one. -/
def get? (s : Slots) (marker : List Char) : Option Slot :=
  s.entries.lookup marker

/-- The name of the next slot. -/
def nextName (s : Slots) : List Char :=
  s.stem ++ decimal s.size

/-- The slot of a marker; a marker without one gets the next slot. -/
def bind (s : Slots) (marker : List Char) (occurrence : Expression) : Slot × Slots :=
  match s.get? marker with
  | some slot => (slot, s)
  | none =>
    let slot := ⟨s.nextName, occurrence⟩
    (slot, { s with entries := s.entries ++ [(marker, slot)] })

/-- Where the value of an occurrence comes from: its slot, if it has one or needs one, or else
the expression itself. -/
def handle (s : Slots) (marker : List Char) (occurrence : Expression) (asParameter : Bool) :
    Handle × Slots :=
  if asParameter then
    let bound := s.bind marker occurrence
    (.slot bound.1, bound.2)
  else
    match s.get? marker with
    | some slot => (.slot slot, s)
    | none => (.expression occurrence, s)

end Slots

end CssTemplate
