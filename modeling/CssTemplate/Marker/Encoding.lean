import CssTemplate.Marker.Markers

/-!
# Encoded templates

Segments are joined into one text in which a marker stands for every expression. The literals
must not hold any of the resulting markers; if one does, the first such character is
reported. `Markers.cut` undoes the encoding.
-/

namespace CssTemplate

/-- A template as one text, with its markers. -/
structure Encoded where
  text : List Char
  markers : Markers
  deriving DecidableEq, Repr

/-- Joins segments, with a new marker for every expression. -/
def Markers.join (m : Markers) : List Segment → Except MarkerFault Encoded
  | [] => .ok ⟨[], m⟩
  | .literal text :: rest => do
    let encoded ← m.join rest
    .ok { encoded with text := text ++ encoded.text }
  | .expression e :: rest => do
    let (marker, m) ← m.add e
    let encoded ← m.join rest
    .ok { encoded with text := marker :: encoded.text }
  | .foreign value :: _ => .error (.unknownSegment value)

/-- The first marker in a literal text that starts at the given offset, with its offset. -/
def Markers.reservedIn? (m : Markers) (offset : Nat) : List Char → Option (Char × Nat)
  | [] => none
  | c :: rest => if m.contains c then some (c, offset) else m.reservedIn? (offset + 1) rest

/-- The first marker in a literal of the segments, with its offset in the encoded text. -/
def Markers.firstReserved? (m : Markers) (offset : Nat) :
    List Segment → Option (Char × Nat)
  | [] => none
  | .literal text :: rest =>
    match m.reservedIn? offset text with
    | some found => some found
    | none => m.firstReserved? (offset + text.length) rest
  | _ :: rest => m.firstReserved? (offset + 1) rest

/-- The encoded text of segments. -/
def Markers.encode (m : Markers) (segments : List Segment) :
    Except MarkerFault Encoded := do
  let encoded ← m.join segments
  match encoded.markers.firstReserved? 0 segments with
  | some (c, offset) => .error (.reserved c offset)
  | none => .ok encoded

/-- What the markers of a text stand for, in order. -/
def Markers.meanings (m : Markers) (text : List Char) :
    Except MarkerFault (List Meaning) :=
  (text.filter m.contains).mapM m.meaning

/-- The segments of an encoded text: the runs between the markers, also empty ones, and what
the markers stand for. A marker of the class name has no segment. -/
def Markers.cut (m : Markers) : List Char → Except MarkerFault (List Segment)
  | [] => .ok [.literal []]
  | c :: rest => do
    let segments ← m.cut rest
    if m.contains c then
      match ← m.meaning c with
      | .expression e => .ok (.literal [] :: .expression e :: segments)
      | .className => .error (.unknownMarker c.toNat)
    else
      match segments with
      | .literal text :: more => .ok (.literal (c :: text) :: more)
      | _ => .ok (.literal [c] :: segments)

end CssTemplate
