import CssTemplate.Block.Place
import CssTemplate.Marker.Markers

/-!
# Markers in a block

`blockPieces` cuts a block into runs of text and the markers between them, each with its place
and the run before it. `FoundMarker.role` tells from these what has to become of the marker.
-/

namespace CssTemplate

/-- A marker found in a block. -/
structure FoundMarker where
  char : Char
  place : Place
  /-- The text since the marker before, or since the start of the block. -/
  preceding : List Char
  deriving DecidableEq, Repr, Inhabited

/-- A run of text, or a marker. -/
inductive Piece where
  | text (text : List Char)
  | marker (found : FoundMarker)
  deriving DecidableEq, Repr, Inhabited

/-- What has to become of a marker. -/
inductive MarkerRole where
  /-- The generated class name. -/
  | className
  /-- A class name that an expression gives. -/
  | classReference
  /-- The name of an animation that an expression gives. -/
  | animationName
  /-- A value that an expression gives. -/
  | inlineValue
  deriving DecidableEq, Repr, Inhabited

/-- Whether the expression has to be passed as a parameter. -/
def MarkerRole.takesSlot : MarkerRole → Bool
  | .classReference => true
  | .animationName => true
  | _ => false

/-- A run of text as pieces: no piece when it is empty. -/
def textPiece (text : List Char) : List Piece :=
  if text.isEmpty then [] else [.text text]

/-- The pieces of a block from a cursor on, after a run whose characters so far are `run`, last
one first. -/
def piecesFrom (markers : Markers) (cursor : Cursor) (run : List Char) :
    List Char → Except PlaceFault (List Piece)
  | [] => .ok (textPiece run.reverse)
  | c :: rest => do
    let cursor ← cursor.step c
    if markers.contains c then
      let pieces ← piecesFrom markers cursor [] rest
      .ok (textPiece run.reverse ++ .marker ⟨c, cursor.place, run.reverse⟩ :: pieces)
    else piecesFrom markers cursor (c :: run) rest

/-- The pieces of a block. -/
def blockPieces (markers : Markers) (block : List Char) : Except PlaceFault (List Piece) :=
  piecesFrom markers {} [] block

/-! ## Roles -/

/-- Whether a character is the given small letter in some letter case. The dotted capital and
the dotless small letter both count as an `i`. -/
def matchesLetter (letter c : Char) : Bool :=
  c.toLower == letter || (letter == 'i' && (c.toNat == 0x130 || c.toNat == 0x131))

/-- Whether a text ends with the given small letters in some letter case. -/
def endsWithLetters (letters text : List Char) : Bool :=
  letters.length ≤ text.length &&
    (letters.zip (text.drop (text.length - letters.length))).all fun (l, c) => matchesLetter l c

/-- Whether a text, apart from blanks at its end, ends with a property that takes the name of
an animation and its colon. -/
def endsWithAnimation (text : List Char) : Bool :=
  let text := trim text
  endsWithLetters "animation:".toList text || endsWithLetters "animation-name:".toList text

/-- What has to become of a marker. -/
def FoundMarker.role (found : FoundMarker) (markers : Markers) : MarkerRole :=
  if markers.isClass found.char then .className
  else if found.place = .selector then .classReference
  else if found.place = .declarations && endsWithAnimation found.preceding then .animationName
  else .inlineValue

end CssTemplate
