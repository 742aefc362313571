import CssTemplate.Text.Blank

/-!
# Places inside a block

Four places tell the parts of a rule block apart, and `Place.step` follows them character
by character:

    outside --'@'--> condition --'{'--> selector --'{'--> declarations
    outside --other--> selector             declarations --'}'--> outside

Spaces and closing braces `outside` are the tail of a nested rule that has just ended. At-rules
do not nest: one that opens a statement in a selector place is refused. An at-sign elsewhere,
as inside a value, opens nothing.
-/

namespace CssTemplate

/-- Where in a rule block a character stands. -/
inductive Place where
  /-- Between rules. -/
  | outside
  /-- In the selectors of a rule. -/
  | selector
  /-- In the body of a rule. -/
  | declarations
  /-- Between the keyword of an at-rule and its block. -/
  | condition
  deriving DecidableEq, Repr, Inhabited

/-- Why a block cannot be classified. -/
inductive PlaceFault where
  /-- An at-rule opens inside another one. -/
  | nestedAtRule
  deriving DecidableEq, Repr, Inhabited

/-- The fault in words. -/
def PlaceFault.message : PlaceFault → List Char
  | .nestedAtRule => "Nested at-rules are not supported inside a single rule block".toList

/-- Whether a statement may begin after the given character; without one, at the start. -/
def opensStatement : Option Char → Bool
  | none => true
  | some c => c == '{' || c == '}' || c == ';'

namespace Place

/-- Leaving `outside`: the place that a character is read in. -/
def enter (p : Place) (c : Char) : Place :=
  match p with
  | .outside =>
    if c = '@' then .condition
    else if c = '}' || c = ' ' then .outside
    else .selector
  | p => p

/-- The place after a character. Leaving `outside` and the transition after it both belong to
the same character. `before` is the last character before it that is not blank. -/
def step (p : Place) (c : Char) (before : Option Char) : Except PlaceFault Place :=
  match p.enter c with
  | .outside => .ok .outside
  | .condition => .ok (if c = '{' then .selector else .condition)
  | .selector =>
    if c = '{' then .ok .declarations
    else if c = '@' && opensStatement before then .error .nestedAtRule
    else .ok .selector
  | .declarations => .ok (if c = '}' then .outside else .declarations)

end Place

/-- How far a block has been followed: the place, and the last character that was not
blank. -/
structure Cursor where
  place : Place := .outside
  before : Option Char := none
  deriving DecidableEq, Repr, Inhabited

/-- The cursor after one more character. -/
def Cursor.step (cursor : Cursor) (c : Char) : Except PlaceFault Cursor :=
  (cursor.place.step c cursor.before).map fun place =>
    { place := place, before := if isBlank c then cursor.before else some c }

/-- The places after each character, from a cursor on. -/
def placesFrom (cursor : Cursor) : List Char → Except PlaceFault (List Place)
  | [] => .ok []
  | c :: rest => do
    let cursor ← cursor.step c
    let places ← placesFrom cursor rest
    .ok (cursor.place :: places)

/-- The place after each character of a block. -/
def places (block : List Char) : Except PlaceFault (List Place) :=
  placesFrom {} block

end CssTemplate
