import CssTemplate.Block.Piece
import CssTemplate.Config
import CssTemplate.Fault
import CssTemplate.Output.Slots

/-!
# Building outputs

`ruleTerms` turns a rule block into terms, and `buildOutput` chooses the most special shape that
the blocks of a template allow: the body of an animation when one is asked for; static shapes
when there are no expressions and every block starts with the class marker and holds it nowhere
else; a function otherwise.
-/

namespace CssTemplate

/-! ## Terms of a block -/

/-- The literal text before a value. A reference to a class is preceded by a dot, which the
template may have written already. -/
def leadText (role : MarkerRole) (pending : List Char) : List Char :=
  if role = .classReference && pending.getLast? ≠ some '.' then pending ++ ['.'] else pending

/-- The expression behind a marker. -/
def markedExpression (markers : Markers) (c : Char) : Except CompileFault Expression :=
  match markers.meaning c with
  | .ok (.expression e) => .ok e
  | .ok .className => .error (.shape (.notExpression (markers.display c)))
  | .error f => .error (.marker f)

/-- The terms of pieces, after a literal text `pending` that is not written yet, and the slots
that are bound then. -/
def pieceTerms (markers : Markers) :
    List Piece → List Char → Slots → Except CompileFault (Rule × Slots)
  | [], pending, slots => .ok (textTerm pending, slots)
  | .text text :: pieces, pending, slots => pieceTerms markers pieces (pending ++ text) slots
  | .marker found :: pieces, pending, slots =>
    let role := found.role markers
    if role = .className then do
      let (terms, slots) ← pieceTerms markers pieces [] slots
      .ok (textTerm pending ++ .value .className :: terms, slots)
    else do
      let occurrence ← markedExpression markers found.char
      let (handle, slots) := slots.handle [found.char] occurrence role.takesSlot
      let (terms, slots) ← pieceTerms markers pieces [] slots
      .ok (textTerm (leadText role pending) ++ .value handle :: terms, slots)

/-- The terms of a rule block, and the slots that are bound then. -/
def ruleTerms (markers : Markers) (block : List Char) (slots : Slots) :
    Except CompileFault (Rule × Slots) :=
  match blockPieces markers block with
  | .error f => .error (.place f)
  | .ok pieces => pieceTerms markers pieces [] slots

/-- The terms of rule blocks in order, with the same slots for all of them. -/
def rulesTerms (markers : Markers) :
    List (List Char) → Slots → Except CompileFault (List Rule × Slots)
  | [], slots => .ok ([], slots)
  | block :: blocks, slots => do
    let (rule, slots) ← ruleTerms markers block slots
    let (rules, slots) ← rulesTerms markers blocks slots
    .ok (rule :: rules, slots)

/-! ## Shapes -/

/-- An output from its parts, with a broken promise as a fault of the compilation. -/
def makeOutput (shape : Shape) (rules : List Rule) (parameters : List (List Char))
    (slots : List Slot) : Except CompileFault Output :=
  match Output.make shape rules parameters slots with
  | .ok output => .ok output
  | .error f => .error (.output f)

/-- The body of an animation: one rule, without slots and without the class name. -/
def keyframeOutput (rules : List Rule) (slots : Slots) : Except CompileFault Output :=
  if slots.size ≠ 0 then .error (.keyframeReferences (slots.toList.map Slot.occurrence))
  else
    match rules with
    | [rule] =>
      if rule.any Term.isClassName then .error (.shape .classInKeyframes)
      else makeOutput .keyframe [rule] [] []
    | _ => .error (.shape (.keyframeRules rules.length))

/-- Whether a block starts with the class marker and holds it nowhere else. -/
def isStaticBlock (markers : Markers) : List Char → Bool
  | [] => false
  | c :: rest => markers.isClass c && !rest.any markers.isClass

/-- Whether the blocks are one block with the class marker alone as its selector. -/
def collapses : List (List Char) → Bool
  | [_ :: '{' :: _] => true
  | _ => false

/-- The texts of a static rule after its class name. -/
def staticTexts : Rule → Except CompileFault (List (List Char))
  | .value .className :: rest =>
    rest.mapM fun
      | .text text => .ok text
      | .value _ => .error (.shape .valueInStatic)
  | _ => .error (.shape .noClassName)

/-- Texts without the brace at the front of the first one. -/
def dropOpening : List (List Char) → Except CompileFault (List (List Char))
  | [] => .error (.shape .collapsedEmpty)
  | ('{' :: first) :: rest => .ok (first :: rest)
  | _ => .error (.shape .collapsedOpen)

/-- Texts without the brace at the end of the last one. -/
def dropClosing (texts : List (List Char)) : Except CompileFault (List (List Char)) :=
  match texts.getLast? with
  | none => .error (.shape .collapsedEmpty)
  | some last =>
    if last.getLast? = some '}' then .ok (texts.dropLast ++ [last.dropLast])
    else .error (.shape .collapsedClose)

/-- Texts without the braces around them; empty texts are dropped. -/
def unbraced (texts : List (List Char)) : Except CompileFault (List (List Char)) := do
  let opened ← dropOpening texts
  let closed ← dropClosing opened
  .ok (closed.filter fun text => !text.isEmpty)

/-- One rule of a static output. -/
def staticRule (collapse : Bool) (rule : Rule) : Except CompileFault Rule := do
  let texts ← staticTexts rule
  let texts ← if collapse then unbraced texts else .ok texts
  .ok (texts.map .text)

/-- A static output. -/
def staticOutput (blocks : List (List Char)) (rules : List Rule) : Except CompileFault Output := do
  let collapse := collapses blocks
  let rules ← rules.mapM (staticRule collapse)
  makeOutput (if collapse then .singleCollapsed else .staticArray) rules [] []

/-- A function of the class name and the slots. -/
def functionalOutput (config : Config) (rules : List Rule) (slots : Slots) :
    Except CompileFault Output :=
  makeOutput .functional rules (config.classParameter :: slots.toList.map Slot.name) slots.toList

/-- The output of the blocks of a template; empty blocks count for nothing. -/
def buildOutput (config : Config) (markers : Markers) (asKeyframes : Bool)
    (blocks : List (List Char)) : Except CompileFault Output := do
  let blocks := blocks.filter fun block => !block.isEmpty
  let (rules, slots) ← rulesTerms markers blocks { stem := config.slotStem }
  if asKeyframes then keyframeOutput rules slots
  else if markers.occurrences.isEmpty && blocks.all (isStaticBlock markers) then
    staticOutput blocks rules
  else functionalOutput config rules slots

end CssTemplate
