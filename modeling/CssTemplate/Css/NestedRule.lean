import CssTemplate.Css.Statement

/-!
# The nesting tree

`NestedRule.ofBody` reads the body of a rule into a tree: declarations and bare statements are
leaves, rules and at-rules with a block are inner nodes. At-rules fall into four kinds, by their
keyword and by whether they have a block. Reading never fails; what is malformed stays in the
tree as a leaf.
-/

namespace CssTemplate.Css

/-- What an at-rule does with the rules around it. -/
inductive AtRuleKind where
  /-- A condition on the rules inside it, which keep the selectors around it. -/
  | conditional
  /-- The frames of an animation. -/
  | keyframes
  /-- Declarations of its own, under no selector. -/
  | unscoped
  deriving DecidableEq, Repr, Inhabited

/-- The keywords of conditional at-rules. -/
def conditionalKeywords : List (List Char) :=
  ["media".toList, "supports".toList, "container".toList, "document".toList, "layer".toList]

/-- The kind of an at-rule, by its keyword in any letter case. -/
def AtRuleKind.ofKeyword (keyword : List Char) : AtRuleKind :=
  let lower := keyword.map Char.toLower
  if conditionalKeywords.contains lower then .conditional
  else if "keyframes".toList.isSuffixOf lower then .keyframes
  else .unscoped

/-- A node of the nesting tree. -/
inductive NestedRule where
  | bare (name : List Char)
  | declaration (declaration : Declaration)
  | rule (selectors : List Component) (body : List NestedRule)
  /-- An at-rule with a block. Among the frames of an animation, the rules are its frames. -/
  | atRule (kind : AtRuleKind) (keyword : List Char) (prelude : List Component)
    (body : List NestedRule)
  /-- An at-rule that a semicolon ends. -/
  | atStatement (keyword : List Char) (prelude : List Component)
  | malformed (fault : RuleFault)
  deriving Repr, Inhabited

/-- The name of a node's sort in messages; a bare statement counts as a declaration. -/
def NestedRule.sort : NestedRule → List Char
  | .bare _ => "declaration".toList
  | .declaration _ => "declaration".toList
  | .rule _ _ => "qualified-rule".toList
  | .atRule _ _ _ _ => "at-rule".toList
  | .atStatement _ _ => "at-rule".toList
  | .malformed _ => "error".toList

mutual

/-- The tree of an item. The frames of an animation are read as items, all other bodies
statement by statement. -/
def NestedRule.ofItem : Item → NestedRule
  | .declaration d => .declaration d
  | .rule (.style selectors content) => .rule selectors (NestedRule.ofBody content)
  | .rule (.atRule keyword prelude none) => .atStatement keyword prelude
  | .rule (.atRule keyword prelude (some content)) =>
    .atRule (.ofKeyword keyword) keyword prelude <|
      if AtRuleKind.ofKeyword keyword = .keyframes then NestedRule.ofFrames content
      else NestedRule.ofBody content
  | .rule (.malformed f) => .malformed f
termination_by item => (item.contentSize, 1)
decreasing_by all_goals exact Prod.Lex.right _ Nat.zero_lt_one

/-- The trees of a rule's body. -/
def NestedRule.ofBody (content : List Component) : List NestedRule :=
  (bodyEntries content).attach.map fun ⟨entry, h⟩ =>
    match entry, h with
    | .bare name, _ => .bare name
    | .item item, _ => NestedRule.ofItem item
termination_by (Component.sizes content, 0)
decreasing_by
  rename_i h
  exact Prod.Lex.left _ _ (contentSize_bodyEntries h)

/-- The trees of the items among the frames of an animation. -/
def NestedRule.ofFrames (content : List Component) : List NestedRule :=
  (blockItems content).attach.map fun ⟨item, _⟩ => NestedRule.ofItem item
termination_by (Component.sizes content, 0)
decreasing_by
  rename_i h
  exact Prod.Lex.left _ _ (contentSize_blockItems h)

end

/-- The tree of one entry of a body. -/
def NestedRule.ofEntry : Entry → NestedRule
  | .bare name => .bare name
  | .item item => .ofItem item

/-- The nodes of a body are those of its entries. -/
theorem NestedRule.ofBody_eq (content : List Component) :
    NestedRule.ofBody content = (bodyEntries content).map NestedRule.ofEntry := by
  rw [NestedRule.ofBody, ← List.attach_map_val (l := bodyEntries content)]
  refine List.map_congr_left fun entry _ => ?_
  obtain ⟨entry, h⟩ := entry
  cases entry <;> rfl

/-- The nodes of frames are those of their items. -/
theorem NestedRule.ofFrames_eq (content : List Component) :
    NestedRule.ofFrames content = (blockItems content).map NestedRule.ofItem := by
  rw [NestedRule.ofFrames, ← List.attach_map_val (l := blockItems content)]

end CssTemplate.Css
