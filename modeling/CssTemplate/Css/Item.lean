import CssTemplate.Css.Component

/-!
# Rules and declarations

The grammar above component values. A style sheet is a list of rules (`styleSheet`), and so is
the body of an at-rule that holds rules (`ruleList`); the body of a style rule is a mixture of
declarations and rules (`blockItems`). What does not fit becomes a malformed rule, so these
functions are total. The contents of every item are smaller than the list it was read from
(`contentSize_blockItems`, `contentSize_rules`).
-/

namespace CssTemplate.Css

/-- Why a rule without a block is malformed. -/
inductive RuleFault where
  /-- The input ended before the block. -/
  | endOfInput
  /-- A semicolon came before the block. -/
  | semicolon
  deriving DecidableEq, Repr, Inhabited

/-- A property with its value. -/
structure Declaration where
  name : List Char
  value : List Component
  important : Bool
  deriving Repr, Inhabited

/-- A rule whose parts are not read any further. -/
inductive RawRule where
  | style (selectors content : List Component)
  /-- An at-rule; one that a semicolon ends has no content. -/
  | atRule (keyword : List Char) (prelude : List Component) (content : Option (List Component))
  | malformed (fault : RuleFault)
  deriving Repr, Inhabited

/-- What stands in the body of a rule. -/
inductive Item where
  | declaration (declaration : Declaration)
  | rule (rule : RawRule)
  deriving Repr, Inhabited

/-- The name of a rule's sort in messages. -/
def RawRule.sort : RawRule → List Char
  | .style _ _ => "qualified-rule".toList
  | .atRule _ _ _ => "at-rule".toList
  | .malformed _ => "error".toList

/-! ## Constructs

A construct runs up to a semicolon or a curly block, whichever comes first.
-/

/-- What ends a construct. -/
inductive Terminator where
  | endOfInput
  | semicolon
  | block (content : List Component)
  deriving Repr, Inhabited

/-- A construct: the components before its terminator, the terminator, and the rest. -/
structure Construct where
  head : List Component
  terminator : Terminator
  rest : List Component

/-- The construct at the front of a list. -/
def readConstruct : List Component → Construct
  | [] => ⟨[], .endOfInput, []⟩
  | c :: cs =>
    match c.curly? with
    | some content => ⟨[], .block content, cs⟩
    | none =>
      if c.isSemicolon then ⟨[], .semicolon, cs⟩
      else
        let more := readConstruct cs
        { more with head := c :: more.head }

/-- The components up to the first curly block, its content, and the rest. -/
def readBlock? : List Component → Option (List Component × List Component × List Component)
  | [] => none
  | c :: cs =>
    match c.curly? with
    | some content => some ([], content, cs)
    | none => (readBlock? cs).map fun (head, content, rest) => (c :: head, content, rest)

/-! ## Declarations -/

/-- How far the mark `!important` at the end of a value has been seen. -/
inductive Mark where
  /-- Not begun. -/
  | none
  /-- The exclamation mark has been seen, after the given components, last one first. -/
  | begun (before : List Component)
  /-- The whole mark has been seen. -/
  | complete (before : List Component)
  deriving Repr, Inhabited

/-- A value being read: its components, last one first, the state of its mark, whether it holds
something, and whether a curly block follows something else in it. -/
structure ValueScan where
  seen : List Component := []
  mark : Mark := .none
  filled : Bool := false
  blockInside : Bool := false

/-- Whether a component is the identifier `important`, in any letter case. -/
def isImportant : Component → Bool
  | .atom (.ident name) => name.map Char.toLower == "important".toList
  | _ => false

/-- A component of the value proper. -/
def ValueScan.add (v : ValueScan) (c : Component) : ValueScan :=
  { seen := c :: v.seen
    mark := .none
    filled := true
    blockInside := v.blockInside || (v.filled && c.curly?.isSome) }

/-- Takes in one component of a value. -/
def ValueScan.step (v : ValueScan) (c : Component) : ValueScan :=
  if c.isSpace then { v with seen := c :: v.seen }
  else
    match v.mark with
    | .none =>
      if c.isLiteral ['!'] then { v with seen := c :: v.seen, mark := .begun v.seen }
      else v.add c
    | .begun before =>
      if isImportant c then { v with seen := c :: v.seen, mark := .complete before }
      else v.add c
    | .complete _ => v.add c

/-- The declaration with the given name whose value has been scanned. A curly block has to be
alone in a value. -/
def ValueScan.declaration? (v : ValueScan) (name : List Char) : Option Declaration :=
  if v.blockInside then none
  else
    match v.mark with
    | .complete before => some ⟨name, before.reverse, true⟩
    | _ => some ⟨name, v.seen.reverse, false⟩

/-- A declaration from its first component and the others: an identifier, a colon, a value. -/
def readDeclaration? (first : Component) (rest : List Component) : Option Declaration :=
  match first with
  | .atom (.ident name) =>
    match rest.dropWhile Component.isSpace with
    | [] => none
    | colon :: value =>
      if colon.isLiteral [':'] then (value.foldl ValueScan.step {}).declaration? name else none
  | _ => none

/-! ## Bodies of rules -/

/-- An at-rule, read after its keyword. -/
def readAtRule (keyword : List Char) (cs : List Component) : RawRule × List Component :=
  let construct := readConstruct cs
  match construct.terminator with
  | .block content => (.atRule keyword construct.head (some content), construct.rest)
  | _ => (.atRule keyword construct.head none, construct.rest)

/-- A declaration, or else a rule, from its first component on. -/
def readContent (first : Component) (cs : List Component) : Item × List Component :=
  match first.curly? with
  | some content => (.rule (.style [] content), cs)
  | none =>
    let construct := readConstruct cs
    match construct.terminator with
    | .block content =>
      match readDeclaration? first (construct.head ++ [.group (.bracket .curly) content]) with
      | some d => (.declaration d, construct.rest)
      | none => (.rule (.style (first :: construct.head) content), construct.rest)
    | .semicolon =>
      match readDeclaration? first construct.head with
      | some d => (.declaration d, construct.rest)
      | none => (.rule (.malformed .semicolon), construct.rest)
    | .endOfInput =>
      match readDeclaration? first construct.head with
      | some d => (.declaration d, construct.rest)
      | none => (.rule (.malformed .endOfInput), construct.rest)

/-- The name of an at-keyword. -/
def Component.atKeyword? : Component → Option (List Char)
  | .atom (.atKeyword name) => some name
  | _ => none

/-- The item that starts with the given component in the body of a rule, and the rest. -/
def readItem (c : Component) (cs : List Component) : Item × List Component :=
  match c.atKeyword? with
  | some keyword =>
    let read := readAtRule keyword cs
    (.rule read.1, read.2)
  | none => readContent c cs

/-! ## Lists of rules -/

/-- A rule with its selectors, from its first component on. -/
def readStyleRule (first : Component) (cs : List Component) : RawRule × List Component :=
  match readBlock? (first :: cs) with
  | some (selectors, content, rest) => (.style selectors content, rest)
  | none => (.malformed .endOfInput, [])

/-- The rule that starts with the given component, and the rest. -/
def readRule (c : Component) (cs : List Component) : RawRule × List Component :=
  match c.atKeyword? with
  | some keyword => readAtRule keyword cs
  | none => readStyleRule c cs

/-! ## Rests are shorter, contents are smaller -/

/-- The size of a rule's content. -/
def RawRule.contentSize : RawRule → Nat
  | .style _ content => Component.sizes content
  | .atRule _ _ (some content) => Component.sizes content
  | _ => 0

/-- The size of an item's content. -/
def Item.contentSize : Item → Nat
  | .declaration _ => 0
  | .rule r => r.contentSize

/-- The size of what ends a construct. -/
def Terminator.contentSize : Terminator → Nat
  | .block content => Component.sizes content + 1
  | _ => 0

/-- A construct leaves no more components than there were. -/
theorem length_readConstruct_le (cs : List Component) :
    (readConstruct cs).rest.length ≤ cs.length := by
  induction cs with
  | nil => exact Nat.le_refl _
  | cons c cs ih =>
    rw [readConstruct]
    split
    · simp
    · split
      · simp
      · exact Nat.le_succ_of_le ih

/-- The block of a construct and what follows it are no larger than the list. -/
theorem contentSize_readConstruct (cs : List Component) :
    (readConstruct cs).terminator.contentSize + Component.sizes (readConstruct cs).rest ≤
      Component.sizes cs := by
  induction cs with
  | nil => simp [readConstruct, Terminator.contentSize]
  | cons c cs ih =>
    rw [readConstruct, Component.sizes]
    split
    · next content h =>
      have := Component.sizes_content_lt h
      simp only [Terminator.contentSize]
      omega
    · split
      · simp [Terminator.contentSize]
      · simp only
        omega

/-- The first block and what follows it are smaller than the list. -/
theorem of_readBlock? {cs head content rest : List Component}
    (h : readBlock? cs = some (head, content, rest)) :
    rest.length < cs.length ∧
      Component.sizes content + Component.sizes rest < Component.sizes cs := by
  induction cs generalizing head with
  | nil => simp [readBlock?] at h
  | cons c cs ih =>
    rw [readBlock?] at h
    rw [Component.sizes]
    split at h
    · next hc =>
      cases h
      have := Component.sizes_content_lt hc
      refine ⟨by simp, by omega⟩
    · rw [Option.map_eq_some_iff] at h
      obtain ⟨⟨head', content', rest'⟩, hr, heq⟩ := h
      cases heq
      have := ih hr
      refine ⟨Nat.lt_succ_of_lt this.1, by omega⟩

/-- An at-rule leaves less, and its block is smaller than the list. -/
theorem readAtRule_shrinks (keyword : List Char) (cs : List Component) :
    (readAtRule keyword cs).2.length ≤ cs.length ∧
      (readAtRule keyword cs).1.contentSize + Component.sizes (readAtRule keyword cs).2 ≤
        Component.sizes cs := by
  have h1 := length_readConstruct_le cs
  have h2 := contentSize_readConstruct cs
  unfold readAtRule
  simp only
  split
  · next h =>
    rw [h, Terminator.contentSize] at h2
    simp only [RawRule.contentSize]
    exact ⟨h1, by omega⟩
  · simp only [RawRule.contentSize]
    exact ⟨h1, by omega⟩

/-- A declaration or rule leaves less, and its block is smaller than the list. -/
theorem readContent_shrinks (first : Component) (cs : List Component) :
    (readContent first cs).2.length ≤ cs.length ∧
      (readContent first cs).1.contentSize + Component.sizes (readContent first cs).2 <
        first.size + Component.sizes cs := by
  have h0 := Component.size_pos first
  have h1 := length_readConstruct_le cs
  have h2 := contentSize_readConstruct cs
  unfold readContent
  split
  · next h =>
    have := Component.sizes_content_lt h
    simp only [Item.contentSize, RawRule.contentSize]
    exact ⟨Nat.le_refl _, by omega⟩
  · simp only
    split
    · next h =>
      rw [h, Terminator.contentSize] at h2
      split <;> simp only [Item.contentSize, RawRule.contentSize] <;> exact ⟨h1, by omega⟩
    · split <;> simp only [Item.contentSize, RawRule.contentSize] <;> exact ⟨h1, by omega⟩
    · split <;> simp only [Item.contentSize, RawRule.contentSize] <;> exact ⟨h1, by omega⟩

/-- An item leaves less, and its block is smaller than the list. -/
theorem readItem_shrinks (c : Component) (cs : List Component) :
    (readItem c cs).2.length ≤ cs.length ∧
      (readItem c cs).1.contentSize + Component.sizes (readItem c cs).2 <
        c.size + Component.sizes cs := by
  unfold readItem
  split
  · next keyword _ =>
    have h := readAtRule_shrinks keyword cs
    have := Component.size_pos c
    simp only [Item.contentSize]
    exact ⟨h.1, by omega⟩
  · exact readContent_shrinks c cs

/-- A rule leaves less, and its block is smaller than the list. -/
theorem readRule_shrinks (c : Component) (cs : List Component) :
    (readRule c cs).2.length ≤ cs.length ∧
      (readRule c cs).1.contentSize + Component.sizes (readRule c cs).2 <
        c.size + Component.sizes cs := by
  have h0 := Component.size_pos c
  unfold readRule
  split
  · next keyword _ =>
    have h := readAtRule_shrinks keyword cs
    exact ⟨h.1, by omega⟩
  · unfold readStyleRule
    split
    · next h =>
      have := of_readBlock? h
      rw [List.length_cons, Component.sizes] at this
      simp only [RawRule.contentSize]
      exact ⟨by omega, this.2⟩
    · simp only [RawRule.contentSize, Component.sizes]
      exact ⟨Nat.zero_le _, by omega⟩

/-! ## Lists of items and rules -/

/-- The declarations and rules in the body of a rule. White space and stray semicolons between
them are skipped. -/
def blockItems : List Component → List Item
  | [] => []
  | c :: cs =>
    if c.isSpace || c.isSemicolon then blockItems cs
    else
      let read := readItem c cs
      read.1 :: blockItems read.2
termination_by cs => cs.length
decreasing_by
  · simp
  · exact Nat.lt_succ_of_le (readItem_shrinks c cs).1

/-- The rules of a list; components of the class `skip` are passed over where a rule could
start. -/
def rules (skip : Component → Bool) : List Component → List RawRule
  | [] => []
  | c :: cs =>
    if skip c then rules skip cs
    else
      let read := readRule c cs
      read.1 :: rules skip read.2
termination_by cs => cs.length
decreasing_by
  · simp
  · exact Nat.lt_succ_of_le (readRule_shrinks c cs).1

/-- White space, or one of the two comment marks that old style sheets are wrapped in. -/
def isSheetPadding (c : Component) : Bool :=
  c.isSpace || c.isLiteral ['<', '!', '-', '-'] || c.isLiteral ['-', '-', '>']

/-- The rules of a style sheet. -/
def styleSheet (cs : List Component) : List RawRule :=
  rules isSheetPadding cs

/-- The rules in the body of an at-rule. -/
def ruleList (cs : List Component) : List RawRule :=
  rules Component.isSpace cs

/-- The block of an item is smaller than the list it is read from. -/
theorem contentSize_blockItems {cs : List Component} {item : Item} (h : item ∈ blockItems cs) :
    item.contentSize < Component.sizes cs := by
  fun_induction blockItems cs with
  | case1 => cases h
  | case2 c cs _ ih =>
    have := ih h
    rw [Component.sizes]
    omega
  | case3 c cs _ read ih =>
    have hf : read.1.contentSize + Component.sizes read.2 < c.size + Component.sizes cs :=
      (readItem_shrinks c cs).2
    rw [Component.sizes]
    rcases List.mem_cons.1 h with rfl | h
    · omega
    · have := ih h
      omega

/-- The block of a rule is smaller than the list it is read from. -/
theorem contentSize_rules {skip : Component → Bool} {cs : List Component} {rule : RawRule}
    (h : rule ∈ rules skip cs) : rule.contentSize < Component.sizes cs := by
  fun_induction rules skip cs with
  | case1 => cases h
  | case2 c cs _ ih =>
    have := ih h
    rw [Component.sizes]
    omega
  | case3 c cs _ read ih =>
    have hf : read.1.contentSize + Component.sizes read.2 < c.size + Component.sizes cs :=
      (readRule_shrinks c cs).2
    rw [Component.sizes]
    rcases List.mem_cons.1 h with rfl | h
    · omega
    · have := ih h
      omega

end CssTemplate.Css
