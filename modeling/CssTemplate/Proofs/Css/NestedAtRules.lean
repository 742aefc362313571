import CssTemplate.Proofs.Css.RuleHeads
import CssTemplate.Proofs.Output.Shape

/-!
# Nested at-rules

At-rules inside a conditional at-rule of the nesting tree are inside an at-rule of one block
(`NestedRule.NestsAtRule.exists_atRule`). A block is not refused for what is inside what, but for what
is written directly before an at-rule (`refused_iff_heads`). So an at-rule inside a conditional one is
refused where it comes first, and passes behind a style rule (`nested_after_declaration`).
-/

namespace CssTemplate.Css

/-! ## At-rules inside at-rules -/

/-- A node that is written among the declarations of its body. -/
def NestedRule.IsOwn : NestedRule → Prop
  | .bare _ => True
  | .declaration _ => True
  | _ => False

/-- An at-rule with a block is written for the node, under its own head. An at-rule outside all
selectors counts if it is empty or holds declarations: of its inner rules alone, the selectors need not
start with its head. -/
inductive NestedRule.HasAtRule : NestedRule → Prop where
  | conditional (keyword : List Char) (prelude : List Component) (body : List NestedRule) :
      HasAtRule (.atRule .conditional keyword prelude body)
  | keyframes (keyword : List Char) (prelude : List Component) (frames : List NestedRule) :
      HasAtRule (.atRule .keyframes keyword prelude frames)
  | empty (keyword : List Char) (prelude : List Component) :
      HasAtRule (.atRule .unscoped keyword prelude [])
  | own (keyword : List Char) (prelude : List Component) {body : List NestedRule} {node : NestedRule}
      (hnode : node ∈ body) (h : node.IsOwn) : HasAtRule (.atRule .unscoped keyword prelude body)
  | inUnscoped (keyword : List Char) (prelude : List Component) {body : List NestedRule}
      {node : NestedRule} (hnode : node ∈ body) (h : node.HasAtRule) :
      HasAtRule (.atRule .unscoped keyword prelude body)
  | inRule (selectors : List Component) {body : List NestedRule} {node : NestedRule}
      (hnode : node ∈ body) (h : node.HasAtRule) : HasAtRule (.rule selectors body)

/-- Somewhere in the node, such an at-rule stands inside a conditional at-rule. -/
inductive NestedRule.NestsAtRule : NestedRule → Prop where
  | conditional (keyword : List Char) (prelude : List Component) {body : List NestedRule}
      {node : NestedRule} (hnode : node ∈ body) (h : node.HasAtRule) :
      NestsAtRule (.atRule .conditional keyword prelude body)
  | inRule (selectors : List Component) {body : List NestedRule} {node : NestedRule}
      (hnode : node ∈ body) (h : node.NestsAtRule) : NestsAtRule (.rule selectors body)
  | inUnscoped (keyword : List Char) (prelude : List Component) {body : List NestedRule}
      {node : NestedRule} (hnode : node ∈ body) (h : node.NestsAtRule) :
      NestsAtRule (.atRule .unscoped keyword prelude body)
  | inFrame (keyword : List Char) (prelude : List Component) {frames : List NestedRule}
      {selector : List Component} {body : List NestedRule} {node : NestedRule}
      (hframe : .rule selector body ∈ frames) (hnode : node ∈ body) (h : node.NestsAtRule) :
      NestsAtRule (.atRule .keyframes keyword prelude frames)

section
variable {selectors : List (List Char)} {flat : Flattened} {node : NestedRule}
  {body : List NestedRule} {keyword head : List Char} {prelude : List Component}

/-- The rules inside a body are among its rules. -/
theorem Flattened.inner_subset_rules (flat : Flattened) (selectors : List (List Char)) :
    flat.inner ⊆ flat.rules selectors :=
  List.subset_append_right _ _

/-- What a node gives is among what its body gives. -/
theorem exists_of_mem_flattenBody (hnode : node ∈ body)
    (h : flattenBody selectors body = .ok flat) :
    ∃ part, node.flatten selectors = .ok part ∧ part.own ⊆ flat.own ∧ part.inner ⊆ flat.inner := by
  induction body generalizing flat with
  | nil => cases hnode
  | cons first body ih =>
    obtain ⟨part, hpart, h⟩ := Except.bind_eq_ok_iff.1 h
    obtain ⟨rest, hrest, h⟩ := Except.bind_eq_ok_iff.1 h
    cases h
    rcases List.mem_cons.1 hnode with rfl | hnode
    · exact ⟨part, hpart, List.subset_append_left _ _, List.subset_append_left _ _⟩
    · obtain ⟨inside, hinside, hown, hinner⟩ := ih hnode hrest
      exact ⟨inside, hinside, List.subset_append_of_subset_right _ hown,
        List.subset_append_of_subset_right _ hinner⟩

/-- The body of a frame is flattened under its selector, and its rules are among those of the
frames. -/
theorem exists_of_mem_flattenFrames {frames : List NestedRule} {rules : List FlatRule}
    {selector : List Component} (hframe : .rule selector body ∈ frames)
    (h : flattenFrames head frames = .ok rules) :
    ∃ own nested, flattenBody [own] body = .ok nested ∧ nested.inner ⊆ rules := by
  induction frames generalizing rules with
  | nil => cases hframe
  | cons frame frames ih =>
    cases frame with
    | rule first content =>
      obtain ⟨own, -, h⟩ := Except.bind_eq_ok_iff.1 h
      obtain ⟨nested, hnested, h⟩ := Except.bind_eq_ok_iff.1 h
      obtain ⟨rest, hrest, h⟩ := Except.bind_eq_ok_iff.1 h
      cases h
      rcases List.mem_cons.1 hframe with heq | hframe
      · cases heq
        exact ⟨own, nested, hnested,
          List.subset_append_of_subset_left _ (nested.inner_subset_rules [own])⟩
      · obtain ⟨own, nested, hnested, hinner⟩ := ih hframe hrest
        exact ⟨own, nested, hnested, List.subset_append_of_subset_right _ hinner⟩
    | _ => cases h

/-- What an at-rule with declarations of its own gives. -/
theorem exists_of_flatten_unscoped
    (h : (NestedRule.atRule .unscoped keyword prelude body).flatten selectors = .ok flat) :
    ∃ head nested, StartsAt head ∧ flattenBody [head] body = .ok nested ∧
      nested.rules [head] ⊆ flat.inner ∧ (body = [] → flat.inner = [.style [head] []]) := by
  obtain ⟨head, hhead, h⟩ := Except.bind_eq_ok_iff.1 h
  obtain ⟨nested, hnested, h⟩ := Except.bind_eq_ok_iff.1 h
  cases h
  refine ⟨head, nested, startsAt_of_head? (head?_of_atRuleHead hhead), hnested, ?_, ?_⟩
  · intro rule hrule
    rw [if_neg fun hempty => by rw [List.isEmpty_iff.1 hempty] at hrule; cases hrule]
    exact hrule
  · rintro rfl
    cases hnested
    rfl

/-- A declaration of its own makes a body emit declarations. -/
theorem NestedRule.IsOwn.own_ne_nil (h : node.IsOwn) (hflat : node.flatten selectors = .ok flat) :
    flat.own ≠ [] := by
  cases node with
  | bare name =>
    cases hflat
    exact List.cons_ne_nil _ _
  | declaration d =>
    obtain ⟨value, -, hflat⟩ := Except.bind_eq_ok_iff.1 hflat
    cases hflat
    exact List.cons_ne_nil _ _
  | _ => exact h.elim

/-- A body with declarations has a rule with its head. -/
theorem Flattened.mem_headsOf_rules (hown : flat.own ≠ []) (head : List Char) :
    head ∈ headsOf (flat.rules [head]) := by
  rw [Flattened.rules, if_neg (mt List.isEmpty_iff.1 hown)]
  refine mem_headsOf.2 ⟨.style [head] flat.own, .head _, ?_⟩
  simp [FlatRule.heads, joinCommas, List.intercalate]

/-- Rules of a list have heads of the list. -/
theorem headsOf_subset {rules rules' : List FlatRule} (h : rules ⊆ rules') :
    headsOf rules ⊆ headsOf rules' := by
  intro head hhead
  obtain ⟨rule, hrule, hmem⟩ := mem_headsOf.1 hhead
  exact mem_headsOf.2 ⟨rule, h hrule, hmem⟩

/-- An at-rule in the nesting tree is one among the flat rules. -/
theorem NestedRule.HasAtRule.exists_head (h : node.HasAtRule)
    (hflat : node.flatten selectors = .ok flat) : ∃ head ∈ headsOf flat.inner, StartsAt head := by
  induction h generalizing selectors flat with
  | conditional keyword prelude body =>
    obtain ⟨head, hhead, hflat⟩ := Except.bind_eq_ok_iff.1 hflat
    obtain ⟨nested, -, hflat⟩ := Except.bind_eq_ok_iff.1 hflat
    cases hflat
    exact ⟨head, .head _, startsAt_of_head? (head?_of_atRuleHead hhead)⟩
  | keyframes keyword prelude frames =>
    obtain ⟨head, hhead, hflat⟩ := Except.bind_eq_ok_iff.1 hflat
    obtain ⟨rules, -, hflat⟩ := Except.bind_eq_ok_iff.1 hflat
    cases hflat
    exact ⟨head, .head _, startsAt_of_head? (head?_of_atRuleHead hhead)⟩
  | empty keyword prelude =>
    obtain ⟨head, nested, hat, -, -, hinner⟩ := exists_of_flatten_unscoped hflat
    refine ⟨head, ?_, hat⟩
    rw [hinner rfl]
    simp [headsOf, FlatRule.heads, joinCommas, List.intercalate]
  | own keyword prelude hnode hown =>
    obtain ⟨head, nested, hat, hnested, hinner, -⟩ := exists_of_flatten_unscoped hflat
    obtain ⟨part, hpart, hsubset, -⟩ := exists_of_mem_flattenBody hnode hnested
    have hne : nested.own ≠ [] := fun h => hown.own_ne_nil hpart (List.subset_nil.1 (h ▸ hsubset))
    exact ⟨head, headsOf_subset hinner (Flattened.mem_headsOf_rules hne head), hat⟩
  | inUnscoped keyword prelude hnode _ ih =>
    obtain ⟨head, nested, -, hnested, hinner, -⟩ := exists_of_flatten_unscoped hflat
    obtain ⟨part, hpart, -, hsubset⟩ := exists_of_mem_flattenBody hnode hnested
    obtain ⟨inner, hmem, hat⟩ := ih hpart
    have hrules : part.inner ⊆ nested.rules [head] :=
      List.Subset.trans hsubset (nested.inner_subset_rules [head])
    exact ⟨inner, headsOf_subset hinner (headsOf_subset hrules hmem), hat⟩
  | inRule inside hnode _ ih =>
    obtain ⟨under, -, hflat⟩ := Except.bind_eq_ok_iff.1 hflat
    obtain ⟨nested, hnested, hflat⟩ := Except.bind_eq_ok_iff.1 hflat
    cases hflat
    obtain ⟨part, hpart, -, hsubset⟩ := exists_of_mem_flattenBody hnode hnested
    obtain ⟨inner, hmem, hat⟩ := ih hpart
    have hrules : part.inner ⊆ nested.rules under :=
      List.Subset.trans hsubset (nested.inner_subset_rules under)
    exact ⟨inner, headsOf_subset hrules hmem, hat⟩

/-- A flat at-rule with an at-rule somewhere in it. -/
def FlatRule.HoldsAtRule : FlatRule → Prop
  | .style _ _ => False
  | .atRule _ rules => ∃ inner ∈ headsOf rules, StartsAt inner

/-- At-rules that are nested in the tree are nested in a flat rule. -/
theorem NestedRule.NestsAtRule.exists_atRule (h : node.NestsAtRule)
    (hflat : node.flatten selectors = .ok flat) : ∃ rule ∈ flat.inner, rule.HoldsAtRule := by
  induction h generalizing selectors flat with
  | conditional keyword prelude hnode hat =>
    obtain ⟨head, -, hflat⟩ := Except.bind_eq_ok_iff.1 hflat
    obtain ⟨nested, hnested, hflat⟩ := Except.bind_eq_ok_iff.1 hflat
    cases hflat
    obtain ⟨part, hpart, -, hsubset⟩ := exists_of_mem_flattenBody hnode hnested
    obtain ⟨inner, hmem, hat⟩ := hat.exists_head hpart
    have hrules : part.inner ⊆ nested.rules selectors :=
      List.Subset.trans hsubset (nested.inner_subset_rules selectors)
    exact ⟨_, .head _, inner, headsOf_subset hrules hmem, hat⟩
  | inRule inside hnode _ ih =>
    obtain ⟨under, -, hflat⟩ := Except.bind_eq_ok_iff.1 hflat
    obtain ⟨nested, hnested, hflat⟩ := Except.bind_eq_ok_iff.1 hflat
    cases hflat
    obtain ⟨part, hpart, -, hsubset⟩ := exists_of_mem_flattenBody hnode hnested
    obtain ⟨rule, hrule, hholds⟩ := ih hpart
    exact ⟨rule, nested.inner_subset_rules under (hsubset hrule), hholds⟩
  | inUnscoped keyword prelude hnode _ ih =>
    obtain ⟨head, nested, -, hnested, hinner, -⟩ := exists_of_flatten_unscoped hflat
    obtain ⟨part, hpart, -, hsubset⟩ := exists_of_mem_flattenBody hnode hnested
    obtain ⟨rule, hrule, hholds⟩ := ih hpart
    exact ⟨rule, hinner (nested.inner_subset_rules [head] (hsubset hrule)), hholds⟩
  | inFrame keyword prelude hframe hnode _ ih =>
    obtain ⟨head, -, hflat⟩ := Except.bind_eq_ok_iff.1 hflat
    obtain ⟨rules, hrules, hflat⟩ := Except.bind_eq_ok_iff.1 hflat
    cases hflat
    obtain ⟨own, nested, hnested, hinner⟩ := exists_of_mem_flattenFrames hframe hrules
    obtain ⟨part, hpart, -, hsubset⟩ := exists_of_mem_flattenBody hnode hnested
    obtain ⟨rule, hrule, hholds⟩ := ih hpart
    refine ⟨_, .head _, ?_⟩
    cases rule with
    | style _ _ => exact hholds.elim
    | atRule outer inside =>
      obtain ⟨inner, hmem, hat⟩ := hholds
      exact ⟨inner, mem_headsOf.2 ⟨_, hinner (hsubset hrule), .tail _ hmem⟩, hat⟩

end

/-! ## Blocks -/

section
variable {context css : List Char} {content : List Component} {rules : List FlatRule}

/-- Which blocks have no places. -/
theorem FlatRule.places_eq_error_iff {rule : FlatRule} (hheaded : rule.Headed)
    (hwritten : rule.WrittenIn Braceless Braceless) :
    places rule.text = .error .nestedAtRule ↔ rule.Misread ∨ ¬List.IsChain Separated rule.heads := by
  have hstart : List.IsChain Separated ([] :: rule.heads) ↔ List.IsChain Separated rule.heads := by
    rw [List.isChain_cons]
    simp [Separated, StartsAt]
  rw [places, placesFrom_eq_error_iff, (FlatRule.ends_text Cursor.after_start rule hheaded
    hwritten).error_iff, hstart]

/-- Neighbours are not all apart exactly when two heads in a row start with an at-sign. -/
theorem not_isChain_separated_iff {heads : List (List Char)} :
    ¬List.IsChain Separated heads ↔ ∃ front outer inner back,
      heads = front ++ outer :: inner :: back ∧ StartsAt outer ∧ StartsAt inner := by
  rw [List.isChain_iff_forall_rel_of_append_cons_cons]
  simp only [Separated]
  push Not
  constructor
  · rintro ⟨outer, inner, front, back, h⟩
    exact ⟨front, outer, inner, back, h⟩
  · rintro ⟨front, outer, inner, back, h⟩
    exact ⟨outer, inner, front, back, h⟩

/-- A conditional at-rule of the tree that holds at-rules is a block that holds them. -/
theorem exists_of_nestsAtRule (hcontent : templateBody context css = .ok content)
    (hrules : flattenTemplate context css = .ok rules) {node : NestedRule}
    (hnode : node ∈ NestedRule.ofBody content) (h : node.NestsAtRule) :
    ∃ rule ∈ rules, rule.HoldsAtRule := by
  obtain ⟨content', hcontent', hrules⟩ := Except.bind_eq_ok_iff.1 hrules
  cases hcontent.symm.trans hcontent'
  obtain ⟨flat, hflat, hrules⟩ := Except.bind_eq_ok_iff.1 hrules
  cases hrules
  obtain ⟨part, hpart, -, hsubset⟩ := exists_of_mem_flattenBody hnode hflat
  obtain ⟨rule, hrule, hholds⟩ := h.exists_atRule hpart
  exact ⟨rule, flat.inner_subset_rules [context] (hsubset hrule), hholds⟩

/-- **Which at-rules are refused.** Where braces stand around bodies only, the blocks of a flattened
template are its flat rules. An at-rule inside a conditional at-rule is inside an at-rule of one block.
The blocks are refused exactly if one of them opens an at-rule directly behind the head of another one,
or in a text that is read as a selector. -/
theorem refused_iff_heads (hcontext : Braceless context)
    (hcontent : templateBody context css = .ok content)
    (hbraces : NestedRule.AllWrittenIn Braceless Braceless (NestedRule.ofBody content))
    (hrules : flattenTemplate context css = .ok rules) (config : Config) (m : Markers) :
    splitBlocks (rulesText rules) false = .ok (rules.map FlatRule.text) ∧
    ((∃ node ∈ NestedRule.ofBody content, node.NestsAtRule) →
      ∃ outer between inner back, (∃ rule ∈ rules, rule.heads = outer :: (between ++ inner :: back)) ∧
        StartsAt outer ∧ StartsAt inner) ∧
    (buildOutput config m false (rules.map FlatRule.text) = .error (.place .nestedAtRule) ↔
      ∃ rule ∈ rules, rule.Misread ∨ ∃ front outer inner back,
        rule.heads = front ++ outer :: inner :: back ∧ StartsAt outer ∧ StartsAt inner) := by
  have hheaded := headed_flattenTemplate hrules
  have hwritten := writtenIn_flattenTemplate writable_braceless writable_braceless hcontext hcontent
    hbraces hrules
  have hsplit : splitBlocks (rulesText rules) false = .ok (rules.map FlatRule.text) :=
    cutBlocks_rulesText (fun rule hrule => FlatRule.WrittenIn.mono Braceless.balanced rule
      (hwritten rule hrule)) 0
  refine ⟨hsplit, ?_, ?_⟩
  · rintro ⟨node, hnode, hnests⟩
    obtain ⟨rule, hrule, hholds⟩ := exists_of_nestsAtRule hcontent hrules hnode hnests
    cases rule with
    | style _ _ => exact hholds.elim
    | atRule outer inside =>
      obtain ⟨inner, hinner, hat⟩ := hholds
      obtain ⟨between, back, hheads⟩ := List.append_of_mem hinner
      have hhead := hheaded _ hrule
      rw [FlatRule.Headed] at hhead
      refine ⟨outer, between, inner, back, ⟨_, hrule, ?_⟩, startsAt_of_head? hhead.1, hat⟩
      rw [FlatRule.heads, hheads]
  · rw [buildOutput_eq_error_iff config m hsplit]
    simp only [List.mem_map, exists_exists_and_eq_and]
    refine exists_congr fun rule => and_congr_right fun hrule => ?_
    rw [FlatRule.places_eq_error_iff (hheaded rule hrule) (hwritten rule hrule),
      not_isChain_separated_iff]

/-- A conditional at-rule holds the nodes of its block. -/
theorem NestedRule.ofItem_conditional {keyword : List Char}
    (hkind : AtRuleKind.ofKeyword keyword = .conditional) (prelude content : List Component) :
    NestedRule.ofItem (.rule (.atRule keyword prelude (some content))) =
      .atRule .conditional keyword prelude (NestedRule.ofBody content) := by
  rw [NestedRule.ofItem, hkind, if_neg (by decide)]

/-- A condition directly inside another one is refused. -/
theorem refused_iff_heads_supports :
    flattenCss ['æ'] "@media a\x7b@supports b\x7bcolor:blue\x7d\x7d".toList =
        .ok "@media a\x7b@supports b\x7bæ\x7bcolor:blue;\x7d\x7d\x7d".toList ∧
      buildOutput .default ⟨230, []⟩ false
          ["@media a\x7b@supports b\x7bæ\x7bcolor:blue;\x7d\x7d\x7d".toList] =
        .error (.place .nestedAtRule) := by
  obtain ⟨content, body, inner, hcontent, hmedia, hsupports, hblue⟩ : ∃ content body inner,
      templateBody ['æ'] "@media a\x7b@supports b\x7bcolor:blue\x7d\x7d".toList = .ok content ∧
      bodyEntries content = [.item (.rule (.atRule "media".toList
        [.atom (.space [' ']), .atom (.ident ['a'])] (some body)))] ∧
      bodyEntries body = [.item (.rule (.atRule "supports".toList
        [.atom (.space [' ']), .atom (.ident ['b'])] (some inner)))] ∧
      NestedRule.ofBody inner =
        [.declaration ⟨"color".toList, [.atom (.ident "blue".toList)], false⟩] :=
    ⟨_, _, _, by cbv, by cbv, by cbv, by cbv⟩
  have htree : NestedRule.ofBody content = [.atRule .conditional "media".toList
      [.atom (.space [' ']), .atom (.ident ['a'])] [.atRule .conditional "supports".toList
        [.atom (.space [' ']), .atom (.ident ['b'])]
        [.declaration ⟨"color".toList, [.atom (.ident "blue".toList)], false⟩]]] := by
    rw [NestedRule.ofBody_eq, hmedia, List.map_singleton, NestedRule.ofEntry,
      NestedRule.ofItem_conditional (by decide), NestedRule.ofBody_eq, hsupports, List.map_singleton,
      NestedRule.ofEntry, NestedRule.ofItem_conditional (by decide), hblue]
  have hrules : flattenTemplate ['æ'] "@media a\x7b@supports b\x7bcolor:blue\x7d\x7d".toList =
      .ok [.atRule "@media a".toList [.atRule "@supports b".toList
        [.style [['æ']] [.property "color".toList "blue".toList false]]]] := by
    rw [flattenTemplate, hcontent, Except.bind_ok, htree]
    cbv
  have hbraces : NestedRule.AllWrittenIn Braceless Braceless (NestedRule.ofBody content) := by
    rw [htree]
    simp only [NestedRule.AllWrittenIn, NestedRule.WrittenIn, Component.Within, List.forall_mem_cons,
      List.not_mem_nil, false_implies, implies_true, and_true]
    decide
  have htext : "@media a\x7b@supports b\x7bæ\x7bcolor:blue;\x7d\x7d\x7d".toList =
      (FlatRule.atRule "@media a".toList [.atRule "@supports b".toList
        [.style [['æ']] [.property "color".toList "blue".toList false]]]).text := by cbv
  constructor
  · rw [flattenCss, hrules]
    cbv
  · rw [htext]
    refine (refused_iff_heads (by decide) hcontent hbraces hrules .default ⟨230, []⟩).2.2.2
      ⟨_, .head _, .inr ⟨[], "@media a".toList, "@supports b".toList, [['æ']], ?_, ?_, ?_⟩⟩
    · cbv
    · decide
    · decide

/-- **Behind a declaration, a condition inside another one is not refused.** -/
theorem nested_after_declaration :
    (∃ content, templateBody ['æ'] "@media a\x7bcolor:red;@supports b\x7bcolor:blue\x7d\x7d".toList =
        .ok content ∧ ∃ node ∈ NestedRule.ofBody content, node.NestsAtRule) ∧
      flattenCss ['æ'] "@media a\x7bcolor:red;@supports b\x7bcolor:blue\x7d\x7d".toList =
        .ok "@media a\x7bæ\x7bcolor:red;\x7d@supports b\x7bæ\x7bcolor:blue;\x7d\x7d\x7d".toList ∧
      splitBlocks "@media a\x7bæ\x7bcolor:red;\x7d@supports b\x7bæ\x7bcolor:blue;\x7d\x7d\x7d".toList
        false =
        .ok ["@media a\x7bæ\x7bcolor:red;\x7d@supports b\x7bæ\x7bcolor:blue;\x7d\x7d\x7d".toList] ∧
      ∃ o, buildOutput .default ⟨230, []⟩ false
        ["@media a\x7bæ\x7bcolor:red;\x7d@supports b\x7bæ\x7bcolor:blue;\x7d\x7d\x7d".toList] =
          .ok o := by
  obtain ⟨content, body, inner, hcontent, hmedia, hsupports, hblue⟩ : ∃ content body inner,
      templateBody ['æ'] "@media a\x7bcolor:red;@supports b\x7bcolor:blue\x7d\x7d".toList =
        .ok content ∧
      bodyEntries content = [.item (.rule (.atRule "media".toList
        [.atom (.space [' ']), .atom (.ident ['a'])] (some body)))] ∧
      bodyEntries body = [.item (.declaration ⟨"color".toList, [.atom (.ident "red".toList)], false⟩),
        .item (.rule (.atRule "supports".toList
          [.atom (.space [' ']), .atom (.ident ['b'])] (some inner)))] ∧
      NestedRule.ofBody inner =
        [.declaration ⟨"color".toList, [.atom (.ident "blue".toList)], false⟩] :=
    ⟨_, _, _, by cbv, by cbv, by cbv, by cbv⟩
  have htree : NestedRule.ofBody content = [.atRule .conditional "media".toList
      [.atom (.space [' ']), .atom (.ident ['a'])]
      [.declaration ⟨"color".toList, [.atom (.ident "red".toList)], false⟩,
        .atRule .conditional "supports".toList [.atom (.space [' ']), .atom (.ident ['b'])]
          [.declaration ⟨"color".toList, [.atom (.ident "blue".toList)], false⟩]]] := by
    rw [NestedRule.ofBody_eq, hmedia, List.map_singleton, NestedRule.ofEntry,
      NestedRule.ofItem_conditional (by decide), NestedRule.ofBody_eq, hsupports, List.map_cons,
      List.map_singleton, NestedRule.ofEntry, NestedRule.ofEntry, NestedRule.ofItem,
      NestedRule.ofItem_conditional (by decide), hblue]
  refine ⟨⟨content, hcontent, ?_⟩, ?_, by cbv, ⟨_, rfl⟩⟩
  · rw [htree]
    exact ⟨_, .head _, .conditional _ _ (.tail _ (.head _)) (.conditional _ _ _)⟩
  · rw [flattenCss, flattenTemplate, hcontent, Except.bind_ok, htree]
    cbv

end

end CssTemplate.Css
