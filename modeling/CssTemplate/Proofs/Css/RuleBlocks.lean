import CssTemplate.Proofs.Css.Blocks
import CssTemplate.Proofs.Css.Unprefixed

/-!
# Blocks that are rules

The blocks of a flattened template are its flat rules, wherever braces stand around bodies only, and a
tidy rule with a canonical text is read from its block as one rule (`splitBlocks_flattenCss`). Either
half can fail by itself. A single brace in a string misleads the cutting
(`splitBlocks_of_brace_in_string`); and in a text that is not canonical two tokens may run together into
the start of a comment, which takes in the body of the rule.
-/

namespace CssTemplate.Css

/-- A text that is read as exactly one rule, and not as a malformed one. -/
def IsOneRule (text : List Char) : Prop :=
  ∃ raw, styleSheet (Component.parse text) = [raw] ∧ ∀ what, raw ≠ .malformed what

/-- The canonical text of a tidy rule is read as one rule. -/
theorem FlatRule.IsTidy.isOneRule {unprefixed : Bool} {rule : FlatRule} (h : rule.IsTidy unprefixed)
    (hcanonical : isCanonical rule.text = true) : IsOneRule rule.text := by
  obtain ⟨cs, raw, hreads, -, hrule, hwritten⟩ :=
    FlatRule.isReread rule h (by rwa [List.append_nil] : isCanonical (rule.text ++ []) = true)
  rw [List.append_nil] at hreads
  refine ⟨raw, ?_, ?_⟩
  · rw [Component.parse, (FlatRule.IsTidy.isNormal rule h).normalize, hreads.ofTokens_scan, styleSheet,
      ← List.append_nil cs, hrule isSheetPadding (fun _ hc => hc), rules]
  · rintro what rfl
    rw [SheetRule.ofRaw, SheetRule.prefixedText] at hwritten
    cases hwritten

/-- **The blocks of a flattened template.** Where braces stand around bodies only, the blocks are the
flat rules. If moreover the template is tidy, under a selector, then each block with a canonical text is
read as one rule. -/
theorem splitBlocks_flattenCss {context css flat : List Char} (hcontext : Braceless context)
    {content : List Component} (hcontent : templateBody context css = .ok content)
    (hbraces : NestedRule.AllWrittenIn Braceless Balanced (NestedRule.ofBody content))
    (hflat : flattenCss context css = .ok flat) :
    ∃ rules, flattenTemplate context css = .ok rules ∧ flat = rulesText rules ∧
      splitBlocks flat false = .ok (rules.map FlatRule.text) ∧
      (IsSelector context → bodyIsTidy true (NestedRule.ofBody content) = true →
        ∀ rule ∈ rules, isCanonical rule.text = true → IsOneRule rule.text) := by
  obtain ⟨rules, hrules, rfl⟩ := Except.map_eq_ok_iff.1 hflat
  have hwritten := writtenIn_flattenTemplate writable_braceless writable_balanced hcontext hcontent
    hbraces hrules
  refine ⟨rules, hrules, rfl, cutBlocks_rulesText hwritten 0, fun hselector htidy rule hrule => ?_⟩
  have hrulesTidy : ∀ rule ∈ rules, rule.IsTidy false :=
    tidy_flattenTemplate hselector hcontent htidy (fun h => by cases h) hrules
  exact (hrulesTidy rule hrule).isOneRule

/-- Braces that pair up in a string, a property that gets copies, and a condition around a rule. -/
theorem splitBlocks_flattenCss_paired :
    flattenCss ['æ'] "mask:f( y );@media p\x7b&:q\x7bcontent:\"\x7b\x7d\"\x7d\x7d".toList =
        .ok "æ\x7bmask:f(y);\x7d@media p\x7bæ:q\x7bcontent:\"\x7b\x7d\";\x7d\x7d".toList ∧
      splitBlocks "æ\x7bmask:f(y);\x7d@media p\x7bæ:q\x7bcontent:\"\x7b\x7d\";\x7d\x7d".toList false =
        .ok ["æ\x7bmask:f(y);\x7d".toList,
          "@media p\x7bæ:q\x7bcontent:\"\x7b\x7d\";\x7d\x7d".toList] ∧
      IsOneRule "æ\x7bmask:f(y);\x7d".toList ∧
      IsOneRule "@media p\x7bæ:q\x7bcontent:\"\x7b\x7d\";\x7d\x7d".toList := by
  have hrules : flattenTemplate ['æ']
      "mask:f( y );@media p\x7b&:q\x7bcontent:\"\x7b\x7d\"\x7d\x7d".toList =
        .ok [.style [['æ']] [.property "mask".toList "f(y)".toList false],
          .atRule "@media p".toList
            [.style ["æ:q".toList] [.property "content".toList "\"\x7b\x7d\"".toList false]]] := by cbv
  have hflat : flattenCss ['æ'] "mask:f( y );@media p\x7b&:q\x7bcontent:\"\x7b\x7d\"\x7d\x7d".toList =
      .ok "æ\x7bmask:f(y);\x7d@media p\x7bæ:q\x7bcontent:\"\x7b\x7d\";\x7d\x7d".toList := by
    rw [flattenCss, hrules]
    rfl
  obtain ⟨content, hcontent, htree⟩ : ∃ content,
      templateBody ['æ'] "mask:f( y );@media p\x7b&:q\x7bcontent:\"\x7b\x7d\"\x7d\x7d".toList =
          .ok content ∧
        NestedRule.ofBody content =
          [.declaration ⟨"mask".toList, [.group (.function ['f'])
              [.atom (.space [' ']), .atom (.ident ['y']), .atom (.space [' '])]], false⟩,
            .atRule .conditional "media".toList [.atom (.space [' ']), .atom (.ident ['p'])]
              [.rule [.atom (.literal ['&']), .atom (.literal [':']), .atom (.ident ['q'])]
                [.declaration ⟨"content".toList, [.atom (.string ['{', '}'] true)], false⟩]]] :=
    ⟨_, by cbv, by cbv⟩
  have hbraces : NestedRule.AllWrittenIn Braceless Balanced (NestedRule.ofBody content) := by
    rw [htree]
    simp only [NestedRule.AllWrittenIn, NestedRule.WrittenIn, Component.Within, Component.WithinAll,
      List.forall_mem_cons, List.not_mem_nil, false_implies, implies_true, and_true]
    decide
  have htidy : bodyIsTidy true (NestedRule.ofBody content) = true := by
    rw [htree]
    decide
  obtain ⟨rules, hrules', -, hsplit, hone⟩ :=
    splitBlocks_flattenCss (by decide) hcontent hbraces hflat
  cases hrules.symm.trans hrules'
  have hone := hone (isSelector_singleton (by decide) (by decide)) htidy
  exact ⟨hflat, hsplit, hone _ (.head _) (by cbv), hone _ (.tail _ (.head _)) (by cbv)⟩

/-- A slash and a star with a comment between them, in a selector: what is written starts a comment. -/
example : flattenCss ['æ'] "a//**/*b\x7bc:d\x7d".toList = .ok "æ a/*b\x7bc:d;\x7d".toList ∧
    splitBlocks "æ a/*b\x7bc:d;\x7d".toList false = .ok ["æ a/*b\x7bc:d;\x7d".toList] ∧
    styleSheet (Component.parse "æ a/*b\x7bc:d;\x7d".toList) = [.malformed .endOfInput] :=
  ⟨by cbv, by cbv, by cbv⟩

/-- A closing brace in a string ends the block that the string stands in. -/
theorem splitBlocks_of_brace_in_string :
    flattenCss ['æ'] "content:\"\x7d\";".toList = .ok "æ\x7bcontent:\"\x7d\";\x7d".toList ∧
      splitBlocks "æ\x7bcontent:\"\x7d\";\x7d".toList false =
        .error (.unmatched 14 "\";\x7d".toList) := by
  constructor
  · cbv
  · cbv

end CssTemplate.Css
