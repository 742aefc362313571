import CssTemplate.Css.Vendor
import CssTemplate.Proofs.Css.BlockValues
import CssTemplate.Proofs.Css.Enclosing
import CssTemplate.Proofs.Css.Hereditary

/-!
# Tidy rules

If the components of a nesting tree are tidy then so are the texts that flattening makes of them:
selectors under other selectors, heads of at-rules, and values (`tidy_flattenTemplate`). The selectors
around a rule take the place of `&`, or stand in front with a space between, so they have to be tidy
and not blank. A value may also be a block, which is written exactly, if it is settled.
-/

namespace CssTemplate.Css

/-! ## Heads of rules -/

/-- A selector that others can stand under. -/
structure IsSelector (text : List Char) : Prop where
  tidy : Tidy .selectors true text
  filled : text ≠ []

/-- A list that mentions the nesting selector is not all white space. -/
theorem mem_of_mentionsOuter {cs : List Component} (h : mentionsOuter cs = true) :
    ∃ c ∈ cs, c.isSpace = false := by
  induction cs with
  | nil => cases h
  | cons c cs ih =>
    rw [mentionsOuter, Bool.or_eq_true] at h
    rcases h with h | h
    · refine ⟨c, .head _, ?_⟩
      cases c with
      | atom a => cases a <;> first | rfl | cases h
      | group o content => rfl
    · obtain ⟨d, hd, hspace⟩ := ih h
      exact ⟨d, .tail _ hd, hspace⟩

/-- A tidy selector under another one, if it is not blank. -/
theorem isSelector_nestSelector {outer : List Char} (houter : IsSelector outer)
    {inner : List Component} (h : areTidy .selectors inner = true)
    (hfilled : minifiedText none inner ≠ []) : IsSelector (nestSelector outer inner) := by
  have hinner := tidy_minifiedText fillsIn_none h
  unfold nestSelector
  split
  · next hmentions =>
    have hfill : FillsIn .selectors (some outer) := by
      rintro text ⟨⟩
      exact ⟨houter.tidy, houter.filled⟩
    obtain ⟨c, hc, hspace⟩ := mem_of_mentionsOuter hmentions
    exact ⟨tidy_minifiedText hfill h, minifiedText_ne_nil hfill h hc hspace⟩
  · rw [if_neg (by simpa using houter.filled)]
    exact ⟨houter.tidy.append_of_ne_nil houter.filled (.space hfilled hinner), by simp⟩

/-- Tidy selectors under others. -/
theorem isSelector_nestSelectors {outer : List (List Char)} (houter : ∀ s ∈ outer, IsSelector s)
    {inner : List Component} (h : ((selectorGroups inner).all (areTidy .selectors)) = true) :
    ∀ s ∈ nestSelectors outer inner, IsSelector s := by
  intro s hs
  obtain ⟨selector, hselector, hs⟩ := List.mem_flatMap.1 hs
  obtain ⟨group, hgroup, rfl⟩ := List.mem_map.1 hs
  have hfilled := (List.mem_filter.1 hgroup).2
  exact isSelector_nestSelector (houter selector hselector) (List.all_eq_true.1 h group hgroup)
    (by simpa using hfilled)

/-- Selectors joined by commas are tidy. -/
theorem tidy_joinCommas {selectors : List (List Char)} (h : ∀ s ∈ selectors, IsSelector s) :
    Tidy .selectors true (joinCommas selectors) := by
  induction selectors with
  | nil => exact .nil
  | cons s selectors ih =>
    obtain ⟨hs, hselectors⟩ := List.forall_mem_cons.1 h
    cases selectors with
    | nil => simpa [joinCommas, List.intercalate] using hs.tidy
    | cons next selectors =>
      have hjoin : joinCommas (s :: next :: selectors) = s ++ ',' :: joinCommas (next :: selectors) := by
        simp [joinCommas, List.intercalate, List.intersperse]
      rw [hjoin]
      exact hs.tidy.append_of_ne_nil hs.filled (.char (by decide) rfl (ih hselectors).inside)

/-- Whether a name is an identifier without escapes. -/
def isPlainIdent (name : List Char) : Bool :=
  startsIdent name && name.all isNameChar

/-- The test for identifiers without escapes. -/
theorem plainIdent_of_isPlainIdent {name : List Char} (h : isPlainIdent name = true) :
    PlainIdent name := by
  rw [isPlainIdent, Bool.and_eq_true, List.all_eq_true] at h
  exact ⟨h.1, h.2⟩

/-- The head of an at-rule with the given keyword. -/
structure IsAtHead (keyword head : List Char) : Prop where
  plain : PlainIdent keyword
  written : ∃ text, Tidy .prelude true text ∧
    head = '@' :: keyword ++ if text.isEmpty then [] else ' ' :: text

/-- A plain keyword and a tidy prelude are the head of an at-rule. -/
theorem isAtHead_headText {keyword : List Char} (hkeyword : PlainIdent keyword)
    {prelude : List Component} (h : areTidy .prelude prelude = true) :
    IsAtHead keyword (headText keyword prelude) :=
  ⟨hkeyword, _, tidy_minifiedText fillsIn_none h, rfl⟩

/-! ## Rules -/

/-- A value as it is written: a tidy text, or a settled block that no mark follows. -/
def IsWrittenValue (value : List Char) (important : Bool) : Prop :=
  Tidy .value true value ∨ important = false ∧ ∃ content, IsSettledBlock content ∧
    value = (Component.group (.bracket .curly) content).text

/-- A bare name, or a declaration with a plain name and a value that is read back; where it is asked for,
also one that needs no vendor-prefixed copies. -/
def FlatDeclaration.IsTidy (unprefixed : Bool) : FlatDeclaration → Prop
  | .bare identifier => ∃ name, IsName name ∧ identifier = identifierText name
  | .property name value important =>
    PlainIdent name ∧ IsWrittenValue value important ∧ (unprefixed = true → prefixesOf name = [])

/-- The head of a block of declarations: a selector list, or an at-rule outside all selectors. -/
def IsBlockHead (head : List Char) : Prop :=
  Tidy .selectors true head ∨
    ∃ keyword, AtRuleKind.ofKeyword keyword = .unscoped ∧ IsAtHead keyword head

mutual

/-- The heads and the declarations of a flat rule are tidy. -/
def FlatRule.IsTidy (unprefixed : Bool) : FlatRule → Prop
  | .style selectors declarations =>
    IsBlockHead (joinCommas selectors) ∧ ∀ d ∈ declarations, d.IsTidy unprefixed
  | .atRule head rules =>
    (∃ keyword, AtRuleKind.ofKeyword keyword ≠ .unscoped ∧ IsAtHead keyword head) ∧
      FlatRule.AllTidy unprefixed rules

/-- The same for all rules of a list. -/
def FlatRule.AllTidy (unprefixed : Bool) : List FlatRule → Prop
  | [] => True
  | rule :: rules => rule.IsTidy unprefixed ∧ FlatRule.AllTidy unprefixed rules

end

/-- The rules of a list are tidy if each of them is. -/
theorem FlatRule.allTidy_iff {unprefixed : Bool} {rules : List FlatRule} :
    FlatRule.AllTidy unprefixed rules ↔ ∀ rule ∈ rules, rule.IsTidy unprefixed := by
  induction rules with
  | nil => simp [FlatRule.AllTidy]
  | cons rule rules ih => simp [FlatRule.AllTidy, ih]

/-- Whether the value of a declaration is tidy, or one settled block without a mark after it. -/
def Declaration.hasTidyValue (d : Declaration) : Bool :=
  areTidy .value d.value || !d.important && (valueBlock? d.value).any isSettledBlock

mutual

/-- Whether the components of a node are tidy where they stand. Rules may only stand under selectors,
not in an at-rule that is outside of them, and a block may only be a value by itself. -/
def NestedRule.isTidy (styled : Bool) : NestedRule → Bool
  | .bare _ => true
  | .declaration d => isPlainIdent d.name && d.hasTidyValue
  | .rule selectors body =>
    styled && (selectorGroups selectors).all (areTidy .selectors) && bodyIsTidy true body
  | .atRule kind keyword prelude body =>
    isPlainIdent keyword && kind == .ofKeyword keyword && areTidy .prelude prelude &&
      match kind with
      | .conditional => bodyIsTidy styled body
      | .keyframes => framesAreTidy body
      | .unscoped => bodyIsTidy false body
  | .atStatement _ _ => false
  | .malformed _ => false

/-- The same for all nodes of a body. -/
def bodyIsTidy (styled : Bool) : List NestedRule → Bool
  | [] => true
  | node :: nodes => node.isTidy styled && bodyIsTidy styled nodes

/-- The same for the frames of an animation, whose selectors may not be blank. -/
def framesAreTidy : List NestedRule → Bool
  | [] => true
  | .rule selector body :: nodes =>
    areTidy .selectors selector && !(minifiedText none selector).isEmpty && bodyIsTidy true body &&
      framesAreTidy nodes
  | _ :: _ => false

end

mutual

/-- Whether no declaration of a node needs vendor-prefixed copies. -/
def NestedRule.isUnprefixed : NestedRule → Bool
  | .declaration d => (prefixesOf d.name).isEmpty
  | .rule _ body => bodyIsUnprefixed body
  | .atRule _ _ _ body => bodyIsUnprefixed body
  | _ => true

/-- The same for all nodes of a body. -/
def bodyIsUnprefixed : List NestedRule → Bool
  | [] => true
  | node :: nodes => node.isUnprefixed && bodyIsUnprefixed nodes

end

/-- What stands around a body: selectors, or the head of an at-rule outside of them. -/
def IsScope : Bool → List (List Char) → Prop
  | true, selectors => ∀ s ∈ selectors, IsSelector s
  | false, selectors =>
    ∃ keyword head, selectors = [head] ∧ AtRuleKind.ofKeyword keyword = .unscoped ∧
      IsAtHead keyword head

/-- What stands around a body is the head of its block. -/
theorem IsScope.isBlockHead {styled : Bool} {selectors : List (List Char)}
    (h : IsScope styled selectors) : IsBlockHead (joinCommas selectors) := by
  cases styled with
  | true => exact .inl (tidy_joinCommas h)
  | false =>
    obtain ⟨keyword, head, rfl, hkind, hhead⟩ := h
    exact .inr ⟨keyword, hkind, by simpa [joinCommas, List.intercalate] using hhead⟩

/-- What a body gives is tidy. -/
structure Flattened.IsTidy (unprefixed : Bool) (flat : Flattened) : Prop where
  own : ∀ d ∈ flat.own, d.IsTidy unprefixed
  inner : ∀ rule ∈ flat.inner, rule.IsTidy unprefixed

/-- A component whose tokens can be read. -/
def Component.Formed (c : Component) : Prop :=
  ∀ t ∈ c.tokens, t.Formed

/-- The tokens in a block can be read if those of the block can. -/
theorem hereditary_formed : Hereditary Component.Formed := by
  intro content h c hc t ht
  refine h t ?_
  rw [Component.tokens]
  exact .tail _ (List.mem_append_left _ (forall_mem_tokensOf.1 (fun _ h => h) c hc t ht))

/-- The tokens in the body of a template can be read. -/
theorem formed_templateBody {context css : List Char} {content : List Component}
    (h : templateBody context css = .ok content) : ∀ c ∈ content, c.Formed :=
  holds_templateBody hereditary_formed (forall_mem_tokensOf.1 (formed_parse _)) h

/-- The value of a declaration is written so that it is read back. -/
theorem isWrittenValue_minifiedText {d : Declaration} (hformed : ∀ c ∈ d.value, c.Formed)
    (h : d.hasTidyValue = true) : IsWrittenValue (minifiedText none d.value) d.important := by
  rw [Declaration.hasTidyValue, Bool.or_eq_true, Bool.and_eq_true, Bool.not_eq_true',
    Option.any_eq_true] at h
  rcases h with htidy | ⟨himportant, content, hcontent, hsettled⟩
  · exact .inl (tidy_minifiedText fillsIn_none htidy)
  · have hblock := IsSettledBlock.of_isSettledBlock (formed_valueBlock hformed hcontent) hsettled
    exact .inr ⟨himportant, content, hblock, minifiedText_of_valueBlock hcontent⟩

section

variable {unprefixed : Bool}

namespace Flattened.IsTidy

/-- The rules that a body gives in its scope. -/
theorem rules {flat : Flattened} (h : flat.IsTidy unprefixed) {styled : Bool}
    {selectors : List (List Char)} (hscope : IsScope styled selectors) :
    ∀ rule ∈ flat.rules selectors, rule.IsTidy unprefixed := by
  intro rule hrule
  rcases List.mem_append.1 hrule with hrule | hrule
  · split at hrule
    · cases hrule
    · rw [List.mem_singleton.1 hrule]
      exact ⟨hscope.isBlockHead, h.own⟩
  · exact h.inner rule hrule

/-- A body that gives rules only. -/
theorem ofInner {inner : List FlatRule} (h : ∀ rule ∈ inner, rule.IsTidy unprefixed) :
    Flattened.IsTidy unprefixed { inner := inner } :=
  ⟨List.forall_mem_nil _, h⟩

/-- A body that is one declaration. -/
theorem ofOwn {d : FlatDeclaration} (h : d.IsTidy unprefixed) :
    Flattened.IsTidy unprefixed { own := [d] } :=
  ⟨List.forall_mem_singleton.2 h, List.forall_mem_nil _⟩

end Flattened.IsTidy

mutual

/-- A tidy node gives tidy rules. -/
theorem NestedRule.tidy_flatten {styled : Bool} {selectors : List (List Char)}
    (hscope : IsScope styled selectors) {flat : Flattened} :
    ∀ node : NestedRule, node.Holds Component.Formed → node.isTidy styled = true →
      (unprefixed = true → node.isUnprefixed = true) → node.flatten selectors = .ok flat →
        flat.IsTidy unprefixed
  | .bare name, hformed, _, _, hflat => by
    cases hflat
    have hname : IsName name := hformed (.atom (.ident name)) (.head _)
    exact .ofOwn ⟨name, hname, rfl⟩
  | .declaration d, hformed, h, hplain, hflat => by
    obtain ⟨value, hvalue, hflat⟩ := Except.bind_eq_ok_iff.1 hflat
    cases hflat
    rw [NestedRule.isTidy, Bool.and_eq_true] at h
    rw [minify_eq_ok hvalue]
    have hholds : d.Holds Component.Formed := hformed
    exact .ofOwn ⟨plainIdent_of_isPlainIdent h.1, isWrittenValue_minifiedText hholds.value h.2,
      fun hunprefixed => List.isEmpty_iff.1 (hplain hunprefixed)⟩
  | .rule inner body, hformed, h, hplain, hflat => by
    obtain ⟨under, hunder, hflat⟩ := Except.bind_eq_ok_iff.1 hflat
    obtain ⟨nested, hnested, hflat⟩ := Except.bind_eq_ok_iff.1 hflat
    cases hflat
    simp only [NestedRule.isTidy, Bool.and_eq_true] at h
    obtain ⟨⟨rfl, hinner⟩, hbody⟩ := h
    have hscope : IsScope true under := by
      rw [selectorsUnder_eq_ok hunder]
      exact isSelector_nestSelectors hscope hinner
    rw [NestedRule.Holds] at hformed
    exact .ofInner ((tidy_flattenBody hscope body hformed.2 hbody hplain hnested).rules hscope)
  | .atRule kind keyword prelude body, hformed, h, hplain, hflat => by
    rw [NestedRule.Holds] at hformed
    obtain ⟨-, -, hformed⟩ := hformed
    simp only [NestedRule.isTidy, Bool.and_eq_true, beq_iff_eq] at h
    obtain ⟨⟨⟨hkeyword, hkind⟩, hprelude⟩, hbody⟩ := h
    have hhead := isAtHead_headText (plainIdent_of_isPlainIdent hkeyword) hprelude
    cases kind with
    | conditional =>
      obtain ⟨head, hheadText, hflat⟩ := Except.bind_eq_ok_iff.1 hflat
      obtain ⟨nested, hnested, hflat⟩ := Except.bind_eq_ok_iff.1 hflat
      cases hflat
      rw [← atRuleHead_eq_ok hheadText] at hhead
      have hrules := (tidy_flattenBody hscope body hformed hbody hplain hnested).rules hscope
      exact .ofInner (List.forall_mem_singleton.2
        ⟨⟨keyword, by simp [← hkind], hhead⟩, FlatRule.allTidy_iff.2 hrules⟩)
    | keyframes =>
      obtain ⟨head, hheadText, hflat⟩ := Except.bind_eq_ok_iff.1 hflat
      obtain ⟨rules, hrules, hflat⟩ := Except.bind_eq_ok_iff.1 hflat
      cases hflat
      rw [← atRuleHead_eq_ok hheadText] at hhead
      have hrules := tidy_flattenFrames head body hformed hbody hplain hrules
      exact .ofInner (List.forall_mem_singleton.2
        ⟨⟨keyword, by simp [← hkind], hhead⟩, FlatRule.allTidy_iff.2 hrules⟩)
    | unscoped =>
      obtain ⟨head, hheadText, hflat⟩ := Except.bind_eq_ok_iff.1 hflat
      obtain ⟨nested, hnested, hflat⟩ := Except.bind_eq_ok_iff.1 hflat
      cases hflat
      rw [← atRuleHead_eq_ok hheadText] at hhead
      have hscope : IsScope false [head] := ⟨keyword, head, rfl, hkind.symm, hhead⟩
      refine .ofInner ?_
      split
      · exact List.forall_mem_singleton.2 ⟨hscope.isBlockHead, List.forall_mem_nil _⟩
      · exact (tidy_flattenBody hscope body hformed hbody hplain hnested).rules hscope
  | .atStatement keyword prelude, _, h, _, _ => by cases h
  | .malformed what, _, h, _, _ => by cases h

/-- A tidy body gives tidy rules. -/
theorem tidy_flattenBody {styled : Bool} {selectors : List (List Char)}
    (hscope : IsScope styled selectors) {flat : Flattened} :
    ∀ nodes : List NestedRule, NestedRule.HoldsOf Component.Formed nodes →
      bodyIsTidy styled nodes = true → (unprefixed = true → bodyIsUnprefixed nodes = true) →
        flattenBody selectors nodes = .ok flat → flat.IsTidy unprefixed
  | [], _, _, _, hflat => by
    cases hflat
    exact ⟨List.forall_mem_nil _, List.forall_mem_nil _⟩
  | node :: nodes, hformed, h, hplain, hflat => by
    rw [NestedRule.HoldsOf] at hformed
    obtain ⟨first, hfirst, hflat⟩ := Except.bind_eq_ok_iff.1 hflat
    obtain ⟨rest, hrest, hflat⟩ := Except.bind_eq_ok_iff.1 hflat
    cases hflat
    rw [bodyIsTidy, Bool.and_eq_true] at h
    rw [bodyIsUnprefixed, Bool.and_eq_true] at hplain
    have hfirst := NestedRule.tidy_flatten hscope node hformed.1 h.1 (fun hu => (hplain hu).1) hfirst
    have hrest := tidy_flattenBody hscope nodes hformed.2 h.2 (fun hu => (hplain hu).2) hrest
    exact ⟨List.forall_mem_append.2 ⟨hfirst.own, hrest.own⟩,
      List.forall_mem_append.2 ⟨hfirst.inner, hrest.inner⟩⟩

/-- The tidy frames of an animation give tidy rules. -/
theorem tidy_flattenFrames (head : List Char) {rules : List FlatRule} :
    ∀ nodes : List NestedRule, NestedRule.HoldsOf Component.Formed nodes →
      framesAreTidy nodes = true → (unprefixed = true → bodyIsUnprefixed nodes = true) →
        flattenFrames head nodes = .ok rules → ∀ rule ∈ rules, rule.IsTidy unprefixed
  | [], _, _, _, hrules => by
    cases hrules
    exact List.forall_mem_nil _
  | .rule selector body :: nodes, hformed, h, hplain, hrules => by
    rw [NestedRule.HoldsOf, NestedRule.Holds] at hformed
    obtain ⟨own, hown, hrules⟩ := Except.bind_eq_ok_iff.1 hrules
    obtain ⟨flat, hflat, hrules⟩ := Except.bind_eq_ok_iff.1 hrules
    obtain ⟨rest, hrest, hrules⟩ := Except.bind_eq_ok_iff.1 hrules
    cases hrules
    simp only [framesAreTidy, Bool.and_eq_true, Bool.not_eq_true', List.isEmpty_eq_false_iff] at h
    obtain ⟨⟨⟨hselector, hfilled⟩, hbody⟩, hnodes⟩ := h
    rw [bodyIsUnprefixed, Bool.and_eq_true] at hplain
    have hscope : IsScope true [own] := by
      rw [minify_eq_ok hown]
      exact List.forall_mem_singleton.2 ⟨tidy_minifiedText fillsIn_none hselector, hfilled⟩
    exact List.forall_mem_append.2
      ⟨(tidy_flattenBody hscope body hformed.1.2 hbody (fun hu => (hplain hu).1) hflat).rules hscope,
        tidy_flattenFrames head nodes hformed.2 hnodes (fun hu => (hplain hu).2) hrest⟩
  | .bare _ :: _, _, h, _, _ => by cases h
  | .declaration _ :: _, _, h, _, _ => by cases h
  | .atRule _ _ _ _ :: _, _, h, _, _ => by cases h
  | .atStatement _ _ :: _, _, h, _, _ => by cases h
  | .malformed _ :: _, _, h, _, _ => by cases h

end

/-- A template whose nesting tree is tidy gives tidy rules. -/
theorem tidy_flattenTemplate {context css : List Char} (hcontext : IsSelector context)
    {content : List Component} (hcontent : templateBody context css = .ok content)
    (htidy : bodyIsTidy true (NestedRule.ofBody content) = true)
    (hplain : unprefixed = true → bodyIsUnprefixed (NestedRule.ofBody content) = true)
    {rules : List FlatRule} (hrules : flattenTemplate context css = .ok rules) :
    ∀ rule ∈ rules, rule.IsTidy unprefixed := by
  obtain ⟨content', hcontent', hrules⟩ := Except.bind_eq_ok_iff.1 hrules
  rw [hcontent] at hcontent'
  cases hcontent'
  obtain ⟨flat, hflat, hrules⟩ := Except.bind_eq_ok_iff.1 hrules
  cases hrules
  have hscope : IsScope true [context] := List.forall_mem_singleton.2 hcontext
  have hformed := NestedRule.holds_ofBody hereditary_formed (formed_templateBody hcontent)
  exact (tidy_flattenBody hscope _ hformed htidy hplain hflat).rules hscope

end

end CssTemplate.Css
