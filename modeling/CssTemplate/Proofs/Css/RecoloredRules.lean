import CssTemplate.Css.Vendor
import CssTemplate.Proofs.Css.RecoloredText
import CssTemplate.Proofs.Except

/-!
# Flattening and prefixing in other colors

The two steps that CSS goes through commute with a recoloring: flattening a recolored template
under a recolored selector gives the recolored result or the recolored fault (`flattenCss_map`),
and so does adding vendor prefixes (`withVendorPrefixes_map`). Both ask only that no numeric escape
of the text which they read names a character that the recoloring changes.
-/

namespace CssTemplate.Css

/-! ## Results -/

/-- A fault in other colors. -/
def Fault.map (f : Char → Char) : Fault → Fault
  | .token what => .token what
  | .rule what => .rule what
  | .unbalanced css => .unbalanced (css.map f)
  | .statementAtRule head => .statementAtRule (head.map f)
  | .strayInFrames sort head => .strayInFrames sort (head.map f)
  | .strayInRule sort => .strayInRule sort

/-- A result in other colors, where `g` recolors what there is on success. -/
def mapResult {α β : Type} (f : Char → Char) (g : α → β) : Except Fault α → Except Fault β
  | .ok a => .ok (g a)
  | .error what => .error (what.map f)

section Results

variable {α β γ δ : Type} {f : Char → Char} {g : α → β} {h : γ → δ}

/-- A recolored success. -/
@[simp] theorem mapResult_ok (a : α) : mapResult f g (.ok a) = .ok (g a) := rfl

/-- A recolored fault. -/
@[simp] theorem mapResult_error (what : Fault) :
    mapResult f g (.error what) = .error (what.map f) := rfl

/-- Two steps in other colors. -/
theorem bind_mapResult {x : Except Fault α} {k : α → Except Fault γ} {k' : β → Except Fault δ}
    (hk : ∀ a, k' (g a) = mapResult f h (k a)) :
    (mapResult f g x >>= k') = mapResult f h (x >>= k) := by
  cases x with
  | ok a => exact hk a
  | error what => rfl

/-- A step that commutes with a recoloring can follow a recolored result. -/
theorem map_mapResult {x : Except Fault α} {k : α → γ} {k' : β → δ}
    (hk : ∀ a, k' (g a) = h (k a)) : (mapResult f g x).map k' = mapResult f h (x.map k) := by
  cases x with
  | ok a => exact congrArg Except.ok (hk a)
  | error what => rfl

end Results

/-! ## Flat rules -/

/-- A declaration in other colors. -/
def FlatDeclaration.map (f : Char → Char) : FlatDeclaration → FlatDeclaration
  | .bare identifier => .bare (identifier.map f)
  | .property name value important => .property (name.map f) (value.map f) important

mutual

/-- A flat rule in other colors. -/
def FlatRule.map (f : Char → Char) : FlatRule → FlatRule
  | .style selectors declarations =>
    .style (selectors.map (List.map f)) (declarations.map (FlatDeclaration.map f))
  | .atRule head rules => .atRule (head.map f) (FlatRule.mapAll f rules)

/-- Flat rules in other colors. -/
def FlatRule.mapAll (f : Char → Char) : List FlatRule → List FlatRule
  | [] => []
  | rule :: rules => rule.map f :: FlatRule.mapAll f rules

end

/-- Flat rules are recolored one by one. -/
theorem FlatRule.mapAll_eq (f : Char → Char) (rules : List FlatRule) :
    FlatRule.mapAll f rules = rules.map (FlatRule.map f) := by
  induction rules with
  | nil => rfl
  | cons rule rules ih => rw [FlatRule.mapAll, ih, List.map_cons]

/-- What a body gives, in other colors. -/
def Flattened.map (f : Char → Char) (flat : Flattened) : Flattened where
  own := flat.own.map (FlatDeclaration.map f)
  inner := flat.inner.map (FlatRule.map f)

/-- Recoloring what two nodes give recolors both parts. -/
theorem Flattened.append_map (f : Char → Char) (a b : Flattened) :
    (a.map f).append (b.map f) = (a.append b).map f := by
  simp [Flattened.map, Flattened.append]

/-- The rules of a recolored body are its recolored rules. -/
theorem Flattened.rules_map (f : Char → Char) (flat : Flattened) (selectors : List (List Char)) :
    (flat.map f).rules (selectors.map (List.map f)) =
      (flat.rules selectors).map (FlatRule.map f) := by
  rcases flat with ⟨_ | ⟨first, own⟩, inner⟩
  · simp [Flattened.map, Flattened.rules]
  · simp [Flattened.map, Flattened.rules, FlatRule.map]

section

variable {f : Char → Char} (hf : Recoloring f)

include hf

/-- Writing a flat declaration commutes with a recoloring. -/
theorem FlatDeclaration.text_map (d : FlatDeclaration) : (d.map f).text = d.text.map f := by
  have himportant : "!important".toList.map f = "!important".toList := hf.map_ascii (by decide)
  cases d with
  | bare identifier => simp [FlatDeclaration.map, FlatDeclaration.text, hf.fixes ';' rfl]
  | property name value important =>
    cases important <;>
      simp only [FlatDeclaration.map, FlatDeclaration.text, List.map_append, List.map_cons,
        List.map_nil, hf.fixes ':' rfl, hf.fixes ';' rfl, himportant, if_true, Bool.false_eq_true, if_false,
        List.append_nil]

/-- Writing declarations commutes with a recoloring. -/
theorem declarationsText_map (declarations : List FlatDeclaration) :
    declarationsText (declarations.map (FlatDeclaration.map f)) =
      (declarationsText declarations).map f := by
  rw [declarationsText, declarationsText, List.flatMap_map, List.map_flatMap]
  exact congrArg (List.flatMap · declarations) (funext (FlatDeclaration.text_map hf))

/-- Joining texts by commas commutes with a recoloring. -/
theorem joinCommas_map (texts : List (List Char)) :
    joinCommas (texts.map (List.map f)) = (joinCommas texts).map f := by
  induction texts with
  | nil => rfl
  | cons text texts ih =>
    cases texts with
    | nil => simp [joinCommas]
    | cons next texts =>
      have hcons : ∀ text next : List Char, ∀ texts, joinCommas (text :: next :: texts) =
          text ++ ',' :: joinCommas (next :: texts) := by
        intro text next texts
        simp [joinCommas, List.intercalate, List.intersperse]
      rw [List.map_cons] at ih
      rw [List.map_cons, List.map_cons, hcons, hcons, ih, List.map_append, List.map_cons,
        hf.fixes ',' rfl]

/-- Writing a block commutes with a recoloring. -/
theorem blockText_map (head body : List Char) :
    blockText (head.map f) (body.map f) = (blockText head body).map f := by
  simp [blockText, hf.fixes '{' rfl, hf.fixes '}' rfl]

end

mutual

/-- Writing a flat rule commutes with a recoloring. -/
theorem FlatRule.text_map {f : Char → Char} (hf : Recoloring f) : ∀ rule : FlatRule,
    (rule.map f).text = rule.text.map f
  | .style selectors declarations => by
    rw [FlatRule.map, FlatRule.text, FlatRule.text, joinCommas_map hf, declarationsText_map hf,
      blockText_map hf]
  | .atRule head rules => by
    rw [FlatRule.map, FlatRule.text, FlatRule.text, rulesText_mapAll hf rules, blockText_map hf]

/-- Writing flat rules commutes with a recoloring. -/
theorem rulesText_mapAll {f : Char → Char} (hf : Recoloring f) : ∀ rules : List FlatRule,
    rulesText (FlatRule.mapAll f rules) = (rulesText rules).map f
  | [] => rfl
  | rule :: rules => by
    rw [FlatRule.mapAll, rulesText, rulesText, FlatRule.text_map hf rule, rulesText_mapAll hf rules,
      List.map_append]

end

section

variable {f : Char → Char} (hf : Recoloring f)

include hf

/-! ## Selectors and heads -/

/-- Minifying commutes with a recoloring, faults included. -/
theorem minify_map (cs : List Component) :
    minify (cs.map (Component.map f)) = mapResult f (List.map f) (minify cs) := by
  have htext := minifiedText_map hf none cs
  rw [Option.map_none] at htext
  rw [minify, minify, firstFaultOf_map, htext]
  cases firstFaultOf cs <;> rfl

/-- The head of an at-rule commutes with a recoloring. -/
theorem atRuleHead_map (keyword : List Char) (prelude : List Component) :
    atRuleHead (keyword.map f) (prelude.map (Component.map f)) =
      mapResult f (List.map f) (atRuleHead keyword prelude) := by
  rw [atRuleHead, atRuleHead, minify_map hf]
  refine map_mapResult fun text => ?_
  cases text with
  | nil => simp [hf.fixes '@' rfl]
  | cons c text => simp [hf.fixes '@' rfl, hf.fixes ' ' rfl]

/-- Recolored selectors have the recolored groups between their commas. -/
theorem selectorGroups_map (selectors : List Component) :
    selectorGroups (selectors.map (Component.map f)) =
      (selectorGroups selectors).map (List.map (Component.map f)) := by
  have hsplit : splitWhere (·.isLiteral [',']) (selectors.map (Component.map f)) =
      (splitWhere (·.isLiteral [',']) selectors).map (List.map (Component.map f)) := by
    induction selectors with
    | nil => rfl
    | cons c cs ih =>
      rw [List.map_cons, splitWhere, splitWhere, Component.isLiteral_map hf [','] (by decide), ih]
      split
      · rfl
      · cases splitWhere (·.isLiteral [',']) cs <;> rfl
  rw [selectorGroups, selectorGroups, hsplit, List.filter_map]
  congr 2
  funext group
  have := minifiedText_map hf none group
  rw [Option.map_none] at this
  simp [this]

/-- Nesting one selector in another commutes with a recoloring. -/
theorem nestSelector_map (outer : List Char) (inner : List Component) :
    nestSelector (outer.map f) (inner.map (Component.map f)) = (nestSelector outer inner).map f := by
  have hsome := minifiedText_map hf (some outer) inner
  have hnone := minifiedText_map hf none inner
  rw [Option.map_some] at hsome
  rw [Option.map_none] at hnone
  rw [nestSelector, nestSelector, mentionsOuter_map hf, hsome, hnone, List.isEmpty_map]
  split
  · rfl
  · split
    · rfl
    · simp [hf.fixes ' ' rfl]

/-- Nesting a list of selectors in another commutes with a recoloring, faults included. -/
theorem selectorsUnder_map (outer : List (List Char)) (inner : List Component) :
    selectorsUnder (outer.map (List.map f)) (inner.map (Component.map f)) =
      mapResult f (List.map (List.map f)) (selectorsUnder outer inner) := by
  have hnest : nestSelectors (outer.map (List.map f)) (inner.map (Component.map f)) =
      (nestSelectors outer inner).map (List.map f) := by
    rw [nestSelectors, nestSelectors, List.flatMap_map, List.map_flatMap]
    refine congrArg (List.flatMap · outer) (funext fun selector => ?_)
    rw [selectorGroups_map hf, List.map_map, List.map_map]
    exact List.map_congr_left fun group _ => nestSelector_map hf selector group
  rw [selectorsUnder, selectorsUnder, List.isEmpty_map, firstFaultOf_map, hnest]
  split
  · rfl
  · cases firstFaultOf inner <;> rfl

end

/-! ## Flattening -/

/-- A recolored node is of the same sort. -/
theorem NestedRule.sort_map (f : Char → Char) (node : NestedRule) :
    (node.map f).sort = node.sort := by
  cases node <;> rw [NestedRule.map] <;> rfl

/-- Frames end at the first node that is no rule. -/
theorem flattenFrames_stray (head : List Char) {node : NestedRule} (nodes : List NestedRule)
    (h : ∀ selector body, node ≠ .rule selector body) :
    flattenFrames head (node :: nodes) = .error (.strayInFrames node.sort head) := by
  rw [flattenFrames]
  exact h

/-- A node that is no rule among frames gives the recolored fault. -/
theorem flattenFrames_map_stray (f : Char → Char) (head : List Char) {node : NestedRule}
    (nodes : List NestedRule) (h : ∀ selector body, node ≠ .rule selector body) :
    flattenFrames (head.map f) (NestedRule.mapAll f (node :: nodes)) =
      mapResult f (List.map (FlatRule.map f)) (flattenFrames head (node :: nodes)) := by
  have hmap : ∀ selector body, node.map f ≠ .rule selector body := by
    intro selector body
    cases node with
    | rule inner content => exact absurd rfl (h inner content)
    | _ => rw [NestedRule.map]; exact NestedRule.noConfusion
  rw [NestedRule.mapAll, flattenFrames_stray _ _ hmap, flattenFrames_stray _ _ h,
    NestedRule.sort_map]
  rfl

mutual

/-- Flattening a recolored node gives the recolored result. -/
theorem NestedRule.flatten_map {f : Char → Char} (hf : Recoloring f)
    (selectors : List (List Char)) : ∀ node : NestedRule,
    (node.map f).flatten (selectors.map (List.map f)) =
      mapResult f (Flattened.map f) (node.flatten selectors)
  | .bare name => by
    simp [NestedRule.map, NestedRule.flatten, identifierText_map hf, Flattened.map,
      FlatDeclaration.map]
  | .declaration d => by
    rw [NestedRule.map, NestedRule.flatten, NestedRule.flatten]
    exact (congrArg (· >>= _) (minify_map hf d.value)).trans (bind_mapResult fun value => rfl)
  | .rule inner body => by
    rw [NestedRule.map, NestedRule.flatten, NestedRule.flatten, selectorsUnder_map hf]
    refine bind_mapResult fun nested => ?_
    rw [flattenBody_map hf nested body]
    refine bind_mapResult fun flat => ?_
    rw [Flattened.rules_map]
    rfl
  | .atRule .conditional keyword prelude body => by
    rw [NestedRule.map, NestedRule.flatten, NestedRule.flatten, atRuleHead_map hf]
    refine bind_mapResult fun head => ?_
    rw [flattenBody_map hf selectors body]
    refine bind_mapResult fun flat => ?_
    rw [Flattened.rules_map]
    simp [Flattened.map, FlatRule.map, FlatRule.mapAll_eq]
  | .atRule .keyframes keyword prelude frames => by
    rw [NestedRule.map, NestedRule.flatten, NestedRule.flatten, atRuleHead_map hf]
    refine bind_mapResult fun head => ?_
    rw [flattenFrames_map hf head frames]
    refine bind_mapResult fun rules => ?_
    simp [Flattened.map, FlatRule.map, FlatRule.mapAll_eq]
  | .atRule .unscoped keyword prelude body => by
    rw [NestedRule.map, NestedRule.flatten, NestedRule.flatten, atRuleHead_map hf]
    refine bind_mapResult fun head => ?_
    have hbody := flattenBody_map hf [head] body
    rw [List.map_singleton] at hbody
    rw [hbody]
    refine bind_mapResult fun flat => ?_
    have hrules := Flattened.rules_map f flat [head]
    rw [List.map_singleton] at hrules
    simp only [hrules, List.isEmpty_map]
    split <;> simp [Flattened.map, FlatRule.map]
  | .atStatement keyword prelude => by
    rw [NestedRule.map, NestedRule.flatten, NestedRule.flatten, atRuleHead_map hf]
    exact bind_mapResult fun head => rfl
  | .malformed what => by rw [NestedRule.map, NestedRule.flatten, NestedRule.flatten]; rfl

/-- Flattening a recolored body gives the recolored result. -/
theorem flattenBody_map {f : Char → Char} (hf : Recoloring f) (selectors : List (List Char)) :
    ∀ nodes : List NestedRule,
    flattenBody (selectors.map (List.map f)) (NestedRule.mapAll f nodes) =
      mapResult f (Flattened.map f) (flattenBody selectors nodes)
  | [] => by rw [NestedRule.mapAll, flattenBody, flattenBody]; rfl
  | node :: nodes => by
    rw [NestedRule.mapAll, flattenBody, flattenBody, NestedRule.flatten_map hf selectors node]
    refine bind_mapResult fun first => ?_
    rw [flattenBody_map hf selectors nodes]
    exact bind_mapResult fun rest => congrArg Except.ok (Flattened.append_map f first rest)

/-- Flattening recolored frames gives the recolored result. -/
theorem flattenFrames_map {f : Char → Char} (hf : Recoloring f) (head : List Char) : ∀ nodes : List NestedRule,
    flattenFrames (head.map f) (NestedRule.mapAll f nodes) =
      mapResult f (List.map (FlatRule.map f)) (flattenFrames head nodes)
  | [] => by rw [NestedRule.mapAll, flattenFrames, flattenFrames]; rfl
  | .rule selector body :: nodes => by
    rw [NestedRule.mapAll, NestedRule.map, flattenFrames, flattenFrames, minify_map hf]
    refine bind_mapResult fun selector => ?_
    have hbody := flattenBody_map hf [selector] body
    rw [List.map_singleton] at hbody
    rw [hbody]
    refine bind_mapResult fun flat => ?_
    rw [flattenFrames_map hf head nodes]
    refine bind_mapResult fun rest => ?_
    have hrules := Flattened.rules_map f flat [selector]
    rw [List.map_singleton] at hrules
    rw [hrules, mapResult_ok, List.map_append]
  | .bare _ :: nodes => flattenFrames_map_stray f head nodes (by rintro _ _ ⟨⟩)
  | .declaration _ :: nodes => flattenFrames_map_stray f head nodes (by rintro _ _ ⟨⟩)
  | .atRule _ _ _ _ :: nodes => flattenFrames_map_stray f head nodes (by rintro _ _ ⟨⟩)
  | .atStatement _ _ :: nodes => flattenFrames_map_stray f head nodes (by rintro _ _ ⟨⟩)
  | .malformed _ :: nodes => flattenFrames_map_stray f head nodes (by rintro _ _ ⟨⟩)

end

/-! ## Templates -/

/-- Recolored rules have the same first malformed one. -/
theorem firstMalformed_map (f : Char → Char) (rules : List RawRule) :
    firstMalformed (rules.map (RawRule.map f)) = firstMalformed rules := by
  induction rules with
  | nil => rfl
  | cons rule rules ih =>
    rw [List.map_cons]
    cases rule with
    | malformed what => rfl
    | _ => exact ih

section

variable {f : Char → Char} (hf : Recoloring f)

include hf

/-- The components of a recolored template are the recolored components of the template. -/
theorem templateBody_map {context css : List Char}
    (h : KeepsEscapes f (normalize (blockText context css))) :
    templateBody (context.map f) (css.map f) =
      mapResult f (List.map (Component.map f)) (templateBody context css) := by
  rw [templateBody, templateBody, blockText_map hf, Component.parse_map hf h, styleSheet_map hf,
    firstMalformed_map]
  generalize styleSheet (Component.parse (blockText context css)) = rules
  cases firstMalformed rules with
  | some what => rfl
  | none =>
    rcases rules with _ | ⟨rule, _ | ⟨next, rules⟩⟩
    · rfl
    · cases rule <;> rfl
    · cases rule <;> rfl

/-- Flattening a recolored template under a recolored selector. -/
theorem flattenCss_map {context css : List Char}
    (h : KeepsEscapes f (normalize (blockText context css))) :
    flattenCss (context.map f) (css.map f) = mapResult f (List.map f) (flattenCss context css) := by
  have htemplate : flattenTemplate (context.map f) (css.map f) =
      mapResult f (List.map (FlatRule.map f)) (flattenTemplate context css) := by
    rw [flattenTemplate, flattenTemplate, templateBody_map hf h]
    refine bind_mapResult fun content => ?_
    have hbody := flattenBody_map hf [context] (NestedRule.ofBody content)
    rw [List.map_singleton] at hbody
    rw [NestedRule.ofBody_map hf, hbody]
    refine bind_mapResult fun flat => ?_
    have hrules := Flattened.rules_map f flat [context]
    rw [List.map_singleton] at hrules
    rw [hrules]
    rfl
  rw [flattenCss, flattenCss, htemplate]
  refine map_mapResult fun rules => ?_
  rw [← FlatRule.mapAll_eq, rulesText_mapAll hf]

end

/-! ## Vendor prefixes -/

mutual

/-- A rule of a flat style sheet in other colors. -/
def SheetRule.map (f : Char → Char) : SheetRule → SheetRule
  | .style selectors content =>
    .style (selectors.map (Component.map f)) (content.map (Component.map f))
  | .nested keyword prelude rules =>
    .nested (keyword.map f) (prelude.map (Component.map f)) (SheetRule.mapAll f rules)
  | .declarations keyword prelude content =>
    .declarations (keyword.map f) (prelude.map (Component.map f)) (content.map (Component.map f))
  | .statement keyword prelude => .statement (keyword.map f) (prelude.map (Component.map f))
  | .malformed what => .malformed what

/-- Rules of a flat style sheet in other colors. -/
def SheetRule.mapAll (f : Char → Char) : List SheetRule → List SheetRule
  | [] => []
  | rule :: rules => rule.map f :: SheetRule.mapAll f rules

end

/-- Rules of a flat style sheet are recolored one by one. -/
theorem SheetRule.mapAll_eq (f : Char → Char) (rules : List SheetRule) :
    SheetRule.mapAll f rules = rules.map (SheetRule.map f) := by
  induction rules with
  | nil => rfl
  | cons rule rules ih => rw [SheetRule.mapAll, ih, List.map_cons]

/-- An at-rule with a block that is not unscoped holds the rules of its block. -/
theorem SheetRule.ofRaw_nested {keyword : List Char} (prelude content : List Component)
    (h : AtRuleKind.ofKeyword keyword ≠ .unscoped) :
    SheetRule.ofRaw (.atRule keyword prelude (some content)) =
      .nested keyword prelude ((ruleList content).map SheetRule.ofRaw) := by
  rw [SheetRule.ofRaw, if_neg h, ← List.attach_map_val (l := ruleList content)]

section

variable {f : Char → Char} (hf : Recoloring f)

include hf

/-- Sorting a recolored rule recolors the sorted rule. -/
theorem SheetRule.ofRaw_map (rule : RawRule) :
    SheetRule.ofRaw (rule.map f) = (SheetRule.ofRaw rule).map f := by
  fun_induction SheetRule.ofRaw rule with
  | case1 selectors content => simp [RawRule.map, SheetRule.ofRaw, SheetRule.map]
  | case2 keyword prelude => simp [RawRule.map, SheetRule.ofRaw, SheetRule.map]
  | case3 keyword prelude content hkind =>
    simp [RawRule.map, SheetRule.ofRaw, SheetRule.map, AtRuleKind.ofKeyword_map hf, hkind]
  | case4 keyword prelude content hkind ih =>
    have hkind' : AtRuleKind.ofKeyword (keyword.map f) ≠ .unscoped := by
      rwa [AtRuleKind.ofKeyword_map hf]
    rw [RawRule.map, Option.map_some, SheetRule.ofRaw_nested _ _ hkind', ruleList_map hf]
    simp only [SheetRule.map, SheetRule.mapAll_eq, List.map_map]
    rw [← List.attach_map_val (l := ruleList content)]
    exact congrArg _ (List.map_congr_left fun rule _ => ih rule.1 rule.2)
  | case5 what => simp [RawRule.map, SheetRule.ofRaw, SheetRule.map]

/-- Which prefixes a property has does not depend on characters outside ASCII. -/
theorem prefixesOf_map (name : List Char) : prefixesOf (name.map f) = prefixesOf name := by
  have hascii : ∀ entry ∈ vendorTable, Ascii entry.1 := by decide
  have hfind : ∀ table : List (List Char × List (List Char)),
      (∀ entry ∈ table, Ascii entry.1) → ∀ name : List Char,
      (table.find? fun entry => entry.1 == name.map f) = table.find? fun entry => entry.1 == name := by
    intro table htable name
    induction table with
    | nil => rfl
    | cons entry table ih =>
      have hentry : (entry.1 == name.map f) = (entry.1 == name) := by
        rw [Bool.eq_iff_iff, beq_iff_eq, beq_iff_eq, eq_comm,
          hf.map_eq_ascii_iff (htable entry (.head _)), eq_comm]
      rw [List.find?_cons, List.find?_cons, hentry, ih fun entry h => htable entry (.tail _ h)]
  rw [prefixesOf, prefixesOf, map_toLower_map hf, hfind vendorTable hascii]

/-- The prefixed copies of a recolored declaration are the recolored copies. -/
theorem prefixedDeclaration_map (d : Declaration) (value : List Char) :
    prefixedDeclaration (d.map f) (value.map f) =
      (prefixedDeclaration d value).map (FlatDeclaration.map f) := by
  have hascii : ∀ vendor ∈ prefixesOf d.name, vendor.map f = vendor := by
    have htable : ∀ entry ∈ vendorTable, ∀ vendor ∈ entry.2, Ascii vendor := by
      decide
    intro vendor hvendor
    rw [prefixesOf] at hvendor
    cases hfind : vendorTable.find? fun entry => entry.1 == d.name.map Char.toLower with
    | none => rw [hfind] at hvendor; cases hvendor
    | some entry =>
      rw [hfind] at hvendor
      exact hf.map_ascii (htable entry (List.mem_of_find?_eq_some hfind) vendor hvendor)
  simp only [prefixedDeclaration, Declaration.map, prefixesOf_map hf, List.map_append,
    List.map_map, List.map_singleton, FlatDeclaration.map]
  congr 1
  refine List.map_congr_left fun vendor hvendor => ?_
  simp only [Function.comp_apply, FlatDeclaration.map, List.map_append, hascii vendor hvendor]

/-- Prefixing recolored entries gives the recolored declarations or fault. -/
theorem prefixEntries_map (entries : List Entry) :
    prefixEntries (entries.map (Entry.map f)) =
      mapResult f (List.map (FlatDeclaration.map f)) (prefixEntries entries) := by
  have hentry : ∀ entry : Entry, prefixEntry (entry.map f) =
      mapResult f (List.map (FlatDeclaration.map f)) (prefixEntry entry) := by
    intro entry
    rcases entry with name | ⟨d | r⟩
    · simp [Entry.map, prefixEntry, identifierText_map hf, FlatDeclaration.map]
    · rw [Entry.map, Item.map, prefixEntry, prefixEntry]
      exact (congrArg (Except.map _) (minify_map hf d.value)).trans
        (map_mapResult fun value => prefixedDeclaration_map hf d value)
    · cases r <;> rfl
  induction entries with
  | nil => rfl
  | cons entry entries ih =>
    rw [List.map_cons, prefixEntries, prefixEntries, hentry]
    refine bind_mapResult fun first => ?_
    rw [ih]
    exact bind_mapResult fun rest => by rw [mapResult_ok, List.map_append]

/-- Prefixing a recolored body gives the recolored text or fault. -/
theorem prefixBody_map (content : List Component) :
    prefixBody (content.map (Component.map f)) = mapResult f (List.map f) (prefixBody content) := by
  rw [prefixBody, prefixBody, bodyEntries_map hf, prefixEntries_map hf]
  exact map_mapResult fun declarations => declarationsText_map hf declarations

end

mutual

/-- Prefixing a recolored rule gives the recolored text or fault. -/
theorem SheetRule.prefixedText_map {f : Char → Char} (hf : Recoloring f) : ∀ rule : SheetRule,
    (rule.map f).prefixedText = mapResult f (List.map f) rule.prefixedText
  | .style selectors content => by
    rw [SheetRule.map, SheetRule.prefixedText, SheetRule.prefixedText, minify_map hf]
    refine bind_mapResult fun selectors => ?_
    rw [prefixBody_map hf]
    exact bind_mapResult fun body => congrArg Except.ok (blockText_map hf selectors body)
  | .nested keyword prelude rules => by
    rw [SheetRule.map, SheetRule.prefixedText, SheetRule.prefixedText, atRuleHead_map hf]
    refine bind_mapResult fun head => ?_
    rw [prefixedTexts_mapAll hf rules]
    exact bind_mapResult fun body => congrArg Except.ok (blockText_map hf head body)
  | .declarations keyword prelude content => by
    rw [SheetRule.map, SheetRule.prefixedText, SheetRule.prefixedText, atRuleHead_map hf]
    refine bind_mapResult fun head => ?_
    rw [prefixBody_map hf]
    exact bind_mapResult fun body => congrArg Except.ok (blockText_map hf head body)
  | .statement keyword prelude => by
    rw [SheetRule.map, SheetRule.prefixedText, SheetRule.prefixedText, atRuleHead_map hf]
    refine bind_mapResult fun head => ?_
    rw [mapResult_ok, List.map_append, List.map_singleton, hf.fixes ';' rfl]
  | .malformed what => rfl

/-- Prefixing recolored rules gives the recolored texts or fault. -/
theorem prefixedTexts_mapAll {f : Char → Char} (hf : Recoloring f) : ∀ rules : List SheetRule,
    prefixedTexts (SheetRule.mapAll f rules) = mapResult f (List.map f) (prefixedTexts rules)
  | [] => by rw [SheetRule.mapAll, prefixedTexts]; rfl
  | rule :: rules => by
    rw [SheetRule.mapAll, prefixedTexts, prefixedTexts, SheetRule.prefixedText_map hf rule]
    refine bind_mapResult fun first => ?_
    rw [prefixedTexts_mapAll hf rules]
    exact bind_mapResult fun rest => by rw [mapResult_ok, List.map_append]

end

/-- Adding vendor prefixes to a recolored style sheet. -/
theorem withVendorPrefixes_map {f : Char → Char} (hf : Recoloring f) {css : List Char}
    (h : KeepsEscapes f (normalize css)) :
    withVendorPrefixes (css.map f) = mapResult f (List.map f) (withVendorPrefixes css) := by
  rw [withVendorPrefixes, withVendorPrefixes, Component.parse_map hf h, styleSheet_map hf,
    ← prefixedTexts_mapAll hf, SheetRule.mapAll_eq, List.map_map, List.map_map]
  exact congrArg prefixedTexts (List.map_congr_left fun rule _ => SheetRule.ofRaw_map hf rule)

end CssTemplate.Css
