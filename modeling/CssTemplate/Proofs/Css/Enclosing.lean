import CssTemplate.Css.Flatten
import CssTemplate.Proofs.Except
import Mathlib

/-!
# Where declarations end up

Every body in a nesting tree has its scope: the heads of at-rules that have to stand around its
declarations, and the selectors that these belong to. The scope is folded over what encloses the body
(`scopeUnder`). `visits` lists the bodies of a tree in pre-order, and between them the at-rules that
show in the output themselves; `emissionsOf` lists the rules of an output in the same way, each with
the heads around it.

Flattening keeps the two lists together (`emissions_flattenBody`): every body that declares something
becomes one style rule in its scope, with all of its own declarations in their order, and otherwise
there are only the wrappers and the at-rules outside of selectors that hold nothing.
-/

namespace CssTemplate.Css

/-! ## Scopes -/

/-- What encloses a body. -/
inductive Ancestor where
  | rule (selectors : List Component)
  | conditional (keyword : List Char) (prelude : List Component)
  /-- A frame of an animation, with the keyword and the prelude of the animation. -/
  | frame (keyword : List Char) (prelude : List Component) (selector : List Component)
  | unscoped (keyword : List Char) (prelude : List Component)
  deriving Repr

/-- The heads of at-rules around a body, from the outside in, and its selectors. -/
structure Scope where
  path : List (List Char)
  selectors : List (List Char)
  deriving DecidableEq, Repr

/-- The keyword and the prelude of an at-rule. -/
def headText (keyword : List Char) (prelude : List Component) : List Char :=
  let text := minifiedText none prelude
  '@' :: keyword ++ if text.isEmpty then [] else ' ' :: text

/-- The scope inside an ancestor. -/
def Scope.enter (scope : Scope) : Ancestor → Scope
  | .rule selectors => { scope with selectors := nestSelectors scope.selectors selectors }
  | .conditional keyword prelude => { scope with path := scope.path ++ [headText keyword prelude] }
  | .frame keyword prelude selector =>
    ⟨scope.path ++ [headText keyword prelude], [minifiedText none selector]⟩
  | .unscoped keyword prelude => { scope with selectors := [headText keyword prelude] }

/-- The scope inside of ancestors, which stand under the given selectors, from the outside in. -/
def scopeUnder (selectors : List (List Char)) (ancestors : List Ancestor) : Scope :=
  ancestors.foldl Scope.enter ⟨[], selectors⟩

/-! ## The nesting tree in pre-order -/

/-- A declaration of a body itself, as it is written. -/
def NestedRule.own? : NestedRule → Option FlatDeclaration
  | .bare name => some (.bare (identifierText name))
  | .declaration d => some (.property d.name (minifiedText none d.value) d.important)
  | _ => none

/-- The declarations of a body itself, without those of the rules inside it. -/
def ownDeclarations (body : List NestedRule) : List FlatDeclaration :=
  body.filterMap NestedRule.own?

mutual

/-- Rules that declare nothing, at any depth, and hold no at-rule. -/
def NestedRule.isSilent : NestedRule → Bool
  | .rule _ body => allSilent body
  | _ => false

/-- The same for all nodes of a list. -/
def allSilent : List NestedRule → Bool
  | [] => true
  | node :: nodes => node.isSilent && allSilent nodes

end

/-- What is met on the way through a nesting tree, with its ancestors from the outside in. -/
inductive Visit where
  | body (ancestors : List Ancestor) (body : List NestedRule)
  /-- An at-rule that stays around the rules inside it. -/
  | wrapper (ancestors : List Ancestor) (keyword : List Char) (prelude : List Component)
  /-- An at-rule outside of all selectors in which there is nothing. -/
  | silent (ancestors : List Ancestor) (keyword : List Char) (prelude : List Component)
  deriving Repr

mutual

/-- A node in pre-order. -/
def NestedRule.visits (ancestors : List Ancestor) : NestedRule → List Visit
  | .rule selectors body =>
    let inside := ancestors ++ [.rule selectors]
    .body inside body :: bodyVisits inside body
  | .atRule .conditional keyword prelude body =>
    let inside := ancestors ++ [.conditional keyword prelude]
    .wrapper ancestors keyword prelude :: .body inside body :: bodyVisits inside body
  | .atRule .keyframes keyword prelude frames =>
    .wrapper ancestors keyword prelude :: frameVisits ancestors keyword prelude frames
  | .atRule .unscoped keyword prelude body =>
    let inside := ancestors ++ [.unscoped keyword prelude]
    (if allSilent body then [.silent ancestors keyword prelude] else []) ++
      .body inside body :: bodyVisits inside body
  | _ => []

/-- What is in a body, in pre-order. -/
def bodyVisits (ancestors : List Ancestor) : List NestedRule → List Visit
  | [] => []
  | node :: nodes => node.visits ancestors ++ bodyVisits ancestors nodes

/-- The frames of an animation in pre-order. -/
def frameVisits (ancestors : List Ancestor) (keyword : List Char) (prelude : List Component) :
    List NestedRule → List Visit
  | [] => []
  | .rule selector body :: nodes =>
    let inside := ancestors ++ [.frame keyword prelude selector]
    .body inside body :: bodyVisits inside body ++ frameVisits ancestors keyword prelude nodes
  | _ :: nodes => frameVisits ancestors keyword prelude nodes

end

/-- A body and everything in it, in pre-order. -/
def visits (ancestors : List Ancestor) (body : List NestedRule) : List Visit :=
  .body ancestors body :: bodyVisits ancestors body

/-! ## The output in pre-order -/

/-- A rule of an output, with the heads around it from the outside in. -/
inductive Emission where
  | style (scope : Scope) (declarations : List FlatDeclaration)
  | atRule (path : List (List Char)) (head : List Char)
  deriving DecidableEq, Repr

mutual

/-- A flat rule and the rules inside it. -/
def FlatRule.emissions (path : List (List Char)) : FlatRule → List Emission
  | .style selectors declarations => [.style ⟨path, selectors⟩ declarations]
  | .atRule head rules => .atRule path head :: emissionsOf (path ++ [head]) rules

/-- Flat rules in a row. -/
def emissionsOf (path : List (List Char)) : List FlatRule → List Emission
  | [] => []
  | rule :: rules => rule.emissions path ++ emissionsOf path rules

end

/-- What a visit has to emit: a body its own declarations, if there are any, in one rule. -/
def Visit.emission? (selectors : List (List Char)) : Visit → Option Emission
  | .body ancestors nodes =>
    if ownDeclarations nodes = [] then none
    else some (.style (scopeUnder selectors ancestors) (ownDeclarations nodes))
  | .wrapper ancestors keyword prelude =>
    some (.atRule (scopeUnder selectors ancestors).path (headText keyword prelude))
  | .silent ancestors keyword prelude =>
    some (.style ((scopeUnder selectors ancestors).enter (.unscoped keyword prelude)) [])

/-- The bodies among visits. -/
def Visit.body? : Visit → Option (List Ancestor × List NestedRule)
  | .body ancestors nodes => some (ancestors, nodes)
  | _ => none

/-- The declarations that a rule of an output holds itself. -/
def Emission.declarations : Emission → List FlatDeclaration
  | .style _ declarations => declarations
  | .atRule _ _ => []

/-! ## Successful steps -/

section
variable {selectors outer : List (List Char)} {path : List (List Char)} {head : List Char}
  {keyword text : List Char} {prelude inner : List Component} {ancestors : List Ancestor}
  {flat : Flattened}

/-- A prelude that is minified gives its minified text. -/
theorem minify_eq_ok (h : minify prelude = .ok text) : text = minifiedText none prelude := by
  unfold minify at h
  split at h
  · cases h
  · cases h
    rfl

/-- A head that is written is the text of its head. -/
theorem atRuleHead_eq_ok (h : atRuleHead keyword prelude = .ok head) :
    head = headText keyword prelude := by
  obtain ⟨text, htext, rfl⟩ := Except.map_eq_ok_iff.1 h
  rw [minify_eq_ok htext]
  rfl

/-- Selectors that are nested without a fault are the nested selectors. -/
theorem selectorsUnder_eq_ok (h : selectorsUnder outer inner = .ok selectors) :
    selectors = nestSelectors outer inner := by
  unfold selectorsUnder at h
  split at h
  · next hempty =>
    cases h
    rw [List.isEmpty_iff.1 hempty]
    rfl
  · split at h
    · cases h
    · cases h
      rfl

/-- One more ancestor is entered last. -/
theorem scopeUnder_concat {scope : Scope} (h : scopeUnder outer ancestors = scope)
    (ancestor : Ancestor) : scopeUnder outer (ancestors ++ [ancestor]) = scope.enter ancestor := by
  rw [scopeUnder, List.foldl_append, ← h]
  rfl

/-- Rules in a row emit what each of them emits. -/
theorem emissionsOf_append (path : List (List Char)) (a b : List FlatRule) :
    emissionsOf path (a ++ b) = emissionsOf path a ++ emissionsOf path b := by
  induction a with
  | nil => rfl
  | cons rule a ih =>
    rw [List.cons_append, emissionsOf, emissionsOf, ih, List.append_assoc]

/-- A body gives no rules exactly when it has no declarations and no rules inside. -/
theorem rules_eq_nil_iff : flat.rules selectors = [] ↔ flat.own = [] ∧ flat.inner = [] := by
  rw [Flattened.rules, List.append_eq_nil_iff]
  refine and_congr_left' ?_
  cases flat.own <;> simp

end

/-! ## What gives nothing -/

mutual

/-- Nothing comes of a silent node, and something of any other. -/
theorem NestedRule.isSilent_iff {selectors : List (List Char)} {flat : Flattened} :
    ∀ node : NestedRule, node.flatten selectors = .ok flat →
      (node.isSilent = true ↔ flat.own = [] ∧ flat.inner = [])
  | .bare name, h => by
    cases h
    simp [NestedRule.isSilent]
  | .declaration d, h => by
    obtain ⟨value, -, h⟩ := Except.bind_eq_ok_iff.1 h
    cases h
    simp [NestedRule.isSilent]
  | .rule inner body, h => by
    obtain ⟨under, -, h⟩ := Except.bind_eq_ok_iff.1 h
    obtain ⟨nested, hnested, h⟩ := Except.bind_eq_ok_iff.1 h
    cases h
    rw [NestedRule.isSilent, allSilent_iff body hnested, ← rules_eq_nil_iff, eq_self, true_and]
  | .atRule .conditional keyword prelude body, h => by
    obtain ⟨head, -, h⟩ := Except.bind_eq_ok_iff.1 h
    obtain ⟨nested, -, h⟩ := Except.bind_eq_ok_iff.1 h
    cases h
    simp [NestedRule.isSilent]
  | .atRule .keyframes keyword prelude frames, h => by
    obtain ⟨head, -, h⟩ := Except.bind_eq_ok_iff.1 h
    obtain ⟨rules, -, h⟩ := Except.bind_eq_ok_iff.1 h
    cases h
    simp [NestedRule.isSilent]
  | .atRule .unscoped keyword prelude body, h => by
    obtain ⟨head, -, h⟩ := Except.bind_eq_ok_iff.1 h
    obtain ⟨nested, -, h⟩ := Except.bind_eq_ok_iff.1 h
    cases h
    refine iff_of_false (by simp [NestedRule.isSilent]) fun hnone => ?_
    have hrules := hnone.2
    simp only at hrules
    split at hrules
    · cases hrules
    · next hfilled => exact hfilled (List.isEmpty_iff.2 hrules)
  | .atStatement keyword prelude, h => by
    obtain ⟨head, -, h⟩ := Except.bind_eq_ok_iff.1 h
    cases h
  | .malformed what, h => by cases h

/-- The nodes of a body are silent exactly when nothing comes of them. -/
theorem allSilent_iff {selectors : List (List Char)} {flat : Flattened} :
    ∀ nodes : List NestedRule, flattenBody selectors nodes = .ok flat →
      (allSilent nodes = true ↔ flat.own = [] ∧ flat.inner = [])
  | [], h => by
    cases h
    simp [allSilent]
  | node :: nodes, h => by
    obtain ⟨first, hfirst, h⟩ := Except.bind_eq_ok_iff.1 h
    obtain ⟨rest, hrest, h⟩ := Except.bind_eq_ok_iff.1 h
    cases h
    rw [allSilent, Bool.and_eq_true, NestedRule.isSilent_iff node hfirst, allSilent_iff nodes hrest,
      Flattened.append, List.append_eq_nil_iff, List.append_eq_nil_iff]
    exact and_and_and_comm

end

/-! ## Flattening -/

/-- The rules of a body, if what is in it is emitted as it should. -/
theorem emissionsOf_rules {outer : List (List Char)} {ancestors : List Ancestor} {scope : Scope}
    {body : List NestedRule} {flat : Flattened} (hscope : scopeUnder outer ancestors = scope)
    (h : flat.own = ownDeclarations body ∧ emissionsOf scope.path flat.inner =
      (bodyVisits ancestors body).filterMap (Visit.emission? outer)) :
    emissionsOf scope.path (flat.rules scope.selectors) =
      (visits ancestors body).filterMap (Visit.emission? outer) := by
  obtain ⟨hown, hinner⟩ := h
  rw [Flattened.rules, emissionsOf_append, hinner, visits, List.filterMap_cons, Visit.emission?,
    ← hown, hscope]
  cases flat.own with
  | nil => rfl
  | cons first rest => rfl

mutual

/-- A node keeps its own declaration, and what is in it is emitted in pre-order. -/
theorem NestedRule.emissions_flatten {outer : List (List Char)} {ancestors : List Ancestor}
    {scope : Scope} {flat : Flattened} (hscope : scopeUnder outer ancestors = scope) :
    ∀ node : NestedRule, node.flatten scope.selectors = .ok flat →
      flat.own = node.own?.toList ∧
      emissionsOf scope.path flat.inner =
        (node.visits ancestors).filterMap (Visit.emission? outer)
  | .bare name, h => by
    cases h
    exact ⟨rfl, rfl⟩
  | .declaration d, h => by
    obtain ⟨value, hvalue, h⟩ := Except.bind_eq_ok_iff.1 h
    cases h
    rw [minify_eq_ok hvalue]
    exact ⟨rfl, rfl⟩
  | .rule inner body, h => by
    obtain ⟨under, hunder, h⟩ := Except.bind_eq_ok_iff.1 h
    obtain ⟨nested, hnested, h⟩ := Except.bind_eq_ok_iff.1 h
    cases h
    rw [selectorsUnder_eq_ok hunder] at hnested ⊢
    have hinside := scopeUnder_concat hscope (.rule inner)
    exact ⟨rfl, emissionsOf_rules hinside (emissions_flattenBody hinside body hnested)⟩
  | .atRule .conditional keyword prelude body, h => by
    obtain ⟨head, hhead, h⟩ := Except.bind_eq_ok_iff.1 h
    obtain ⟨nested, hnested, h⟩ := Except.bind_eq_ok_iff.1 h
    cases h
    rw [atRuleHead_eq_ok hhead]
    have hinside := scopeUnder_concat hscope (.conditional keyword prelude)
    have hrules := emissionsOf_rules hinside (emissions_flattenBody hinside body hnested)
    refine ⟨rfl, ?_⟩
    rw [NestedRule.visits, List.filterMap_cons, Visit.emission?, hscope]
    exact congrArg (_ :: ·) ((List.append_nil _).trans hrules)
  | .atRule .keyframes keyword prelude frames, h => by
    obtain ⟨head, hhead, h⟩ := Except.bind_eq_ok_iff.1 h
    obtain ⟨rules, hrules, h⟩ := Except.bind_eq_ok_iff.1 h
    cases h
    rw [atRuleHead_eq_ok hhead] at hrules ⊢
    refine ⟨rfl, ?_⟩
    rw [NestedRule.visits, List.filterMap_cons, Visit.emission?, hscope]
    exact congrArg (_ :: ·) ((List.append_nil _).trans (emissions_flattenFrames hscope frames hrules))
  | .atRule .unscoped keyword prelude body, h => by
    obtain ⟨head, hhead, h⟩ := Except.bind_eq_ok_iff.1 h
    obtain ⟨nested, hnested, h⟩ := Except.bind_eq_ok_iff.1 h
    cases h
    rw [atRuleHead_eq_ok hhead] at hnested ⊢
    have hinside := scopeUnder_concat hscope (.unscoped keyword prelude)
    have hrules := emissionsOf_rules hinside (emissions_flattenBody hinside body hnested)
    refine ⟨rfl, ?_⟩
    have hsilent : allSilent body = true ↔ nested.rules [headText keyword prelude] = [] :=
      (allSilent_iff body hnested).trans rules_eq_nil_iff.symm
    have hvisits : (NestedRule.atRule .unscoped keyword prelude body).visits ancestors =
        (if allSilent body then [.silent ancestors keyword prelude] else []) ++
          visits (ancestors ++ [.unscoped keyword prelude]) body := rfl
    rw [hvisits, List.filterMap_append, ← hrules]
    by_cases hnil : nested.rules [headText keyword prelude] = []
    · rw [if_pos (hsilent.2 hnil), if_pos (List.isEmpty_iff.2 hnil), List.filterMap_cons,
        Visit.emission?, hscope]
      exact congrArg (fun rules => _ :: emissionsOf scope.path rules) hnil.symm
    · rw [if_neg fun h => hnil (hsilent.1 h), if_neg fun h => hnil (List.isEmpty_iff.1 h)]
      rfl
  | .atStatement keyword prelude, h => by
    obtain ⟨head, -, h⟩ := Except.bind_eq_ok_iff.1 h
    cases h
  | .malformed what, h => by cases h

/-- A flattened body emits what the visits to its nodes emit, in order. -/
theorem emissions_flattenBody {outer : List (List Char)} {ancestors : List Ancestor} {scope : Scope}
    {flat : Flattened} (hscope : scopeUnder outer ancestors = scope) :
    ∀ nodes : List NestedRule, flattenBody scope.selectors nodes = .ok flat →
      flat.own = ownDeclarations nodes ∧
      emissionsOf scope.path flat.inner =
        (bodyVisits ancestors nodes).filterMap (Visit.emission? outer)
  | [], h => by
    cases h
    exact ⟨rfl, rfl⟩
  | node :: nodes, h => by
    obtain ⟨first, hfirst, h⟩ := Except.bind_eq_ok_iff.1 h
    obtain ⟨rest, hrest, h⟩ := Except.bind_eq_ok_iff.1 h
    cases h
    obtain ⟨hown, hinner⟩ := NestedRule.emissions_flatten hscope node hfirst
    obtain ⟨howns, hinners⟩ := emissions_flattenBody hscope nodes hrest
    constructor
    · rw [Flattened.append, hown, howns, ownDeclarations, ownDeclarations, List.filterMap_cons]
      cases node.own? <;> rfl
    · rw [Flattened.append, emissionsOf_append, hinner, hinners, bodyVisits, List.filterMap_append]

/-- Flattened frames emit what the visits to them emit, in order. -/
theorem emissions_flattenFrames {outer : List (List Char)} {ancestors : List Ancestor}
    {scope : Scope} {keyword : List Char} {prelude : List Component} {rules : List FlatRule}
    (hscope : scopeUnder outer ancestors = scope) :
    ∀ nodes : List NestedRule, flattenFrames (headText keyword prelude) nodes = .ok rules →
      emissionsOf (scope.path ++ [headText keyword prelude]) rules =
        (frameVisits ancestors keyword prelude nodes).filterMap (Visit.emission? outer)
  | [], h => by
    cases h
    rfl
  | .rule selector body :: nodes, h => by
    obtain ⟨own, hown, h⟩ := Except.bind_eq_ok_iff.1 h
    obtain ⟨flat, hflat, h⟩ := Except.bind_eq_ok_iff.1 h
    obtain ⟨rest, hrest, h⟩ := Except.bind_eq_ok_iff.1 h
    cases h
    rw [minify_eq_ok hown] at hflat ⊢
    have hinside := scopeUnder_concat hscope (.frame keyword prelude selector)
    have hrules := emissionsOf_rules hinside (emissions_flattenBody hinside body hflat)
    rw [emissionsOf_append, emissions_flattenFrames hscope nodes hrest, frameVisits,
      List.filterMap_append]
    exact congrArg (· ++ _) hrules
  | .bare _ :: _, h => by cases h
  | .declaration _ :: _, h => by cases h
  | .atRule _ _ _ _ :: _, h => by cases h
  | .atStatement _ _ :: _, h => by cases h
  | .malformed _ :: _, h => by cases h

end

/-- Declarations come from bodies only. -/
theorem filter_emissions (selectors : List (List Char)) (vs : List Visit) :
    (vs.filterMap (Visit.emission? selectors)).filter (fun emission => !emission.declarations.isEmpty) =
      ((vs.filterMap Visit.body?).filter fun visited => !(ownDeclarations visited.2).isEmpty).map
        fun visited => .style (scopeUnder selectors visited.1) (ownDeclarations visited.2) := by
  induction vs with
  | nil => rfl
  | cons visit vs ih =>
    cases visit with
    | body ancestors nodes =>
      rw [List.filterMap_cons, List.filterMap_cons, Visit.emission?, Visit.body?]
      cases hown : ownDeclarations nodes with
      | nil => simpa [hown] using ih
      | cons first rest => simpa [hown, Emission.declarations] using ih
    | wrapper ancestors keyword prelude => exact ih
    | silent ancestors keyword prelude => exact ih

/-- **Where declarations end up.** The output of a block is what the visits to its bodies and at-rules
emit. The rules with declarations are the bodies that declare something, in pre-order, each under its
own selectors and heads and with its own declarations. -/
theorem emissions_ofBody {selectors : List (List Char)} {content : List Component} {flat : Flattened}
    (h : flattenBody selectors (NestedRule.ofBody content) = .ok flat) :
    emissionsOf [] (flat.rules selectors) =
        (visits [] (NestedRule.ofBody content)).filterMap (Visit.emission? selectors) ∧
      (emissionsOf [] (flat.rules selectors)).filter (fun emission => !emission.declarations.isEmpty) =
        (((visits [] (NestedRule.ofBody content)).filterMap Visit.body?).filter
          fun visited => !(ownDeclarations visited.2).isEmpty).map
            fun visited => .style (scopeUnder selectors visited.1) (ownDeclarations visited.2) := by
  have hscope : scopeUnder selectors [] = ⟨[], selectors⟩ := rfl
  have hemissions := emissionsOf_rules hscope (emissions_flattenBody hscope _ h)
  refine ⟨hemissions, ?_⟩
  rw [hemissions, filter_emissions]

/-- Declarations on both sides of a nested rule, a condition in it, and an at-rule with nothing in
it. -/
theorem emissions_ofBody_nested :
    ∃ content flat, Component.parse
        "x:y;&:b\x7bm;@media p\x7bu:v\x7d\x7dz:w;@font-face\x7b\x7d".toList = content ∧
      flattenBody [".a".toList] (NestedRule.ofBody content) = .ok flat ∧
      emissionsOf [] (flat.rules [".a".toList]) =
        [.style ⟨[], [".a".toList]⟩ [.property ['x'] ['y'] false, .property ['z'] ['w'] false],
          .style ⟨[], [".a:b".toList]⟩ [.bare ['m']], .atRule [] "@media p".toList,
          .style ⟨["@media p".toList], [".a:b".toList]⟩ [.property ['u'] ['v'] false],
          .style ⟨[], ["@font-face".toList]⟩ []] := by
  obtain ⟨content, block, inner, hcontent, hentries, hblock, hinner, hnone⟩ :
      ∃ content block inner, Component.parse
          "x:y;&:b\x7bm;@media p\x7bu:v\x7d\x7dz:w;@font-face\x7b\x7d".toList = content ∧
        bodyEntries content = [.item (.declaration ⟨['x'], [.atom (.ident ['y'])], false⟩),
          .item (.rule (.style
            [.atom (.literal ['&']), .atom (.literal [':']), .atom (.ident ['b'])] block)),
          .item (.declaration ⟨['z'], [.atom (.ident ['w'])], false⟩),
          .item (.rule (.atRule "font-face".toList [] (some [])))] ∧
        bodyEntries block = [.bare ['m'], .item (.rule (.atRule "media".toList
          [.atom (.space [' ']), .atom (.ident ['p'])] (some inner)))] ∧
        NestedRule.ofBody inner = [.declaration ⟨['u'], [.atom (.ident ['v'])], false⟩] ∧
        NestedRule.ofBody [] = [] :=
    ⟨_, _, _, by cbv, by cbv, by cbv, by cbv, by cbv⟩
  have htree : NestedRule.ofBody content =
      [.declaration ⟨['x'], [.atom (.ident ['y'])], false⟩,
        .rule [.atom (.literal ['&']), .atom (.literal [':']), .atom (.ident ['b'])]
          [.bare ['m'], .atRule .conditional "media".toList
            [.atom (.space [' ']), .atom (.ident ['p'])]
            [.declaration ⟨['u'], [.atom (.ident ['v'])], false⟩]],
        .declaration ⟨['z'], [.atom (.ident ['w'])], false⟩,
        .atRule .unscoped "font-face".toList [] []] := by
    have hmedia : AtRuleKind.ofKeyword "media".toList = .conditional := by decide
    have hface : AtRuleKind.ofKeyword "font-face".toList = .unscoped := by decide
    rw [NestedRule.ofBody_eq, hentries]
    simp only [List.map_cons, List.map_nil, NestedRule.ofEntry, NestedRule.ofItem]
    rw [NestedRule.ofBody_eq block, hblock]
    simp only [List.map_cons, List.map_nil, NestedRule.ofEntry, NestedRule.ofItem, hmedia, hface, hinner,
      hnone]
    rfl
  have hflat : flattenBody [".a".toList] (NestedRule.ofBody content) =
      .ok ⟨[.property ['x'] ['y'] false, .property ['z'] ['w'] false],
        [.style [".a:b".toList] [.bare ['m']], .atRule "@media p".toList
          [.style [".a:b".toList] [.property ['u'] ['v'] false]], .style ["@font-face".toList] []]⟩ := by
    rw [htree]
    cbv
  refine ⟨content, _, hcontent, hflat, ?_⟩
  rw [(emissions_ofBody hflat).1, htree]
  cbv

end CssTemplate.Css
