import CssTemplate.Proofs.Css.Enclosing
import CssTemplate.Proofs.Text.Trimmed
import Mathlib

/-!
# Selectors stay in their scope

The selectors of a template are those of its context, handed down. A rule combines every selector that
it gets with every member of its own list: the outer selector takes the place of each `&`, at any depth
of functions and of round and square blocks, or else it stands in front (`Nests`). A conditional at-rule
hands on what it gets. So a selector list has one member for each way to choose one member of every list
on the way to it, in the order of the choices from the outside in, and none of its selectors leaves the
context (`reached_selectors`).

`Reached` follows the calls that flattening makes, as far as they go through rules and conditional
at-rules only: the frames of an animation and the other at-rules start anew. These are all the bodies
whose selectors come from the context: a body that flattening visits is reached if and only if each of
its ancestors hands selectors on (`reached_iff`), so every other style rule stands in a frame or in an
at-rule that starts anew.
-/

namespace CssTemplate.Css

/-! ## One selector inside another -/

mutual

/-- The component with a text in the place of each `&` outside curly blocks. -/
def Component.putOuter (outer : List Char) : Component → Component
  | .atom (.literal text) => .atom (.literal (if text = ['&'] then outer else text))
  | .atom a => .atom a
  | .group (.bracket .curly) content => .group (.bracket .curly) content
  | .group opening content => .group opening (putOuter outer content)

/-- The components with a text in the place of each `&` outside curly blocks. -/
def putOuter (outer : List Char) : List Component → List Component
  | [] => []
  | c :: cs => c.putOuter outer :: putOuter outer cs

end

/-- The selector that a member of an inner list becomes under an outer selector. -/
inductive Nests (outer : List Char) (inner : List Component) : List Char → Prop where
  /-- The outer selector takes the place of each `&`. -/
  | inPlace : mentionsOuter inner = true →
      Nests outer inner (minifiedText none (putOuter outer inner))
  /-- Without an `&`, the outer selector stands in front. -/
  | inFront : mentionsOuter inner = false → Nests outer inner (outer ++ ' ' :: minifiedText none inner)

section
variable {outer part : List Char} {inner : List Component}

/-- Putting the outer selector in does not change what is white space. -/
theorem Component.isSpace_putOuter (c : Component) : (c.putOuter outer).isSpace = c.isSpace := by
  cases c with
  | atom a => cases a <;> rfl
  | group opening content =>
    cases opening with
    | function name => rfl
    | bracket bracket => cases bracket <;> rfl

/-- White space does not mention the outer selector. -/
theorem Component.mentionsOuter_of_isSpace {c : Component} (h : c.isSpace = true) :
    c.mentionsOuter = false := by
  cases c with
  | atom a =>
    cases a with
    | space text => rfl
    | _ => cases h
  | group opening content => cases h

mutual

/-- Replacing on the way is writing what has been replaced before. -/
theorem Component.minifiedText_some (h : Firm outer) : ∀ c : Component,
    c.minifiedText (some outer) = (c.putOuter outer).minifiedText none
  | .atom a => by
    cases a with
    | literal text =>
      rw [Component.putOuter, Component.minifiedText, Component.minifiedText]
      split <;> simp
    | _ => rfl
  | .group (.function name) arguments => by
    rw [Component.minifiedText, minifiedParts_some h true arguments]
    rfl
  | .group (.bracket .round) content => by
    rw [Component.minifiedText, minifiedParts_some h true content]
    rfl
  | .group (.bracket .square) content => by
    rw [Component.minifiedText, minifiedParts_some h true content]
    rfl
  | .group (.bracket .curly) content => rfl

/-- Minifying under a selector is minifying after the selector has been put in. -/
theorem minifiedParts_some (h : Firm outer) (skip : Bool) : ∀ cs : List Component,
    minifiedParts (some outer) skip cs = minifiedParts none skip (putOuter outer cs)
  | [] => rfl
  | c :: cs => by
    -- A firm selector is no single space, so nothing is skipped after it.
    have hskip : (some outer == some [' ']) = false := by
      rw [beq_eq_false_iff_ne]
      rintro ⟨⟩
      exact absurd (h.head ' ' rfl) (by decide)
    rw [putOuter, minifiedParts, minifiedParts, Component.isSpace_putOuter, hskip,
      Component.minifiedText_some h c, minifiedParts_some h true cs, Bool.and_false,
      minifiedParts_some h false cs]
    simp

end

mutual

/-- A firm part of the outer selector is found in what a component with an `&` is written as. -/
theorem Component.infix_minifiedText (h : Firm part) (hpart : part <:+: outer) : ∀ c : Component,
    c.mentionsOuter = true → part <:+: c.minifiedText (some outer)
  | .atom a, hmentions => by
    cases a with
    | literal text =>
      rw [Component.mentionsOuter, beq_iff_eq] at hmentions
      rw [Component.minifiedText, if_pos hmentions]
      exact hpart
    | _ => cases hmentions
  | .group (.function name) arguments, hmentions => by
    have hparts := h.infix_trim (infix_minifiedParts h hpart true arguments hmentions)
    exact hparts.trans ((List.infix_cons (List.prefix_append _ _).isInfix).trans
      (List.suffix_append _ _).isInfix)
  | .group (.bracket .round) content, hmentions => by
    have hparts := h.infix_trim (infix_minifiedParts h hpart true content hmentions)
    exact hparts.trans (List.infix_cons (List.prefix_append _ _).isInfix)
  | .group (.bracket .square) content, hmentions => by
    have hparts := h.infix_trim (infix_minifiedParts h hpart true content hmentions)
    exact hparts.trans (List.infix_cons (List.prefix_append _ _).isInfix)
  | .group (.bracket .curly) content, hmentions => by cases hmentions

/-- What is in the outer selector is in what mentions it. -/
theorem infix_minifiedParts (h : Firm part) (hpart : part <:+: outer) (skip : Bool) :
    ∀ cs : List Component, mentionsOuter cs = true → part <:+: minifiedParts (some outer) skip cs
  | [], hmentions => by cases hmentions
  | c :: cs, hmentions => by
    rw [mentionsOuter, Bool.or_eq_true] at hmentions
    cases hspace : c.isSpace with
    | true =>
      have hcs : mentionsOuter cs = true := by
        refine hmentions.resolve_left fun hc => ?_
        rw [Component.mentionsOuter_of_isSpace hspace] at hc
        cases hc
      have hrest := infix_minifiedParts h hpart true cs hcs
      rw [minifiedParts, hspace, if_pos rfl]
      split
      · exact hrest
      · exact List.infix_cons hrest
    | false =>
      rw [minifiedParts, hspace, if_neg Bool.false_ne_true]
      rcases hmentions with hc | hcs
      · exact (Component.infix_minifiedText h hpart c hc).trans (List.prefix_append _ _).isInfix
      · exact (infix_minifiedParts h hpart _ cs hcs).trans (List.suffix_append _ _).isInfix

end

/-- A firm part of the outer selector is found in the one that is made with it. -/
theorem infix_nestSelector (h : Firm part) (hpart : part <:+: outer) (inner : List Component) :
    part <:+: nestSelector outer inner := by
  rw [nestSelector]
  split
  · next hmentions => exact h.infix_trim (infix_minifiedParts h hpart true inner hmentions)
  · split
    · next hempty =>
      rw [List.isEmpty_iff.1 hempty, List.infix_nil] at hpart
      exact absurd hpart h.ne_nil
    · exact hpart.trans (List.prefix_append _ _).isInfix

/-- A nested selector is what nesting asks for. -/
theorem nests_nestSelector (h : Firm outer) (inner : List Component) :
    Nests outer inner (nestSelector outer inner) := by
  rw [nestSelector, if_neg fun hempty => h.ne_nil (List.isEmpty_iff.1 hempty)]
  cases hmentions : mentionsOuter inner with
  | true =>
    rw [if_pos rfl, minifiedText, minifiedParts_some h true inner]
    exact .inPlace hmentions
  | false => exact .inFront hmentions

/-- What is made of firm selectors is firm. -/
theorem firm_nestSelector (h : Firm outer) (hinner : minifiedText none inner ≠ []) :
    Firm (nestSelector outer inner) := by
  refine ⟨?_, fun hnil => h.ne_nil ?_⟩
  · rw [nestSelector, if_neg fun hempty => h.ne_nil (List.isEmpty_iff.1 hempty)]
    split
    · exact trimmed_trim _
    · refine ⟨?_, ?_⟩
      · obtain ⟨c, rest, rfl⟩ := List.exists_cons_of_ne_nil h.ne_nil
        exact h.head
      · have hlast := (trimmed_trim (minifiedParts none true inner)).last
        obtain ⟨c, rest, htext⟩ := List.exists_cons_of_ne_nil hinner
        rw [← minifiedText, htext] at hlast
        rwa [htext, List.getLast?_append_cons, List.getLast?_cons_cons]
  · exact List.infix_nil.1 (hnil ▸ infix_nestSelector h List.infix_rfl inner)

end

/-! ## Selector lists -/

/-- The selectors of a rule: each member of its own list under each selector around it, with the outer
selectors first in order. -/
structure Combines (outer : List (List Char)) (groups : List (List Component))
    (under : List (List Char)) : Prop where
  length_eq : under.length = outer.length * groups.length
  nests : ∀ i j parent group, outer[i]? = some parent → groups[j]? = some group →
    ∃ selector, under[i * groups.length + j]? = some selector ∧ parent <:+: selector ∧
      Nests parent group selector

section
variable {outer : List (List Char)}

/-- There is one selector for each pair of a parent and a group. -/
theorem length_nestSelectors (outer : List (List Char)) (inner : List Component) :
    (nestSelectors outer inner).length = outer.length * (selectorGroups inner).length := by
  simp [nestSelectors, List.length_flatMap]

/-- Selectors are in the order of the parents, and of the groups under each of them. -/
theorem getElem?_nestSelectors {inner : List Component} {i j : Nat} {parent : List Char}
    {group : List Component} (hparent : outer[i]? = some parent)
    (hgroup : (selectorGroups inner)[j]? = some group) :
    (nestSelectors outer inner)[i * (selectorGroups inner).length + j]? =
      some (nestSelector parent group) := by
  have hj : j < (selectorGroups inner).length := (List.getElem?_eq_some_iff.1 hgroup).1
  induction outer generalizing i with
  | nil => cases hparent
  | cons first outer ih =>
    rw [nestSelectors, List.flatMap_cons]
    cases i with
    | zero =>
      cases hparent
      rw [Nat.zero_mul, Nat.zero_add, List.getElem?_append_left (by simpa using hj),
        List.getElem?_map, hgroup]
      rfl
    | succ i =>
      have hindex : (i + 1) * (selectorGroups inner).length + j =
          ((selectorGroups inner).map (nestSelector first)).length +
            (i * (selectorGroups inner).length + j) := by
        rw [List.length_map, Nat.succ_mul]
        omega
      rw [hindex, List.getElem?_append_right (Nat.le_add_right _ _), Nat.add_sub_cancel_left]
      exact ih hparent

/-- The selectors nested under a list combine it with the groups. -/
theorem combines_nestSelectors (h : ∀ parent ∈ outer, Firm parent) (inner : List Component) :
    Combines outer (selectorGroups inner) (nestSelectors outer inner) where
  length_eq := length_nestSelectors outer inner
  nests := by
    intro i j parent group hparent hgroup
    have hfirm := h parent (List.mem_of_getElem? hparent)
    exact ⟨_, getElem?_nestSelectors hparent hgroup, infix_nestSelector hfirm List.infix_rfl group,
      nests_nestSelector hfirm group⟩

/-- Every selector of a rule comes from one around it and is as firm. -/
theorem exists_of_mem_nestSelectors (h : ∀ parent ∈ outer, Firm parent) {inner : List Component}
    {selector : List Char} (hselector : selector ∈ nestSelectors outer inner) :
    Firm selector ∧ ∃ parent ∈ outer, parent <:+: selector := by
  obtain ⟨parent, hparent, hselector⟩ := List.mem_flatMap.1 hselector
  obtain ⟨group, hgroup, rfl⟩ := List.mem_map.1 hselector
  have hfilled : minifiedText none group ≠ [] := by
    simpa using (List.mem_filter.1 hgroup).2
  have hfirm := h parent hparent
  exact ⟨firm_nestSelector hfirm hfilled, parent, hparent, infix_nestSelector hfirm List.infix_rfl group⟩

end

/-! ## The way down -/

/-- A body that flattening comes to through rules and conditional at-rules only, with the selector lists
of the rules on the way, from the outside in, and the selectors that it is flattened under. -/
inductive Reached (context : List Char) (tree : List NestedRule) :
    List (List Component) → List (List Char) → List NestedRule → Prop where
  | start : Reached context tree [] [context] tree
  | rule {path : List (List Component)} {selectors under : List (List Char)}
      {body nested : List NestedRule} {inner : List Component} :
      Reached context tree path selectors body → .rule inner nested ∈ body →
        selectorsUnder selectors inner = .ok under → Reached context tree (path ++ [inner]) under nested
  | conditional {path : List (List Component)} {selectors : List (List Char)}
      {body nested : List NestedRule} {keyword : List Char} {prelude : List Component} :
      Reached context tree path selectors body → .atRule .conditional keyword prelude nested ∈ body →
        Reached context tree path selectors nested

section
variable {context : List Char} {tree body : List NestedRule} {path : List (List Component)}
  {selectors : List (List Char)}

/-- Every node of a flattened body is flattened, and what is in it stands in the result. -/
theorem flatten_of_mem {node : NestedRule} {flat : Flattened} (h : flattenBody selectors body = .ok flat)
    (hnode : node ∈ body) : ∃ part, node.flatten selectors = .ok part ∧ part.inner ⊆ flat.inner := by
  induction body generalizing flat with
  | nil => cases hnode
  | cons first body ih =>
    obtain ⟨part, hpart, h⟩ := Except.bind_eq_ok_iff.1 h
    obtain ⟨rest, hrest, h⟩ := Except.bind_eq_ok_iff.1 h
    cases h
    rcases List.mem_cons.1 hnode with rfl | hnode
    · exact ⟨part, hpart, List.subset_append_left _ _⟩
    · obtain ⟨found, hfound, hsubset⟩ := ih hrest hnode
      exact ⟨found, hfound, List.Subset.trans hsubset (List.subset_append_right _ _)⟩

/-- The emissions of rules are those of each of them in a row. -/
theorem emissionsOf_eq_flatMap (heads : List (List Char)) (rules : List FlatRule) :
    emissionsOf heads rules = rules.flatMap (FlatRule.emissions heads) := by
  induction rules with
  | nil => rfl
  | cons rule rules ih => rw [emissionsOf, ih, List.flatMap_cons]

/-- Rules of a list emit only what the list emits. -/
theorem emissionsOf_subset {heads : List (List Char)} {part whole : List FlatRule} (h : part ⊆ whole) :
    emissionsOf heads part ⊆ emissionsOf heads whole := by
  intro emission hemission
  rw [emissionsOf_eq_flatMap, List.mem_flatMap] at hemission ⊢
  obtain ⟨rule, hrule, hemission⟩ := hemission
  exact ⟨rule, h hrule, hemission⟩

/-- What one node of a body emits is emitted by the body. -/
theorem emissionsOf_inner_subset {heads : List (List Char)} {part : List FlatRule} {flat : Flattened}
    (h : part ⊆ flat.inner) : emissionsOf heads part ⊆ emissionsOf heads (flat.rules selectors) :=
  emissionsOf_subset (List.Subset.trans h (List.subset_append_right _ _))

/-- What the rules of an at-rule emit, the at-rule emits. -/
theorem emissionsOf_atRule_subset (heads : List (List Char)) (head : List Char)
    (rules : List FlatRule) :
    emissionsOf (heads ++ [head]) rules ⊆ emissionsOf heads [.atRule head rules] := by
  rw [emissionsOf, emissionsOf, List.append_nil, FlatRule.emissions]
  exact List.subset_cons_self _ _

/-- A body that is reached is flattened, and its rules stand in the output. -/
theorem Reached.flattened {whole : Flattened} (hwhole : flattenBody [context] tree = .ok whole)
    (h : Reached context tree path selectors body) :
    ∃ flat heads, flattenBody selectors body = .ok flat ∧
      emissionsOf heads (flat.rules selectors) ⊆ emissionsOf [] (whole.rules [context]) := by
  induction h with
  | start => exact ⟨whole, [], hwhole, List.Subset.refl _⟩
  | rule _ hnode hunder ih =>
    obtain ⟨flat, heads, hflat, hsubset⟩ := ih
    obtain ⟨part, hpart, hinner⟩ := flatten_of_mem hflat hnode
    rw [NestedRule.flatten, hunder, Except.bind_ok] at hpart
    obtain ⟨nested, hnested, hpart⟩ := Except.bind_eq_ok_iff.1 hpart
    cases hpart
    exact ⟨nested, heads, hnested, List.Subset.trans (emissionsOf_inner_subset hinner) hsubset⟩
  | conditional _ hnode ih =>
    obtain ⟨flat, heads, hflat, hsubset⟩ := ih
    obtain ⟨part, hpart, hinner⟩ := flatten_of_mem hflat hnode
    obtain ⟨head, -, hpart⟩ := Except.bind_eq_ok_iff.1 hpart
    obtain ⟨nested, hnested, hpart⟩ := Except.bind_eq_ok_iff.1 hpart
    cases hpart
    exact ⟨nested, heads ++ [head], hnested, List.Subset.trans (emissionsOf_atRule_subset _ _ _)
      (List.Subset.trans (emissionsOf_inner_subset hinner) hsubset)⟩

/-- The rules and conditional at-rules, which hand selectors on. The frames of an animation and the other
at-rules start anew. -/
def Ancestor.handsOn : Ancestor → Bool
  | .rule _ => true
  | .conditional _ _ => true
  | .frame _ _ _ => false
  | .unscoped _ _ => false

/-- The selector list of a rule. -/
def Ancestor.list? : Ancestor → Option (List Component)
  | .rule selectors => some selectors
  | _ => none

/-- The visits to a node are among those to the body that it stands in. -/
theorem NestedRule.visits_subset {ancestors : List Ancestor} {node : NestedRule} (h : node ∈ body) :
    node.visits ancestors ⊆ Css.visits ancestors body := by
  refine List.Subset.trans ?_ (List.subset_cons_self _ _)
  induction body with
  | nil => cases h
  | cons first body ih =>
    rw [bodyVisits]
    rcases List.mem_cons.1 h with rfl | h
    · exact List.subset_append_left _ _
    · exact List.Subset.trans (ih h) (List.subset_append_right _ _)

/-- A body that is reached is visited, inside of the rules on the way to it and of conditional at-rules,
and its selectors are those of its scope. -/
theorem Reached.exists_visits (h : Reached context tree path selectors body) :
    ∃ ancestors, visits ancestors body ⊆ visits [] tree ∧
      (∀ ancestor ∈ ancestors, ancestor.handsOn = true) ∧
      path = ancestors.filterMap Ancestor.list? ∧
      selectors = (scopeUnder [context] ancestors).selectors := by
  induction h with
  | start => exact ⟨[], List.Subset.refl _, List.forall_mem_nil _, rfl, rfl⟩
  | @rule _ _ _ _ _ inner _ hnode hunder ih =>
    obtain ⟨ancestors, hvisits, hands, rfl, rfl⟩ := ih
    refine ⟨ancestors ++ [.rule inner], ?_, ?_, ?_, ?_⟩
    · exact List.Subset.trans (NestedRule.visits_subset hnode) hvisits
    · exact List.forall_mem_append.2 ⟨hands, List.forall_mem_singleton.2 rfl⟩
    · rw [List.filterMap_append]
      rfl
    · rw [scopeUnder_concat rfl, selectorsUnder_eq_ok hunder]
      rfl
  | @conditional _ _ _ _ keyword prelude _ hnode ih =>
    obtain ⟨ancestors, hvisits, hands, rfl, rfl⟩ := ih
    refine ⟨ancestors ++ [.conditional keyword prelude], ?_, ?_, ?_, ?_⟩
    · exact List.Subset.trans (List.subset_cons_self _ _)
        (List.Subset.trans (NestedRule.visits_subset hnode) hvisits)
    · exact List.forall_mem_append.2 ⟨hands, List.forall_mem_singleton.2 rfl⟩
    · rw [List.filterMap_append]
      exact (List.append_nil _).symm
    · rw [scopeUnder_concat rfl]
      rfl

section
variable {inside : List Ancestor} {nodes : List NestedRule}

mutual

/-- What is visited in a node stands inside of everything that the node stands in. -/
theorem NestedRule.prefix_of_visits {ancestors : List Ancestor} : ∀ node : NestedRule,
    Visit.body inside nodes ∈ node.visits ancestors → ancestors <+: inside
  | .bare _, h => absurd h List.not_mem_nil
  | .declaration _, h => absurd h List.not_mem_nil
  | .atStatement _ _, h => absurd h List.not_mem_nil
  | .malformed _, h => absurd h List.not_mem_nil
  | .rule selectors body, h => by
    rcases List.mem_cons.1 h with heq | h
    · cases heq
      exact List.prefix_append _ _
    · exact (List.prefix_append _ _).trans (prefix_of_bodyVisits body h)
  | .atRule .conditional keyword prelude body, h => by
    rcases List.mem_cons.1 ((List.mem_cons.1 h).resolve_left fun heq => by cases heq) with heq | h
    · cases heq
      exact List.prefix_append _ _
    · exact (List.prefix_append _ _).trans (prefix_of_bodyVisits body h)
  | .atRule .keyframes keyword prelude frames, h => by
    obtain ⟨selector, hinside⟩ :=
      prefix_of_frameVisits frames ((List.mem_cons.1 h).resolve_left fun heq => by cases heq)
    exact (List.prefix_append _ _).trans hinside
  | .atRule .unscoped keyword prelude body, h => by
    rcases List.mem_append.1 h with h | h
    · split at h
      · cases List.mem_singleton.1 h
      · cases h
    · rcases List.mem_cons.1 h with heq | h
      · cases heq
        exact List.prefix_append _ _
      · exact (List.prefix_append _ _).trans (prefix_of_bodyVisits body h)

/-- The same for all nodes of a body. -/
theorem prefix_of_bodyVisits {ancestors : List Ancestor} : ∀ body : List NestedRule,
    Visit.body inside nodes ∈ bodyVisits ancestors body → ancestors <+: inside
  | [], h => by cases h
  | node :: body, h => by
    rcases List.mem_append.1 h with h | h
    · exact NestedRule.prefix_of_visits node h
    · exact prefix_of_bodyVisits body h

/-- What is visited among the frames of an animation stands inside of one of them. -/
theorem prefix_of_frameVisits {ancestors : List Ancestor} {keyword : List Char} {prelude : List Component} :
    ∀ frames : List NestedRule, Visit.body inside nodes ∈ frameVisits ancestors keyword prelude frames →
      ∃ selector, ancestors ++ [.frame keyword prelude selector] <+: inside
  | [], h => by cases h
  | .rule selector body :: frames, h => by
    rcases List.mem_cons.1 h with heq | h
    · cases heq
      exact ⟨selector, List.prefix_rfl⟩
    · rcases List.mem_append.1 h with h | h
      · exact ⟨selector, prefix_of_bodyVisits body h⟩
      · exact prefix_of_frameVisits frames h
  | .bare _ :: frames, h => prefix_of_frameVisits frames h
  | .declaration _ :: frames, h => prefix_of_frameVisits frames h
  | .atRule _ _ _ _ :: frames, h => prefix_of_frameVisits frames h
  | .atStatement _ _ :: frames, h => prefix_of_frameVisits frames h
  | .malformed _ :: frames, h => prefix_of_frameVisits frames h

end

/-- An ancestor of a visited body is none that starts anew, where all of them hand selectors on. -/
theorem not_prefix_of_handsOn {ancestors : List Ancestor} {ancestor : Ancestor} (h : ancestor.handsOn = false)
    (hands : ∀ ancestor ∈ inside, ancestor.handsOn = true) : ¬ ancestors ++ [ancestor] <+: inside := by
  intro hinside
  have hon := hands ancestor (hinside.subset (List.mem_append_right _ (List.mem_singleton_self _)))
  rw [h] at hon
  cases hon

/-- The way to a body along its ancestors. -/
def ReachedAlong (context : List Char) (tree : List NestedRule) (ancestors : List Ancestor)
    (body : List NestedRule) : Prop :=
  Reached context tree (ancestors.filterMap Ancestor.list?) (scopeUnder [context] ancestors).selectors body

/-- Flattening a reached body goes on to the rules in it. -/
theorem ReachedAlong.rule {whole : Flattened} (hwhole : flattenBody [context] tree = .ok whole)
    {ancestors : List Ancestor} {inner : List Component} {nested : List NestedRule}
    (h : ReachedAlong context tree ancestors body) (hnode : .rule inner nested ∈ body) :
    ReachedAlong context tree (ancestors ++ [.rule inner]) nested := by
  obtain ⟨flat, heads, hflat, -⟩ := Reached.flattened hwhole h
  obtain ⟨part, hpart, -⟩ := flatten_of_mem hflat hnode
  obtain ⟨under, hunder, -⟩ := Except.bind_eq_ok_iff.1 hpart
  have hreached := Reached.rule h hnode hunder
  rw [selectorsUnder_eq_ok hunder] at hreached
  rw [ReachedAlong, List.filterMap_append, scopeUnder_concat rfl]
  exact hreached

/-- Flattening a reached body goes on to the conditional at-rules in it. -/
theorem ReachedAlong.conditional {ancestors : List Ancestor} {keyword : List Char}
    {prelude : List Component} {nested : List NestedRule} (h : ReachedAlong context tree ancestors body)
    (hnode : .atRule .conditional keyword prelude nested ∈ body) :
    ReachedAlong context tree (ancestors ++ [.conditional keyword prelude]) nested := by
  have hreached := Reached.conditional h hnode
  rw [ReachedAlong, List.filterMap_append, scopeUnder_concat rfl]
  exact (List.append_nil (ancestors.filterMap Ancestor.list?)).symm ▸ hreached

mutual

/-- A body that is visited inside of rules and conditional at-rules only is reached. -/
theorem NestedRule.reached_of_visits {whole : Flattened}
    (hwhole : flattenBody [context] tree = .ok whole)
    (hands : ∀ ancestor ∈ inside, ancestor.handsOn = true) {ancestors : List Ancestor}
    {body : List NestedRule} :
    ∀ node : NestedRule, node ∈ body → ReachedAlong context tree ancestors body →
      Visit.body inside nodes ∈ node.visits ancestors → ReachedAlong context tree inside nodes
  | .bare _, _, _, h => absurd h List.not_mem_nil
  | .declaration _, _, _, h => absurd h List.not_mem_nil
  | .atStatement _ _, _, _, h => absurd h List.not_mem_nil
  | .malformed _, _, _, h => absurd h List.not_mem_nil
  | .rule inner nested, hnode, hreached, h => by
    have hnested := hreached.rule hwhole hnode
    rcases List.mem_cons.1 h with heq | h
    · cases heq
      exact hnested
    · exact reached_of_bodyVisits hwhole hands nested (List.Subset.refl _) hnested h
  | .atRule .conditional keyword prelude nested, hnode, hreached, h => by
    have hnested := hreached.conditional hnode
    rcases List.mem_cons.1 ((List.mem_cons.1 h).resolve_left fun heq => by cases heq) with heq | h
    · cases heq
      exact hnested
    · exact reached_of_bodyVisits hwhole hands nested (List.Subset.refl _) hnested h
  | .atRule .keyframes keyword prelude frames, _, _, h => by
    obtain ⟨selector, hinside⟩ :=
      prefix_of_frameVisits frames ((List.mem_cons.1 h).resolve_left fun heq => by cases heq)
    exact absurd hinside (not_prefix_of_handsOn rfl hands)
  | .atRule .unscoped keyword prelude nested, _, _, h => by
    have hunscoped : Ancestor.handsOn (.unscoped keyword prelude) = false := rfl
    refine absurd ?_ (@not_prefix_of_handsOn _ ancestors _ hunscoped hands)
    rcases List.mem_append.1 h with h | h
    · split at h
      · cases List.mem_singleton.1 h
      · cases h
    · rcases List.mem_cons.1 h with heq | h
      · cases heq
        exact List.prefix_rfl
      · exact prefix_of_bodyVisits nested h

/-- The same for some nodes of a body that is reached. -/
theorem reached_of_bodyVisits {whole : Flattened} (hwhole : flattenBody [context] tree = .ok whole)
    (hands : ∀ ancestor ∈ inside, ancestor.handsOn = true) {ancestors : List Ancestor}
    {body : List NestedRule} :
    ∀ part : List NestedRule, part ⊆ body → ReachedAlong context tree ancestors body →
      Visit.body inside nodes ∈ bodyVisits ancestors part → ReachedAlong context tree inside nodes
  | [], _, _, h => by cases h
  | node :: part, hpart, hreached, h => by
    obtain ⟨hnode, hpart⟩ := List.cons_subset.1 hpart
    rcases List.mem_append.1 h with h | h
    · exact NestedRule.reached_of_visits hwhole hands node hnode hreached h
    · exact reached_of_bodyVisits hwhole hands part hpart hreached h

end

end

/-- The bodies that are reached are those that are visited inside of rules and conditional at-rules
only, each under the selectors of its scope. -/
theorem reached_iff {whole : Flattened} (hwhole : flattenBody [context] tree = .ok whole) :
    Reached context tree path selectors body ↔
      ∃ ancestors, Visit.body ancestors body ∈ visits [] tree ∧
        (∀ ancestor ∈ ancestors, ancestor.handsOn = true) ∧
        path = ancestors.filterMap Ancestor.list? ∧
        selectors = (scopeUnder [context] ancestors).selectors := by
  constructor
  · intro h
    obtain ⟨ancestors, hvisits, hrest⟩ := h.exists_visits
    exact ⟨ancestors, hvisits (.head _), hrest⟩
  · rintro ⟨ancestors, hvisit, hands, rfl, rfl⟩
    rcases List.mem_cons.1 hvisit with heq | hvisit
    · cases heq
      exact .start
    · have hstart : ReachedAlong context tree [] tree := .start
      exact reached_of_bodyVisits hwhole hands tree (List.Subset.refl _) hstart hvisit

/-- On the way down no selector leaves the context, and each list multiplies their number. -/
theorem Reached.scoped (hcontext : Firm context) (h : Reached context tree path selectors body) :
    selectors.length = (path.map fun inner => (selectorGroups inner).length).prod ∧
      ∀ selector ∈ selectors, Firm selector ∧ context <:+: selector := by
  induction h with
  | start => exact ⟨rfl, by simpa using hcontext⟩
  | conditional _ _ ih => exact ih
  | rule _ _ hunder ih =>
    obtain ⟨hlength, hselectors⟩ := ih
    have hfirm := fun parent hparent => (hselectors parent hparent).1
    rw [selectorsUnder_eq_ok hunder]
    refine ⟨?_, fun selector hselector => ?_⟩
    · rw [length_nestSelectors, hlength, List.map_append, List.prod_append, List.map_singleton,
        List.prod_singleton]
    · obtain ⟨hselector, parent, hparent, hin⟩ := exists_of_mem_nestSelectors hfirm hselector
      exact ⟨hselector, (hselectors parent hparent).2.trans hin⟩

/-- **Selectors stay in their scope.** Where a template is flattened under a context, every body that is
reached has as many selectors as there are choices of one member from each list on the way, and each of
them is trimmed and holds the context. A rule in such a body is reached with the selectors that it gets
there: the combinations of the selectors of the body and its own. The body is flattened under just these
selectors, and what it declares stands under them in the output. Conversely, the output is what the visits
to the bodies emit, and the bodies that are visited inside of rules and conditional at-rules only are the
ones that are reached. -/
theorem reached_selectors {css : List Char} {rules : List FlatRule} (hne : context ≠ [])
    (htrimmed : Trimmed context) (h : flattenTemplate context css = .ok rules) :
    ∃ content, templateBody context css = .ok content ∧
      (∀ path selectors body, Reached context (NestedRule.ofBody content) path selectors body →
        selectors.length = (path.map fun inner => (selectorGroups inner).length).prod ∧
        (∀ selector ∈ selectors, context <:+: selector ∧ Trimmed selector) ∧
        (∀ inner nested, NestedRule.rule inner nested ∈ body → ∃ under,
          selectorsUnder selectors inner = .ok under ∧
            Reached context (NestedRule.ofBody content) (path ++ [inner]) under nested ∧
            Combines selectors (selectorGroups inner) under) ∧
        ∃ flat heads, flattenBody selectors body = .ok flat ∧ (flat.own ≠ [] →
          Emission.style ⟨heads, selectors⟩ flat.own ∈ emissionsOf [] rules)) ∧
      emissionsOf [] rules =
        (visits [] (NestedRule.ofBody content)).filterMap (Visit.emission? [context]) ∧
      ∀ path selectors body, Reached context (NestedRule.ofBody content) path selectors body ↔
        ∃ ancestors, Visit.body ancestors body ∈ visits [] (NestedRule.ofBody content) ∧
          (∀ ancestor ∈ ancestors, ancestor.handsOn = true) ∧
          path = ancestors.filterMap Ancestor.list? ∧
          selectors = (scopeUnder [context] ancestors).selectors := by
  obtain ⟨content, hcontent, h⟩ := Except.bind_eq_ok_iff.1 h
  obtain ⟨whole, hwhole, h⟩ := Except.bind_eq_ok_iff.1 h
  cases h
  have hscope : scopeUnder [context] [] = ⟨[], [context]⟩ := rfl
  refine ⟨content, hcontent, fun path selectors body hreached => ?_,
    emissionsOf_rules hscope (emissions_flattenBody hscope _ hwhole),
    fun path selectors body => reached_iff hwhole⟩
  obtain ⟨hlength, hselectors⟩ := hreached.scoped ⟨htrimmed, hne⟩
  obtain ⟨flat, heads, hflat, hsubset⟩ := hreached.flattened hwhole
  refine ⟨hlength, fun selector hselector => ?_, fun inner nested hnode => ?_,
    flat, heads, hflat, fun hown => hsubset ?_⟩
  · exact ⟨(hselectors selector hselector).2, (hselectors selector hselector).1.toTrimmed⟩
  · obtain ⟨part, hpart, -⟩ := flatten_of_mem hflat hnode
    obtain ⟨under, hunder, -⟩ := Except.bind_eq_ok_iff.1 hpart
    refine ⟨under, hunder, hreached.rule hnode hunder, ?_⟩
    rw [selectorsUnder_eq_ok hunder]
    exact combines_nestSelectors (fun parent hparent => (hselectors parent hparent).1) inner
  · rw [Flattened.rules, if_neg (by simpa using hown), List.singleton_append, emissionsOf]
    exact List.mem_append_left _ (List.mem_singleton_self _)

end

/-- Two selectors inside a condition inside two others, with the outer selector in a function, at the
start and in front. -/
theorem reached_selectors_nested :
    ∃ content rules path selectors body,
      templateBody ".a".toList ":is(&) p,b\x7b@media q\x7b&:h,j\x7bx:y\x7d\x7d\x7d".toList = .ok content ∧
      flattenTemplate ".a".toList ":is(&) p,b\x7b@media q\x7b&:h,j\x7bx:y\x7d\x7d\x7d".toList = .ok rules ∧
      Reached ".a".toList (NestedRule.ofBody content) path selectors body ∧
      selectors = [":is(.a) p:h".toList, ":is(.a) p j".toList, ".a b:h".toList, ".a b j".toList] ∧
      selectors.length = (path.map fun inner => (selectorGroups inner).length).prod ∧
      (∀ selector ∈ selectors, ".a".toList <:+: selector ∧ Trimmed selector) ∧
      ∃ flat heads, flattenBody selectors body = .ok flat ∧ (flat.own ≠ [] →
        Emission.style ⟨heads, selectors⟩ flat.own ∈ emissionsOf [] rules) := by
  obtain ⟨content, rules, outer, keyword, prelude, inner, d, hcontent, hrules, htree, houter, hinner⟩ :
      ∃ content rules outer keyword prelude inner d,
        templateBody ".a".toList ":is(&) p,b\x7b@media q\x7b&:h,j\x7bx:y\x7d\x7d\x7d".toList = .ok content ∧
        flattenTemplate ".a".toList ":is(&) p,b\x7b@media q\x7b&:h,j\x7bx:y\x7d\x7d\x7d".toList = .ok rules ∧
        NestedRule.ofBody content =
          [.rule outer [.atRule .conditional keyword prelude [.rule inner [.declaration d]]]] ∧
        selectorsUnder [".a".toList] outer = .ok [":is(.a) p".toList, ".a b".toList] ∧
        selectorsUnder [":is(.a) p".toList, ".a b".toList] inner =
          .ok [":is(.a) p:h".toList, ":is(.a) p j".toList, ".a b:h".toList, ".a b j".toList] :=
    ⟨_, _, _, _, _, _, _, by cbv, by cbv, by cbv, by cbv, by cbv⟩
  have hreached : Reached ".a".toList (NestedRule.ofBody content) [outer, inner]
      [":is(.a) p:h".toList, ":is(.a) p j".toList, ".a b:h".toList, ".a b j".toList]
      [.declaration d] :=
    .rule (.conditional (.rule .start (htree ▸ List.mem_singleton_self _) houter)
      (List.mem_singleton_self _)) (List.mem_singleton_self _) hinner
  have htrimmed : Trimmed ".a".toList := ⟨by rintro c ⟨⟩; rfl, by rintro c ⟨⟩; rfl⟩
  obtain ⟨content', hcontent', hscoped, -, -⟩ := reached_selectors (List.cons_ne_nil _ _) htrimmed hrules
  cases hcontent.symm.trans hcontent'
  obtain ⟨hlength, hselectors, -, hemitted⟩ := hscoped _ _ _ hreached
  exact ⟨content, rules, _, _, _, hcontent, hrules, hreached, rfl, hlength, hselectors, hemitted⟩

end CssTemplate.Css
