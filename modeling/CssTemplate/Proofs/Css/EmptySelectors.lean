import CssTemplate.Proofs.Css.ScopedSelectors
import Mathlib

/-!
# Rules without a selector

The blank members of a selector list are dropped, and nothing is said where no member is left: the rule
has no selectors then, nor has any rule inside it, and its declarations are written in front of a bare
curly bracket. A frame of an animation may be blank in the same way, and a nesting selector inside it
then is nothing as well.

The selectors of every rule of an output have a lineage, the selector that they start from and the lists
that were combined with it since. There are none exactly where one of these lists has no member that is
not blank, and one of them is empty exactly where the start is and every list has a member that hands it
on (`emitted_selectors`).
-/

namespace CssTemplate.Css

/-! ## Lineages -/

/-- Where selectors come from: the one that they start from, and the lists of the rules from there on,
from the outside in. -/
structure Lineage where
  start : List Char
  lists : List (List Component)
  deriving Repr

/-- The lineage inside an ancestor. -/
def Lineage.enter (lineage : Lineage) : Ancestor → Lineage
  | .rule selectors => { lineage with lists := lineage.lists ++ [selectors] }
  | .conditional _ _ => lineage
  | .frame _ _ selector => ⟨minifiedText none selector, []⟩
  | .unscoped keyword prelude => ⟨headText keyword prelude, []⟩

/-- The lineage inside of ancestors, which stand under a context, from the outside in. -/
def lineageUnder (context : List Char) (ancestors : List Ancestor) : Lineage :=
  ancestors.foldl Lineage.enter ⟨context, []⟩

section
variable {context : List Char} {ancestors : List Ancestor} {lists : List (List Component)}
  {outer : List (List Char)} {inner : List Component}

/-- One more ancestor is entered last. -/
theorem lineageUnder_concat (context : List Char) (ancestors : List Ancestor) (ancestor : Ancestor) :
    lineageUnder context (ancestors ++ [ancestor]) = (lineageUnder context ancestors).enter ancestor := by
  rw [lineageUnder, List.foldl_append]
  rfl

/-- The selectors of a scope are its lineage, multiplied out. -/
theorem selectors_scopeUnder (context : List Char) (ancestors : List Ancestor) :
    (scopeUnder [context] ancestors).selectors =
      (lineageUnder context ancestors).lists.foldl nestSelectors
        [(lineageUnder context ancestors).start] := by
  induction ancestors using List.reverseRecOn with
  | nil => rfl
  | append_singleton ancestors ancestor ih =>
    rw [scopeUnder_concat rfl, lineageUnder_concat]
    cases ancestor with
    | rule selectors => rw [Scope.enter, Lineage.enter, List.foldl_append, ← ih]; rfl
    | conditional keyword prelude => exact ih
    | frame keyword prelude selector => rfl
    | unscoped keyword prelude => rfl

/-! ## No selectors -/

/-- There are no nested selectors exactly when there are no parents or no groups. -/
theorem nestSelectors_eq_nil_iff :
    nestSelectors outer inner = [] ↔ outer = [] ∨ selectorGroups inner = [] := by
  rw [← List.length_eq_zero_iff, length_nestSelectors, Nat.mul_eq_zero, List.length_eq_zero_iff,
    List.length_eq_zero_iff]

/-- There are no selectors at the end of a lineage exactly when some list in it is empty. -/
theorem foldl_nestSelectors_eq_nil_iff :
    lists.foldl nestSelectors outer = [] ↔ outer = [] ∨ ∃ inner ∈ lists, selectorGroups inner = [] := by
  induction lists generalizing outer with
  | nil => simp
  | cons inner lists ih =>
    rw [List.foldl_cons, ih, nestSelectors_eq_nil_iff, or_assoc, List.exists_mem_cons_iff]

/-! ## An empty selector -/

/-- A text that shows something, if it is not empty. -/
def Shows (text : List Char) : Prop :=
  isBlankText text = true → text = []

/-- A text with a character that is not blank shows. -/
theorem Shows.of_mem {text : List Char} {c : Char} (hc : c ∈ text) (hblank : isBlank c = false) :
    Shows text := by
  intro htext
  rw [List.all_eq_true.1 htext c hc] at hblank
  cases hblank

/-- A trimmed text shows. -/
theorem shows_of_trimmed {text : List Char} (h : Trimmed text) : Shows text := by
  cases text with
  | nil => exact fun _ => rfl
  | cons c text => exact .of_mem (.head _) (h.head c rfl)

/-- A text that shows is empty or has a character that is not blank. -/
theorem Shows.eq_nil_or_exists {text : List Char} (h : Shows text) :
    text = [] ∨ ∃ c ∈ text, isBlank c = false := by
  by_cases hblank : isBlankText text = true
  · exact .inl (h hblank)
  · right
    simpa [isBlankText] using hblank

/-- What can be seen of an outer selector can be seen of the one that is made with it. -/
theorem mem_nestSelector {outer : List Char} {c : Char} (hc : c ∈ outer) (hblank : isBlank c = false)
    (inner : List Component) : c ∈ nestSelector outer inner := by
  have hfirm : Firm [c] := ⟨⟨by simpa using hblank, by simpa using hblank⟩, List.cons_ne_nil _ _⟩
  have hpart : [c] <:+: outer := (List.singleton_infix_iff c outer).2 hc
  exact (List.singleton_infix_iff c _).1 (infix_nestSelector hfirm hpart inner)

/-- A selector nested in one that shows, shows. -/
theorem shows_nestSelector {outer : List Char} (h : Shows outer) (inner : List Component) :
    Shows (nestSelector outer inner) := by
  rcases h.eq_nil_or_exists with rfl | ⟨c, hc, hblank⟩
  · rw [nestSelector]
    split <;> exact shows_of_trimmed (trimmed_trim _)
  · exact .of_mem (mem_nestSelector hc hblank inner) hblank

/-- Only an empty selector can be handed on as an empty one. -/
theorem nil_mem_nestSelectors_iff (h : ∀ selector ∈ outer, Shows selector) :
    [] ∈ nestSelectors outer inner ↔
      [] ∈ outer ∧ ∃ group ∈ selectorGroups inner, nestSelector [] group = [] := by
  constructor
  · intro hmem
    obtain ⟨selector, hselector, hmem⟩ := List.mem_flatMap.1 hmem
    obtain ⟨group, hgroup, hnil⟩ := List.mem_map.1 hmem
    rcases (h selector hselector).eq_nil_or_exists with rfl | ⟨c, hc, hblank⟩
    · exact ⟨hselector, group, hgroup, hnil⟩
    · have hfound := mem_nestSelector hc hblank group
      rw [hnil] at hfound
      cases hfound
  · rintro ⟨houter, group, hgroup, hnil⟩
    exact List.mem_flatMap.2 ⟨[], houter, List.mem_map.2 ⟨group, hgroup, hnil⟩⟩

/-- An empty selector comes from an empty one at the start and an empty group in every list. -/
theorem nil_mem_foldl_nestSelectors_iff (h : ∀ selector ∈ outer, Shows selector) :
    [] ∈ lists.foldl nestSelectors outer ↔
      [] ∈ outer ∧ ∀ inner ∈ lists, ∃ group ∈ selectorGroups inner, nestSelector [] group = [] := by
  induction lists generalizing outer with
  | nil => simp
  | cons inner lists ih =>
    have hinner : ∀ selector ∈ nestSelectors outer inner, Shows selector := by
      intro selector hselector
      obtain ⟨parent, hparent, hselector⟩ := List.mem_flatMap.1 hselector
      obtain ⟨group, -, rfl⟩ := List.mem_map.1 hselector
      exact shows_nestSelector (h parent hparent) group
    rw [List.foldl_cons, ih hinner, nil_mem_nestSelectors_iff h, and_assoc, List.forall_mem_cons]

/-- Whatever selectors start from shows something or is empty. -/
theorem shows_start (hcontext : Trimmed context) (ancestors : List Ancestor) :
    Shows (lineageUnder context ancestors).start := by
  induction ancestors using List.reverseRecOn with
  | nil => exact shows_of_trimmed hcontext
  | append_singleton ancestors ancestor ih =>
    rw [lineageUnder_concat]
    cases ancestor with
    | rule selectors => exact ih
    | conditional keyword prelude => exact ih
    | frame keyword prelude selector => exact shows_of_trimmed (trimmed_trim _)
    | unscoped keyword prelude => exact Shows.of_mem (.head _) (by decide)

/-- Under a context that is not empty, only a blank frame is an empty start. -/
theorem exists_frame_of_start_eq_nil (hcontext : context ≠ [])
    (h : (lineageUnder context ancestors).start = []) :
    ∃ keyword prelude selector, Ancestor.frame keyword prelude selector ∈ ancestors ∧
      minifiedText none selector = [] := by
  induction ancestors using List.reverseRecOn with
  | nil => exact absurd h hcontext
  | append_singleton ancestors ancestor ih =>
    rw [lineageUnder_concat] at h
    cases ancestor with
    | rule selectors =>
      obtain ⟨keyword, prelude, selector, hframe, hnil⟩ := ih h
      exact ⟨keyword, prelude, selector, List.mem_append_left _ hframe, hnil⟩
    | conditional _ _ =>
      obtain ⟨keyword, prelude, selector, hframe, hnil⟩ := ih h
      exact ⟨keyword, prelude, selector, List.mem_append_left _ hframe, hnil⟩
    | frame keyword prelude selector => exact ⟨keyword, prelude, selector, List.mem_concat_self, h⟩
    | unscoped keyword prelude => cases h

end

/-! ## The rules of an output -/

/-- What encloses the declarations that a visit emits. -/
def Visit.inside : Visit → List Ancestor
  | .body ancestors _ => ancestors
  | .wrapper ancestors _ _ => ancestors
  | .silent ancestors keyword prelude => ancestors ++ [.unscoped keyword prelude]

/-- An emitted style rule is in the scope of its visit. -/
theorem Visit.scope_of_emission {selectors : List (List Char)} {scope : Scope}
    {declarations : List FlatDeclaration} {visit : Visit}
    (h : visit.emission? selectors = some (.style scope declarations)) :
    scope = scopeUnder selectors visit.inside := by
  cases visit with
  | body ancestors nodes =>
    rw [Visit.emission?] at h
    split at h
    · cases h
    · cases h
      rfl
  | wrapper ancestors keyword prelude => cases h
  | silent ancestors keyword prelude =>
    cases h
    exact (scopeUnder_concat rfl _).symm

/-- **Which rules have no selector.** A rule of an output has no selectors exactly where some list of its
lineage has only blank members. One of its selectors is empty exactly where the start of its lineage is,
which takes a blank frame around it, and every list has a member that leaves nothing of it. -/
theorem emitted_selectors {context css : List Char} {rules : List FlatRule} (hne : context ≠ [])
    (htrimmed : Trimmed context) (h : flattenTemplate context css = .ok rules) :
    ∃ content, templateBody context css = .ok content ∧
      ∀ scope declarations, Emission.style scope declarations ∈ emissionsOf [] rules →
        ∃ visit ∈ visits [] (NestedRule.ofBody content),
          visit.emission? [context] = some (.style scope declarations) ∧
          (scope.selectors = [] ↔
            ∃ inner ∈ (lineageUnder context visit.inside).lists, selectorGroups inner = []) ∧
          ([] ∈ scope.selectors ↔ (lineageUnder context visit.inside).start = [] ∧
            ∀ inner ∈ (lineageUnder context visit.inside).lists,
              ∃ group ∈ selectorGroups inner, nestSelector [] group = []) ∧
          ([] ∈ scope.selectors → ∃ keyword prelude selector,
            Ancestor.frame keyword prelude selector ∈ visit.inside ∧
              minifiedText none selector = []) := by
  obtain ⟨content, hcontent, h⟩ := Except.bind_eq_ok_iff.1 h
  obtain ⟨flat, hflat, h⟩ := Except.bind_eq_ok_iff.1 h
  cases h
  have hscope : scopeUnder [context] [] = ⟨[], [context]⟩ := rfl
  have hemissions := emissionsOf_rules hscope (emissions_flattenBody hscope _ hflat)
  refine ⟨content, hcontent, fun scope declarations hstyle => ?_⟩
  rw [hemissions] at hstyle
  obtain ⟨visit, hvisit, hemission⟩ := List.mem_filterMap.1 hstyle
  have hselectors : scope.selectors = (lineageUnder context visit.inside).lists.foldl nestSelectors
      [(lineageUnder context visit.inside).start] := by
    rw [Visit.scope_of_emission hemission, selectors_scopeUnder]
  have hnil : scope.selectors = [] ↔
      ∃ inner ∈ (lineageUnder context visit.inside).lists, selectorGroups inner = [] := by
    rw [hselectors, foldl_nestSelectors_eq_nil_iff, or_iff_right (List.cons_ne_nil _ _)]
  have hmem : [] ∈ scope.selectors ↔ (lineageUnder context visit.inside).start = [] ∧
      ∀ inner ∈ (lineageUnder context visit.inside).lists,
        ∃ group ∈ selectorGroups inner, nestSelector [] group = [] := by
    rw [hselectors, nil_mem_foldl_nestSelectors_iff (by simpa using shows_start htrimmed _),
      List.mem_singleton, eq_comm]
  exact ⟨visit, hvisit, hemission, hnil, hmem,
    fun h => exists_frame_of_start_eq_nil hne (hmem.1 h).1⟩

/-- A rule whose list has only blank members, with another rule inside it. -/
theorem emitted_selectors_blank :
    ∃ content rules, templateBody ".a".toList ",\x7bb\x7bx:y\x7d\x7d".toList = .ok content ∧
      flattenTemplate ".a".toList ",\x7bb\x7bx:y\x7d\x7d".toList = .ok rules ∧
      Emission.style ⟨[], []⟩ [.property ['x'] ['y'] false] ∈ emissionsOf [] rules ∧
      ∃ visit ∈ visits [] (NestedRule.ofBody content),
        ∃ inner ∈ (lineageUnder ".a".toList visit.inside).lists, selectorGroups inner = [] := by
  obtain ⟨content, rules, hcontent, hrules, hstyle⟩ : ∃ content rules,
      templateBody ".a".toList ",\x7bb\x7bx:y\x7d\x7d".toList = .ok content ∧
      flattenTemplate ".a".toList ",\x7bb\x7bx:y\x7d\x7d".toList = .ok rules ∧
      Emission.style ⟨[], []⟩ [.property ['x'] ['y'] false] ∈ emissionsOf [] rules := by
    refine ⟨_, [.style [] [.property ['x'] ['y'] false]], by cbv, by cbv, ?_⟩
    rw [emissionsOf, emissionsOf, FlatRule.emissions]
    exact .head _
  have htrimmed : Trimmed ".a".toList := ⟨by rintro c ⟨⟩; rfl, by rintro c ⟨⟩; rfl⟩
  obtain ⟨content', hcontent', hselectors⟩ := emitted_selectors (List.cons_ne_nil _ _) htrimmed hrules
  cases hcontent.symm.trans hcontent'
  obtain ⟨visit, hvisit, -, hnil, -⟩ := hselectors _ _ hstyle
  exact ⟨content, rules, hcontent, hrules, hstyle, visit, hvisit, hnil.1 rfl⟩

/-- A selector list that is a comma leaves its rule without a selector. -/
theorem flattenCss_lone_comma :
    flattenCss ".a".toList ",\x7ba:b\x7d".toList = .ok "\x7ba:b;\x7d".toList ∧
      ∃ rules, flattenTemplate ".a".toList ",\x7ba:b\x7d".toList = .ok rules ∧
        Emission.style ⟨[], []⟩ [.property ['a'] ['b'] false] ∈ emissionsOf [] rules := by
  refine ⟨by cbv, [.style [] [.property ['a'] ['b'] false]], by cbv, ?_⟩
  rw [emissionsOf, emissionsOf, FlatRule.emissions]
  exact .head _

end CssTemplate.Css
