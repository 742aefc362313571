import CssTemplate.Proofs.Css.Heads
import CssTemplate.Proofs.Except

/-!
# Flattening does not look at its selector

A template can be flattened under any selector, and the selector only ever gets copied. Said with
patterns, texts with holes in them: for every template there is one pattern, or one fault, that
gives the result under every selector that has no blank in it and is a name or a class name
(`flattenCss_eq_fill`). Trimming cannot tell the selectors apart, because none of them has a blank
at its ends, and nothing else looks inside.
-/

namespace CssTemplate.Css

/-! ## Patterns -/

/-- A text with holes. -/
abbrev Pattern := List (Option Char)

/-- A text without holes. -/
def fixed (text : List Char) : Pattern :=
  text.map some

/-- The pattern with the same text in all its holes. -/
def fill (hole : List Char) (pattern : Pattern) : List Char :=
  pattern.flatMap fun
    | none => hole
    | some c => [c]

/-- A text that trimming leaves as it is, in whatever it stands. -/
structure Solid (hole : List Char) : Prop where
  ne_nil : hole ≠ []
  not_blank : ∀ c ∈ hole, isBlank c = false

section

variable {hole : List Char}

/-- The empty pattern has the empty text. -/
@[simp] theorem fill_nil : fill hole [] = [] := rfl

/-- A hole is filled with the text. -/
@[simp] theorem fill_none (p : Pattern) : fill hole (none :: p) = hole ++ fill hole p := rfl

/-- A character of a pattern stays as it is. -/
@[simp] theorem fill_some (c : Char) (p : Pattern) : fill hole (some c :: p) = c :: fill hole p := rfl

/-- Patterns are filled one after the other. -/
@[simp] theorem fill_append (p q : Pattern) : fill hole (p ++ q) = fill hole p ++ fill hole q :=
  List.flatMap_append

/-- A pattern without holes is its text. -/
@[simp] theorem fill_fixed (text : List Char) : fill hole (fixed text) = text := by
  induction text with
  | nil => rfl
  | cons c text ih => exact congrArg (c :: ·) ih

/-- The reverse of a filled pattern is the reversed pattern with the reversed text. -/
theorem fill_reverse (p : Pattern) : (fill hole p).reverse = fill hole.reverse p.reverse := by
  induction p with
  | nil => rfl
  | cons part p ih =>
    cases part with
    | none => simp [ih]
    | some c => simp [ih]

/-- The reverse of a solid text is solid. -/
theorem Solid.reverse (h : Solid hole) : Solid hole.reverse where
  ne_nil := by simpa using h.ne_nil
  not_blank := fun c hc => h.not_blank c (List.mem_reverse.1 hc)

/-- A pattern filled with a solid text is empty only if the pattern is. -/
theorem fill_eq_nil_iff (h : Solid hole) (p : Pattern) : fill hole p = [] ↔ p = [] := by
  rcases p with _ | ⟨_ | c, p⟩
  · simp
  · simp [h.ne_nil]
  · simp

/-- A pattern filled with a solid text is a lone space only if the pattern is. -/
theorem fill_eq_space_iff (h : Solid hole) (p : Pattern) :
    fill hole p = [' '] ↔ p = [some ' '] := by
  rcases p with _ | ⟨_ | c, p⟩
  · simp
  · refine iff_of_false ?_ (by simp)
    obtain ⟨c, rest, rfl⟩ := List.exists_cons_of_ne_nil h.ne_nil
    have hc := h.not_blank c (.head _)
    rintro heq
    rw [fill_none, List.cons_append, List.cons.injEq] at heq
    rw [heq.1] at hc
    cases hc
  · simp [fill_eq_nil_iff h]

/-- Trimming acts on patterns. -/
def trimPattern (p : Pattern) : Pattern :=
  ((p.dropWhile (·.any isBlank)).reverse.dropWhile (·.any isBlank)).reverse

/-- Trimming the front of a filled pattern trims the pattern. -/
theorem dropWhile_fill (h : Solid hole) (p : Pattern) :
    (fill hole p).dropWhile isBlank = fill hole (p.dropWhile (·.any isBlank)) := by
  induction p with
  | nil => rfl
  | cons part p ih =>
    cases part with
    | none =>
      obtain ⟨c, rest, rfl⟩ := List.exists_cons_of_ne_nil h.ne_nil
      simp [h.not_blank c (.head _)]
    | some c =>
      cases hc : isBlank c with
      | true => simpa [List.dropWhile_cons, hc] using ih
      | false => simp [hc]

/-- Trimming a filled pattern trims the pattern. -/
theorem trim_fill (h : Solid hole) (p : Pattern) : trim (fill hole p) = fill hole (trimPattern p) := by
  rw [trim, trimBy, trimEnd, dropWhile_fill h, fill_reverse, dropWhile_fill h.reverse, fill_reverse,
    List.reverse_reverse, trimPattern]

end

/-! ## Selectors -/

mutual

/-- The minified text of a component under selectors of one pattern is of one pattern. -/
theorem Component.exists_minifiedText_fill (outer : Pattern) : ∀ c : Component,
    ∃ p, ∀ hole, Solid hole → c.minifiedText (some (fill hole outer)) = fill hole p
  | .atom a => by
    cases a with
    | literal text =>
      by_cases htext : text = ['&']
      · exact ⟨outer, fun hole _ => by simp [Component.minifiedText, htext]⟩
      · exact ⟨fixed text, fun hole _ => by simp [Component.minifiedText, htext]⟩
    | _ => exact ⟨fixed _, fun hole _ => (fill_fixed _).symm⟩
  | .group (.function name) arguments => by
    obtain ⟨p, hp⟩ := exists_minifiedParts_fill outer true arguments
    refine ⟨fixed (identifierText name) ++ some '(' :: (trimPattern p ++ [some ')']), ?_⟩
    intro hole hsolid
    rw [Component.minifiedText, hp hole hsolid, trim_fill hsolid]
    simp
  | .group (.bracket .round) content => by
    obtain ⟨p, hp⟩ := exists_minifiedParts_fill outer true content
    refine ⟨some '(' :: (trimPattern p ++ [some ')']), ?_⟩
    intro hole hsolid
    rw [Component.minifiedText, hp hole hsolid, trim_fill hsolid]
    simp
  | .group (.bracket .square) content => by
    obtain ⟨p, hp⟩ := exists_minifiedParts_fill outer true content
    refine ⟨some '[' :: (trimPattern p ++ [some ']']), ?_⟩
    intro hole hsolid
    rw [Component.minifiedText, hp hole hsolid, trim_fill hsolid]
    simp
  | .group (.bracket .curly) content => ⟨fixed _, fun hole _ => (fill_fixed _).symm⟩

/-- The minified parts of a row under selectors of one pattern are of one pattern. -/
theorem exists_minifiedParts_fill (outer : Pattern) (skip : Bool) : ∀ cs : List Component,
    ∃ p, ∀ hole, Solid hole → minifiedParts (some (fill hole outer)) skip cs = fill hole p
  | [] => ⟨[], fun _ _ => rfl⟩
  | c :: cs => by
    cases hspace : c.isSpace with
    | true =>
      obtain ⟨p, hp⟩ := exists_minifiedParts_fill outer true cs
      refine ⟨(if skip then p else some ' ' :: p), fun hole hsolid => ?_⟩
      rw [minifiedParts, hspace, if_pos rfl, hp hole hsolid]
      cases skip <;> rfl
    | false =>
      obtain ⟨first, hfirst⟩ := Component.exists_minifiedText_fill outer c
      obtain ⟨p, hp⟩ := exists_minifiedParts_fill outer
        (c.isNestingSelector && outer == [some ' ']) cs
      refine ⟨first ++ p, fun hole hsolid => ?_⟩
      have hspace' : (some (fill hole outer) == some [' ']) = (outer == [some ' ']) := by
        rw [Bool.eq_iff_iff, beq_iff_eq, beq_iff_eq, Option.some.injEq, fill_eq_space_iff hsolid]
      rw [minifiedParts, hspace, if_neg Bool.false_ne_true, hfirst hole hsolid, hspace',
        hp hole hsolid, fill_append]

end

/-- One selector inside another. -/
theorem exists_nestSelector_fill (outer : Pattern) (inner : List Component) :
    ∃ p, ∀ hole, Solid hole → nestSelector (fill hole outer) inner = fill hole p := by
  cases hmentions : mentionsOuter inner with
  | true =>
    obtain ⟨p, hp⟩ := exists_minifiedParts_fill outer true inner
    refine ⟨trimPattern p, fun hole hsolid => ?_⟩
    rw [nestSelector, hmentions, if_pos rfl, minifiedText, hp hole hsolid, trim_fill hsolid]
  | false =>
    refine ⟨if outer.isEmpty then fixed (minifiedText none inner)
      else outer ++ some ' ' :: fixed (minifiedText none inner), fun hole hsolid => ?_⟩
    have hempty : (fill hole outer).isEmpty = outer.isEmpty := by
      rw [Bool.eq_iff_iff, List.isEmpty_iff, List.isEmpty_iff, fill_eq_nil_iff hsolid]
    rw [nestSelector, hmentions, if_neg Bool.false_ne_true, hempty]
    split <;> simp

/-- Selectors inside others. -/
theorem exists_nestSelectors_fill (outer : List Pattern) (inner : List Component) :
    ∃ ps : List Pattern, ∀ hole, Solid hole →
      nestSelectors (outer.map (fill hole)) inner = ps.map (fill hole) := by
  have hgroups : ∀ (selector : Pattern) (groups : List (List Component)),
      ∃ ps : List Pattern, ∀ hole, Solid hole →
        groups.map (nestSelector (fill hole selector)) = ps.map (fill hole) := by
    intro selector groups
    induction groups with
    | nil => exact ⟨[], fun _ _ => rfl⟩
    | cons group groups ih =>
      obtain ⟨p, hp⟩ := exists_nestSelector_fill selector group
      obtain ⟨ps, hps⟩ := ih
      exact ⟨p :: ps, fun hole hsolid => by
        rw [List.map_cons, List.map_cons, hp hole hsolid, hps hole hsolid]⟩
  induction outer with
  | nil => exact ⟨[], fun _ _ => rfl⟩
  | cons selector outer ih =>
    obtain ⟨ps, hps⟩ := hgroups selector (selectorGroups inner)
    obtain ⟨qs, hqs⟩ := ih
    refine ⟨ps ++ qs, fun hole hsolid => ?_⟩
    rw [List.map_append, ← hps hole hsolid, ← hqs hole hsolid]
    rfl

/-- Filled patterns joined by commas are one filled pattern. -/
theorem exists_joinCommas_fill (ps : List Pattern) :
    ∃ p, ∀ hole, joinCommas (ps.map (fill hole)) = fill hole p := by
  induction ps with
  | nil => exact ⟨[], fun _ => rfl⟩
  | cons first ps ih =>
    obtain ⟨p, hp⟩ := ih
    cases ps with
    | nil => exact ⟨first, fun hole => by simp [joinCommas]⟩
    | cons next ps =>
      refine ⟨first ++ some ',' :: p, fun hole => ?_⟩
      rw [fill_append, fill_some, ← hp hole]
      simp [joinCommas, List.intercalate]

/-! ## Flattening -/

/-- What a body gives, with the rules inside it written out. -/
def Flattened.outline (flat : Flattened) : List FlatDeclaration × List Char :=
  (flat.own, rulesText flat.inner)

/-- The outline of a body whose rules are a pattern. -/
def fillOutline (hole : List Char) (outline : List FlatDeclaration × Pattern) :
    List FlatDeclaration × List Char :=
  (outline.1, fill hole outline.2)

/-- Flat rules are written one after the other. -/
theorem rulesText_append (a b : List FlatRule) :
    rulesText (a ++ b) = rulesText a ++ rulesText b := by
  induction a with
  | nil => rfl
  | cons rule a ih => rw [List.cons_append, rulesText, ih, rulesText, List.append_assoc]

/-- The rules of a body, written out under its selectors. -/
theorem exists_rules_fill (selectors : List Pattern) (outline : List FlatDeclaration × Pattern) :
    ∃ p, ∀ hole, ∀ flat : Flattened, flat.outline = fillOutline hole outline →
      rulesText (flat.rules (selectors.map (fill hole))) = fill hole p := by
  obtain ⟨head, hhead⟩ := exists_joinCommas_fill selectors
  refine ⟨(if outline.1.isEmpty then []
    else head ++ some '{' :: fixed (declarationsText outline.1 ++ ['}'])) ++ outline.2, ?_⟩
  intro hole flat houtline
  obtain ⟨hown, hinner⟩ : flat.own = outline.1 ∧ rulesText flat.inner = fill hole outline.2 :=
    Prod.mk.inj houtline
  rw [Flattened.rules, rulesText_append, hinner, hown, fill_append]
  split
  · rfl
  · simp [rulesText, FlatRule.text, blockText, hhead]

/-- A run that gives one pattern, or one fault, for all selectors. -/
def Uniform (run : List Char → Except Fault Flattened) : Prop :=
  ∃ r : Except Fault (List FlatDeclaration × Pattern), ∀ hole, Solid hole →
    (run hole).map Flattened.outline = r.map (fillOutline hole)

namespace Uniform

/-- A result without selectors is uniform. -/
theorem const (x : Except Fault Flattened) : Uniform fun _ => x := by
  refine ⟨x.map fun flat => (flat.own, fixed (rulesText flat.inner)), fun hole _ => ?_⟩
  cases x with
  | error what => rfl
  | ok flat => simp [fillOutline, Flattened.outline]

/-- A step that does not depend on the selector, and then one that may. -/
theorem bind {α : Type} {x : Except Fault α} {k : List Char → α → Except Fault Flattened}
    (h : ∀ a, x = .ok a → Uniform fun hole => k hole a) : Uniform fun hole => x >>= k hole := by
  cases x with
  | error what => exact const (.error what)
  | ok a => exact h a rfl

/-- A run that equals a uniform one for solid selectors is uniform. -/
theorem congr {run run' : List Char → Except Fault Flattened} (h : Uniform run')
    (heq : ∀ hole, Solid hole → run hole = run' hole) : Uniform run := by
  obtain ⟨r, hr⟩ := h
  exact ⟨r, fun hole hsolid => by rw [heq hole hsolid, hr hole hsolid]⟩

/-- A result that is used further, where only its outline matters. -/
theorem andThen {run : List Char → Except Fault Flattened} (h : Uniform run)
    {k : List Char → Flattened → Except Fault Flattened}
    (hk : ∀ outline, ∃ r : Except Fault (List FlatDeclaration × Pattern), ∀ hole, Solid hole →
      ∀ flat : Flattened, flat.outline = fillOutline hole outline →
        (k hole flat).map Flattened.outline = r.map (fillOutline hole)) :
    Uniform fun hole => run hole >>= k hole := by
  obtain ⟨r, hr⟩ := h
  cases r with
  | error what =>
    refine ⟨.error what, fun hole hsolid => ?_⟩
    have hrun := Except.map_eq_error_iff.1 (hr hole hsolid)
    simp only [hrun, Except.bind_error, Except.map_error]
  | ok outline =>
    obtain ⟨r, hr'⟩ := hk outline
    refine ⟨r, fun hole hsolid => ?_⟩
    obtain ⟨flat, hrun, houtline⟩ := Except.map_eq_ok_iff.1 (hr hole hsolid)
    simp only [hrun, Except.bind_ok]
    exact hr' hole hsolid flat houtline

/-- Two parts of a body. -/
theorem append {run more : List Char → Except Fault Flattened} (h : Uniform run)
    (hmore : Uniform more) :
    Uniform fun hole => run hole >>= fun first => more hole >>= fun rest =>
      .ok (first.append rest) := by
  refine h.andThen fun outline => ?_
  obtain ⟨r, hr⟩ := hmore
  refine ⟨r.map fun rest => (outline.1 ++ rest.1, outline.2 ++ rest.2), ?_⟩
  intro hole hsolid first hfirst
  cases r with
  | error what =>
    rw [Except.map_eq_error_iff.1 (hr hole hsolid)]
    rfl
  | ok outline' =>
    obtain ⟨rest, hrun, hrest⟩ := Except.map_eq_ok_iff.1 (hr hole hsolid)
    obtain ⟨hown, hinner⟩ := Prod.mk.inj hfirst
    obtain ⟨hown', hinner'⟩ := Prod.mk.inj hrest
    rw [hrun]
    simp [Flattened.outline, Flattened.append, fillOutline, rulesText_append, hown, hinner, hown',
      hinner']

end Uniform

/-- Nesting under selectors of one pattern gives selectors of one pattern, or one fault. -/
theorem exists_selectorsUnder_fill (outer : List Pattern) (inner : List Component) :
    ∃ x : Except Fault (List Pattern), ∀ hole, Solid hole →
      selectorsUnder (outer.map (fill hole)) inner = x.map (List.map (fill hole)) := by
  obtain ⟨ps, hps⟩ := exists_nestSelectors_fill outer inner
  refine ⟨if outer.isEmpty then .ok [] else
    (firstFaultOf inner).elim (.ok ps) fun what => .error (.token what), fun hole hsolid => ?_⟩
  rw [selectorsUnder, List.isEmpty_map, hps hole hsolid]
  split
  · rfl
  · cases firstFaultOf inner <;> rfl

mutual

/-- Flattening a node is uniform in the selectors around it. -/
theorem NestedRule.uniform_flatten (selectors : List Pattern) : ∀ node : NestedRule,
    Uniform fun hole => node.flatten (selectors.map (fill hole))
  | .bare name => .const _
  | .declaration d => .const _
  | .rule inner body => by
    obtain ⟨x, hx⟩ := exists_selectorsUnder_fill selectors inner
    have hbody : Uniform fun hole => x >>= fun ps =>
        flattenBody (ps.map (fill hole)) body >>= fun flat =>
          .ok { inner := flat.rules (ps.map (fill hole)) } := by
      refine .bind fun ps _ => (uniform_flattenBody ps body).andThen fun outline => ?_
      obtain ⟨p, hp⟩ := exists_rules_fill ps outline
      refine ⟨.ok ([], p), fun hole _ flat houtline => ?_⟩
      simp [Flattened.outline, fillOutline, hp hole flat houtline]
    refine hbody.congr fun hole hsolid => ?_
    rw [NestedRule.flatten, hx hole hsolid]
    cases x <;> rfl
  | .atRule .conditional keyword prelude body => by
    refine .bind fun head _ => (uniform_flattenBody selectors body).andThen fun outline => ?_
    obtain ⟨p, hp⟩ := exists_rules_fill selectors outline
    refine ⟨.ok ([], fixed head ++ some '{' :: (p ++ [some '}'])), fun hole _ flat houtline => ?_⟩
    simp [Flattened.outline, fillOutline, rulesText, FlatRule.text, blockText,
      hp hole flat houtline]
  | .atRule .keyframes keyword prelude frames => .const _
  | .atRule .unscoped keyword prelude body => .const _
  | .atStatement keyword prelude => .const _
  | .malformed what => .const _

/-- Flattening a body is uniform in the selectors around it. -/
theorem uniform_flattenBody (selectors : List Pattern) : ∀ nodes : List NestedRule,
    Uniform fun hole => flattenBody (selectors.map (fill hole)) nodes
  | [] => .const _
  | node :: nodes =>
    (NestedRule.uniform_flatten selectors node).append (uniform_flattenBody selectors nodes)

end

/-! ## Templates -/

/-- A name or a class name without blanks. -/
inductive SimpleSelector : List Char → Prop where
  | name {name : List Char} : PlainName name → Solid name → SimpleSelector name
  | className {name : List Char} : PlainName name → Solid name → SimpleSelector ('.' :: name)

/-- A simple selector is left as it is by trimming. -/
theorem SimpleSelector.solid {selector : List Char} (h : SimpleSelector selector) :
    Solid selector := by
  cases h with
  | name _ hsolid => exact hsolid
  | className _ hsolid =>
    refine ⟨List.cons_ne_nil _ _, fun c hc => ?_⟩
    rcases List.mem_cons.1 hc with rfl | hc
    · rfl
    · exact hsolid.not_blank c hc

/-- The body of a template under a simple selector does not depend on the selector. -/
theorem SimpleSelector.templateBody {selector : List Char} (h : SimpleSelector selector)
    (css : List Char) : templateBody selector css = soleBody css (blockTokens css) := by
  cases h with
  | name hname _ => exact templateBody_name hname css
  | className hname _ => exact templateBody_class hname css

/-- One pattern, or one fault, gives the flattened template under every simple selector. -/
theorem flattenCss_eq_fill (css : List Char) :
    ∃ r : Except Fault Pattern, ∀ selector, SimpleSelector selector →
      flattenCss selector css = r.map (fill selector) := by
  have huniform : Uniform fun hole => soleBody css (blockTokens css) >>= fun content =>
      flattenBody ([[none]].map (fill hole)) (NestedRule.ofBody content) >>= fun flat =>
        .ok { inner := flat.rules ([[none]].map (fill hole)) } := by
    refine .bind fun content _ => ?_
    refine (uniform_flattenBody [[none]] (NestedRule.ofBody content)).andThen fun outline => ?_
    obtain ⟨p, hp⟩ := exists_rules_fill [[none]] outline
    refine ⟨.ok ([], p), fun hole _ flat houtline => ?_⟩
    simp only [Except.map_ok, Flattened.outline, fillOutline, hp hole flat houtline]
  obtain ⟨r, hr⟩ := huniform
  refine ⟨r.map (·.2), fun selector hselector => ?_⟩
  have hrun := hr selector hselector.solid
  have hhole : [[none]].map (fill selector) = [selector] := by simp [fill]
  simp only [hhole] at hrun
  have hsnd : (r.map (·.2)).map (fill selector) = (r.map (fillOutline selector)).map (·.2) := by
    cases r <;> rfl
  rw [hsnd, ← hrun, flattenCss, flattenTemplate, hselector.templateBody]
  cases soleBody css (blockTokens css) with
  | error what => rfl
  | ok content =>
    simp only [Except.bind_ok]
    cases flattenBody [selector] (NestedRule.ofBody content) <;> rfl

/-! ## Two selectors -/

/-- Putting a text in the place of a marker fills the pattern, if the marker is not in the filled
text. -/
theorem flatMap_fill {m : Char} {hole : List Char} {p : Pattern} (h : m ∉ fill hole p) :
    (fill [m] p).flatMap (fun x => if x = m then hole else [x]) = fill hole p := by
  induction p with
  | nil => rfl
  | cons part p ih =>
    cases part with
    | none =>
      have hp : m ∉ fill hole p := fun hm => h (List.mem_append_right _ hm)
      rw [fill_none, fill_none, List.singleton_append, List.flatMap_cons, if_pos rfl, ih hp]
    | some c =>
      rw [fill_some, List.mem_cons, not_or] at h
      rw [fill_some, fill_some, List.flatMap_cons, if_neg (Ne.symm h.1), ih h.2]
      rfl

/-- A character outside ASCII that is not blank is a simple selector. -/
theorem simpleSelector_singleton {m : Char} (h : 0x80 ≤ m.toNat) (hblank : isBlank m = false) :
    SimpleSelector [m] :=
  .name ⟨startsName_of_nonAscii h, by simpa using isNameChar_of_nonAscii h⟩
    ⟨List.cons_ne_nil _ _, by simpa using hblank⟩

/-- A class with an ASCII name is a simple selector. -/
theorem simpleSelector_class {a : Char} {rest : List Char} (ha : a.isAlpha = true)
    (hrest : ∀ c ∈ rest, c.isAlphanum = true ∨ c = '-' ∨ c = '_') :
    SimpleSelector ('.' :: a :: rest) := by
  have hstarts : startsName a = true := by rw [startsName, ha, Bool.true_or, Bool.true_or]
  have hchar : ∀ c ∈ a :: rest, c.isAlphanum = true ∨ c = '-' ∨ c = '_' := by
    intro c hc
    rcases List.mem_cons.1 hc with rfl | hc
    · exact .inl (by rw [Char.isAlphanum, ha, Bool.true_or])
    · exact hrest c hc
  refine .className ⟨hstarts, fun c hc => ?_⟩ ⟨List.cons_ne_nil _ _, fun c hc => ?_⟩
  · rcases hchar c hc with h | rfl | rfl
    · rw [Char.isAlphanum, Bool.or_eq_true] at h
      rcases h with h | h <;> simp [isNameChar, startsName, h]
    · decide
    · decide
  · rcases hchar c hc with h | rfl | rfl
    · exact isBlank_of_isAlphanum h
    · decide
    · decide

/-- A template flattens under one character if and only if it flattens under a class name, with the
same fault if it does not; and where the character does not occur otherwise, putting the class name
in its place turns the first result into the second. -/
theorem flattenCss_equivariant {m a : Char} {rest : List Char} (hm : 0x80 ≤ m.toNat)
    (hblank : isBlank m = false) (ha : a.isAlpha = true)
    (hrest : ∀ c ∈ rest, c.isAlphanum = true ∨ c = '-' ∨ c = '_') (css : List Char) :
    (∀ what, flattenCss [m] css = .error what ↔ flattenCss ('.' :: a :: rest) css = .error what) ∧
      ∀ out, flattenCss ('.' :: a :: rest) css = .ok out → m ∉ out →
        ∃ out', flattenCss [m] css = .ok out' ∧
          out'.flatMap (fun x => if x = m then '.' :: a :: rest else [x]) = out := by
  obtain ⟨r, hr⟩ := flattenCss_eq_fill css
  rw [hr _ (simpleSelector_singleton hm hblank), hr _ (simpleSelector_class ha hrest)]
  refine ⟨fun what => by rw [Except.map_eq_error_iff, Except.map_eq_error_iff], ?_⟩
  intro out hout hmem
  obtain ⟨p, rfl, rfl⟩ := Except.map_eq_ok_iff.1 hout
  exact ⟨fill [m] p, rfl, flatMap_fill hmem⟩

/-- A selector list in which one member mentions the outer selector inside a function. -/
theorem flattenCss_equivariant_nested :
    flattenCss ['.', 'a', '-', '1'] "b,:is(& c){color:red}".toList =
        .ok ".a-1 b,:is(.a-1 c){color:red;}".toList ∧
      ∃ out', flattenCss ['æ'] "b,:is(& c){color:red}".toList = .ok out' ∧
        out'.flatMap (fun x => if x = 'æ' then ['.', 'a', '-', '1'] else [x]) =
          ".a-1 b,:is(.a-1 c){color:red;}".toList := by
  have hclass : flattenCss ['.', 'a', '-', '1'] "b,:is(& c){color:red}".toList =
      .ok ".a-1 b,:is(.a-1 c){color:red;}".toList := by cbv
  have hequivariant := @flattenCss_equivariant 'æ' 'a' ['-', '1'] (by decide) (by decide) (by decide)
    (by simp) "b,:is(& c){color:red}".toList
  exact ⟨hclass, hequivariant.2 _ hclass (by decide)⟩

end CssTemplate.Css
