import CssTemplate.Css.Flatten
import CssTemplate.Proofs.Except

/-!
# What flattening writes

The printers join the texts of components, trim them and put punctuation between them. So a class
of texts that is closed under these steps (`Writable`) holds of what is written if it holds of the
components. `flattenBody_writtenIn` says it for a nesting tree and two classes, one for the heads of
rules and one for declarations.
-/

namespace CssTemplate.Css

/-- A class of texts that is closed under what printers do. -/
structure Writable (Q : List Char → Prop) : Prop where
  punctuation : ∀ {text : List Char}, '\\' ∉ text → '{' ∉ text → '}' ∉ text → Q text
  append : ∀ {a b : List Char}, Q a → Q b → Q (a ++ b)
  trim : ∀ {text : List Char}, Q text → Q (trim text)

namespace Writable

variable {Q : List Char → Prop} (hQ : Writable Q)

include hQ

/-- The empty text is in the class. -/
theorem nil : Q [] :=
  hQ.punctuation List.not_mem_nil List.not_mem_nil List.not_mem_nil

/-- A character that is no backslash and no brace may be put in front. -/
theorem cons {c : Char} (hc : c ∉ ['\\', '{', '}']) {text : List Char} (h : Q text) :
    Q (c :: text) := by
  have hone : ∀ d ∈ ['\\', '{', '}'], d ∉ [c] := fun d hd hmem =>
    hc (List.mem_singleton.1 hmem ▸ hd)
  exact hQ.append (hQ.punctuation (hone _ (.head _)) (hone _ (.tail _ (.head _)))
    (hone _ (.tail _ (.tail _ (.head _))))) h

/-- A character that is no backslash and no brace may be put at the end. -/
theorem concat {c : Char} (hc : c ∉ ['\\', '{', '}']) {text : List Char} (h : Q text) :
    Q (text ++ [c]) :=
  hQ.append h (hQ.cons hc hQ.nil)

/-- Texts of the class written one after the other are in it. -/
theorem flatMap {α : Type} {write : α → List Char} {l : List α} (h : ∀ x ∈ l, Q (write x)) :
    Q (l.flatMap write) := by
  induction l with
  | nil => exact hQ.nil
  | cons x l ih =>
    obtain ⟨hx, hl⟩ := List.forall_mem_cons.1 h
    exact hQ.append hx (ih hl)

/-- Texts of the class joined by commas are in it. -/
theorem joinCommas {texts : List (List Char)} (h : ∀ text ∈ texts, Q text) :
    Q (joinCommas texts) := by
  induction texts with
  | nil => exact hQ.nil
  | cons text texts ih =>
    obtain ⟨htext, htexts⟩ := List.forall_mem_cons.1 h
    cases texts with
    | nil => simpa [Css.joinCommas, List.intercalate] using htext
    | cons next texts =>
      have hjoin : Css.joinCommas (text :: next :: texts) =
          text ++ ',' :: Css.joinCommas (next :: texts) := by
        simp [Css.joinCommas, List.intercalate, List.intersperse]
      rw [hjoin]
      exact hQ.append htext (hQ.cons (by decide) (ih htexts))

end Writable

/-! ## Components -/

mutual

/-- The component is made of texts in the class. A bracket may only stand around contents if the
class allows it. -/
def Component.Within (Q : List Char → Prop) : Component → Prop
  | .atom a => Q a.text
  | .group (.bracket b) content =>
    (∀ text, Q text → Q (b.openChar :: (text ++ [b.closeChar]))) ∧ Component.WithinAll Q content
  | .group (.function name) arguments =>
    Q (identifierText name) ∧ Component.WithinAll Q arguments

/-- The components are made of texts in the class. -/
def Component.WithinAll (Q : List Char → Prop) : List Component → Prop
  | [] => True
  | c :: cs => c.Within Q ∧ Component.WithinAll Q cs

end

/-- A row is made of texts in the class if each of its components is. -/
theorem Component.withinAll_iff {Q : List Char → Prop} {cs : List Component} :
    Component.WithinAll Q cs ↔ ∀ c ∈ cs, c.Within Q := by
  induction cs with
  | nil => simp [Component.WithinAll]
  | cons c cs ih => simp [Component.WithinAll, ih]

variable {Q : List Char → Prop}

/-- What keeps neighbours apart is in the class. -/
theorem Writable.separator (hQ : Writable Q) (before : Option Kind) (next : Component) :
    Q (separator before next) := by
  unfold Css.separator
  split
  · exact hQ.nil
  · split
    · exact hQ.punctuation (by decide) (by decide) (by decide)
    · split
      · exact hQ.punctuation (by decide) (by decide) (by decide)
      · exact hQ.nil

mutual

/-- A component made of texts in the class is written as one. -/
theorem Component.Within.text (hQ : Writable Q) : ∀ c : Component, c.Within Q → Q c.text
  | .atom a, h => by
    rw [Component.text]
    rwa [Component.Within] at h
  | .group (.bracket b) content, h => by
    rw [Component.Within] at h
    rw [Component.text]
    exact h.1 _ (Component.WithinAll.contentText hQ none content h.2)
  | .group (.function name) arguments, h => by
    rw [Component.Within] at h
    rw [Component.text]
    have harguments := Component.WithinAll.contentText hQ none arguments h.2
    refine hQ.append h.1 (hQ.cons (by decide) (hQ.append harguments ?_))
    split
    · exact hQ.nil
    · exact hQ.cons (by decide) hQ.nil

/-- Components made of texts in the class are written as one. -/
theorem Component.WithinAll.contentText (hQ : Writable Q) (before : Option Kind) :
    ∀ cs : List Component, Component.WithinAll Q cs → Q (contentText before cs)
  | [], _ => by
    rw [Css.contentText]
    exact hQ.nil
  | c :: cs, h => by
    rw [Component.WithinAll] at h
    rw [Css.contentText]
    exact hQ.append (hQ.append (hQ.separator before c) (Component.Within.text hQ c h.1))
      (Component.WithinAll.contentText hQ _ cs h.2)

end

mutual

/-- The minified text of a component is in the class if the selectors around it are. -/
theorem Component.Within.minifiedText (hQ : Writable Q) {outer : Option (List Char)}
    (houter : ∀ text, outer = some text → Q text) :
    ∀ c : Component, c.Within Q → Q (c.minifiedText outer)
  | .atom a, h => by
    rw [Component.Within] at h
    cases a with
    | literal text =>
      rw [Component.minifiedText]
      split
      · cases outer with
        | none => exact h
        | some replacement => exact houter replacement rfl
      · exact h
    | _ => exact h
  | .group (.function name) arguments, h => by
    rw [Component.Within] at h
    rw [Component.minifiedText]
    have harguments := Component.WithinAll.minifiedParts hQ houter true arguments h.2
    exact hQ.append h.1 (hQ.cons (by decide) (hQ.concat (by decide) (hQ.trim harguments)))
  | .group (.bracket .round) content, h => by
    rw [Component.Within] at h
    rw [Component.minifiedText]
    exact h.1 _ (hQ.trim (Component.WithinAll.minifiedParts hQ houter true content h.2))
  | .group (.bracket .square) content, h => by
    rw [Component.Within] at h
    rw [Component.minifiedText]
    exact h.1 _ (hQ.trim (Component.WithinAll.minifiedParts hQ houter true content h.2))
  | .group (.bracket .curly) content, h => by
    rw [Component.minifiedText]
    exact Component.Within.text hQ _ h

/-- The minified parts of a row are in the class if the selectors around it are. -/
theorem Component.WithinAll.minifiedParts (hQ : Writable Q) {outer : Option (List Char)}
    (houter : ∀ text, outer = some text → Q text) (skip : Bool) :
    ∀ cs : List Component, Component.WithinAll Q cs → Q (minifiedParts outer skip cs)
  | [], _ => by
    rw [Css.minifiedParts]
    exact hQ.nil
  | c :: cs, h => by
    rw [Component.WithinAll] at h
    have hrest := fun skip => Component.WithinAll.minifiedParts hQ houter skip cs h.2
    rw [Css.minifiedParts]
    split
    · split
      · exact hrest true
      · exact hQ.cons (by decide) (hrest true)
    · exact hQ.append (Component.Within.minifiedText hQ houter c h.1) (hrest _)

end

section

variable (hQ : Writable Q)

include hQ

/-- The minified text of components is in the class if the selectors around them are. -/
theorem within_minifiedText (outer : Option (List Char))
    (houter : ∀ text, outer = some text → Q text) {cs : List Component}
    (h : ∀ c ∈ cs, c.Within Q) : Q (minifiedText outer cs) :=
  hQ.trim (Component.WithinAll.minifiedParts hQ houter true cs (Component.withinAll_iff.2 h))

/-- What minifying gives is in the class. -/
theorem within_minify {cs : List Component} {text : List Char} (h : ∀ c ∈ cs, c.Within Q)
    (htext : minify cs = .ok text) : Q text := by
  unfold minify at htext
  split at htext
  · cases htext
  · cases htext
    exact within_minifiedText hQ none (fun text h => by cases h) h

/-! ## Heads -/

omit hQ in
/-- A part of a list has elements of the list only. -/
theorem mem_of_mem_splitWhere {α : Type} {p : α → Bool} {l part : List α}
    (hpart : part ∈ splitWhere p l) : part ⊆ l := by
  induction l generalizing part with
  | nil =>
    rw [splitWhere, List.mem_singleton] at hpart
    rw [hpart]
    exact List.Subset.refl _
  | cons x l ih =>
    rw [splitWhere] at hpart
    split at hpart
    · rcases List.mem_cons.1 hpart with rfl | hpart
      · exact List.nil_subset _
      · exact fun y hy => .tail _ (ih hpart hy)
    · split at hpart
      · rw [List.mem_singleton.1 hpart]
        exact fun y hy => List.mem_singleton.1 hy ▸ .head _
      · next first parts heq =>
        rw [heq] at ih
        rcases List.mem_cons.1 hpart with rfl | hpart
        · intro y hy
          rcases List.mem_cons.1 hy with rfl | hy
          · exact .head _
          · exact .tail _ (ih (.head _) hy)
        · exact fun y hy => .tail _ (ih (.tail _ hpart) hy)

/-- A selector nested in another is in the class if both are made of it. -/
theorem within_nestSelector {outer : List Char} (houter : Q outer) {inner : List Component}
    (h : ∀ c ∈ inner, c.Within Q) : Q (nestSelector outer inner) := by
  unfold nestSelector
  split
  · refine within_minifiedText hQ _ (fun text htext => ?_) h
    cases htext
    exact houter
  · split
    · exact within_minifiedText hQ none nofun h
    · exact hQ.append houter (hQ.cons (by decide) (within_minifiedText hQ none nofun h))

/-- The selectors nested under others are in the class. -/
theorem within_selectorsUnder {outer selectors : List (List Char)} (houter : ∀ s ∈ outer, Q s)
    {inner : List Component} (h : ∀ c ∈ inner, c.Within Q)
    (hselectors : selectorsUnder outer inner = .ok selectors) : ∀ s ∈ selectors, Q s := by
  unfold selectorsUnder at hselectors
  split at hselectors
  · cases hselectors
    nofun
  · split at hselectors
    · cases hselectors
    · cases hselectors
      intro s hs
      obtain ⟨selector, hselector, hs⟩ := List.mem_flatMap.1 hs
      obtain ⟨group, hgroup, rfl⟩ := List.mem_map.1 hs
      have hsubset := mem_of_mem_splitWhere (List.mem_filter.1 hgroup).1
      exact within_nestSelector hQ (houter selector hselector) fun c hc => h c (hsubset hc)

/-- The head of an at-rule is in the class. -/
theorem within_atRuleHead {keyword head : List Char} {prelude : List Component} (hkeyword : Q keyword)
    (h : ∀ c ∈ prelude, c.Within Q) (hhead : atRuleHead keyword prelude = .ok head) : Q head := by
  obtain ⟨text, htext, rfl⟩ := Except.map_eq_ok_iff.1 hhead
  refine hQ.append (hQ.cons (by decide) hkeyword) ?_
  split
  · exact hQ.nil
  · exact hQ.cons (by decide) (within_minify hQ h htext)

end

/-! ## Rules -/

mutual

/-- The heads of the rules are made of texts in the first class, the declarations of texts in the
second. -/
def NestedRule.WrittenIn (H V : List Char → Prop) : NestedRule → Prop
  | .bare name => V (identifierText name)
  | .declaration d => V d.name ∧ ∀ c ∈ d.value, c.Within V
  | .rule selectors body => (∀ c ∈ selectors, c.Within H) ∧ NestedRule.AllWrittenIn H V body
  | .atRule _ keyword prelude body =>
    H keyword ∧ (∀ c ∈ prelude, c.Within H) ∧ NestedRule.AllWrittenIn H V body
  | .atStatement _ _ => True
  | .malformed _ => True

/-- The same for all nodes of a list. -/
def NestedRule.AllWrittenIn (H V : List Char → Prop) : List NestedRule → Prop
  | [] => True
  | node :: nodes => node.WrittenIn H V ∧ NestedRule.AllWrittenIn H V nodes

end

mutual

/-- The heads of a flat rule are in the first class, its declarations in the second. -/
def FlatRule.WrittenIn (H V : List Char → Prop) : FlatRule → Prop
  | .style selectors declarations =>
    (∀ s ∈ selectors, H s) ∧ ∀ d ∈ declarations, V d.text
  | .atRule head rules => H head ∧ FlatRule.AllWrittenIn H V rules

/-- The same for all rules of a list. -/
def FlatRule.AllWrittenIn (H V : List Char → Prop) : List FlatRule → Prop
  | [] => True
  | rule :: rules => rule.WrittenIn H V ∧ FlatRule.AllWrittenIn H V rules

end

section

variable {H V : List Char → Prop}

/-- All rules of a list are written in the classes if each of them is. -/
theorem FlatRule.allWrittenIn_iff {rules : List FlatRule} :
    FlatRule.AllWrittenIn H V rules ↔ ∀ rule ∈ rules, rule.WrittenIn H V := by
  induction rules with
  | nil => simp [FlatRule.AllWrittenIn]
  | cons rule rules ih => simp [FlatRule.AllWrittenIn, ih]

mutual

/-- A wider class for the declarations. -/
theorem FlatRule.WrittenIn.mono {W : List Char → Prop} (hVW : ∀ {text}, V text → W text) :
    ∀ rule : FlatRule, rule.WrittenIn H V → rule.WrittenIn H W
  | .style _ _, h => by
    rw [FlatRule.WrittenIn] at h ⊢
    exact ⟨h.1, fun d hd => hVW (h.2 d hd)⟩
  | .atRule _ rules, h => by
    rw [FlatRule.WrittenIn] at h ⊢
    exact ⟨h.1, FlatRule.AllWrittenIn.mono hVW rules h.2⟩

/-- Declarations in a class are in every larger one. -/
theorem FlatRule.AllWrittenIn.mono {W : List Char → Prop} (hVW : ∀ {text}, V text → W text) :
    ∀ rules : List FlatRule, FlatRule.AllWrittenIn H V rules → FlatRule.AllWrittenIn H W rules
  | [], _ => by trivial
  | rule :: rules, h => by
    rw [FlatRule.AllWrittenIn] at h ⊢
    exact ⟨FlatRule.WrittenIn.mono hVW rule h.1, FlatRule.AllWrittenIn.mono hVW rules h.2⟩

end

/-- The same for what a body gives. -/
structure Flattened.WrittenIn (H V : List Char → Prop) (flat : Flattened) : Prop where
  own : ∀ d ∈ flat.own, V d.text
  inner : ∀ rule ∈ flat.inner, rule.WrittenIn H V

/-- The rules of what a body gives are written in the classes under selectors of the first one. -/
theorem Flattened.WrittenIn.rules {flat : Flattened} (h : flat.WrittenIn H V)
    {selectors : List (List Char)} (hselectors : ∀ s ∈ selectors, H s) :
    ∀ rule ∈ flat.rules selectors, rule.WrittenIn H V := by
  intro rule hrule
  rcases List.mem_append.1 hrule with hrule | hrule
  · split at hrule
    · cases hrule
    · rw [List.mem_singleton.1 hrule]
      exact ⟨hselectors, h.own⟩
  · exact h.inner rule hrule

/-- One rule in the classes is a result in them. -/
theorem Flattened.WrittenIn.single {rule : FlatRule} (h : rule.WrittenIn H V) :
    Flattened.WrittenIn H V { inner := [rule] } :=
  ⟨nofun, List.forall_mem_singleton.2 h⟩

mutual

/-- Flattening a node of the classes under selectors of the first one stays in them. -/
theorem NestedRule.WrittenIn.flatten (hH : Writable H) (hV : Writable V)
    {selectors : List (List Char)} (hselectors : ∀ s ∈ selectors, H s) {flat : Flattened} :
    ∀ node : NestedRule, node.WrittenIn H V → node.flatten selectors = .ok flat →
      flat.WrittenIn H V
  | .bare name, h, hflat => by
    cases hflat
    exact ⟨List.forall_mem_singleton.2 (hV.concat (by decide) h), nofun⟩
  | .declaration d, h, hflat => by
    obtain ⟨value, hvalue, hflat⟩ := Except.bind_eq_ok_iff.1 hflat
    cases hflat
    have hvalue := within_minify hV h.2 hvalue
    refine ⟨List.forall_mem_singleton.2 ?_, nofun⟩
    rw [FlatDeclaration.text]
    refine hV.concat (by decide) (hV.append (hV.append h.1 (hV.cons (by decide) hvalue)) ?_)
    split
    · exact hV.punctuation (by decide) (by decide) (by decide)
    · exact hV.nil
  | .rule inner body, h, hflat => by
    obtain ⟨under, hunder, hflat⟩ := Except.bind_eq_ok_iff.1 hflat
    obtain ⟨nested, hnested, hflat⟩ := Except.bind_eq_ok_iff.1 hflat
    cases hflat
    have hunder := within_selectorsUnder hH hselectors h.1 hunder
    have hbody := NestedRule.AllWrittenIn.flattenBody hH hV hunder body h.2 hnested
    exact ⟨nofun, hbody.rules hunder⟩
  | .atRule .conditional keyword prelude body, h, hflat => by
    obtain ⟨head, hhead, hflat⟩ := Except.bind_eq_ok_iff.1 hflat
    obtain ⟨nested, hnested, hflat⟩ := Except.bind_eq_ok_iff.1 hflat
    cases hflat
    have hbody := NestedRule.AllWrittenIn.flattenBody hH hV hselectors body h.2.2 hnested
    exact .single ⟨within_atRuleHead hH h.1 h.2.1 hhead,
      FlatRule.allWrittenIn_iff.2 (hbody.rules hselectors)⟩
  | .atRule .keyframes keyword prelude frames, h, hflat => by
    obtain ⟨head, hhead, hflat⟩ := Except.bind_eq_ok_iff.1 hflat
    obtain ⟨rules, hrules, hflat⟩ := Except.bind_eq_ok_iff.1 hflat
    cases hflat
    have hframes := NestedRule.AllWrittenIn.flattenFrames hH hV head frames h.2.2 hrules
    exact .single ⟨within_atRuleHead hH h.1 h.2.1 hhead, FlatRule.allWrittenIn_iff.2 hframes⟩
  | .atRule .unscoped keyword prelude body, h, hflat => by
    obtain ⟨head, hhead, hflat⟩ := Except.bind_eq_ok_iff.1 hflat
    obtain ⟨nested, hnested, hflat⟩ := Except.bind_eq_ok_iff.1 hflat
    cases hflat
    have hone : ∀ s ∈ [head], H s :=
      List.forall_mem_singleton.2 (within_atRuleHead hH h.1 h.2.1 hhead)
    have hbody := NestedRule.AllWrittenIn.flattenBody hH hV hone body h.2.2 hnested
    refine ⟨nofun, ?_⟩
    simp only
    split
    · exact List.forall_mem_singleton.2 ⟨hone, nofun⟩
    · exact hbody.rules hone
  | .atStatement keyword prelude, _, hflat => by
    obtain ⟨head, -, hflat⟩ := Except.bind_eq_ok_iff.1 hflat
    cases hflat
  | .malformed what, _, hflat => by cases hflat

/-- What a body gives is written as its nesting tree is. -/
theorem NestedRule.AllWrittenIn.flattenBody (hH : Writable H) (hV : Writable V)
    {selectors : List (List Char)} (hselectors : ∀ s ∈ selectors, H s) {flat : Flattened} :
    ∀ nodes : List NestedRule, NestedRule.AllWrittenIn H V nodes →
      flattenBody selectors nodes = .ok flat → flat.WrittenIn H V
  | [], _, hflat => by
    cases hflat
    exact ⟨nofun, nofun⟩
  | node :: nodes, h, hflat => by
    obtain ⟨first, hfirst, hflat⟩ := Except.bind_eq_ok_iff.1 hflat
    obtain ⟨rest, hrest, hflat⟩ := Except.bind_eq_ok_iff.1 hflat
    cases hflat
    have hfirst := NestedRule.WrittenIn.flatten hH hV hselectors node h.1 hfirst
    have hrest := NestedRule.AllWrittenIn.flattenBody hH hV hselectors nodes h.2 hrest
    exact ⟨List.forall_mem_append.2 ⟨hfirst.own, hrest.own⟩,
      List.forall_mem_append.2 ⟨hfirst.inner, hrest.inner⟩⟩

/-- Flattening frames of the classes under a head of the first one stays in them. -/
theorem NestedRule.AllWrittenIn.flattenFrames (hH : Writable H) (hV : Writable V) (head : List Char)
    {rules : List FlatRule} :
    ∀ nodes : List NestedRule, NestedRule.AllWrittenIn H V nodes →
      flattenFrames head nodes = .ok rules → ∀ rule ∈ rules, rule.WrittenIn H V
  | [], _, hrules => by
    cases hrules
    nofun
  | .rule selector body :: nodes, h, hrules => by
    obtain ⟨own, hown, hrules⟩ := Except.bind_eq_ok_iff.1 hrules
    obtain ⟨flat, hflat, hrules⟩ := Except.bind_eq_ok_iff.1 hrules
    obtain ⟨rest, hrest, hrules⟩ := Except.bind_eq_ok_iff.1 hrules
    cases hrules
    have hone : ∀ s ∈ [own], H s := List.forall_mem_singleton.2 (within_minify hH h.1.1 hown)
    have hbody := NestedRule.AllWrittenIn.flattenBody hH hV hone body h.1.2 hflat
    exact List.forall_mem_append.2 ⟨hbody.rules hone,
      NestedRule.AllWrittenIn.flattenFrames hH hV head nodes h.2 hrest⟩
  | .bare _ :: _, _, hrules => by cases hrules
  | .declaration _ :: _, _, hrules => by cases hrules
  | .atRule _ _ _ _ :: _, _, hrules => by cases hrules
  | .atStatement _ _ :: _, _, hrules => by cases hrules
  | .malformed _ :: _, _, hrules => by cases hrules

end

/-- A template is written as its nesting tree is. -/
theorem writtenIn_flattenTemplate (hH : Writable H) (hV : Writable V) {context css : List Char}
    (hcontext : H context) {content : List Component} (hcontent : templateBody context css = .ok content)
    (h : NestedRule.AllWrittenIn H V (NestedRule.ofBody content)) {rules : List FlatRule}
    (hrules : flattenTemplate context css = .ok rules) : ∀ rule ∈ rules, rule.WrittenIn H V := by
  obtain ⟨content', hcontent', hrules⟩ := Except.bind_eq_ok_iff.1 hrules
  rw [hcontent] at hcontent'
  cases hcontent'
  obtain ⟨flat, hflat, hrules⟩ := Except.bind_eq_ok_iff.1 hrules
  cases hrules
  have hone : ∀ s ∈ [context], H s := List.forall_mem_singleton.2 hcontext
  exact (NestedRule.AllWrittenIn.flattenBody hH hV hone _ h hflat).rules hone

end

end CssTemplate.Css
