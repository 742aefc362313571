import CssTemplate.Css.Flatten

/-!
# What holds of the components holds of the rules

Items, rules and nesting trees are made of the components that they are read from and of the
contents of curly blocks among these, and of nothing else. So a property of components that passes
from a curly block to its contents (`Hereditary`) passes from a body to its nesting tree
(`NestedRule.holds_ofBody`).
-/

namespace CssTemplate.Css

variable {P : Component → Prop}

/-- The property passes from a curly block to its contents. -/
def Hereditary (P : Component → Prop) : Prop :=
  ∀ content, P (.group (.bracket .curly) content) → ∀ c ∈ content, P c

/-- The property holds of what a declaration is read from. -/
structure Declaration.Holds (P : Component → Prop) (d : Declaration) : Prop where
  name : P (.atom (.ident d.name))
  value : ∀ c ∈ d.value, P c

/-- The property holds of what a rule is read from. -/
def RawRule.Holds (P : Component → Prop) : RawRule → Prop
  | .style selectors content => (∀ c ∈ selectors, P c) ∧ ∀ c ∈ content, P c
  | .atRule keyword prelude content =>
    P (.atom (.atKeyword keyword)) ∧ (∀ c ∈ prelude, P c) ∧
      ∀ inside, content = some inside → ∀ c ∈ inside, P c
  | .malformed _ => True

/-- The property holds of what an item is read from. -/
def Item.Holds (P : Component → Prop) : Item → Prop
  | .declaration d => d.Holds P
  | .rule r => r.Holds P

/-- The property holds of what an entry is read from. -/
def Entry.Holds (P : Component → Prop) : Entry → Prop
  | .bare name => P (.atom (.ident name))
  | .item i => i.Holds P

/-- What has the content of a curly block is the block. -/
theorem eq_group_of_curly? {c : Component} {content : List Component}
    (h : c.curly? = some content) : c = .group (.bracket .curly) content := by
  unfold Component.curly? at h
  split at h
  · cases h; rfl
  · cases h

/-- What has an at-keyword is the keyword. -/
theorem eq_atom_of_atKeyword? {c : Component} {keyword : List Char}
    (h : c.atKeyword? = some keyword) : c = .atom (.atKeyword keyword) := by
  unfold Component.atKeyword? at h
  split at h
  · cases h; rfl
  · cases h

/-! ## Constructs and declarations -/

/-- The parts of a construct have the property of the components they come from. -/
theorem holds_readConstruct {cs : List Component} (h : ∀ c ∈ cs, P c) :
    (∀ c ∈ (readConstruct cs).head, P c) ∧ (∀ c ∈ (readConstruct cs).rest, P c) ∧
      ∀ content, (readConstruct cs).terminator = .block content →
        P (.group (.bracket .curly) content) := by
  induction cs with
  | nil => exact ⟨List.forall_mem_nil _, List.forall_mem_nil _, fun content h => by cases h⟩
  | cons c cs ih =>
    obtain ⟨hc, hcs⟩ := List.forall_mem_cons.1 h
    rw [readConstruct]
    cases hcurly : c.curly? with
    | some content =>
      refine ⟨List.forall_mem_nil _, hcs, fun inside hinside => ?_⟩
      cases hinside
      rwa [← eq_group_of_curly? hcurly]
    | none =>
      simp only
      split
      · exact ⟨List.forall_mem_nil _, hcs, fun content h => by cases h⟩
      · obtain ⟨hhead, hrest, hblock⟩ := ih hcs
        exact ⟨List.forall_mem_cons.2 ⟨hc, hhead⟩, hrest, hblock⟩

/-- The parts up to a block have the property of the components they come from. -/
theorem holds_readBlock? {cs head content rest : List Component} (h : ∀ c ∈ cs, P c)
    (hread : readBlock? cs = some (head, content, rest)) :
    (∀ c ∈ head, P c) ∧ P (.group (.bracket .curly) content) ∧ ∀ c ∈ rest, P c := by
  induction cs generalizing head with
  | nil => cases hread
  | cons c cs ih =>
    obtain ⟨hc, hcs⟩ := List.forall_mem_cons.1 h
    rw [readBlock?] at hread
    cases hcurly : c.curly? with
    | some inside =>
      rw [hcurly] at hread
      cases hread
      exact ⟨List.forall_mem_nil _, by rwa [← eq_group_of_curly? hcurly], hcs⟩
    | none =>
      rw [hcurly] at hread
      obtain ⟨⟨head', content', rest'⟩, hread, heq⟩ := Option.map_eq_some_iff.1 hread
      cases heq
      obtain ⟨hhead, hcontent, hrest⟩ := ih hcs hread
      exact ⟨List.forall_mem_cons.2 ⟨hc, hhead⟩, hcontent, hrest⟩

/-- The property holds of what has been seen of a value. -/
structure ValueScan.Holds (P : Component → Prop) (v : ValueScan) : Prop where
  seen : ∀ c ∈ v.seen, P c
  begun : ∀ before, v.mark = .begun before → ∀ c ∈ before, P c
  complete : ∀ before, v.mark = .complete before → ∀ c ∈ before, P c

/-- Nothing has been read at the start of a value. -/
theorem ValueScan.holds_start : ({} : ValueScan).Holds P where
  seen := List.forall_mem_nil _
  begun before h := by cases h
  complete before h := by cases h

/-- One component more with the property keeps it. -/
theorem ValueScan.Holds.step {v : ValueScan} (hv : v.Holds P) {c : Component} (hc : P c) :
    (v.step c).Holds P := by
  have hseen : ∀ d ∈ c :: v.seen, P d := List.forall_mem_cons.2 ⟨hc, hv.seen⟩
  have hadd : (v.add c).Holds P := ⟨hseen, nofun, nofun⟩
  unfold ValueScan.step
  split
  · exact ⟨hseen, hv.begun, hv.complete⟩
  · split
    · split
      · refine ⟨hseen, fun before hbefore => ?_, nofun⟩
        cases hbefore
        exact hv.seen
      · exact hadd
    · next before hmark =>
      split
      · refine ⟨hseen, nofun, fun before' hbefore => ?_⟩
        cases hbefore
        exact hv.begun before hmark
      · exact hadd
    · exact hadd

/-- A declaration has the property of the components it is read from. -/
theorem holds_readDeclaration? {first : Component} {rest : List Component} {d : Declaration}
    (hfirst : P first) (hrest : ∀ c ∈ rest, P c) (h : readDeclaration? first rest = some d) :
    d.Holds P := by
  unfold readDeclaration? at h
  split at h
  · next name =>
    split at h
    · cases h
    · next colon value hdrop =>
      have hvalue : ∀ c ∈ value, P c := by
        intro c hc
        refine hrest c ((List.dropWhile_suffix Component.isSpace).subset ?_)
        rw [hdrop]
        exact .tail _ hc
      have hscan : ∀ (cs : List Component) (v : ValueScan), v.Holds P → (∀ c ∈ cs, P c) →
          (cs.foldl ValueScan.step v).Holds P := by
        intro cs
        induction cs with
        | nil => exact fun v hv _ => hv
        | cons c cs ih =>
          intro v hv hcs
          obtain ⟨hc, hcs⟩ := List.forall_mem_cons.1 hcs
          exact ih _ (hv.step hc) hcs
      split at h
      · have hv := hscan value {} ValueScan.holds_start hvalue
        unfold ValueScan.declaration? at h
        split at h
        · cases h
        · split at h
          · next before hmark =>
            cases h
            exact ⟨hfirst, fun c hc => hv.complete before hmark c (List.mem_reverse.1 hc)⟩
          · cases h
            exact ⟨hfirst, fun c hc => hv.seen c (List.mem_reverse.1 hc)⟩
      · cases h
  · cases h

/-! ## Items and rules -/

section

variable (hP : Hereditary P)

include hP

/-- An at-rule has the property of the components it is read from. -/
theorem holds_readAtRule {keyword : List Char} {cs : List Component}
    (hkeyword : P (.atom (.atKeyword keyword))) (h : ∀ c ∈ cs, P c) :
    (readAtRule keyword cs).1.Holds P ∧ ∀ c ∈ (readAtRule keyword cs).2, P c := by
  obtain ⟨hhead, hrest, hblock⟩ := holds_readConstruct h
  unfold readAtRule
  simp only
  split
  · next content hterminator =>
    refine ⟨⟨hkeyword, hhead, fun inside hinside => ?_⟩, hrest⟩
    cases hinside
    exact hP content (hblock content hterminator)
  · exact ⟨⟨hkeyword, hhead, nofun⟩, hrest⟩

/-- A declaration or rule has the property of the components it is read from. -/
theorem holds_readContent {first : Component} {cs : List Component} (hfirst : P first)
    (h : ∀ c ∈ cs, P c) :
    (readContent first cs).1.Holds P ∧ ∀ c ∈ (readContent first cs).2, P c := by
  obtain ⟨hhead, hrest, hblock⟩ := holds_readConstruct h
  unfold readContent
  cases hcurly : first.curly? with
  | some content =>
    refine ⟨⟨nofun, hP content ?_⟩, h⟩
    rwa [← eq_group_of_curly? hcurly]
  | none =>
    simp only
    split
    · next content hterminator =>
      have hcontent := hblock content hterminator
      split
      · next d hd =>
        refine ⟨holds_readDeclaration? hfirst ?_ hd, hrest⟩
        exact List.forall_mem_append.2 ⟨hhead, by simpa using hcontent⟩
      · exact ⟨⟨List.forall_mem_cons.2 ⟨hfirst, hhead⟩, hP content hcontent⟩, hrest⟩
    · split
      · next d hd => exact ⟨holds_readDeclaration? hfirst hhead hd, hrest⟩
      · exact ⟨trivial, hrest⟩
    · split
      · next d hd => exact ⟨holds_readDeclaration? hfirst hhead hd, hrest⟩
      · exact ⟨trivial, hrest⟩

/-- An item has the property of the components it is read from. -/
theorem holds_readItem {c : Component} {cs : List Component} (hc : P c) (h : ∀ d ∈ cs, P d) :
    (readItem c cs).1.Holds P ∧ ∀ d ∈ (readItem c cs).2, P d := by
  unfold readItem
  cases hkeyword : c.atKeyword? with
  | some keyword => exact holds_readAtRule hP (eq_atom_of_atKeyword? hkeyword ▸ hc) h
  | none => exact holds_readContent hP hc h

/-- A rule has the property of the components it is read from. -/
theorem holds_readRule {c : Component} {cs : List Component} (hc : P c) (h : ∀ d ∈ cs, P d) :
    (readRule c cs).1.Holds P ∧ ∀ d ∈ (readRule c cs).2, P d := by
  unfold readRule
  cases hkeyword : c.atKeyword? with
  | some keyword => exact holds_readAtRule hP (eq_atom_of_atKeyword? hkeyword ▸ hc) h
  | none =>
    simp only [readStyleRule]
    split
    · next selectors content rest hread =>
      obtain ⟨hhead, hcontent, hrest⟩ :=
        holds_readBlock? (List.forall_mem_cons.2 ⟨hc, h⟩) hread
      exact ⟨⟨hhead, hP content hcontent⟩, hrest⟩
    · exact ⟨trivial, nofun⟩

/-- The items of a block have the property of its components. -/
theorem holds_blockItems {cs : List Component} (h : ∀ c ∈ cs, P c) :
    ∀ i ∈ blockItems cs, i.Holds P := by
  fun_induction blockItems cs with
  | case1 => exact List.forall_mem_nil _
  | case2 c cs _ ih => exact ih (List.forall_mem_cons.1 h).2
  | case3 c cs _ read ih =>
    obtain ⟨hc, hcs⟩ := List.forall_mem_cons.1 h
    obtain ⟨hitem, hrest⟩ := holds_readItem hP hc hcs
    exact List.forall_mem_cons.2 ⟨hitem, ih hrest⟩

/-- The rules of a list have the property of its components. -/
theorem holds_rules {skip : Component → Bool} {cs : List Component} (h : ∀ c ∈ cs, P c) :
    ∀ r ∈ rules skip cs, r.Holds P := by
  fun_induction rules skip cs with
  | case1 => exact List.forall_mem_nil _
  | case2 c cs _ ih => exact ih (List.forall_mem_cons.1 h).2
  | case3 c cs _ read ih =>
    obtain ⟨hc, hcs⟩ := List.forall_mem_cons.1 h
    obtain ⟨hrule, hrest⟩ := holds_readRule hP hc hcs
    exact List.forall_mem_cons.2 ⟨hrule, ih hrest⟩

/-- The entries of a body have the property of its components. -/
theorem holds_bodyEntries {content : List Component} (h : ∀ c ∈ content, P c) :
    ∀ entry ∈ bodyEntries content, entry.Holds P := by
  intro entry hentry
  obtain ⟨statement, hstatement, hentry⟩ := List.mem_flatMap.1 hentry
  have hcs : ∀ c ∈ statement, P c := by
    intro c hc
    refine h c ?_
    rw [← flatten_statements content]
    exact List.mem_flatten.2 ⟨statement, hstatement, hc⟩
  unfold statementEntries at hentry
  split at hentry
  · next name hname =>
    rw [List.mem_singleton.1 hentry]
    have hvisible : .atom (.ident name) ∈ statement.filter fun c => !c.isSpace := by
      unfold loneIdentifier? at hname
      split at hname
      · next heq => cases hname; rw [heq]; exact .head _
      · next heq =>
        split at hname
        · cases hname; rw [heq]; exact .head _
        · cases hname
      · cases hname
    exact hcs _ (List.mem_filter.1 hvisible).1
  · obtain ⟨i, hi, rfl⟩ := List.mem_map.1 hentry
    exact holds_blockItems hP hcs i hi

end

/-! ## Nesting trees -/

mutual

/-- The property holds of what a node of the nesting tree is read from. -/
def NestedRule.Holds (P : Component → Prop) : NestedRule → Prop
  | .bare name => P (.atom (.ident name))
  | .declaration d => d.Holds P
  | .rule selectors body => (∀ c ∈ selectors, P c) ∧ NestedRule.HoldsOf P body
  | .atRule _ keyword prelude body =>
    P (.atom (.atKeyword keyword)) ∧ (∀ c ∈ prelude, P c) ∧ NestedRule.HoldsOf P body
  | .atStatement keyword prelude => P (.atom (.atKeyword keyword)) ∧ ∀ c ∈ prelude, P c
  | .malformed _ => True

/-- The property holds of what nodes of the nesting tree are read from. -/
def NestedRule.HoldsOf (P : Component → Prop) : List NestedRule → Prop
  | [] => True
  | node :: nodes => node.Holds P ∧ NestedRule.HoldsOf P nodes

end

/-- All nodes of a list have the property if each of them has it. -/
theorem NestedRule.holdsOf_iff {nodes : List NestedRule} :
    NestedRule.HoldsOf P nodes ↔ ∀ node ∈ nodes, node.Holds P := by
  induction nodes with
  | nil => simp [NestedRule.HoldsOf]
  | cons node nodes ih => simp [NestedRule.HoldsOf, ih]

section

variable (hP : Hereditary P)

include hP

/-- The node of an item has the property of the item. -/
theorem NestedRule.holds_ofItem {i : Item} (h : i.Holds P) : (NestedRule.ofItem i).Holds P := by
  induction hsize : i.contentSize using Nat.strongRecOn generalizing i with
  | ind size ih =>
    subst hsize
    have hbody : ∀ content : List Component, Component.sizes content ≤ i.contentSize →
        (∀ c ∈ content, P c) → NestedRule.HoldsOf P (NestedRule.ofBody content) := by
      intro content hle hcontent
      rw [NestedRule.holdsOf_iff, NestedRule.ofBody_eq]
      intro node hnode
      obtain ⟨entry, hentry, rfl⟩ := List.mem_map.1 hnode
      have hholds := holds_bodyEntries hP hcontent entry hentry
      cases entry with
      | bare name => exact hholds
      | item i => exact ih _ (Nat.lt_of_lt_of_le (contentSize_bodyEntries hentry) hle) hholds rfl
    have hframes : ∀ content : List Component, Component.sizes content ≤ i.contentSize →
        (∀ c ∈ content, P c) → NestedRule.HoldsOf P (NestedRule.ofFrames content) := by
      intro content hle hcontent
      rw [NestedRule.holdsOf_iff, NestedRule.ofFrames_eq]
      intro node hnode
      obtain ⟨item, hitem, rfl⟩ := List.mem_map.1 hnode
      have hholds := holds_blockItems hP hcontent item hitem
      exact ih _ (Nat.lt_of_lt_of_le (contentSize_blockItems hitem) hle) hholds rfl
    match i, h with
    | .declaration d, h =>
      simp only [NestedRule.ofItem, NestedRule.Holds]
      exact h
    | .rule (.style selectors content), h =>
      simp only [NestedRule.ofItem, NestedRule.Holds]
      exact ⟨h.1, hbody content (Nat.le_refl _) h.2⟩
    | .rule (.atRule keyword prelude none), h =>
      simp only [NestedRule.ofItem, NestedRule.Holds]
      exact ⟨h.1, h.2.1⟩
    | .rule (.atRule keyword prelude (some content)), h =>
      simp only [NestedRule.ofItem, NestedRule.Holds]
      refine ⟨h.1, h.2.1, ?_⟩
      split
      · exact hframes content (Nat.le_refl _) (h.2.2 content rfl)
      · exact hbody content (Nat.le_refl _) (h.2.2 content rfl)
    | .rule (.malformed what), _ => simp only [NestedRule.ofItem, NestedRule.Holds]

/-- What holds of the components of a body holds of its nesting tree. -/
theorem NestedRule.holds_ofBody {content : List Component} (h : ∀ c ∈ content, P c) :
    NestedRule.HoldsOf P (NestedRule.ofBody content) := by
  rw [NestedRule.holdsOf_iff, NestedRule.ofBody_eq]
  intro node hnode
  obtain ⟨entry, hentry, rfl⟩ := List.mem_map.1 hnode
  have hholds := holds_bodyEntries hP h entry hentry
  cases entry with
  | bare name => exact hholds
  | item i => exact NestedRule.holds_ofItem hP hholds

/-- What holds of the components of a template holds of its body. -/
theorem holds_templateBody {context css : List Char}
    (h : ∀ c ∈ Component.parse (blockText context css), P c) {content : List Component}
    (hcontent : templateBody context css = .ok content) : ∀ c ∈ content, P c := by
  have hrules : ∀ r ∈ styleSheet (Component.parse (blockText context css)), r.Holds P := holds_rules hP h
  unfold templateBody at hcontent
  simp only at hcontent
  split at hcontent
  · cases hcontent
  · split at hcontent
    · next selectors content' hsheet =>
      cases hcontent
      rw [hsheet] at hrules
      exact (hrules _ (.head _)).2
    · cases hcontent

end

end CssTemplate.Css
