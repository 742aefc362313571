import CssTemplate.Proofs.Source.Tagged

/-!
# Blank bodies

A source of the grammar has one tree (`IsTree.unique`), and in it every substitution and every pair
of braces has a body, at any depth (`partsBodies`). `read_emptySubstitution_iff` says which sources
of the grammar are refused: those with a body of white space, be it the body of a substitution or of
a pair of braces. Only an empty pair of braces is let through. So an expression with a blank
function body or a blank record is reported as an empty substitution (`read_blank_braces`).
-/

namespace CssTemplate

/-! ## Bodies -/

/-- What a body stands in. -/
inductive Enclosure where
  | substitution
  | braces
  deriving DecidableEq, Repr

/-- The source between the braces of a substitution, or of a pair of braces in an expression. -/
structure Body where
  enclosure : Enclosure
  text : List Char
  deriving DecidableEq, Repr

/-- There is only white space in the body, and some if it stands in a pair of braces. -/
structure Body.IsBlank (b : Body) : Prop where
  blank : isBlankText b.text = true
  filled : b.enclosure = .braces → b.text ≠ []

mutual

/-- The bodies in a part, at any depth, in the order of their opening braces. -/
def SourcePart.bodies : SourcePart → List Body
  | .chunk _ => []
  | .substitution body => ⟨.substitution, itemsText body⟩ :: itemsBodies body

/-- The bodies in an item, at any depth. -/
def SourceItem.bodies : SourceItem → List Body
  | .text _ => []
  | .quoted _ _ => []
  | .braces body => ⟨.braces, itemsText body⟩ :: itemsBodies body
  | .template parts => partsBodies parts

/-- The bodies in parts in a row. -/
def partsBodies : List SourcePart → List Body
  | [] => []
  | part :: parts => part.bodies ++ partsBodies parts

/-- The bodies in items in a row. -/
def itemsBodies : List SourceItem → List Body
  | [] => []
  | item :: items => item.bodies ++ itemsBodies items

end

/-- A substitution is not refused as blank exactly when its text is not blank. -/
theorem not_isBlank_substitution {text : List Char} :
    ¬Body.IsBlank ⟨.substitution, text⟩ ↔ NonBlank text := by
  constructor
  · intro h
    refine Bool.eq_false_iff.2 fun hblank => h ⟨hblank, fun hbraces => ?_⟩
    cases hbraces
  · intro h hblank
    cases h.symm.trans hblank.blank

/-- An inner brace pair is not refused as blank exactly when its text is empty or not blank. -/
theorem not_isBlank_braces {text : List Char} :
    ¬Body.IsBlank ⟨.braces, text⟩ ↔ (text ≠ [] → NonBlank text) := by
  constructor
  · intro h hne
    exact Bool.eq_false_iff.2 fun hblank => h ⟨hblank, fun _ => hne⟩
  · intro h hblank
    cases (h (hblank.filled rfl)).symm.trans hblank.blank

section
variable {node : List Char → Prop} {item : SourceItem} {items : List SourceItem}

/-- An item has a source. -/
theorem SourceItem.source_ne_nil (h : item.Fits node) : item.source ≠ [] := by
  cases item with
  | text text => exact h.1
  | quoted | braces | template => exact List.cons_ne_nil _ _

/-- Only a row without items has no source. -/
theorem itemsText_ne_nil_iff (h : ItemsFit node items) : itemsText items ≠ [] ↔ items ≠ [] := by
  cases items with
  | nil => exact iff_of_false (not_not_intro rfl) (not_not_intro rfl)
  | cons item items =>
    refine iff_of_true ?_ (List.cons_ne_nil _ _)
    rw [itemsText]
    exact List.append_ne_nil_of_left_ne_nil (SourceItem.source_ne_nil h.1) _

end

mutual

/-- No expression of a part is blank exactly when none of its bodies is. -/
theorem SourcePart.fits_nonBlank_iff_bodies : ∀ {part : SourcePart},
    part.Fits NonBlank ↔ part.Fits AnyNode ∧ ∀ body ∈ part.bodies, ¬body.IsBlank
  | .chunk raw => by simp [SourcePart.Fits, SourcePart.bodies]
  | .substitution body => by
      rw [SourcePart.Fits, SourcePart.Fits, SourcePart.bodies, List.forall_mem_cons,
        not_isBlank_substitution, itemsFit_nonBlank_iff_bodies]
      simp only [AnyNode, true_and]
      tauto

/-- No expression of an item is blank exactly when none of its bodies is. -/
theorem SourceItem.fits_nonBlank_iff_bodies : ∀ {item : SourceItem},
    item.Fits NonBlank ↔ item.Fits AnyNode ∧ ∀ body ∈ item.bodies, ¬body.IsBlank
  | .text text => by simp [SourceItem.Fits, SourceItem.bodies]
  | .quoted quote content => by simp [SourceItem.Fits, SourceItem.bodies]
  | .braces body => by
      rw [SourceItem.Fits, SourceItem.Fits, SourceItem.bodies, List.forall_mem_cons,
        not_isBlank_braces, itemsFit_nonBlank_iff_bodies]
      constructor
      · rintro ⟨hnode, hapart, hfit, hbodies⟩
        rw [itemsText_ne_nil_iff hfit]
        exact ⟨⟨fun _ => trivial, hapart, hfit⟩, hnode, hbodies⟩
      · rintro ⟨⟨_, hapart, hfit⟩, hnode, hbodies⟩
        rw [itemsText_ne_nil_iff hfit] at hnode
        exact ⟨hnode, hapart, hfit, hbodies⟩
  | .template parts => by
      rw [SourceItem.Fits, SourceItem.Fits, SourceItem.bodies, partsFit_nonBlank_iff_bodies,
        and_assoc]

/-- No expression of parts is blank exactly when none of their bodies is. -/
theorem partsFit_nonBlank_iff_bodies : ∀ {parts : List SourcePart},
    PartsFit NonBlank parts ↔ PartsFit AnyNode parts ∧ ∀ body ∈ partsBodies parts, ¬body.IsBlank
  | [] => by simp [PartsFit, partsBodies]
  | part :: parts => by
      rw [PartsFit, PartsFit, partsBodies, List.forall_mem_append,
        SourcePart.fits_nonBlank_iff_bodies, partsFit_nonBlank_iff_bodies]
      exact and_and_and_comm

/-- No expression of items is blank exactly when none of their bodies is. -/
theorem itemsFit_nonBlank_iff_bodies : ∀ {items : List SourceItem},
    ItemsFit NonBlank items ↔ ItemsFit AnyNode items ∧ ∀ body ∈ itemsBodies items, ¬body.IsBlank
  | [] => by simp [ItemsFit, itemsBodies]
  | item :: items => by
      rw [ItemsFit, ItemsFit, itemsBodies, List.forall_mem_append,
        SourceItem.fits_nonBlank_iff_bodies, itemsFit_nonBlank_iff_bodies]
      exact and_and_and_comm

end

/-! ## Trees of a source -/

/-- Parts are the tree of the source of a template, without its backquotes. -/
structure IsTree (text : List Char) (parts : List SourcePart) : Prop where
  fits : PartsFit AnyNode parts
  apart : Apart SourcePart.isChunk parts
  text_eq : partsText parts = text

section
variable {tag text : List Char} {parts other : List SourcePart}

/-- The tree of a source is what the reader gives. -/
theorem IsTree.readParts (h : IsTree text parts) (last : List Char) :
    readParts (.inTemplate [] .top) last (text ++ [backquote]) = .ok (parts, []) :=
  readParts_eq_ok_iff.2 ⟨h.fits, h.apart, by rw [h.text_eq]⟩

/-- A source has one tree at most. -/
theorem IsTree.unique (h : IsTree text parts) (h' : IsTree text other) : other = parts := by
  have hread := h.readParts []
  rw [h'.readParts []] at hread
  cases hread
  rfl

/-- A source of the grammar is read unless one of its bodies is blank, and then that is the fault. -/
theorem IsTree.readTagged_cases (h : IsTree text parts) (htag : backquote ∉ tag) :
    ((∀ body ∈ partsBodies parts, ¬body.IsBlank) ∧
      ∃ tagged, readTagged (tag ++ backquote :: (text ++ [backquote])) = .ok tagged) ∨
    ((∃ body ∈ partsBodies parts, body.IsBlank) ∧
      ∃ place, readTagged (tag ++ backquote :: (text ++ [backquote])) =
        .error (.emptySubstitution place)) := by
  obtain ⟨htake, hdrop⟩ := @cut_at_backquote tag (text ++ [backquote]) htag
  have hread := h.readParts (backquote :: (text ++ [backquote]))
  cases htemplate : partsTemplate (tag.length + 1) parts with
  | ok t =>
    have hfits := partsFit_of_partsTemplate h.fits htemplate
    refine .inl ⟨(partsFit_nonBlank_iff_bodies.1 hfits).2, ⟨tagOf tag, t⟩, ?_⟩
    rw [readTagged, htake, hdrop]
    simp only [hread, htemplate]
    rfl
  | error offset =>
    have hblank : ¬∀ body ∈ partsBodies parts, ¬body.IsBlank := by
      intro hbodies
      have hfits := partsFit_nonBlank_iff_bodies.2 ⟨h.fits, hbodies⟩
      obtain ⟨t, ht, -⟩ := exists_partsTemplate hfits h.apart (tag.length + 1)
      cases htemplate.symm.trans ht
    refine .inr ⟨by simpa using hblank,
      .after ((tag ++ backquote :: (text ++ [backquote])).take offset), ?_⟩
    rw [readTagged, htake, hdrop]
    simp only [hread, htemplate]
    rfl

end

/-- **Refused sources of the grammar.** A source of the grammar has one tree. It is refused for an
empty substitution exactly if one of the bodies in the tree is blank, at any depth, and it is read
in all other cases. -/
theorem read_emptySubstitution_iff {source tag text : List Char} (htag : backquote ∉ tag)
    (htext : Derives AnyNode .template text)
    (hsource : trimEnd isTrailer source = tag ++ backquote :: (text ++ [backquote])) :
    ∃ parts, IsTree text parts ∧ (∀ other, IsTree text other → other = parts) ∧
      ((∃ place, Tagged.read source = .error (.emptySubstitution place)) ↔
        ∃ body ∈ partsBodies parts, body.IsBlank) ∧
      ((∃ tagged, Tagged.read source = .ok tagged) ↔
        ∀ body ∈ partsBodies parts, ¬body.IsBlank) := by
  obtain ⟨parts, hfits, hapart, hparts⟩ := htext.hasTree
  have htree : IsTree text parts := ⟨hfits, hapart, hparts⟩
  refine ⟨parts, htree, fun other => htree.unique, ?_⟩
  rw [Tagged.read, hsource]
  rcases htree.readTagged_cases htag with
    ⟨hbodies, tagged, hread⟩ | ⟨⟨body, hmem, hblank⟩, place, hread⟩
  · rw [hread]
    refine ⟨iff_of_false ?_ ?_, iff_of_true ⟨tagged, rfl⟩ hbodies⟩
    · rintro ⟨place, h⟩
      cases h
    · rintro ⟨body, hmem, hblank⟩
      exact hbodies body hmem hblank
  · rw [hread]
    refine ⟨iff_of_true ⟨place, rfl⟩ ⟨body, hmem, hblank⟩, iff_of_false ?_ ?_⟩
    · rintro ⟨tagged, h⟩
      cases h
    · intro hbodies
      exact hbodies body hmem hblank

/-- A template in a substitution, with a blank substitution inside it. -/
theorem read_emptySubstitution_iff_nested :
    Derives AnyNode .template ['$', '{', backquote, '$', '{', ' ', '}', backquote, '}'] ∧
    ∃ place, Tagged.read ['t', backquote, '$', '{', backquote, '$', '{', ' ', '}', backquote, '}',
      backquote, ';'] = .error (.emptySubstitution place) := by
  have htree : IsTree ['$', '{', backquote, '$', '{', ' ', '}', backquote, '}']
      [.substitution [.template [.substitution [.text [' ']]]]] := by
    refine ⟨⟨?_, trivial⟩, List.isChain_singleton _, rfl⟩
    have hinner : (SourcePart.substitution [.text [' ']]).Fits AnyNode :=
      ⟨List.cons_ne_nil _ _, trivial, List.isChain_singleton _,
        ⟨List.cons_ne_nil _ _, List.all_eq_true.1 rfl⟩, trivial⟩
    exact ⟨List.cons_ne_nil _ _, trivial, List.isChain_singleton _,
      ⟨List.isChain_singleton _, hinner, trivial⟩, trivial⟩
  have hderives := derives_parts _ [] htree.fits htree.apart .nil fun _ _ _ => rfl
  obtain ⟨parts, -, hunique, hrefused, -⟩ := @read_emptySubstitution_iff
    ['t', backquote, '$', '{', backquote, '$', '{', ' ', '}', backquote, '}', backquote, ';']
    ['t'] _
    (by decide) hderives rfl
  have hbody : (⟨.substitution, [' ']⟩ : Body) ∈ partsBodies parts := by
    rw [← hunique _ htree]
    exact .tail _ (.head _)
  refine ⟨hderives, hrefused.2 ⟨_, hbody, rfl, fun hbraces => ?_⟩⟩
  cases hbraces

/-- The blank body of a pair of braces is reported as an empty substitution, although no
substitution has a blank body. -/
theorem read_blank_braces :
    IsTree ['$', '{', 'f', '(', '{', ' ', '}', ')', '}']
      [.substitution [.text ['f', '('], .braces [.text [' ']], .text [')']]] ∧
    (∀ body ∈ partsBodies [.substitution [.text ['f', '('], .braces [.text [' ']], .text [')']]],
      body.enclosure = .substitution → isBlankText body.text = false) ∧
    Tagged.read ['t', backquote, '$', '{', 'f', '(', '{', ' ', '}', ')', '}', backquote] =
      .error (.emptySubstitution ⟨1, 8⟩) := by
  have hplain : ∀ {text : List Char}, text ≠ [] → text.all isExpressionText = true →
      PlainText text := fun hne hall => ⟨hne, List.all_eq_true.1 hall⟩
  refine ⟨⟨⟨?_, trivial⟩, List.isChain_singleton _, rfl⟩, by decide, by cbv⟩
  have hbraces : (SourceItem.braces [.text [' ']]).Fits AnyNode :=
    ⟨fun _ => trivial, List.isChain_singleton _, hplain (List.cons_ne_nil _ _) rfl, trivial⟩
  refine ⟨List.cons_ne_nil _ _, trivial, ?_, hplain (List.cons_ne_nil _ _) rfl, hbraces,
    hplain (List.cons_ne_nil _ _) rfl, trivial⟩
  simp [Apart, SourceItem.isText]

end CssTemplate
