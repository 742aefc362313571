import CssTemplate.Proofs.Block.Refused
import CssTemplate.Proofs.Output.Terms
import Mathlib.Data.List.Forall2

/-!
# Markers in style rules

The blocks that templates are usually made of: style rules in a row, alone or in the braces of one
at-rule (`StyleBlock`). Every character of such a block belongs to a part of it, and the part of a
marker determines its role (`role_in_styleBlock`): in selectors it refers to a class, in the head of
the at-rule it is a value, and in a body it is a value or the name of an animation. The block is never
refused.

The parts are followed by `Cursor.Leads`, which says of a part where it leads to and in which place its
characters stand; parts in a row are put together by `Cursor.Leads.append`.
-/

namespace CssTemplate

/-! ## Blocks -/

/-- Selectors, and a body in braces. -/
structure StyleRule where
  selectors : List Char
  body : List Char
  braceless_selectors : Braceless selectors
  no_atSign : '@' ∉ selectors
  braceless_body : Braceless body

/-- Style rules in a row, or an at-rule with style rules inside. -/
inductive StyleBlock where
  | plain (rules : List StyleRule)
  | atRule (head : List Char) (braceless : Braceless head) (rules : List StyleRule)

/-- The part of a block that a character belongs to. -/
inductive Region where
  | selectors
  | body
  /-- Between the at-sign of an at-rule and its brace. -/
  | head
  /-- The braces, and the at-sign of an at-rule. -/
  | punctuation
  deriving DecidableEq, Repr

/-- The characters of a rule, each with its part. -/
def StyleRule.characters (rule : StyleRule) : List (Char × Region) :=
  rule.selectors.map (·, .selectors) ++
    ('{', .punctuation) :: (rule.body.map (·, .body) ++ [('}', .punctuation)])

/-- The characters of a block, each with its part. -/
def StyleBlock.characters : StyleBlock → List (Char × Region)
  | .plain rules => rules.flatMap StyleRule.characters
  | .atRule head _ rules =>
    ('@', .punctuation) :: (head.map (·, .head) ++
      ('{', .punctuation) :: (rules.flatMap StyleRule.characters ++ [('}', .punctuation)]))

/-- The text of a block. -/
def StyleBlock.text (block : StyleBlock) : List Char :=
  block.characters.map Prod.fst

/-- The place of the characters of a part, apart from punctuation. -/
def Region.place? : Region → Option Place
  | .selectors => some .selector
  | .body => some .declarations
  | .head => some .condition
  | .punctuation => none

/-! ## Following a part -/

/-- From the cursor on, the part is not refused and leads to a cursor as described, and its characters
outside ASCII stand in the places of their regions. -/
structure Cursor.Leads (cursor : Cursor) (part : List (Char × Region)) (post : Cursor → Prop) :
    Prop where
  exists_run : ∃ final, cursor.run (part.map Prod.fst) = .ok final ∧ post final
  place : ∀ front c region back, part = front ++ (c, region) :: back → 0x80 ≤ c.toNat →
    ∀ final, cursor.run (front.map Prod.fst ++ [c]) = .ok final → region.place? = some final.place

section
variable {cursor next final : Cursor} {c : Char} {text : List Char} {a b : List (Char × Region)}
  {region : Region} {post post' : Cursor → Prop}

/-- Where nothing is read the cursor stays where it is. -/
theorem Cursor.leads_nil (h : post cursor) : cursor.Leads [] post where
  exists_run := ⟨cursor, rfl, h⟩
  place front c region back hpart := by
    have hlength := congrArg List.length hpart
    simp at hlength

/-- Parts in a row. -/
theorem Cursor.Leads.append (ha : cursor.Leads a post) (hb : ∀ next, post next → next.Leads b post') :
    cursor.Leads (a ++ b) post' := by
  obtain ⟨next, hnext, hpost⟩ := ha.exists_run
  have hb := hb next hpost
  have hrun : ∀ more, cursor.run (a.map Prod.fst ++ more) = next.run more := by
    intro more
    rw [Cursor.run_append, hnext, Except.bind_ok]
  have hlater : ∀ front c region back, b = front ++ (c, region) :: back → 0x80 ≤ c.toNat →
      ∀ final, cursor.run ((a ++ front).map Prod.fst ++ [c]) = .ok final →
        region.place? = some final.place := by
    intro front c region back hpart hc final hfinal
    rw [List.map_append, List.append_assoc, hrun] at hfinal
    exact hb.place front c region back hpart hc final hfinal
  constructor
  · obtain ⟨final, hfinal, hpost⟩ := hb.exists_run
    exact ⟨final, by rw [List.map_append, hrun, hfinal], hpost⟩
  · intro front c region back hpart hc final hfinal
    rcases List.append_eq_append_iff.1 hpart with ⟨more, rfl, hmore⟩ | ⟨more, rfl, hmore⟩
    · exact hlater more c region back hmore hc final hfinal
    · cases more with
      | nil =>
        rw [List.append_nil] at hlater
        exact hlater [] c region back hmore.symm hc final (by rwa [List.append_nil])
      | cons first more =>
        cases (List.cons.inj hmore).1
        exact ha.place front c region more rfl hc final hfinal

/-- One character of punctuation leads to the next place. -/
theorem Cursor.leads_punctuation (hstep : cursor.step c = .ok next) (hc : c.toNat < 0x80)
    (h : post next) : cursor.Leads [(c, .punctuation)] post where
  exists_run := ⟨next, by rw [List.map_singleton, Cursor.run_singleton, hstep], h⟩
  place front d region back hpart hd := by
    have hmem : (d, region) ∈ [(c, Region.punctuation)] := by
      rw [hpart]
      exact List.mem_append_right _ (.head _)
    cases List.mem_singleton.1 hmem
    omega

/-! ## Texts without braces -/

/-- A text in one region is the text. -/
@[simp]
theorem map_fst_map_region : (text.map (·, region)).map Prod.fst = text := by
  rw [List.map_map]
  exact List.map_id text

/-- A character of a text in one region is in that region. -/
theorem exists_of_map_eq_append {front back : List (Char × Region)} {found : Region}
    (h : text.map (·, region) = front ++ (c, found) :: back) :
    found = region ∧ ∃ rest, text = front.map Prod.fst ++ c :: rest := by
  have hmem : (c, found) ∈ text.map (·, region) := by
    rw [h]
    exact List.mem_append_right _ (.head _)
  obtain ⟨d, -, heq⟩ := List.mem_map.1 hmem
  refine ⟨(Prod.ext_iff.1 heq).2.symm, back.map Prod.fst, ?_⟩
  have hfst := congrArg (List.map Prod.fst) h
  rwa [map_fst_map_region, List.map_append, List.map_cons] at hfst

/-- The front of a text without braces has none, up to any of its characters. -/
theorem Braceless.of_append_cons {front rest : List Char} (h : Braceless (front ++ c :: rest)) :
    Braceless (front ++ [c]) := by
  refine h.of_subset fun d hd => ?_
  rcases List.mem_append.1 hd with hd | hd
  · exact List.mem_append_left _ hd
  · rw [List.mem_singleton.1 hd]
    exact List.mem_append_right _ (.head _)

/-- Text in a condition or a body. -/
theorem Cursor.leads_inside (region : Region) (houtside : cursor.place ≠ .outside)
    (hselector : cursor.place ≠ .selector) (hregion : region.place? = some cursor.place)
    (htext : Braceless text) :
    cursor.Leads (text.map (·, region)) fun final => final.place = cursor.place where
  exists_run := by
    rw [map_fst_map_region]
    cases hrun : cursor.run text with
    | error what =>
      cases what
      exact absurd hrun (Cursor.run_ne_error houtside hselector htext)
    | ok final => exact ⟨final, rfl, Cursor.place_of_run houtside htext hrun⟩
  place front c found back hpart _ final hfinal := by
    obtain ⟨rfl, rest, rfl⟩ := exists_of_map_eq_append hpart
    rw [hregion, Cursor.place_of_run houtside htext.of_append_cons hfinal]

/-- Outside of all rules or in a selector. -/
def Cursor.Heading (cursor : Cursor) : Prop :=
  cursor.place = .outside ∨ cursor.place = .selector

/-- Only at-signs are refused. -/
theorem Cursor.exists_step (hc : c ≠ '@') : ∃ next, cursor.step c = .ok next := by
  cases hstep : cursor.step c with
  | error what =>
    cases what
    exact absurd (Cursor.step_eq_error_iff.1 hstep).2.1 hc
  | ok next => exact ⟨next, rfl⟩

/-- A character that is no at-sign and no brace stays in the head, and any but a space is read as part
of a selector. -/
theorem Cursor.Heading.step (hheading : cursor.Heading) (hat : c ≠ '@') (hopen : c ≠ '{')
    (hclose : c ≠ '}') (h : cursor.step c = .ok next) :
    next.Heading ∧ (c ≠ ' ' → next.place = .selector) := by
  have hstep := (Cursor.step_eq_ok_iff.1 h).1
  rcases hheading with hplace | hplace
  · by_cases hspace : c = ' '
    · subst hspace
      rw [hplace] at hstep
      exact ⟨.inl (Except.ok.inj hstep).symm, fun h => absurd rfl h⟩
    · have hnext : next.place = .selector := by
        simp only [hplace, Place.step, Place.enter, hat, hclose, hspace, hopen, if_false,
          decide_false, Bool.or_false, Bool.false_and, Bool.false_eq_true] at hstep
        exact (Except.ok.inj hstep).symm
      exact ⟨.inr hnext, fun _ => hnext⟩
  · rw [hplace] at hstep
    have hnext := Place.step_inside (by decide) hopen hclose hstep
    exact ⟨.inr hnext, fun _ => hnext⟩

/-- Text without at-signs keeps to the heading of a rule. -/
theorem Cursor.Heading.exists_run (hheading : cursor.Heading) (htext : Braceless text)
    (hat : '@' ∉ text) : ∃ final, cursor.run text = .ok final ∧ final.Heading := by
  induction text generalizing cursor with
  | nil => exact ⟨cursor, rfl, hheading⟩
  | cons c text ih =>
    obtain ⟨hopen, hclose, htext⟩ := braceless_cons.1 htext
    have hc : c ≠ '@' := fun hc => hat (hc ▸ .head _)
    obtain ⟨next, hnext⟩ := cursor.exists_step hc
    obtain ⟨final, hfinal, hheading⟩ :=
      ih (hheading.step hc hopen hclose hnext).1 htext fun hmem => hat (.tail _ hmem)
    exact ⟨final, by rw [Cursor.run, hnext, Except.bind_ok, hfinal], hheading⟩

/-- The selectors of a rule. Spaces at the start do not enter the selector, but no marker is a space. -/
theorem Cursor.Heading.leads_selectors (hheading : cursor.Heading) (htext : Braceless text)
    (hat : '@' ∉ text) : cursor.Leads (text.map (·, .selectors)) Cursor.Heading where
  exists_run := by
    rw [map_fst_map_region]
    exact hheading.exists_run htext hat
  place front c region back hpart hc final hfinal := by
    obtain ⟨rfl, rest, rfl⟩ := exists_of_map_eq_append hpart
    have hbraceless := htext.of_append_cons
    have hfront : Braceless (front.map Prod.fst) := hbraceless.of_subset (List.subset_append_left _ _)
    obtain ⟨next, hnext, hheading⟩ :=
      hheading.exists_run hfront fun hmem => hat (List.mem_append_left _ hmem)
    rw [Cursor.run_append, hnext, Except.bind_ok, Cursor.run_singleton] at hfinal
    have hne : ∀ d : Char, d.toNat < 0x80 → c ≠ d := by
      rintro d hd rfl
      omega
    rw [(hheading.step (hne _ (by decide)) (hne _ (by decide)) (hne _ (by decide)) hfinal).2
      (hne _ (by decide))]
    rfl

/-! ## Rules and blocks -/

/-- The brace after a head opens declarations. -/
theorem Cursor.Heading.step_open (hheading : cursor.Heading) :
    ∃ next, cursor.step '{' = .ok next ∧ next.place = .declarations := by
  obtain ⟨next, hnext⟩ := cursor.exists_step (c := '{') (by decide)
  have hstep := (Cursor.step_eq_ok_iff.1 hnext).1
  refine ⟨next, hnext, ?_⟩
  rcases hheading with hplace | hplace
  · rw [hplace] at hstep
    exact (Except.ok.inj hstep).symm
  · rw [hplace] at hstep
    exact (Except.ok.inj hstep).symm

/-- A step goes wherever its place goes. -/
theorem Cursor.step_of_place {place : Place} (hplace : cursor.place = place) {place' : Place}
    (h : ∀ before, place.step c before = .ok place') :
    ∃ next, cursor.step c = .ok next ∧ next.place = place' :=
  ⟨⟨place', _⟩, Cursor.step_eq_ok_iff.2 ⟨by rw [hplace, h], rfl⟩, rfl⟩

/-- A rule leads from one head to the next. -/
theorem Cursor.Heading.leads_rule (hheading : cursor.Heading) (rule : StyleRule) :
    cursor.Leads rule.characters Cursor.Heading := by
  refine (hheading.leads_selectors rule.braceless_selectors rule.no_atSign).append fun headed hheaded => ?_
  obtain ⟨opened, hopened, hplace⟩ := hheaded.step_open
  have hbrace : headed.Leads [('{', .punctuation)] fun cursor => cursor.place = .declarations :=
    Cursor.leads_punctuation hopened (by decide) hplace
  refine hbrace.append fun opened hplace => ?_
  have hbody := Cursor.leads_inside .body (by rw [hplace]; decide) (by rw [hplace]; decide)
    (by rw [hplace]; rfl) rule.braceless_body
  refine hbody.append fun closed hclosed => ?_
  obtain ⟨final, hfinal, houtside⟩ : ∃ final, closed.step '}' = .ok final ∧ final.place = .outside :=
    Cursor.step_of_place (hclosed.trans hplace) fun _ => rfl
  exact Cursor.leads_punctuation hfinal (by decide) (.inl houtside)

/-- Rules in a row lead from one head to the next. -/
theorem Cursor.Heading.leads_rules (hheading : cursor.Heading) (rules : List StyleRule) :
    cursor.Leads (rules.flatMap StyleRule.characters) Cursor.Heading := by
  induction rules generalizing cursor with
  | nil => exact Cursor.leads_nil hheading
  | cons rule rules ih =>
    rw [List.flatMap_cons]
    exact (hheading.leads_rule rule).append fun next hnext => ih hnext

/-- Every block of the grammar is read to its end, each marker in the place of its region. -/
theorem StyleBlock.leads (block : StyleBlock) : ({} : Cursor).Leads block.characters fun _ => True := by
  cases block with
  | plain rules =>
    have hrules : ({} : Cursor).Leads _ Cursor.Heading := Cursor.Heading.leads_rules (.inl rfl) rules
    obtain ⟨final, hfinal, -⟩ := hrules.exists_run
    exact ⟨⟨final, hfinal, trivial⟩, hrules.place⟩
  | atRule head hhead rules =>
    have hat : ({} : Cursor).Leads [('@', .punctuation)] fun cursor => cursor.place = .condition :=
      Cursor.leads_punctuation rfl (by decide) rfl
    refine hat.append fun started hstarted => ?_
    have hcondition := Cursor.leads_inside .head (by rw [hstarted]; decide)
      (by rw [hstarted]; decide) (by rw [hstarted]; rfl) hhead
    refine hcondition.append fun headed hheaded => ?_
    obtain ⟨opened, hopened, hplace⟩ :
        ∃ opened, headed.step '{' = .ok opened ∧ opened.place = .selector :=
      Cursor.step_of_place (hheaded.trans hstarted) fun _ => rfl
    have hbrace : headed.Leads [('{', .punctuation)] Cursor.Heading :=
      Cursor.leads_punctuation hopened (by decide) (.inr hplace)
    refine hbrace.append fun opened hopened => ?_
    refine (hopened.leads_rules rules).append fun closed _ => ?_
    obtain ⟨final, hfinal⟩ := closed.exists_step (c := '}') (by decide)
    exact Cursor.leads_punctuation hfinal (by decide) trivial

end

/-! ## Roles -/

/-- The name is spelled with the given letters, in some letter case. -/
def Spells (letters name : List Char) : Prop :=
  List.Forall₂ (fun letter c => matchesLetter letter c = true) letters name

/-- Apart from blanks, the text ends with a property that takes the name of an animation and its
colon. -/
def NamesAnimation (text : List Char) : Prop :=
  ∃ front name, trim text = front ++ name ∧
    (Spells "animation:".toList name ∨ Spells "animation-name:".toList name)

/-- A text ends with some letters exactly when it ends with a spelling of them. -/
theorem endsWithLetters_iff {letters text : List Char} :
    endsWithLetters letters text = true ↔ ∃ front name, text = front ++ name ∧ Spells letters name := by
  rw [endsWithLetters, Bool.and_eq_true, decide_eq_true_iff, List.all_eq_true]
  constructor
  · rintro ⟨hlength, hall⟩
    refine ⟨text.take (text.length - letters.length), text.drop (text.length - letters.length),
      (List.take_append_drop _ _).symm, ?_⟩
    refine List.forall₂_iff_zip.2 ⟨?_, fun hmem => hall _ hmem⟩
    rw [List.length_drop]
    omega
  · rintro ⟨front, name, rfl, hspells⟩
    obtain ⟨hlength, hall⟩ := List.forall₂_iff_zip.1 hspells
    have hfront : (front ++ name).length - letters.length = front.length := by
      rw [List.length_append, hlength, Nat.add_sub_cancel]
    rw [hfront, List.drop_left]
    refine ⟨?_, fun pair hpair => hall hpair⟩
    rw [List.length_append]
    omega

/-- The test for the name of an animation property finds exactly the two spellings. -/
theorem endsWithAnimation_iff {text : List Char} :
    endsWithAnimation text = true ↔ NamesAnimation text := by
  rw [endsWithAnimation, Bool.or_eq_true, endsWithLetters_iff, endsWithLetters_iff]
  constructor
  · rintro (⟨front, name, htext, hname⟩ | ⟨front, name, htext, hname⟩)
    · exact ⟨front, name, htext, .inl hname⟩
    · exact ⟨front, name, htext, .inr hname⟩
  · rintro ⟨front, name, htext, hname | hname⟩
    · exact .inl ⟨front, name, htext, hname⟩
    · exact .inr ⟨front, name, htext, hname⟩

instance (text : List Char) : Decidable (NamesAnimation text) :=
  decidable_of_iff _ endsWithAnimation_iff

/-- The role of an expression in a part, behind the given text since the marker before it. -/
inductive Region.Gives : Region → List Char → MarkerRole → Prop where
  | selectors (text : List Char) : Gives .selectors text .classReference
  | head (text : List Char) : Gives .head text .inlineValue
  | animation {text : List Char} (h : NamesAnimation text) : Gives .body text .animationName
  | value {text : List Char} (h : ¬NamesAnimation text) : Gives .body text .inlineValue

/-- The place of a part decides on the role. -/
theorem Region.gives_role {m : Markers} {region : Region} (found : FoundMarker)
    (hclass : m.isClass found.char = false) (hplace : region.place? = some found.place) :
    region.Gives found.preceding (found.role m) := by
  rw [FoundMarker.role, if_neg (by rw [hclass]; decide)]
  cases region with
  | punctuation => cases hplace
  | selectors =>
    rw [if_pos (Option.some.inj hplace).symm]
    exact .selectors _
  | head =>
    rw [← Option.some.inj hplace]
    exact .head _
  | body =>
    rw [← Option.some.inj hplace]
    by_cases hname : NamesAnimation found.preceding
    · simp only [endsWithAnimation_iff.2 hname]
      exact .animation hname
    · simp only [Bool.eq_false_iff.2 fun h => hname (endsWithAnimation_iff.1 h)]
      exact .value hname

/-- Every block of the grammar can be cut into pieces. -/
theorem StyleBlock.exists_blockPieces (m : Markers) (block : StyleBlock) :
    ∃ pieces, blockPieces m block.text = .ok pieces := by
  obtain ⟨final, hfinal, -⟩ := block.leads.exists_run
  cases hpieces : blockPieces m block.text with
  | ok pieces => exact ⟨pieces, rfl⟩
  | error fault =>
    rw [blockPieces, piecesFrom_eq_error_iff, placesFrom_eq_error_iff] at hpieces
    cases hfinal.symm.trans hpieces

/-- **Roles in style rules.** A block of style rules is cut into pieces, and the expression behind a
marker in it has the role that its part gives. -/
theorem role_in_styleBlock {m : Markers} (hbase : 0x80 ≤ m.base) (block : StyleBlock) :
    ∃ pieces, blockPieces m block.text = .ok pieces ∧
      ∀ front c region back e, block.characters = front ++ (c, region) :: back →
        m.occurrence? c = some e →
        ∃ found before after, pieces = before ++ .marker found :: after ∧
          piecesText before = front.map Prod.fst ∧ found.char = c ∧
          region.Gives (m.sinceMarker (front.map Prod.fst)) (found.role m) := by
  obtain ⟨pieces, hpieces⟩ := block.exists_blockPieces m
  refine ⟨pieces, hpieces, ?_⟩
  intro front c region back e hcharacters hoccurrence
  obtain ⟨hcontains, hclass⟩ := Markers.contains_of_occurrence hoccurrence
  have hhigh : 0x80 ≤ c.toNat := by
    have := (Markers.contains_iff.1 hcontains).1
    omega
  have htext : block.text = front.map Prod.fst ++ c :: back.map Prod.fst := by
    rw [StyleBlock.text, hcharacters, List.map_append, List.map_cons]
  rw [blockPieces, htext] at hpieces
  obtain ⟨final, before, after, hfinal, hsplit, hbefore⟩ :=
    exists_found_of_piecesFrom hpieces hcontains
  have hplace := block.leads.place front c region back hcharacters hhigh final hfinal
  refine ⟨_, before, after, hsplit, hbefore, rfl, ?_⟩
  rw [← Markers.reverse_runAfter]
  exact Region.gives_role ⟨c, final.place, _⟩ hclass hplace

/-- The name of an animation in an at-rule, behind a value in its head. -/
theorem role_in_styleBlock_animation :
    let m : Markers := ⟨0x100, [⟨['w'], rfl⟩, ⟨['f'], rfl⟩]⟩
    let block := StyleBlock.atRule "media ā".toList (by decide)
      [⟨".a".toList, "Animation: Ă 1s".toList, by decide, by decide, by decide⟩]
    0x80 ≤ m.base ∧ ∃ pieces found before after, blockPieces m block.text = .ok pieces ∧
      pieces = before ++ .marker found :: after ∧
      piecesText before = "@media ā\x7b.a\x7bAnimation: ".toList ∧ found.char = 'Ă' ∧
      found.role m = .animationName := by
  intro m block
  obtain ⟨pieces, hpieces, hroles⟩ := role_in_styleBlock (m := m) (by decide) block
  obtain ⟨found, before, after, hsplit, hbefore, hchar, hgives⟩ :=
    hroles (block.characters.take 23) 'Ă' .body (block.characters.drop 24) ⟨['f'], rfl⟩ rfl rfl
  refine ⟨by decide, pieces, found, before, after, hpieces, hsplit, hbefore, hchar, ?_⟩
  have hname : NamesAnimation (m.sinceMarker ((block.characters.take 23).map Prod.fst)) := by
    decide
  generalize found.role m = role at hgives ⊢
  cases hgives with
  | animation => rfl
  | value hnot => exact absurd hname hnot

end CssTemplate
