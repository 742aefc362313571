import CssTemplate.Output.Build
import CssTemplate.Proofs.Css.Context
import CssTemplate.Proofs.Css.RuleHeads
import CssTemplate.Proofs.Output.Terms

/-!
# Markers in values

Flattening knows what is a value. The places in a block are found again from its braces and at-signs
alone. The two agree on the values of style rules, also inside at-rules, as long as braces stand
around bodies only. They do not agree where the text of a rule's selectors starts with an at-sign,
above all for at-rules that hold declarations themselves: what stands in their values is taken for a
selector (`role_in_value`, `role_in_font_face`).
-/

namespace CssTemplate.Css

section
variable {cursor final : Cursor}

/-- A declaration in the rule, under the given selectors, has the given value. In the text of the rule,
the value stands between the two texts. -/
inductive FlatRule.HasValue (selectors : List (List Char)) (value : List Char) :
    FlatRule → List Char → List Char → Prop where
  | style (before : List FlatDeclaration) (name : List Char) (important : Bool)
      (after : List FlatDeclaration) :
      HasValue selectors value (.style selectors (before ++ .property name value important :: after))
        (joinCommas selectors ++ '{' :: (declarationsText before ++ (name ++ [':'])))
        ((if important then "!important".toList else []) ++ ';' :: (declarationsText after ++ ['}']))
  | atRule (head : List Char) (before : List FlatRule) {rule : FlatRule} (after : List FlatRule)
      {front back : List Char} (h : HasValue selectors value rule front back) :
      HasValue selectors value (.atRule head (before ++ rule :: after))
        (head ++ '{' :: (rulesText before ++ front)) (back ++ (rulesText after ++ ['}']))

variable {selectors : List (List Char)} {value front back : List Char} {rule : FlatRule}

/-- The text of a declaration, with its value between what stands around it. -/
theorem FlatDeclaration.text_property (name value : List Char) (important : Bool) :
    (FlatDeclaration.property name value important).text =
      name ++ [':'] ++ (value ++ ((if important then "!important".toList else []) ++ [';'])) := by
  show name ++ ':' :: value ++ (if important then "!important".toList else []) ++ [';'] = _
  generalize (if important then "!important".toList else []) = mark
  simp

/-- A value of a rule stands in its text between what the path says. -/
theorem FlatRule.HasValue.text (h : rule.HasValue selectors value front back) :
    rule.text = front ++ (value ++ back) := by
  induction h with
  | style before name important after =>
    rw [FlatRule.text, blockText, declarationsText, List.flatMap_append, List.flatMap_cons,
      FlatDeclaration.text_property]
    generalize (if important then "!important".toList else []) = mark
    simp [declarationsText]
  | atRule head before after h ih =>
    rw [FlatRule.text, rulesText_append, rulesText, ih]
    simp [blockText]

/-- The place inside a value depends on how the selectors of its rule start. -/
theorem FlatRule.HasValue.place {part rest : List Char}
    (h : rule.HasValue selectors (part ++ rest) front back) (hheaded : rule.Headed)
    (hwritten : rule.WrittenIn Braceless Braceless) (hready : cursor.Ready)
    (hrun : cursor.run (front ++ part) = .ok final) :
    final.place = if StartsAt (joinCommas selectors) then .selector else .declarations := by
  induction h generalizing cursor with
  | style before name important after =>
    rw [FlatRule.WrittenIn] at hwritten
    have hbody : Braceless (declarationsText before ++ (name ++ [':'] ++ part)) := by
      have hall : Braceless (declarationsText
          (before ++ .property name (part ++ rest) important :: after)) :=
        writable_braceless.flatMap hwritten.2
      rw [declarationsText, List.flatMap_append, List.flatMap_cons, FlatDeclaration.text_property,
        List.append_assoc part, ← List.append_assoc (name ++ [':']), List.append_assoc _ _ (List.flatMap _ _),
        ← List.append_assoc] at hall
      exact hall.of_subset (List.subset_append_left _ _)
    have htext : joinCommas selectors ++ '{' :: (declarationsText before ++ (name ++ [':'])) ++ part =
        (joinCommas selectors ++ ['{']) ++ (declarationsText before ++ (name ++ [':'] ++ part)) := by
      simp
    rw [htext, Cursor.run_append] at hrun
    obtain ⟨opened, hopened, hrun⟩ := Except.bind_eq_ok_iff.1 hrun
    have hplace := hready.head (writable_braceless.joinCommas hwritten.1) hopened
    have houtside : opened.place ≠ .outside := by
      rw [hplace]
      split <;> decide
    rw [Cursor.place_of_run houtside hbody hrun, hplace]
  | @atRule head before rule after front back h ih =>
    rw [FlatRule.Headed, FlatRule.allHeaded_iff, List.forall_mem_append, List.forall_mem_cons] at hheaded
    rw [FlatRule.WrittenIn, FlatRule.allWrittenIn_iff, List.forall_mem_append,
      List.forall_mem_cons] at hwritten
    obtain ⟨hat, hbefore, hrule, -⟩ := hheaded
    obtain ⟨hhead, hwbefore, hwrule, -⟩ := hwritten
    have htext : head ++ '{' :: (rulesText before ++ front) ++ part =
        (head ++ ['{']) ++ (rulesText before ++ (front ++ part)) := by
      simp
    rw [htext, Cursor.run_append] at hrun
    obtain ⟨opened, hopened, hrun⟩ := Except.bind_eq_ok_iff.1 hrun
    rw [Cursor.run_append] at hrun
    obtain ⟨next, hnext, hrun⟩ := Except.bind_eq_ok_iff.1 hrun
    have hopen := ready_of_atRule hready hhead hat hopened
    have hready := ready_of_run_rulesText hopen before (FlatRule.allHeaded_iff.2 hbefore)
      (FlatRule.allWrittenIn_iff.2 hwbefore) hnext
    exact ih hrule hwrule hready hrun

/-- **What becomes of a marker in a value.** The blocks of a flattened template are its flat rules. In a
block whose values have no braces, a marker of an expression in the value of a declaration stands for
a value or the name of an animation, and no point is written before it, if and only if the selectors
of the rule do not start with an at-sign. -/
theorem role_in_value {context css : List Char} (hcontext : Braceless context)
    {content : List Component} (hcontent : templateBody context css = .ok content)
    (hbraces : NestedRule.AllWrittenIn Braceless Balanced (NestedRule.ofBody content))
    {rules : List FlatRule} (hrules : flattenTemplate context css = .ok rules) (m : Markers) :
    splitBlocks (rulesText rules) false = .ok (rules.map FlatRule.text) ∧
    ∀ rule ∈ rules, rule.WrittenIn Braceless Braceless →
      ∀ pieces, blockPieces m rule.text = .ok pieces →
      ∀ selectors part c rest front back, rule.HasValue selectors (part ++ c :: rest) front back →
      m.contains c = true → m.isClass c = false →
      ∃ (before : List Piece) (found : FoundMarker) (after : List Piece),
        pieces = before ++ .marker found :: after ∧
        piecesText before = front ++ part ∧ found.char = c ∧
        ((found.role m = .inlineValue ∨ found.role m = .animationName) ↔
          ¬StartsAt (joinCommas selectors)) ∧
        (¬StartsAt (joinCommas selectors) → ∀ pending, leadText (found.role m) pending = pending) := by
  refine ⟨?_, ?_⟩
  · have hwritten := writtenIn_flattenTemplate writable_braceless writable_balanced hcontext hcontent
      hbraces hrules
    exact cutBlocks_rulesText hwritten 0
  · intro rule hrule hwritten pieces hpieces selectors part c rest front back hvalue hmarker hclass
    have htext : rule.text = (front ++ part) ++ c :: (rest ++ back) := by
      rw [hvalue.text]
      simp
    rw [blockPieces, htext] at hpieces
    obtain ⟨final, before, preceding, after, hrun, rfl, hbefore⟩ := exists_of_piecesFrom hpieces hmarker
    have hpart : part ++ c :: rest = (part ++ [c]) ++ rest := by simp
    rw [hpart] at hvalue
    rw [List.append_assoc] at hrun
    have hstart : ({} : Cursor).Ready := ⟨.inl rfl, rfl⟩
    have hplace := hvalue.place (headed_flattenTemplate hrules rule hrule) hwritten hstart hrun
    have hrole : (FoundMarker.role ⟨c, final.place, preceding⟩ m = .inlineValue ∨
        FoundMarker.role ⟨c, final.place, preceding⟩ m = .animationName) ↔
          ¬StartsAt (joinCommas selectors) := by
      rw [FoundMarker.role_value_iff _ hclass, hplace]
      split <;> simp [*]
    refine ⟨before, ⟨c, final.place, preceding⟩, after, rfl, by simpa using hbefore, rfl, hrole, ?_⟩
    intro hstarts pending
    rcases hrole.2 hstarts with h | h <;> rw [h] <;> rfl

/-- The value of a declaration under the class itself. -/
theorem role_in_value_color :
    ∃ (before : List Piece) (found : FoundMarker) (after : List Piece),
      blockPieces ⟨230, [⟨['x'], rfl⟩]⟩ "æ\x7bcolor:ç;\x7d".toList =
        .ok (before ++ .marker found :: after) ∧
      piecesText before = "æ\x7bcolor:".toList ∧ found.char = 'ç' ∧
      (found.role ⟨230, [⟨['x'], rfl⟩]⟩ = .inlineValue ∨
        found.role ⟨230, [⟨['x'], rfl⟩]⟩ = .animationName) := by
  have hcontent : templateBody ['æ'] "color:ç".toList =
      .ok [.atom (.ident "color".toList), .atom (.literal [':']), .atom (.ident ['ç'])] := by cbv
  have htree : NestedRule.ofBody
      [.atom (.ident "color".toList), .atom (.literal [':']), .atom (.ident ['ç'])] =
        [.declaration ⟨"color".toList, [.atom (.ident ['ç'])], false⟩] := by cbv
  have hrules : flattenTemplate ['æ'] "color:ç".toList =
      .ok [.style [['æ']] [.property "color".toList ['ç'] false]] := by cbv
  have htext : (FlatRule.style [['æ']] [.property "color".toList ['ç'] false]).text =
      "æ\x7bcolor:ç;\x7d".toList := by cbv
  have hvalue : (FlatRule.style [['æ']] [.property "color".toList ['ç'] false]).HasValue [['æ']]
      ['ç'] "æ\x7bcolor:".toList ";\x7d".toList := .style [] "color".toList false []
  have hpieces : blockPieces ⟨230, [⟨['x'], rfl⟩]⟩ "æ\x7bcolor:ç;\x7d".toList =
      .ok [.marker ⟨'æ', .selector, []⟩, .text "\x7bcolor:".toList,
        .marker ⟨'ç', .declarations, "\x7bcolor:".toList⟩, .text ";\x7d".toList] := by cbv
  have hbraces : NestedRule.AllWrittenIn Braceless Balanced (NestedRule.ofBody
      [.atom (.ident "color".toList), .atom (.literal [':']), .atom (.ident ['ç'])]) := by
    rw [htree]
    simp only [NestedRule.AllWrittenIn, NestedRule.WrittenIn, Component.Within,
      List.forall_mem_singleton, and_true]
    exact ⟨by decide, by decide⟩
  have hwritten : (FlatRule.style [['æ']] [.property "color".toList ['ç'] false]).WrittenIn
      Braceless Braceless := by
    rw [FlatRule.WrittenIn]
    exact ⟨by decide, by decide⟩
  rw [← htext] at hpieces
  obtain ⟨before, found, after, hparts, hbefore, hchar, hrole, -⟩ := (role_in_value (by decide)
    hcontent hbraces hrules ⟨230, [⟨['x'], rfl⟩]⟩).2 _ (List.mem_singleton_self _) hwritten _ hpieces
      [['æ']] [] 'ç' [] _ _ hvalue (by decide) (by decide)
  rw [htext, hparts] at hpieces
  exact ⟨before, found, after, hpieces, hbefore, hchar, hrole.2 (by decide)⟩

/-- The value of a declaration that an at-rule holds itself is taken for a selector. -/
theorem role_in_font_face :
    flattenTemplate ['æ'] "@font-face\x7bsrc:ç\x7d".toList =
        .ok [.style ["@font-face".toList] [.property "src".toList ['ç'] false]] ∧
      ∃ (before : List Piece) (found : FoundMarker) (after : List Piece),
        blockPieces ⟨230, [⟨['x'], rfl⟩]⟩ "@font-face\x7bsrc:ç;\x7d".toList =
          .ok (before ++ .marker found :: after) ∧
        piecesText before = "@font-face\x7bsrc:".toList ∧ found.char = 'ç' ∧
        found.role ⟨230, [⟨['x'], rfl⟩]⟩ = .classReference := by
  have hbody : templateBody ['æ'] "@font-face\x7bsrc:ç\x7d".toList =
      .ok [.atom (.atKeyword "font-face".toList), .group (.bracket .curly)
        [.atom (.ident "src".toList), .atom (.literal [':']), .atom (.ident ['ç'])]] := by cbv
  have hentries : bodyEntries [.atom (.atKeyword "font-face".toList), .group (.bracket .curly)
        [.atom (.ident "src".toList), .atom (.literal [':']), .atom (.ident ['ç'])]] =
      [.item (.rule (.atRule "font-face".toList [] (some
        [.atom (.ident "src".toList), .atom (.literal [':']), .atom (.ident ['ç'])])))] := by cbv
  have hkind : AtRuleKind.ofKeyword "font-face".toList = .unscoped := by decide
  constructor
  · rw [flattenTemplate, hbody, Except.bind_ok, NestedRule.ofBody_eq, hentries, List.map_singleton,
      NestedRule.ofEntry, NestedRule.ofItem, hkind, if_neg (by decide)]
    cbv
  · exact ⟨[.text "@font-face\x7bsrc:".toList], ⟨'ç', .selector, "@font-face\x7bsrc:".toList⟩,
      [.text ";\x7d".toList], by cbv, by cbv, rfl, by decide⟩

end

end CssTemplate.Css
