import CssTemplate.Css.NestedRule
import CssTemplate.Proofs.Css.RecoloredTokens

/-!
# Components, items and rules in other colors

Grouping tokens, reading items and rules, and cutting bodies into statements look at literals, at
brackets and at a few ASCII keywords only, so they commute with a recoloring. The nesting tree of a
recolored body is the recolored tree (`NestedRule.ofBody_map`).
-/

namespace CssTemplate.Css

/-! ## Components -/

mutual

/-- A component in other colors. -/
def Component.map (f : Char → Char) : Component → Component
  | .atom a => .atom (a.map f)
  | .group o content => .group (o.map f) (Component.mapAll f content)

/-- Components in other colors. -/
def Component.mapAll (f : Char → Char) : List Component → List Component
  | [] => []
  | c :: cs => c.map f :: Component.mapAll f cs

end

/-- Components are recolored one by one. -/
theorem Component.mapAll_eq (f : Char → Char) (cs : List Component) :
    Component.mapAll f cs = cs.map (Component.map f) := by
  induction cs with
  | nil => rfl
  | cons c cs ih => rw [Component.mapAll, ih, List.map_cons]

/-- A recolored atom. -/
@[simp] theorem Component.map_atom (f : Char → Char) (a : Atom) :
    (Component.atom a).map f = .atom (a.map f) := by
  rw [Component.map]

/-- A recolored group. -/
@[simp] theorem Component.map_group (f : Char → Char) (o : Opening) (content : List Component) :
    (Component.group o content).map f = .group (o.map f) (content.map (Component.map f)) := by
  rw [Component.map, Component.mapAll_eq]

/-- A recolored opening is closed by the same bracket. -/
@[simp] theorem Opening.closedBy_map (f : Char → Char) (o : Opening) :
    (o.map f).closedBy = o.closedBy := by
  cases o <;> rfl

/-- Groups under construction in other colors. -/
def OpenGroups.map (f : Char → Char) (n : OpenGroups) : OpenGroups where
  current := n.current.map (Component.map f)
  enclosing := n.enclosing.map fun open_ => (open_.1.map f, open_.2.map (Component.map f))

/-- One token more commutes with a recoloring. -/
theorem OpenGroups.step_map (f : Char → Char) (n : OpenGroups) (t : Token) :
    (n.map f).step (t.map f) = (n.step t).map f := by
  cases t with
  | atom a => simp [Token.map, OpenGroups.step, OpenGroups.push, OpenGroups.map]
  | opening o => simp [Token.map, OpenGroups.step, OpenGroups.map]
  | closing b =>
    rcases n with ⟨current, _ | ⟨⟨o, before⟩, enclosing⟩⟩
    · simp [Token.map, OpenGroups.step, OpenGroups.push, OpenGroups.map, Atom.map]
    · simp only [Token.map, OpenGroups.step, OpenGroups.map, List.map_cons, Opening.closedBy_map]
      split <;> simp [OpenGroups.push, Atom.map, List.map_reverse]

/-- Closing what is open at the end commutes with a recoloring. -/
theorem OpenGroups.closeAll_map (f : Char → Char) (current : List Component)
    (enclosing : List (Opening × List Component)) :
    closeAll (current.map (Component.map f))
        (enclosing.map fun open_ => (open_.1.map f, open_.2.map (Component.map f))) =
      (closeAll current enclosing).map (Component.map f) := by
  induction enclosing generalizing current with
  | nil => simp [closeAll, List.map_reverse]
  | cons entry enclosing ih =>
    rw [List.map_cons, closeAll, closeAll, ← ih]
    simp [List.map_reverse]

/-- The nested view of recolored tokens. -/
theorem Component.ofTokens_map (f : Char → Char) (tokens : List Token) :
    Component.ofTokens (tokens.map (Token.map f)) =
      (Component.ofTokens tokens).map (Component.map f) := by
  have hfold : ∀ (tokens : List Token) (n : OpenGroups),
      (tokens.map (Token.map f)).foldl OpenGroups.step (n.map f) =
        (tokens.foldl OpenGroups.step n).map f := by
    intro tokens
    induction tokens with
    | nil => intro n; rfl
    | cons t tokens ih =>
      intro n
      rw [List.map_cons, List.foldl_cons, List.foldl_cons, OpenGroups.step_map, ih]
  rw [Component.ofTokens, Component.ofTokens, OpenGroups.finish, OpenGroups.finish,
    ← OpenGroups.closeAll_map]
  exact congrArg OpenGroups.finish (hfold tokens {})

/-- The component values of a recolored text. -/
theorem Component.parse_map {f : Char → Char} (hf : Recoloring f) {css : List Char}
    (h : KeepsEscapes f (normalize css)) :
    Component.parse (css.map f) = (Component.parse css).map (Component.map f) := by
  rw [Component.parse, normalize_map hf, scan_map hf h, Component.ofTokens_map, Component.parse]

/-! ## What is asked about a component -/

section

variable {f : Char → Char}

/-- White space stays white space in other colors. -/
@[simp] theorem Component.isSpace_map (c : Component) : (c.map f).isSpace = c.isSpace := by
  rcases c with a | ⟨o, content⟩
  · cases a <;> rfl
  · rw [Component.map_group]; rfl

/-- A recolored block has the recolored content. -/
@[simp] theorem Component.curly?_map (c : Component) :
    (c.map f).curly? = c.curly?.map (List.map (Component.map f)) := by
  rcases c with a | ⟨o, content⟩
  · rfl
  · rw [Component.map_group]
    cases o with
    | bracket b => cases b <;> rfl
    | function name => rfl

/-- A recolored at-keyword has the recolored name. -/
@[simp] theorem Component.atKeyword?_map (c : Component) :
    (c.map f).atKeyword? = c.atKeyword?.map (List.map f) := by
  rcases c with a | ⟨o, content⟩
  · cases a <;> rfl
  · rw [Component.map_group]; rfl

variable (hf : Recoloring f)

include hf

/-- An ASCII literal is the same literal in every color. -/
theorem Component.isLiteral_map (text : List Char) (htext : Ascii text) (c : Component) :
    (c.map f).isLiteral text = c.isLiteral text := by
  rcases c with a | ⟨o, content⟩
  · cases a with
    | literal found =>
      show (found.map f == text) = (found == text)
      rw [Bool.eq_iff_iff, beq_iff_eq, beq_iff_eq]
      exact hf.map_eq_ascii_iff htext
    | _ => rfl
  · rw [Component.map_group]; rfl

/-- A semicolon is one in every color. -/
theorem Component.isSemicolon_map (c : Component) : (c.map f).isSemicolon = c.isSemicolon :=
  Component.isLiteral_map hf [';'] (by decide) c

/-- Lower case commutes with a recoloring, since it changes ASCII only. -/
theorem map_toLower_map (name : List Char) :
    (name.map f).map Char.toLower = (name.map Char.toLower).map f := by
  rw [List.map_map, List.map_map]
  exact List.map_congr_left fun c _ => hf.toLower c

/-- The word of the importance mark is ASCII. -/
theorem isImportant_map (c : Component) : isImportant (c.map f) = isImportant c := by
  rcases c with a | ⟨o, content⟩
  · cases a with
    | ident name =>
      show ((name.map f).map Char.toLower == _) = (name.map Char.toLower == _)
      rw [map_toLower_map hf, Bool.eq_iff_iff, beq_iff_eq, beq_iff_eq]
      exact hf.map_eq_ascii_iff (by decide)
    | _ => rfl
  · rw [Component.map_group]; rfl

end

/-! ## Items -/

/-- A declaration in other colors. -/
def Declaration.map (f : Char → Char) (d : Declaration) : Declaration :=
  ⟨d.name.map f, d.value.map (Component.map f), d.important⟩

/-- A rule in other colors. -/
def RawRule.map (f : Char → Char) : RawRule → RawRule
  | .style selectors content =>
    .style (selectors.map (Component.map f)) (content.map (Component.map f))
  | .atRule keyword prelude content =>
    .atRule (keyword.map f) (prelude.map (Component.map f))
      (content.map (List.map (Component.map f)))
  | .malformed what => .malformed what

/-- An item in other colors. -/
def Item.map (f : Char → Char) : Item → Item
  | .declaration d => .declaration (d.map f)
  | .rule r => .rule (r.map f)

/-- A terminator in other colors. -/
def Terminator.map (f : Char → Char) : Terminator → Terminator
  | .endOfInput => .endOfInput
  | .semicolon => .semicolon
  | .block content => .block (content.map (Component.map f))

/-- A construct in other colors. -/
def Construct.map (f : Char → Char) (c : Construct) : Construct :=
  ⟨c.head.map (Component.map f), c.terminator.map f, c.rest.map (Component.map f)⟩

/-- A mark in other colors. -/
def Mark.map (f : Char → Char) : Mark → Mark
  | .none => .none
  | .begun before => .begun (before.map (Component.map f))
  | .complete before => .complete (before.map (Component.map f))

/-- A value being read in other colors. -/
def ValueScan.map (f : Char → Char) (v : ValueScan) : ValueScan :=
  ⟨v.seen.map (Component.map f), v.mark.map f, v.filled, v.blockInside⟩

/-- What has been read of a list, and its rest, in other colors. -/
def mapRead {α : Type} (g : α → α) (f : Char → Char) (read : α × List Component) :
    α × List Component :=
  (g read.1, read.2.map (Component.map f))

section

variable {f : Char → Char} (hf : Recoloring f)

include hf

/-- The construct at the front of recolored components is the recolored construct. -/
theorem readConstruct_map (cs : List Component) :
    readConstruct (cs.map (Component.map f)) = (readConstruct cs).map f := by
  induction cs with
  | nil => rfl
  | cons c cs ih =>
    rw [List.map_cons, readConstruct, readConstruct, Component.curly?_map]
    cases hcurly : c.curly? with
    | some content => rfl
    | none =>
      simp only [Option.map_none, Component.isSemicolon_map hf, ih]
      split <;> rfl

omit hf in
/-- Up to its first block a recolored list reads as the list does, recolored. -/
theorem readBlock?_map (cs : List Component) :
    readBlock? (cs.map (Component.map f)) = (readBlock? cs).map fun read =>
      (read.1.map (Component.map f), read.2.1.map (Component.map f),
        read.2.2.map (Component.map f)) := by
  induction cs with
  | nil => rfl
  | cons c cs ih =>
    rw [List.map_cons, readBlock?, readBlock?, Component.curly?_map]
    cases hcurly : c.curly? with
    | some content => rfl
    | none =>
      simp only [Option.map_none, ih, Option.map_map]
      rfl

omit hf in
/-- One component more of a value commutes with a recoloring. -/
theorem ValueScan.add_map (v : ValueScan) (c : Component) :
    (v.map f).add (c.map f) = (v.add c).map f := by
  simp [ValueScan.add, ValueScan.map, Mark.map]

/-- One step over a value commutes with a recoloring. -/
theorem ValueScan.step_map (v : ValueScan) (c : Component) :
    (v.map f).step (c.map f) = (v.step c).map f := by
  unfold ValueScan.step
  rw [Component.isSpace_map]
  split
  · rfl
  · rcases v with ⟨seen, mark, filled, blockInside⟩
    cases mark with
    | none =>
      show (if (c.map f).isLiteral ['!'] then _ else _) =
        ValueScan.map f (if c.isLiteral ['!'] then _ else _)
      rw [Component.isLiteral_map hf ['!'] (by decide)]
      split
      · rfl
      · exact ValueScan.add_map ⟨seen, .none, filled, blockInside⟩ c
    | begun before =>
      show (if isImportant (c.map f) then _ else _) =
        ValueScan.map f (if isImportant c then _ else _)
      rw [isImportant_map hf]
      split
      · rfl
      · exact ValueScan.add_map ⟨seen, .begun before, filled, blockInside⟩ c
    | complete before => exact ValueScan.add_map ⟨seen, .complete before, filled, blockInside⟩ c

/-- The pass over a recolored value is the recolored pass. -/
theorem foldl_valueScan_map (value : List Component) (v : ValueScan) :
    (value.map (Component.map f)).foldl ValueScan.step (v.map f) =
      (value.foldl ValueScan.step v).map f := by
  induction value generalizing v with
  | nil => rfl
  | cons c value ih =>
    rw [List.map_cons, List.foldl_cons, List.foldl_cons, ValueScan.step_map hf, ih]

omit hf in
/-- The declaration of a recolored value is the recolored declaration. -/
theorem ValueScan.declaration?_map (v : ValueScan) (name : List Char) :
    (v.map f).declaration? (name.map f) = (v.declaration? name).map (Declaration.map f) := by
  rcases v with ⟨seen, mark, filled, _ | _⟩
  · cases mark <;>
      simp [ValueScan.declaration?, ValueScan.map, Mark.map, Declaration.map, List.map_reverse]
  · rfl

/-- Reading a declaration commutes with a recoloring. -/
theorem readDeclaration?_map (first : Component) (rest : List Component) :
    readDeclaration? (first.map f) (rest.map (Component.map f)) =
      (readDeclaration? first rest).map (Declaration.map f) := by
  have hdrop : (rest.map (Component.map f)).dropWhile Component.isSpace =
      (rest.dropWhile Component.isSpace).map (Component.map f) := by
    rw [List.dropWhile_map, show Component.isSpace ∘ Component.map f = Component.isSpace from
      funext Component.isSpace_map]
  rcases first with a | ⟨o, content⟩
  · cases a with
    | ident name =>
      simp only [Component.map_atom, Atom.map, readDeclaration?, hdrop]
      rcases rest.dropWhile Component.isSpace with _ | ⟨colon, value⟩
      · rfl
      · simp only [List.map_cons, Component.isLiteral_map hf [':'] (by decide)]
        split
        · exact (congrArg (·.declaration? (name.map f)) (foldl_valueScan_map hf value {})).trans
            (ValueScan.declaration?_map _ name)
        · rfl
    | _ => rfl
  · rw [Component.map_group]; rfl

/-- Reading an at-rule commutes with a recoloring. -/
theorem readAtRule_map (keyword : List Char) (cs : List Component) :
    readAtRule (keyword.map f) (cs.map (Component.map f)) =
      mapRead (RawRule.map f) f (readAtRule keyword cs) := by
  unfold readAtRule
  simp only [readConstruct_map hf]
  rcases readConstruct cs with ⟨head, terminator, rest⟩
  cases terminator <;> rfl

/-- Reading a declaration or a rule commutes with a recoloring. -/
theorem readContent_map (first : Component) (cs : List Component) :
    readContent (first.map f) (cs.map (Component.map f)) =
      mapRead (Item.map f) f (readContent first cs) := by
  unfold readContent
  rw [Component.curly?_map]
  cases first.curly? with
  | some content => rfl
  | none =>
    simp only [Option.map_none, readConstruct_map hf]
    rcases readConstruct cs with ⟨head, terminator, rest⟩
    cases terminator with
    | endOfInput =>
      simp only [Construct.map, Terminator.map, readDeclaration?_map hf]
      cases readDeclaration? first head <;> rfl
    | semicolon =>
      simp only [Construct.map, Terminator.map, readDeclaration?_map hf]
      cases readDeclaration? first head <;> rfl
    | block content =>
      have hread : readDeclaration? (first.map f) (head.map (Component.map f) ++
          [.group (.bracket .curly) (content.map (Component.map f))]) =
          (readDeclaration? first (head ++ [.group (.bracket .curly) content])).map
            (Declaration.map f) := by
        have := readDeclaration?_map hf first (head ++ [.group (.bracket .curly) content])
        rwa [List.map_append, List.map_singleton, Component.map_group] at this
      simp only [Construct.map, Terminator.map, hread]
      cases readDeclaration? first (head ++ [.group (.bracket .curly) content]) <;> rfl

/-- Reading an item commutes with a recoloring. -/
theorem readItem_map (c : Component) (cs : List Component) :
    readItem (c.map f) (cs.map (Component.map f)) = mapRead (Item.map f) f (readItem c cs) := by
  unfold readItem
  rw [Component.atKeyword?_map]
  cases c.atKeyword? with
  | some keyword =>
    simp only [Option.map_some, readAtRule_map hf]
    rfl
  | none => exact readContent_map hf c cs

/-- Reading a rule commutes with a recoloring. -/
theorem readRule_map (c : Component) (cs : List Component) :
    readRule (c.map f) (cs.map (Component.map f)) = mapRead (RawRule.map f) f (readRule c cs) := by
  unfold readRule
  rw [Component.atKeyword?_map]
  cases c.atKeyword? with
  | some keyword =>
    simp only [Option.map_some, readAtRule_map hf]
  | none =>
    simp only [Option.map_none, readStyleRule]
    rw [← List.map_cons, readBlock?_map]
    rcases readBlock? (c :: cs) with _ | ⟨selectors, content, rest⟩
    · rfl
    · rfl

/-- The items of a recolored block are the recolored items. -/
theorem blockItems_map (cs : List Component) :
    blockItems (cs.map (Component.map f)) = (blockItems cs).map (Item.map f) := by
  fun_induction blockItems cs with
  | case1 => simp [blockItems]
  | case2 c cs h ih =>
    rw [List.map_cons, blockItems, Component.isSpace_map, Component.isSemicolon_map hf, if_pos h,
      ih]
  | case3 c cs h read ih =>
    rw [List.map_cons, blockItems, Component.isSpace_map, Component.isSemicolon_map hf, if_neg h,
      readItem_map hf, List.map_cons, ← ih]
    rfl

/-- The rules of recolored components are the recolored rules. -/
theorem rules_map {skip : Component → Bool} (hskip : ∀ c : Component, skip (c.map f) = skip c)
    (cs : List Component) :
    rules skip (cs.map (Component.map f)) = (rules skip cs).map (RawRule.map f) := by
  fun_induction rules skip cs with
  | case1 => simp [rules]
  | case2 c cs h ih => rw [List.map_cons, rules, hskip, if_pos h, ih]
  | case3 c cs h read ih =>
    rw [List.map_cons, rules, hskip, if_neg h, readRule_map hf, List.map_cons, ← ih]
    rfl

/-- The rules of a recolored style sheet are the recolored rules. -/
theorem styleSheet_map (cs : List Component) :
    styleSheet (cs.map (Component.map f)) = (styleSheet cs).map (RawRule.map f) :=
  rules_map hf (fun c => by
    rw [isSheetPadding, Component.isSpace_map, Component.isLiteral_map hf ['<', '!', '-', '-'] (by decide),
      Component.isLiteral_map hf ['-', '-', '>'] (by decide), isSheetPadding]) cs

/-- The rules of a recolored block are the recolored rules. -/
theorem ruleList_map (cs : List Component) :
    ruleList (cs.map (Component.map f)) = (ruleList cs).map (RawRule.map f) :=
  rules_map hf Component.isSpace_map cs

end

/-! ## Bodies -/

/-- An entry in other colors. -/
def Entry.map (f : Char → Char) : Entry → Entry
  | .bare name => .bare (name.map f)
  | .item i => .item (i.map f)

mutual

/-- A node of the nesting tree in other colors. -/
def NestedRule.map (f : Char → Char) : NestedRule → NestedRule
  | .bare name => .bare (name.map f)
  | .declaration d => .declaration (d.map f)
  | .rule selectors body => .rule (selectors.map (Component.map f)) (NestedRule.mapAll f body)
  | .atRule kind keyword prelude body =>
    .atRule kind (keyword.map f) (prelude.map (Component.map f)) (NestedRule.mapAll f body)
  | .atStatement keyword prelude => .atStatement (keyword.map f) (prelude.map (Component.map f))
  | .malformed what => .malformed what

/-- Nodes of the nesting tree in other colors. -/
def NestedRule.mapAll (f : Char → Char) : List NestedRule → List NestedRule
  | [] => []
  | node :: nodes => node.map f :: NestedRule.mapAll f nodes

end

/-- Nodes of the nesting tree are recolored one by one. -/
theorem NestedRule.mapAll_eq (f : Char → Char) (nodes : List NestedRule) :
    NestedRule.mapAll f nodes = nodes.map (NestedRule.map f) := by
  induction nodes with
  | nil => rfl
  | cons node nodes ih => rw [NestedRule.mapAll, ih, List.map_cons]

section

variable {f : Char → Char} (hf : Recoloring f)

include hf

/-- Cutting into statements commutes with a recoloring. -/
theorem statements_map (cs : List Component) :
    statements (cs.map (Component.map f)) =
      (statements cs).map (List.map (Component.map f)) := by
  induction cs with
  | nil => rfl
  | cons c cs ih =>
    have hends : (c.map f).endsStatement = c.endsStatement := by
      rw [Component.endsStatement, Component.curly?_map, Option.isSome_map,
        Component.isSemicolon_map hf, Component.endsStatement]
    rw [List.map_cons, statements, statements, hends, ih]
    split
    · rfl
    · cases statements cs <;> rfl

/-- A statement is a lone identifier in every color or in none. -/
theorem loneIdentifier?_map (statement : List Component) :
    loneIdentifier? (statement.map (Component.map f)) =
      (loneIdentifier? statement).map (List.map f) := by
  have hfilter : (statement.map (Component.map f)).filter (fun c => !c.isSpace) =
      (statement.filter fun c => !c.isSpace).map (Component.map f) := by
    rw [List.filter_map]
    congr 2
    funext c
    exact congrArg _ (Component.isSpace_map c)
  unfold loneIdentifier?
  rw [hfilter]
  generalize statement.filter (fun c => !c.isSpace) = visible
  rcases visible with _ | ⟨first, _ | ⟨last, _ | ⟨more, others⟩⟩⟩
  · rfl
  · rcases first with a | ⟨o, content⟩
    · cases a <;> rfl
    · rw [List.map_singleton, Component.map_group]; rfl
  · rcases first with a | ⟨o, content⟩
    · cases a with
      | ident name =>
        simp only [List.map_cons, List.map_nil, Component.map_atom, Atom.map,
          Component.isSemicolon_map hf]
        split <;> rfl
      | _ => rfl
    · rw [List.map_cons, Component.map_group]; rfl
  · rcases first with a | ⟨o, content⟩
    · cases a <;> rfl
    · rw [List.map_cons, Component.map_group]; rfl

/-- The entries of a recolored body are the recolored entries. -/
theorem bodyEntries_map (content : List Component) :
    bodyEntries (content.map (Component.map f)) = (bodyEntries content).map (Entry.map f) := by
  have hentries : ∀ statement : List Component,
      statementEntries (statement.map (Component.map f)) =
        (statementEntries statement).map (Entry.map f) := by
    intro statement
    rw [statementEntries, statementEntries, loneIdentifier?_map hf]
    cases loneIdentifier? statement with
    | some name => rfl
    | none =>
      simp only [Option.map_none, blockItems_map hf, List.map_map]
      rfl
  rw [bodyEntries, bodyEntries, statements_map hf, List.flatMap_map, List.map_flatMap]
  exact congrArg (List.flatMap · _) (funext hentries)

/-- What kind an at-rule is depends on ASCII keywords only. -/
theorem AtRuleKind.ofKeyword_map (keyword : List Char) :
    AtRuleKind.ofKeyword (keyword.map f) = AtRuleKind.ofKeyword keyword := by
  have hconditional : conditionalKeywords.contains ((keyword.map Char.toLower).map f) =
      conditionalKeywords.contains (keyword.map Char.toLower) := by
    rw [Bool.eq_iff_iff, List.contains_iff_mem, List.contains_iff_mem]
    have hascii : ∀ word ∈ conditionalKeywords, Ascii word := by decide
    constructor
    · intro h
      rw [(hf.map_eq_ascii_iff (hascii _ h)).1 rfl]
      exact h
    · intro h
      rwa [hf.map_ascii (hascii _ h)]
  have hkeyframes : "keyframes".toList.isSuffixOf ((keyword.map Char.toLower).map f) =
      "keyframes".toList.isSuffixOf (keyword.map Char.toLower) := by
    have hascii : Ascii "keyframes".toList := by decide
    rw [Bool.eq_iff_iff, List.isSuffixOf_iff_suffix, List.isSuffixOf_iff_suffix]
    constructor
    · rintro ⟨front, h⟩
      obtain ⟨front', back, hback, -, hword⟩ := List.map_eq_append_iff.1 h.symm
      exact ⟨front', by rw [hback, (hf.map_eq_ascii_iff hascii).1 hword]⟩
    · rintro ⟨front, h⟩
      exact ⟨front.map f, by rw [← h, List.map_append, hf.map_ascii hascii]⟩
  rw [AtRuleKind.ofKeyword, AtRuleKind.ofKeyword, map_toLower_map hf, hconditional, hkeyframes]

/-- The nesting tree of a recolored item, by induction on the size of what it holds. -/
theorem NestedRule.ofItem_map (item : Item) :
    NestedRule.ofItem (item.map f) = (NestedRule.ofItem item).map f := by
  induction hsize : item.contentSize using Nat.strongRecOn generalizing item with
  | ind size ih =>
    have hbody : ∀ content : List Component, Component.sizes content ≤ size →
        NestedRule.ofBody (content.map (Component.map f)) =
          NestedRule.mapAll f (NestedRule.ofBody content) := by
      intro content hcontent
      rw [NestedRule.mapAll_eq, NestedRule.ofBody_eq, NestedRule.ofBody_eq, bodyEntries_map hf,
        List.map_map, List.map_map]
      refine List.map_congr_left fun entry hentry => ?_
      cases entry with
      | bare name => simp [Entry.map, NestedRule.ofEntry, NestedRule.map]
      | item i =>
        have hlt := contentSize_bodyEntries hentry
        exact ih _ (Nat.lt_of_lt_of_le hlt hcontent) i rfl
    have hframes : ∀ content : List Component, Component.sizes content ≤ size →
        NestedRule.ofFrames (content.map (Component.map f)) =
          NestedRule.mapAll f (NestedRule.ofFrames content) := by
      intro content hcontent
      rw [NestedRule.mapAll_eq, NestedRule.ofFrames_eq, NestedRule.ofFrames_eq, blockItems_map hf,
        List.map_map, List.map_map]
      refine List.map_congr_left fun i hi => ?_
      exact ih _ (Nat.lt_of_lt_of_le (contentSize_blockItems hi) hcontent) i rfl
    subst hsize
    cases item with
    | declaration d => simp [Item.map, NestedRule.ofItem, NestedRule.map]
    | rule rule =>
      cases rule with
      | style selectors content =>
        simp only [Item.map, RawRule.map, NestedRule.ofItem, NestedRule.map]
        rw [hbody content (Nat.le_refl _)]
      | atRule keyword prelude content =>
        cases content with
        | none => simp [Item.map, RawRule.map, NestedRule.ofItem, NestedRule.map]
        | some content =>
          simp only [Item.map, RawRule.map, Option.map_some, NestedRule.ofItem, NestedRule.map,
            AtRuleKind.ofKeyword_map hf]
          split
          · rw [hframes content (Nat.le_refl _)]
          · rw [hbody content (Nat.le_refl _)]
      | malformed what => simp [Item.map, RawRule.map, NestedRule.ofItem, NestedRule.map]

/-- The nesting trees of a recolored body. -/
theorem NestedRule.ofBody_map (content : List Component) :
    NestedRule.ofBody (content.map (Component.map f)) =
      NestedRule.mapAll f (NestedRule.ofBody content) := by
  rw [NestedRule.mapAll_eq, NestedRule.ofBody_eq, NestedRule.ofBody_eq, bodyEntries_map hf,
    List.map_map, List.map_map]
  refine List.map_congr_left fun entry _ => ?_
  cases entry with
  | bare name => simp [Entry.map, NestedRule.ofEntry, NestedRule.map]
  | item i => exact NestedRule.ofItem_map hf i

end

end CssTemplate.Css
