import Mathlib.Data.List.Forall2
import Mathlib.Data.List.TakeWhile
import CssTemplate.Css.Statement

/-!
# Reading a body statement by statement

A body is cut into statements before it is read. The cut is made at components that end every
construct, so a reader that has not reached the end of a statement does not see what follows it
(`readConstruct_append_of_ends`), and this carries over to items (`readItem_append`) and to lists of them
(`blockItems_append`). `blockItems_statements` puts the statements together again: their items are
the items of the body. What is taken out as a bare statement would be one malformed rule.
-/

namespace CssTemplate.Css

/-! ## Statements -/

/-- Components of which the last one ends a statement, and no other. -/
def IsEnded (statement : List Component) : Prop :=
  ∃ front last, statement = front ++ [last] ∧ last.endsStatement = true ∧
    ∀ c ∈ front, c.endsStatement = false

/-- Components, at least one, of which none ends a statement. -/
structure IsOpen (statement : List Component) : Prop where
  ne_nil : statement ≠ []
  unended : ∀ c ∈ statement, c.endsStatement = false

/-- One more component that ends no statement may stand in front. -/
theorem IsEnded.cons {c : Component} {statement : List Component} (hc : c.endsStatement = false)
    (h : IsEnded statement) : IsEnded (c :: statement) := by
  obtain ⟨front, last, rfl, hlast, hfront⟩ := h
  exact ⟨c :: front, last, rfl, hlast, List.forall_mem_cons.2 ⟨hc, hfront⟩⟩

/-- A body is a row of ended statements, and perhaps an open one after them. -/
theorem exists_statements (content : List Component) :
    ∃ (ended : List (List Component)) (rest : Option (List Component)),
      statements content = ended ++ rest.toList ∧ (∀ statement ∈ ended, IsEnded statement) ∧
        ∀ statement ∈ rest, IsOpen statement := by
  induction content with
  | nil => exact ⟨[], none, rfl, List.forall_mem_nil _, fun _ h => by cases h⟩
  | cons c cs ih =>
    obtain ⟨ended, rest, hcut, hended, hrest⟩ := ih
    rw [statements]
    cases hc : c.endsStatement with
    | true =>
      have hfirst : IsEnded [c] := ⟨[], c, rfl, hc, List.forall_mem_nil _⟩
      refine ⟨[c] :: ended, rest, ?_, List.forall_mem_cons.2 ⟨hfirst, hended⟩, hrest⟩
      rw [if_pos rfl, hcut, List.cons_append]
    | false =>
      rw [if_neg Bool.false_ne_true, hcut]
      cases ended with
      | cons first ended =>
        have hfirst := (hended first (.head _)).cons hc
        refine ⟨(c :: first) :: ended, rest, rfl, ?_, hrest⟩
        exact List.forall_mem_cons.2 ⟨hfirst, fun statement h => hended statement (.tail _ h)⟩
      | nil =>
        cases rest with
        | none =>
          refine ⟨[], some [c], rfl, List.forall_mem_nil _, ?_⟩
          rintro _ ⟨⟩
          exact ⟨List.cons_ne_nil _ _, List.forall_mem_singleton.2 hc⟩
        | some last =>
          refine ⟨[], some (c :: last), rfl, List.forall_mem_nil _, ?_⟩
          rintro _ ⟨⟩
          exact ⟨List.cons_ne_nil _ _, List.forall_mem_cons.2 ⟨hc, (hrest last rfl).unended⟩⟩

/-! ## Readers do not look past the end of a statement -/

section
variable {c : Component} {cs more : List Component}

/-- A construct that ends does not depend on what follows. -/
theorem readConstruct_append_of_ends (h : ∃ d ∈ cs, d.endsStatement = true) (more : List Component) :
    readConstruct (cs ++ more) =
      { readConstruct cs with rest := (readConstruct cs).rest ++ more } := by
  induction cs with
  | nil =>
    obtain ⟨d, hd, -⟩ := h
    cases hd
  | cons c cs ih =>
    rw [List.cons_append, readConstruct, readConstruct]
    split
    · rfl
    · next hcurly =>
      split
      · rfl
      · next hsemicolon =>
        obtain ⟨d, hd, hend⟩ := h
        have hlater : ∃ d ∈ cs, d.endsStatement = true := by
          rcases List.mem_cons.1 hd with rfl | hd
          · simp [Component.endsStatement, hcurly, hsemicolon] at hend
          · exact ⟨d, hd, hend⟩
        rw [ih hlater]

/-- An at-rule that ends in a list does not read beyond it. -/
theorem readAtRule_append (keyword : List Char) (h : ∃ d ∈ cs, d.endsStatement = true)
    (more : List Component) :
    readAtRule keyword (cs ++ more) =
      ((readAtRule keyword cs).1, (readAtRule keyword cs).2 ++ more) := by
  simp only [readAtRule, readConstruct_append_of_ends h more]
  split <;> rfl

/-- A declaration or rule that ends in a list does not read beyond it. -/
theorem readContent_append (h : c.curly?.isSome = true ∨ ∃ d ∈ cs, d.endsStatement = true)
    (more : List Component) :
    readContent c (cs ++ more) = ((readContent c cs).1, (readContent c cs).2 ++ more) := by
  unfold readContent
  split
  · rfl
  · next hcurly =>
    have hlater : ∃ d ∈ cs, d.endsStatement = true :=
      h.resolve_left (by rw [hcurly]; exact Bool.false_ne_true)
    simp only [readConstruct_append_of_ends hlater more]
    split <;> split <;> rfl

/-- An item that ends does not depend on what follows. -/
theorem readItem_append (hc : c.isSemicolon = false) (h : ∃ d ∈ c :: cs, d.endsStatement = true)
    (more : List Component) :
    readItem c (cs ++ more) = ((readItem c cs).1, (readItem c cs).2 ++ more) := by
  have hends : c.curly?.isSome = true ∨ ∃ d ∈ cs, d.endsStatement = true := by
    obtain ⟨d, hd, hend⟩ := h
    rcases List.mem_cons.1 hd with rfl | hd
    · exact .inl (by simpa [Component.endsStatement, hc] using hend)
    · exact .inr ⟨d, hd, hend⟩
  unfold readItem
  split
  · next keyword hkeyword =>
    -- the keyword of an at-rule is no curly block
    have hlater : ∃ d ∈ cs, d.endsStatement = true := by
      refine hends.resolve_left ?_
      unfold Component.atKeyword? at hkeyword
      split at hkeyword
      · exact Bool.false_ne_true
      · cases hkeyword
    simp only [readAtRule_append keyword hlater more]
  · exact readContent_append hends more

/-! ## What is left is a suffix -/

/-- What follows a construct is a suffix of the list. -/
theorem readConstruct_suffix (cs : List Component) : (readConstruct cs).rest <:+ cs := by
  induction cs with
  | nil => exact List.suffix_refl _
  | cons c cs ih =>
    rw [readConstruct]
    split
    · exact List.suffix_cons c cs
    · split
      · exact List.suffix_cons c cs
      · exact ih.trans (List.suffix_cons c cs)

/-- What follows an item is a suffix of the list. -/
theorem readItem_suffix (c : Component) (cs : List Component) : (readItem c cs).2 <:+ cs := by
  have hrest := readConstruct_suffix cs
  unfold readItem
  split
  · unfold readAtRule
    simp only
    split <;> exact hrest
  · unfold readContent
    split
    · exact List.suffix_refl _
    · simp only
      split <;> split <;> exact hrest

/-! ## Items -/

/-- Items are read up to the end of a statement without a look at what follows it. -/
theorem blockItems_append (h : ∀ d ∈ cs.getLast?, d.endsStatement = true) :
    blockItems (cs ++ more) = blockItems cs ++ blockItems more := by
  fun_induction blockItems cs with
  | case1 => rfl
  | case2 c cs hskip ih =>
    rw [List.cons_append, blockItems, if_pos hskip]
    refine ih fun d hd => h d ?_
    rw [List.getLast?_cons, Option.mem_def.1 hd]
    rfl
  | case3 c cs hskip read ih =>
    have hsemicolon : c.isSemicolon = false :=
      Bool.eq_false_iff.2 fun hc => hskip (by rw [hc, Bool.or_true])
    have hends : ∃ d ∈ c :: cs, d.endsStatement = true :=
      ⟨_, List.getLast_mem (List.cons_ne_nil c cs), h _ (List.getLast?_eq_some_getLast _)⟩
    rw [List.cons_append, blockItems, if_neg hskip]
    simp only [readItem_append hsemicolon hends more, List.cons_append]
    refine congrArg _ (ih fun d hd => h d ?_)
    obtain ⟨front, hfront⟩ := (readItem_suffix c cs).trans (List.suffix_cons c cs)
    rw [← hfront, List.getLast?_append, Option.mem_def.1 hd]
    rfl

/-- The items of a statement that has ended do not depend on what follows it. -/
theorem IsEnded.blockItems_append {statement : List Component} (h : IsEnded statement) :
    blockItems (statement ++ more) = blockItems statement ++ blockItems more := by
  obtain ⟨front, last, rfl, hlast, -⟩ := h
  refine Css.blockItems_append fun d hd => ?_
  rw [List.getLast?_concat] at hd
  cases hd
  exact hlast

/-- The items of ended statements and of what follows them. -/
theorem blockItems_flatten_append {ended : List (List Component)}
    (h : ∀ statement ∈ ended, IsEnded statement) :
    blockItems (ended.flatten ++ more) = ended.flatMap blockItems ++ blockItems more := by
  induction ended with
  | nil => rfl
  | cons statement ended ih =>
    rw [List.flatten_cons, List.append_assoc, (h statement (.head _)).blockItems_append,
      ih fun statement hmem => h statement (.tail _ hmem), List.flatMap_cons, List.append_assoc]

/-- The items of the statements are the items of the body. -/
theorem flatMap_blockItems_statements (content : List Component) :
    (statements content).flatMap blockItems = blockItems content := by
  obtain ⟨ended, rest, hcut, hended, -⟩ := exists_statements content
  have hitems := @blockItems_flatten_append rest.toList.flatten ended hended
  rw [← List.flatten_append, ← hcut, flatten_statements] at hitems
  rw [hitems, hcut, List.flatMap_append]
  cases rest with
  | none => simp [blockItems]
  | some last => simp

/-! ## Bare statements -/

/-- What ends no statement belongs to the head of a construct. -/
theorem readConstruct_append (h : ∀ c ∈ cs, c.endsStatement = false) (more : List Component) :
    readConstruct (cs ++ more) =
      { readConstruct more with head := cs ++ (readConstruct more).head } := by
  induction cs with
  | nil => rfl
  | cons c cs ih =>
    obtain ⟨hc, hcs⟩ := List.forall_mem_cons.1 h
    rw [Component.endsStatement, Bool.or_eq_false_iff, Option.isSome_eq_false_iff,
      Option.isNone_iff_eq_none] at hc
    rw [List.cons_append, readConstruct, hc.1, ih hcs]
    simp [hc.2]

/-- White space ends no statement. -/
theorem endsStatement_of_isSpace (h : c.isSpace = true) : c.endsStatement = false := by
  unfold Component.isSpace at h
  split at h
  · rfl
  · cases h

/-- White space before items is skipped. -/
theorem blockItems_spaces (h : ∀ d ∈ cs, d.isSpace = true) (more : List Component) :
    blockItems (cs ++ more) = blockItems more := by
  induction cs with
  | nil => rfl
  | cons c cs ih =>
    rw [List.cons_append, blockItems, if_pos (by rw [h c (.head _), Bool.true_or])]
    exact ih fun d hd => h d (.tail _ hd)

/-- White space has no items. -/
theorem blockItems_of_spaces (h : ∀ d ∈ cs, d.isSpace = true) : blockItems cs = [] := by
  have hitems := blockItems_spaces h []
  rwa [List.append_nil, blockItems] at hitems

/-- An identifier without a colon after it is no declaration. -/
theorem readDeclaration?_spaces (first : Component) (h : ∀ d ∈ cs, d.isSpace = true) :
    readDeclaration? first cs = none := by
  unfold readDeclaration?
  split
  · rw [List.dropWhile_eq_nil_iff.2 h]
  · rfl

/-- An identifier at the front starts a declaration or a rule. -/
theorem blockItems_cons_ident (name : List Char) (cs : List Component) :
    blockItems (.atom (.ident name) :: cs) =
      (readContent (.atom (.ident name)) cs).1 ::
        blockItems (readContent (.atom (.ident name)) cs).2 := by
  rw [blockItems]
  exact if_neg Bool.false_ne_true

/-- The items of an identifier with white space after it. -/
theorem blockItems_ident (name : List Char) (hcs : ∀ d ∈ cs, d.isSpace = true) :
    blockItems (.atom (.ident name) :: cs) = [.rule (.malformed .endOfInput)] := by
  have hconstruct : readConstruct cs = ⟨cs, .endOfInput, []⟩ := by
    have hspaces := readConstruct_append (fun d hd => endsStatement_of_isSpace (hcs d hd)) []
    rwa [List.append_nil, readConstruct, List.append_nil] at hspaces
  simp only [blockItems_cons_ident, readContent, Component.curly?, hconstruct,
    readDeclaration?_spaces _ hcs]
  rw [blockItems]

/-- The items of an identifier with a semicolon after it. -/
theorem blockItems_ident_semicolon (name : List Char) (hcs : ∀ d ∈ cs, d.isSpace = true)
    (hc : c.isSemicolon = true) (hmore : ∀ d ∈ more, d.isSpace = true) :
    blockItems (.atom (.ident name) :: (cs ++ c :: more)) = [.rule (.malformed .semicolon)] := by
  have hcurly : c.curly? = none := by
    unfold Component.isSemicolon Component.isLiteral at hc
    split at hc
    · rfl
    · cases hc
  have hconstruct : readConstruct (cs ++ c :: more) = ⟨cs, .semicolon, more⟩ := by
    simp only [readConstruct_append fun d hd => endsStatement_of_isSpace (hcs d hd), readConstruct,
      hcurly, hc, if_true, List.append_nil]
  simp only [blockItems_cons_ident, readContent, Component.curly?, hconstruct,
    readDeclaration?_spaces _ hcs]
  rw [blockItems_of_spaces hmore]

/-- A bare statement would be read as one malformed rule. -/
theorem blockItems_of_loneIdentifier? {statement : List Component} {name : List Char}
    (h : loneIdentifier? statement = some name) :
    ∃ fault, blockItems statement = [.rule (.malformed fault)] := by
  unfold loneIdentifier? at h
  split at h
  · next own hfilter =>
    obtain ⟨before, after, rfl, hbefore, -, hafter⟩ := List.filter_eq_cons_iff.1 hfilter
    rw [blockItems_spaces (by simpa using hbefore)]
    exact ⟨.endOfInput, blockItems_ident own (by simpa using hafter)⟩
  · next own last hfilter =>
    obtain ⟨before, after, rfl, hbefore, -, hafter⟩ := List.filter_eq_cons_iff.1 hfilter
    obtain ⟨inner, rest, rfl, hinner, -, hrest⟩ := List.filter_eq_cons_iff.1 hafter
    split at h
    · next hlast =>
      rw [blockItems_spaces (by simpa using hbefore)]
      exact ⟨.semicolon, blockItems_ident_semicolon own (by simpa using hinner) hlast
        (by simpa using hrest)⟩
    · cases h
  · cases h

end

/-- What a reader of the whole body has in the place of an entry: the item itself, and a malformed
rule for a bare statement. -/
def Entry.StandsFor : Entry → Item → Prop
  | .bare _, found => ∃ fault, found = .rule (.malformed fault)
  | .item own, found => found = own

/-- The entries of a statement stand for its items, one by one. -/
theorem forall₂_statementEntries (statement : List Component) :
    List.Forall₂ Entry.StandsFor (statementEntries statement) (blockItems statement) := by
  unfold statementEntries
  split
  · next name hname =>
    obtain ⟨fault, hitems⟩ := blockItems_of_loneIdentifier? hname
    rw [hitems]
    exact .cons ⟨fault, rfl⟩ .nil
  · rw [List.forall₂_map_left_iff]
    exact List.forall₂_same.2 fun item _ => rfl

/-- **Statements are read as the body is.** Cutting a body into statements loses nothing. Every
statement has one component that ends it, its last, and only the last statement may have none. The
items of the statements, malformed ones included, are in order the items of the body. So the entries
of the body are its items, except that a bare statement is in the place of a malformed rule. -/
theorem blockItems_statements (content : List Component) :
    (statements content).flatten = content ∧
    (∃ (ended : List (List Component)) (rest : Option (List Component)),
      statements content = ended ++ rest.toList ∧ (∀ statement ∈ ended, IsEnded statement) ∧
        ∀ statement ∈ rest, IsOpen statement) ∧
    (statements content).flatMap blockItems = blockItems content ∧
    List.Forall₂ Entry.StandsFor (bodyEntries content) (blockItems content) := by
  refine ⟨flatten_statements content, exists_statements content,
    flatMap_blockItems_statements content, ?_⟩
  rw [← flatMap_blockItems_statements, bodyEntries]
  refine List.rel_flatMap (List.forall₂_same.2 fun statement _ => rfl) ?_
  rintro statement _ rfl
  exact forall₂_statementEntries statement

end CssTemplate.Css
