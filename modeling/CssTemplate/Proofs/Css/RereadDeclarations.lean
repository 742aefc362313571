import CssTemplate.Proofs.Css.Statements
import CssTemplate.Proofs.Css.TidyRules

/-!
# Declarations that are read back

A tidy declaration is written, and something else after it. In a canonical text it is read as components
that give the declaration again, with its vendor-prefixed copies, whatever components follow
(`FlatDeclaration.IsTidy.isReadBack`). A bare name and a declaration with a tidy value are one statement
each, with their semicolons. A value that is a block ends its statement, and the semicolon after it
is a statement without entries. Declarations in a row are read back one by one (`exists_declarations`).
-/

namespace CssTemplate.Css

/-! ## Names and punctuation -/

section

variable {name : List Char} {stop : Char}

/-- A plain name is a name as it can be read. -/
theorem PlainIdent.isName (h : PlainIdent name) : IsName name where
  ne_nil := by
    rintro rfl
    cases h.starts
  null := fun hmem => by cases h.chars _ hmem

/-- No identifier goes on with a colon or a semicolon. -/
theorem goesOn_ident_of_stop (hstop : stop ∈ [':', ';']) (name after : List Char) :
    (Token.atom (.ident name)).goesOn (stop :: after) = false := by
  have hrange : (name.length == 1 && startsUnicodeRange (name ++ stop :: after)) = false := by
    fin_cases hstop <;> rcases name with _ | ⟨u, _ | ⟨c, name⟩⟩ <;> rfl
  have hname : continuesName (stop :: after) = false := by fin_cases hstop <;> rfl
  have hmarks : stop ≠ '(' ∧ stop ≠ '>' := by fin_cases hstop <;> decide
  simp [Token.goesOn, hname, hrange, hmarks]

/-- An identifier before a colon or a semicolon is read back. -/
theorem IsName.readBack (h : IsName name) (hstop : stop ∈ [':', ';']) (rest : List Char) :
    ReadBack (identifierText name) (.atom (.ident name)) (stop :: rest) := by
  have hspelled : (Token.atom (.ident name)).Spelled := ⟨h, rfl⟩
  exact hspelled.readBack_text (goesOn_ident_of_stop hstop name rest)

/-- A plain name before a colon or a semicolon is read back. -/
theorem PlainIdent.readBack (h : PlainIdent name) (hstop : stop ∈ [':', ';']) (rest : List Char) :
    ReadBack name (.atom (.ident name)) (stop :: rest) := by
  have hread := h.isName.readBack hstop rest
  rwa [h.identifierText] at hread

/-- A plain keyword before a space or a block is read back. -/
theorem PlainIdent.readBack_keyword (h : PlainIdent name) (hstop : stop ∈ [' ', '{']) (rest : List Char) :
    ReadBack ('@' :: name) (.atom (.atKeyword name)) (stop :: rest) := by
  have hspelled : (Token.atom (.atKeyword name)).Spelled := ⟨h.isName, rfl⟩
  have hgoes : (Token.atom (.atKeyword name)).goesOn (stop :: rest) = false := by
    fin_cases hstop <;> rfl
  have hread := hspelled.readBack_text hgoes
  have htext : Token.text (.atom (.atKeyword name)) = '@' :: name := congrArg ('@' :: ·) h.identifierText
  rwa [htext] at hread

/-- A colon, a semicolon or an exclamation mark is a token of its own. -/
theorem readToken_punctuation (stop : Char) (hstop : stop ∈ [':', ';', '!']) (rest : List Char) :
    readToken stop rest = ([.atom (.literal [stop])], rest) := by
  simp only [List.mem_cons, List.not_mem_nil, or_false] at hstop
  rcases hstop with rfl | rfl | rfl <;> exact readToken_symbol (by decide) rest

end

/-! ## Declarations -/

/-- A declaration after its vendor-prefixed copies. -/
def FlatDeclaration.withCopies : FlatDeclaration → List FlatDeclaration
  | .bare identifier => [.bare identifier]
  | .property name value important =>
    (prefixesOf name).map (fun vendor => .property (vendor ++ name) value important) ++
      [.property name value important]

/-- A declaration that needs no copies stays as it is. -/
theorem FlatDeclaration.IsTidy.withCopies {d : FlatDeclaration} (h : d.IsTidy true) :
    d.withCopies = [d] := by
  cases d with
  | bare identifier => rfl
  | property name value important =>
    obtain ⟨-, -, hprefixes⟩ := h
    rw [FlatDeclaration.withCopies, hprefixes rfl, List.map_nil, List.nil_append]

/-- A semicolon ends the statement before it. -/
theorem statements_semicolon {cs : List Component} (h : ∀ c ∈ cs, c.endsStatement = false)
    (more : List Component) :
    statements (cs ++ .atom (.literal [';']) :: more) =
      (cs ++ [.atom (.literal [';'])]) :: statements more := by
  induction cs with
  | nil => rfl
  | cons c cs ih =>
    obtain ⟨hc, hcs⟩ := List.forall_mem_cons.1 h
    rw [List.cons_append, statements, hc, ih hcs]
    rfl

/-- The entries of a statement with its semicolon, and of what follows. -/
theorem bodyEntries_semicolon {cs : List Component} (h : ∀ c ∈ cs, c.endsStatement = false)
    (more : List Component) :
    bodyEntries (cs ++ [.atom (.literal [';'])] ++ more) =
      statementEntries (cs ++ [.atom (.literal [';'])]) ++ bodyEntries more := by
  rw [List.append_assoc, List.singleton_append, bodyEntries, statements_semicolon h, List.flatMap_cons]
  rfl

/-- Nothing in a tidy value is a mark or a block. -/
theorem foldl_valueScan {cs : List Component} (h : ∀ c ∈ cs, c.Fits .value) (v : ValueScan)
    (hmark : v.mark = .none) (hinside : v.blockInside = false) :
    ∃ filled, cs.foldl ValueScan.step v = ⟨cs.reverse ++ v.seen, .none, filled, false⟩ := by
  induction cs generalizing v with
  | nil =>
    obtain ⟨seen, mark, filled, inside⟩ := v
    cases hmark
    cases hinside
    exact ⟨filled, rfl⟩
  | cons c cs ih =>
    obtain ⟨hc, hcs⟩ := List.forall_mem_cons.1 h
    have hstep : (v.step c).seen = c :: v.seen ∧ (v.step c).mark = .none ∧
        (v.step c).blockInside = false := by
      rw [ValueScan.step]
      split
      · exact ⟨rfl, hmark, hinside⟩
      · rw [hmark]
        simp [hc.literal '!' rfl, ValueScan.add, hinside, hc.curly]
    obtain ⟨filled, hfold⟩ := ih hcs (v.step c) hstep.2.1 hstep.2.2
    exact ⟨filled, by rw [List.foldl_cons, hfold, hstep.1]; simp⟩

/-- The mark of an important declaration, as it is written. -/
def markText (important : Bool) : List Char :=
  if important then "!important".toList else []

/-- The mark of an important declaration, as it is read. -/
def markComponents (important : Bool) : List Component :=
  if important then [.atom (.literal ['!']), .atom (.ident "important".toList)] else []

/-- What is read of a written declaration. -/
theorem readDeclaration?_written {cs : List Component} (h : ∀ c ∈ cs, c.Fits .value)
    (name : List Char) (important : Bool) :
    readDeclaration? (.atom (.ident name)) (.atom (.literal [':']) :: (cs ++ markComponents important)) =
      some ⟨name, cs, important⟩ := by
  obtain ⟨filled, hfold⟩ := foldl_valueScan h {} rfl rfl
  have hvalue : readDeclaration? (.atom (.ident name))
      (.atom (.literal [':']) :: (cs ++ markComponents important)) =
        ((cs ++ markComponents important).foldl ValueScan.step {}).declaration? name := rfl
  rw [hvalue, List.foldl_append, hfold]
  cases important with
  | false => simp [markComponents, ValueScan.declaration?]
  | true =>
    have hmark : (markComponents true).foldl ValueScan.step ⟨cs.reverse ++ [], .none, filled, false⟩ =
        ⟨(markComponents true).reverse ++ cs.reverse ++ [], .complete (cs.reverse ++ []), filled,
          false⟩ := rfl
    rw [hmark]
    simp [ValueScan.declaration?]

/-- What fits where a semicolon is barred ends no statement. -/
theorem Component.Fits.endsStatement {p : Site} {c : Component} (h : c.Fits p)
    (hp : p.bars ';' = true) : c.endsStatement = false := by
  rw [Component.endsStatement, h.curly, Component.isSemicolon, h.literal ';' hp]
  rfl

/-- Nothing in a written declaration ends its statement. -/
theorem endsStatement_declaration {cs : List Component} (h : ∀ c ∈ cs, c.Fits .value)
    (name : List Char) (important : Bool) :
    ∀ c ∈ .atom (.ident name) :: .atom (.literal [':']) :: (cs ++ markComponents important),
      c.endsStatement = false := by
  refine List.forall_mem_cons.2 ⟨rfl, List.forall_mem_cons.2 ⟨rfl, List.forall_mem_append.2
    ⟨fun c hc => (h c hc).endsStatement rfl, ?_⟩⟩⟩
  cases important with
  | false => exact List.forall_mem_nil _
  | true => exact List.forall_mem_cons.2 ⟨rfl, List.forall_mem_singleton.2 rfl⟩

/-- A written declaration is a statement with one entry. -/
theorem statementEntries_declaration {cs : List Component} (h : ∀ c ∈ cs, c.Fits .value)
    (name : List Char) (important : Bool) :
    statementEntries (.atom (.ident name) :: .atom (.literal [':']) :: (cs ++ markComponents important) ++
      [.atom (.literal [';'])]) = [.item (.declaration ⟨name, cs, important⟩)] := by
  have hlone : loneIdentifier? (.atom (.ident name) :: .atom (.literal [':']) ::
      (cs ++ markComponents important) ++ [.atom (.literal [';'])]) = none := by
    simp [loneIdentifier?, Component.isSpace]
  have hends := (List.forall_mem_cons.1 (endsStatement_declaration h name important)).2
  have hitem : readItem (.atom (.ident name)) (.atom (.literal [':']) ::
      (cs ++ markComponents important) ++ [.atom (.literal [';'])]) =
        (.declaration ⟨name, cs, important⟩, []) := by
    simp only [readItem, Component.atKeyword?, readContent, Component.curly?,
      readConstruct_append hends]
    rw [show readConstruct [.atom (.literal [';'])] = ⟨[], .semicolon, []⟩ from rfl]
    simp only [List.append_nil, readDeclaration?_written h]
  rw [statementEntries, hlone]
  simp only [List.cons_append] at hitem ⊢
  rw [blockItems, if_neg (by simp [Component.isSpace, Component.isSemicolon, Component.isLiteral]), hitem]
  simp only [blockItems, List.map_cons, List.map_nil]

/-- The minified text of what a tidy text is read as. -/
theorem minify_of_renders {p : Site} {text : List Char} {cs : List Component} (htidy : Tidy p true text)
    (h : Renders p true text cs) : minify cs = .ok text := by
  rw [minify, h.sound]
  simp only [minifiedText, h.text_eq, htidy.trim]

/-- The word of the mark is an identifier without escapes. -/
theorem plainIdent_important : PlainIdent "important".toList :=
  ⟨by decide, List.all_eq_true.1 (by decide)⟩

/-- A declaration whose value is a block has one entry. -/
theorem statementEntries_block (name : List Char) (content : List Component) :
    statementEntries [.atom (.ident name), .atom (.literal [':']), .group (.bracket .curly) content] =
      [.item (.declaration ⟨name, [.group (.bracket .curly) content], false⟩)] := by
  have hlone : loneIdentifier? [.atom (.ident name), .atom (.literal [':']),
      .group (.bracket .curly) content] = none := rfl
  have hitem : readItem (.atom (.ident name)) [.atom (.literal [':']), .group (.bracket .curly) content] =
      (.declaration ⟨name, [.group (.bracket .curly) content], false⟩, []) := rfl
  rw [statementEntries, hlone]
  simp only
  rw [blockItems, if_neg (by simp [Component.isSpace, Component.isSemicolon, Component.isLiteral]), hitem]
  simp only [blockItems, List.map_cons, List.map_nil]

/-- A block ends the statement that it is the value of, and the semicolon after it has no entries. -/
theorem bodyEntries_block (name : List Char) (content more : List Component) :
    bodyEntries ([.atom (.ident name), .atom (.literal [':']), .group (.bracket .curly) content,
      .atom (.literal [';'])] ++ more) =
        [.item (.declaration ⟨name, [.group (.bracket .curly) content], false⟩)] ++ bodyEntries more := by
  have hsemicolon : statementEntries [.atom (.literal [';'])] = [] := by
    have hlone : loneIdentifier? [.atom (.literal [';'])] = none := rfl
    rw [statementEntries, hlone]
    simp [blockItems, Component.isSemicolon, Component.isLiteral]
  have hstatements : statements ([.atom (.ident name), .atom (.literal [':']),
      .group (.bracket .curly) content, .atom (.literal [';'])] ++ more) =
        [.atom (.ident name), .atom (.literal [':']), .group (.bracket .curly) content] ::
          [.atom (.literal [';'])] :: statements more := rfl
  rw [bodyEntries, hstatements, List.flatMap_cons, List.flatMap_cons, statementEntries_block, hsemicolon]
  rfl

/-- The mark of an important declaration is read back. -/
theorem readsTo_mark {important : Bool} {after : List Char}
    (h : isCanonical (markText important ++ ';' :: after) = true) :
    ReadsTo (markText important ++ ';' :: after) (';' :: after)
        (markComponents important) ∧ isCanonical (';' :: after) = true := by
  cases important with
  | false => exact ⟨ReadsTo.refl _, h⟩
  | true =>
    have hbang := readToken_punctuation '!' (by decide) ("important".toList ++ ';' :: after)
    have hword : ReadBack "important".toList (.atom (.ident "important".toList)) (';' :: after) :=
      plainIdent_important.readBack (by decide) after
    exact ⟨(ReadsTo.atom hbang).trans hword.readsTo, hword.isCanonical (isCanonical_of_readToken h hbang)⟩

/-- A plain name and a colon are read back. -/
theorem PlainIdent.readsTo_colon {name rest : List Char} (h : PlainIdent name)
    (hcanonical : isCanonical (name ++ ':' :: rest) = true) :
    ReadsTo (name ++ ':' :: rest) rest [.atom (.ident name), .atom (.literal [':'])] ∧
      isCanonical rest = true := by
  have hname : ReadBack name (.atom (.ident name)) (':' :: rest) := h.readBack (by decide) rest
  have hcolon := readToken_punctuation ':' (by decide) rest
  exact ⟨hname.readsTo.trans (.atom hcolon), isCanonical_of_readToken (hname.isCanonical hcanonical) hcolon⟩

/-- A declaration as it is written, before some text, is read back as components that give the
declaration with its copies, whatever components follow. -/
def FlatDeclaration.IsReadBack (d : FlatDeclaration) (after : List Char) : Prop :=
  ∃ cs entries, ReadsTo (d.text ++ after) after cs ∧ isCanonical after = true ∧
    prefixEntries entries = .ok d.withCopies ∧
    ∀ more, bodyEntries (cs ++ more) = entries ++ bodyEntries more

section

variable {name value after : List Char}

/-- The text of a bare name, in front of some text. -/
theorem text_bare_append (identifier after : List Char) :
    FlatDeclaration.text (.bare identifier) ++ after = identifier ++ ';' :: after := by
  simp [FlatDeclaration.text]

/-- The text of a declaration, in front of some text. -/
theorem text_property_append (name value : List Char) (important : Bool) (after : List Char) :
    FlatDeclaration.text (.property name value important) ++ after =
      name ++ ':' :: (value ++ (markText important ++ ';' :: after)) := by
  simp only [FlatDeclaration.text, markText, List.append_assoc, List.cons_append, List.nil_append]

/-- A bare name is read back. -/
theorem isReadBack_bare (h : IsName name)
    (hcanonical : isCanonical (identifierText name ++ ';' :: after) = true) :
    FlatDeclaration.IsReadBack (.bare (identifierText name)) after := by
  have hname : ReadBack (identifierText name) (.atom (.ident name)) (';' :: after) :=
    h.readBack (by decide) after
  have hstop := readToken_punctuation ';' (by decide) after
  have hends : ∀ c ∈ [Component.atom (.ident name)], c.endsStatement = false :=
    List.forall_mem_singleton.2 rfl
  refine ⟨_, [.bare name], ?_, isCanonical_of_readToken (hname.isCanonical hcanonical) hstop, rfl,
    bodyEntries_semicolon hends⟩
  rw [text_bare_append]
  exact hname.readsTo.trans (.atom hstop)

/-- A declaration with a tidy value is read back. -/
theorem isReadBack_tidy {important : Bool} (hname : PlainIdent name) (hvalue : Tidy .value true value)
    (hcanonical : isCanonical (name ++ ':' :: (value ++ (markText important ++ ';' :: after))) = true) :
    FlatDeclaration.IsReadBack (.property name value important) after := by
  obtain ⟨hreadsName, hnext⟩ := hname.readsTo_colon hcanonical
  obtain ⟨cs, hreads, hrenders, hmark⟩ : IsRead .value true value (markText important ++ ';' :: after) := by
    cases important with
    | false => exact hvalue.isRead (by decide) hnext
    | true => exact hvalue.isRead (d := '!') (by decide) hnext
  obtain ⟨hreadsMark, hlast⟩ := readsTo_mark hmark
  have hstop := readToken_punctuation ';' (by decide) after
  refine ⟨_, _, ?_, isCanonical_of_readToken hlast hstop, ?_,
    bodyEntries_semicolon (endsStatement_declaration hrenders.fits name important)⟩
  · have hall := hreadsName.trans (hreads.trans (hreadsMark.trans (.atom hstop)))
    rw [text_property_append]
    simpa using hall
  · rw [statementEntries_declaration hrenders.fits]
    simp only [prefixEntries, prefixEntry, minify_of_renders hvalue hrenders, Except.map_ok,
      prefixedDeclaration, Except.bind_ok, List.append_nil, FlatDeclaration.withCopies]

/-- A declaration whose value is a block is read back: the block ends its statement, and the semicolon
after it is a statement without entries. -/
theorem isReadBack_block {content : List Component} (hname : PlainIdent name)
    (hblock : IsSettledBlock content)
    (hcanonical : isCanonical
      (name ++ ':' :: ((Component.group (.bracket .curly) content).text ++ ';' :: after)) = true) :
    FlatDeclaration.IsReadBack
      (.property name (Component.group (.bracket .curly) content).text false) after := by
  obtain ⟨hreadsName, hnext⟩ := hname.readsTo_colon hcanonical
  obtain ⟨hreads, hlast⟩ := hblock.readsTo hnext
  have hstop := readToken_punctuation ';' (by decide) after
  refine ⟨_, _, ?_, isCanonical_of_readToken hlast hstop, ?_, bodyEntries_block name (joinedRow content)⟩
  · rw [text_property_append]
    exact hreadsName.trans (hreads.trans (.atom hstop))
  · simp only [prefixEntries, prefixEntry, hblock.minify_joined, Except.map_ok, prefixedDeclaration,
      Except.bind_ok, List.append_nil, FlatDeclaration.withCopies]

end

/-- A tidy declaration is read back. -/
theorem FlatDeclaration.IsTidy.isReadBack {unprefixed : Bool} {d : FlatDeclaration}
    (h : d.IsTidy unprefixed) {after : List Char} (hcanonical : isCanonical (d.text ++ after) = true) :
    d.IsReadBack after := by
  cases d with
  | bare identifier =>
    obtain ⟨name, hname, rfl⟩ := h
    rw [text_bare_append] at hcanonical
    exact isReadBack_bare hname hcanonical
  | property name value important =>
    obtain ⟨hname, hvalue, -⟩ := h
    rw [text_property_append] at hcanonical
    rcases hvalue with htidy | ⟨rfl, content, hblock, rfl⟩
    · exact isReadBack_tidy hname htidy hcanonical
    · exact isReadBack_block hname hblock hcanonical

/-- Adding prefixes to entries one after the other. -/
theorem prefixEntries_append {a b : List Entry} {ds es : List FlatDeclaration}
    (ha : prefixEntries a = .ok ds) (hb : prefixEntries b = .ok es) :
    prefixEntries (a ++ b) = .ok (ds ++ es) := by
  induction a generalizing ds with
  | nil =>
    cases ha
    exact hb
  | cons entry a ih =>
    obtain ⟨first, hfirst, ha⟩ := Except.bind_eq_ok_iff.1 ha
    obtain ⟨rest, hrest, ha⟩ := Except.bind_eq_ok_iff.1 ha
    cases ha
    rw [List.cons_append, prefixEntries, hfirst, Except.bind_ok, ih hrest, Except.bind_ok,
      List.append_assoc]

/-- The written declarations of a rule are read back. -/
theorem exists_declarations {unprefixed : Bool} {ds : List FlatDeclaration}
    (h : ∀ d ∈ ds, d.IsTidy unprefixed) {after : List Char}
    (hcanonical : isCanonical (declarationsText ds ++ after) = true) :
    ∃ cs, ReadsTo (declarationsText ds ++ after) after cs ∧ isCanonical after = true ∧
      prefixBody cs = .ok (declarationsText (ds.flatMap FlatDeclaration.withCopies)) := by
  suffices hentries : ∃ cs, ReadsTo (declarationsText ds ++ after) after cs ∧
      isCanonical after = true ∧
      prefixEntries (bodyEntries cs) = .ok (ds.flatMap FlatDeclaration.withCopies) by
    obtain ⟨cs, hreads, hafter, hcs⟩ := hentries
    exact ⟨cs, hreads, hafter, by rw [prefixBody, hcs, Except.map_ok]⟩
  induction ds with
  | nil => exact ⟨[], ReadsTo.refl _, hcanonical, rfl⟩
  | cons d ds ih =>
    obtain ⟨hd, hds⟩ := List.forall_mem_cons.1 h
    rw [declarationsText, List.flatMap_cons, List.append_assoc] at hcanonical ⊢
    obtain ⟨first, entries, hreads, hnext, hfirst, hentries⟩ := hd.isReadBack hcanonical
    obtain ⟨cs, hreadsRest, hafter, hrest⟩ := ih hds hnext
    refine ⟨_, hreads.trans hreadsRest, hafter, ?_⟩
    rw [hentries, List.flatMap_cons]
    exact prefixEntries_append hfirst hrest

/-! ## Normal texts -/

/-- A plain name has nothing to normalize. -/
theorem PlainIdent.isNormal {name : List Char} (h : PlainIdent name) : IsNormal name :=
  isNormal_of_forall (by decide) h.chars

/-- A tidy declaration has nothing to normalize. -/
theorem FlatDeclaration.IsTidy.isNormal {unprefixed : Bool} {d : FlatDeclaration}
    (h : d.IsTidy unprefixed) : IsNormal d.text := by
  cases d with
  | bare identifier =>
    obtain ⟨name, hname, rfl⟩ := h
    have hident : (Token.atom (.ident name)).Formed := hname
    exact hident.isNormal.append (isNormal_nil.cons (by decide))
  | property name value important =>
    obtain ⟨hname, hvalue, -⟩ := h
    have htext : IsNormal value := by
      rcases hvalue with htidy | ⟨-, content, hblock, rfl⟩
      · exact htidy.not_mem_changed
      · exact hblock.isNormal
    have hmark : IsNormal (markText important) := by
      cases important with
      | false => exact isNormal_nil
      | true =>
        have htext : markText true = '!' :: "important".toList := rfl
        rw [htext]
        exact plainIdent_important.isNormal.cons (by decide)
    exact ((hname.isNormal.append (.cons (by decide) htext)).append hmark).append
      (isNormal_nil.cons (by decide))

end CssTemplate.Css
