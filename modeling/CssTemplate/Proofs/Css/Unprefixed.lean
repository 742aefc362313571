import CssTemplate.Proofs.Css.RecoloredRules
import CssTemplate.Proofs.Css.RereadDeclarations

/-!
# Flat rules that are read back

Adding vendor prefixes reads flat CSS back and writes it once more. Each piece of a tidy flat rule is
read as what it was written from: a declaration with its name, value and mark, a head up to its block, a
block as one group. So tidy rules whose text is canonical come out with the copies of their declarations
in place and with nothing else changed (`withVendorPrefixes_rulesText`), and rules without prefixed
properties come out as they went in (`withVendorPrefixes_flattenCss`). A text that is not canonical can
change: where `&` stands before another token the two may be read as one, which is written in another way
(`withVendorPrefixes_respells`).
-/

namespace CssTemplate.Css

/-! ## Copies -/

mutual

/-- A flat rule with the copies of its declarations. -/
def FlatRule.withCopies : FlatRule → FlatRule
  | .style selectors declarations => .style selectors (declarations.flatMap FlatDeclaration.withCopies)
  | .atRule head rules => .atRule head (rulesWithCopies rules)

/-- Flat rules with the copies of their declarations. -/
def rulesWithCopies : List FlatRule → List FlatRule
  | [] => []
  | rule :: rules => rule.withCopies :: rulesWithCopies rules

end

mutual

/-- A rule that needs no copies stays as it is. -/
theorem FlatRule.IsTidy.withCopies : ∀ rule : FlatRule, rule.IsTidy true → rule.withCopies = rule
  | .style selectors declarations, h => by
    rw [FlatRule.IsTidy] at h
    have hcopies : declarations.flatMap FlatDeclaration.withCopies = declarations.flatMap ([·]) :=
      List.flatMap_congr fun d hd => (h.2 d hd).withCopies
    rw [FlatRule.withCopies, hcopies, List.flatMap_singleton']
  | .atRule head rules, h => by
    rw [FlatRule.IsTidy] at h
    rw [FlatRule.withCopies, FlatRule.AllTidy.withCopies rules h.2]

/-- Rules that need no copies stay as they are. -/
theorem FlatRule.AllTidy.withCopies : ∀ rules : List FlatRule, FlatRule.AllTidy true rules →
    rulesWithCopies rules = rules
  | [], _ => by rw [rulesWithCopies]
  | rule :: rules, h => by
    rw [FlatRule.AllTidy] at h
    rw [rulesWithCopies, FlatRule.IsTidy.withCopies rule h.1, FlatRule.AllTidy.withCopies rules h.2]

end

/-! ## Heads and blocks -/

/-- A block is read back as one group. -/
theorem readsTo_block {body after : List Char} {cs : List Component}
    (h : ReadsTo (body ++ '}' :: after) ('}' :: after) cs) :
    ReadsTo ('{' :: (body ++ '}' :: after)) after [.group (.bracket .curly) cs] :=
  .group (readToken_open (b := .curly) _) h (readToken_close (b := .curly) _)

/-- The components are read as one rule, whatever is skipped between rules and whatever follows. -/
def IsRule (cs : List Component) (raw : RawRule) : Prop :=
  ∀ (skip : Component → Bool), (∀ c, skip c = true → isSheetPadding c = true) →
    ∀ more, rules skip (cs ++ more) = raw :: rules skip more

/-- What is read as one rule, whatever follows, is a rule unless it is skipped. -/
theorem isRule_of_readRule {c : Component} {cs : List Component} {raw : RawRule}
    (hc : isSheetPadding c = false) (h : ∀ more, readRule c (cs ++ more) = (raw, more)) :
    IsRule (c :: cs) raw := by
  intro skip hskip more
  have hkept : ¬skip c = true := fun hskipped => by
    rw [hskip c hskipped] at hc
    cases hc
  rw [List.cons_append, rules, if_neg hkept, h]

/-- The first block after components that are no blocks. -/
theorem readBlock?_append {cs : List Component} (h : ∀ c ∈ cs, c.curly? = none)
    (content more : List Component) :
    readBlock? (cs ++ .group (.bracket .curly) content :: more) = some (cs, content, more) := by
  induction cs with
  | nil => rfl
  | cons c cs ih =>
    obtain ⟨hc, hcs⟩ := List.forall_mem_cons.1 h
    rw [List.cons_append, readBlock?, hc, ih hcs]
    rfl

/-- Selectors and a block are a style rule. -/
theorem isRule_style {head : List Char} {cs : List Component} (h : Renders .selectors true head cs)
    (content : List Component) :
    IsRule (cs ++ [.group (.bracket .curly) content]) (.style cs content) := by
  have hblock := readBlock?_append (fun c hc => (h.fits c hc).curly) content
  cases cs with
  | nil => exact isRule_of_readRule rfl fun more => rfl
  | cons c cs =>
    have hfits := h.fits c (.head _)
    rw [List.cons_append]
    refine isRule_of_readRule ?_ fun more => ?_
    · rw [isSheetPadding, h.first rfl c rfl, hfits.mark.1, hfits.mark.2]
      rfl
    · have hread : readStyleRule c (cs ++ .group (.bracket .curly) content :: more) =
          (.style (c :: cs) content, more) := by
        rw [readStyleRule, ← List.cons_append, hblock]
      rw [readRule, hfits.keyword rfl, List.append_assoc, List.singleton_append]
      exact hread

/-- A keyword, a prelude and a block are an at-rule. -/
theorem isRule_atRule {prelude : List Component} (h : ∀ c ∈ prelude, c.endsStatement = false)
    (keyword : List Char) (content : List Component) :
    IsRule (.atom (.atKeyword keyword) :: (prelude ++ [.group (.bracket .curly) content]))
      (.atRule keyword prelude (some content)) := by
  refine isRule_of_readRule rfl fun more => ?_
  have hread : readAtRule keyword (prelude ++ .group (.bracket .curly) content :: more) =
      (.atRule keyword (prelude ++ []) (some content), more) := by
    rw [readAtRule, readConstruct_append h]
    rfl
  rw [List.append_assoc, List.singleton_append]
  rw [List.append_nil] at hread
  exact hread

/-- A space at the front is trimmed away. -/
theorem minifiedText_eq_trim (cs : List Component) :
    minifiedText none cs = trim (minifiedParts none false cs) := by
  cases cs with
  | nil => rfl
  | cons c cs =>
    rw [minifiedText, minifiedParts, minifiedParts]
    split
    · rfl
    · rfl

/-- The head of an at-rule is read back. -/
theorem IsAtHead.exists_prelude {keyword head : List Char} (h : IsAtHead keyword head)
    {after : List Char} (hcanonical : isCanonical (head ++ '{' :: after) = true) :
    ∃ prelude, ReadsTo (head ++ '{' :: after) ('{' :: after) (.atom (.atKeyword keyword) :: prelude) ∧
      isCanonical ('{' :: after) = true ∧ (∀ c ∈ prelude, c.endsStatement = false) ∧
      atRuleHead keyword prelude = .ok head := by
  obtain ⟨hkeyword, text, htext, rfl⟩ := h
  have hrest : Tidy .prelude false (if text.isEmpty then [] else ' ' :: text) := by
    split
    · exact .nil
    · next hfilled => exact .space (by simpa using hfilled) htext
  have hread : ReadBack ('@' :: keyword) (.atom (.atKeyword keyword))
      ((if text.isEmpty then [] else ' ' :: text) ++ '{' :: after) := by
    split
    · exact hkeyword.readBack_keyword (by decide) after
    · exact hkeyword.readBack_keyword (by decide) _
  rw [List.append_assoc] at hcanonical ⊢
  obtain ⟨prelude, hreads, hrenders, hafter⟩ :=
    hrest.isRead (by decide) (hread.isCanonical hcanonical)
  refine ⟨prelude, hread.readsTo.trans hreads, hafter,
    fun c hc => (hrenders.fits c hc).endsStatement rfl, ?_⟩
  have hminified : minifiedText none prelude = text := by
    rw [minifiedText_eq_trim, hrenders.text_eq]
    split
    · next hempty =>
      rw [List.isEmpty_iff.1 hempty]
      rfl
    · exact htext.trim
  rw [atRuleHead, minify, hrenders.sound]
  simp only [hminified, Except.map_ok]

/-! ## Rules -/

/-- A written rule is read back as one rule, which has the given text when copies are added. -/
def IsReread (text after prefixed : List Char) : Prop :=
  ∃ cs raw, ReadsTo (text ++ after) after cs ∧ isCanonical after = true ∧ IsRule cs raw ∧
    (SheetRule.ofRaw raw).prefixedText = .ok prefixed

/-- A block of declarations under its head. -/
theorem isReread_declarations {unprefixed : Bool} {head after : List Char} (hhead : IsBlockHead head)
    {ds : List FlatDeclaration} (h : ∀ d ∈ ds, d.IsTidy unprefixed)
    (hcanonical : isCanonical (blockText head (declarationsText ds) ++ after) = true) :
    IsReread (blockText head (declarationsText ds)) after
      (blockText head (declarationsText (ds.flatMap FlatDeclaration.withCopies))) := by
  have hsplit : blockText head (declarationsText ds) ++ after =
      head ++ '{' :: (declarationsText ds ++ '}' :: after) := by
    simp [blockText]
  -- Whatever the head is, its block is read in the same way once the head has been read.
  have hblock : isCanonical ('{' :: (declarationsText ds ++ '}' :: after)) = true →
      ∃ content, ReadsTo ('{' :: (declarationsText ds ++ '}' :: after)) after
          [.group (.bracket .curly) content] ∧ isCanonical after = true ∧
        prefixBody content = .ok (declarationsText (ds.flatMap FlatDeclaration.withCopies)) := by
    intro hopen
    obtain ⟨content, hreads, hclose, hbody⟩ := exists_declarations h
      (isCanonical_of_readToken hopen (readToken_open (b := .curly) _))
    exact ⟨content, readsTo_block hreads,
      isCanonical_of_readToken hclose (readToken_close (b := .curly) _), hbody⟩
  rw [hsplit] at hcanonical
  rcases hhead with hselectors | ⟨keyword, hkind, hhead⟩
  · obtain ⟨cs, hreads, hrenders, hopen⟩ := hselectors.isRead (by decide) hcanonical
    obtain ⟨content, hreadsBlock, hafter, hbody⟩ := hblock hopen
    refine ⟨_, _, hsplit ▸ hreads.trans hreadsBlock, hafter, isRule_style hrenders content, ?_⟩
    rw [SheetRule.ofRaw, SheetRule.prefixedText, minify_of_renders hselectors hrenders, Except.bind_ok, hbody,
      Except.bind_ok]
  · obtain ⟨prelude, hreads, hopen, hends, hhead⟩ := hhead.exists_prelude hcanonical
    obtain ⟨content, hreadsBlock, hafter, hbody⟩ := hblock hopen
    refine ⟨_, _, hsplit ▸ hreads.trans hreadsBlock, hafter, isRule_atRule hends keyword content, ?_⟩
    rw [SheetRule.ofRaw, if_pos hkind, SheetRule.prefixedText, hhead, Except.bind_ok, hbody, Except.bind_ok]

/-- Written rules in a row are read back as rules, which have the given text when copies are added. -/
def AreReread (text after prefixed : List Char) : Prop :=
  ∃ cs, ReadsTo (text ++ after) after cs ∧ isCanonical after = true ∧
    ∀ skip : Component → Bool, (∀ c, skip c = true → isSheetPadding c = true) →
      prefixedTexts ((rules skip cs).map SheetRule.ofRaw) = .ok prefixed

mutual

/-- A tidy rule is read back as one rule. -/
theorem FlatRule.isReread {unprefixed : Bool} {after : List Char} :
    ∀ rule : FlatRule, rule.IsTidy unprefixed → isCanonical (rule.text ++ after) = true →
      IsReread rule.text after rule.withCopies.text
  | .style selectors declarations, h, hcanonical => by
    rw [FlatRule.IsTidy] at h
    rw [FlatRule.text] at hcanonical ⊢
    rw [FlatRule.withCopies, FlatRule.text]
    exact isReread_declarations h.1 h.2 hcanonical
  | .atRule head inner, h, hcanonical => by
    rw [FlatRule.IsTidy] at h
    obtain ⟨⟨keyword, hkind, hhead⟩, hinner⟩ := h
    have hsplit : FlatRule.text (.atRule head inner) ++ after =
        head ++ '{' :: (rulesText inner ++ '}' :: after) := by
      simp [FlatRule.text, blockText]
    rw [hsplit] at hcanonical
    obtain ⟨prelude, hreads, hopen, hends, hhead⟩ := hhead.exists_prelude hcanonical
    obtain ⟨content, hreadsInner, hclose, htexts⟩ := areReread_rulesText inner hinner
      (isCanonical_of_readToken hopen (readToken_open (b := .curly) _))
    refine ⟨_, _, hsplit ▸ hreads.trans (readsTo_block hreadsInner),
      isCanonical_of_readToken hclose (readToken_close (b := .curly) _),
      isRule_atRule hends keyword content, ?_⟩
    have hrules : prefixedTexts ((ruleList content).map SheetRule.ofRaw) =
        .ok (rulesText (rulesWithCopies inner)) :=
      htexts _ fun c hc => by rw [isSheetPadding, hc]; rfl
    rw [SheetRule.ofRaw_nested prelude content hkind, SheetRule.prefixedText, hhead, Except.bind_ok, hrules,
      Except.bind_ok, FlatRule.withCopies, FlatRule.text]

/-- Tidy rules in a row are read back one by one. -/
theorem areReread_rulesText {unprefixed : Bool} {after : List Char} :
    ∀ flat : List FlatRule, FlatRule.AllTidy unprefixed flat →
      isCanonical (rulesText flat ++ after) = true →
      AreReread (rulesText flat) after (rulesText (rulesWithCopies flat))
  | [], _, hcanonical => by
    rw [rulesWithCopies]
    rw [rulesText] at hcanonical ⊢
    exact ⟨[], ReadsTo.refl _, hcanonical, fun skip _ => by rw [rules]; rfl⟩
  | rule :: flat, h, hcanonical => by
    rw [FlatRule.AllTidy] at h
    rw [rulesText, List.append_assoc] at hcanonical
    obtain ⟨cs, raw, hreads, hnext, hrule, htext⟩ := FlatRule.isReread rule h.1 hcanonical
    obtain ⟨ds, hreadsRest, hafter, htexts⟩ := areReread_rulesText flat h.2 hnext
    refine ⟨cs ++ ds, ?_, hafter, fun skip hskip => ?_⟩
    · rw [rulesText, List.append_assoc]
      exact hreads.trans hreadsRest
    · rw [hrule skip hskip, List.map_cons, prefixedTexts, htext, Except.bind_ok, htexts skip hskip,
        Except.bind_ok, rulesWithCopies, rulesText]

end

/-! ## Style sheets -/

/-- The head of an at-rule has nothing to normalize. -/
theorem IsAtHead.isNormal {keyword head : List Char} (h : IsAtHead keyword head) : IsNormal head := by
  obtain ⟨hkeyword, text, htext, rfl⟩ := h
  refine (hkeyword.isNormal.cons (by decide)).append ?_
  split
  · exact isNormal_nil
  · exact .cons (by decide) htext.not_mem_changed

/-- A block has nothing to normalize if its head and its body have not. -/
theorem isNormal_blockText {head body : List Char} (hhead : IsNormal head) (hbody : IsNormal body) :
    IsNormal (blockText head body) :=
  (hhead.append (hbody.cons (by decide))).append (isNormal_nil.cons (by decide))

mutual

/-- A tidy rule has nothing to normalize. -/
theorem FlatRule.IsTidy.isNormal {unprefixed : Bool} : ∀ rule : FlatRule, rule.IsTidy unprefixed →
    IsNormal rule.text
  | .style selectors declarations, h => by
    rw [FlatRule.IsTidy] at h
    rw [FlatRule.text]
    refine isNormal_blockText ?_ fun c hc => ?_
    · rcases h.1 with hselectors | ⟨keyword, -, hhead⟩
      · exact hselectors.not_mem_changed
      · exact hhead.isNormal
    · obtain ⟨d, hd, hc⟩ := List.mem_flatMap.1 hc
      exact (h.2 d hd).isNormal c hc
  | .atRule head rules, h => by
    rw [FlatRule.IsTidy] at h
    obtain ⟨⟨keyword, -, hhead⟩, hrules⟩ := h
    rw [FlatRule.text]
    exact isNormal_blockText hhead.isNormal (FlatRule.AllTidy.isNormal rules hrules)

/-- Tidy rules in a row have nothing to normalize. -/
theorem FlatRule.AllTidy.isNormal {unprefixed : Bool} : ∀ rules : List FlatRule,
    FlatRule.AllTidy unprefixed rules → IsNormal (rulesText rules)
  | [], _ => by
    rw [rulesText]
    exact isNormal_nil
  | rule :: rules, h => by
    rw [FlatRule.AllTidy] at h
    rw [rulesText]
    exact (FlatRule.IsTidy.isNormal rule h.1).append (FlatRule.AllTidy.isNormal rules h.2)

end

/-- A class marker that is no blank is a selector. -/
theorem isSelector_singleton {marker : Char} (hcode : 0x80 ≤ marker.toNat)
    (hblank : isBlank marker = false) : IsSelector [marker] := by
  have hordinary : isOrdinary marker = true := by
    refine isOrdinary_iff.2 ⟨hblank, fun hmem => ?_⟩
    have hascii : (['\x00', '"', '\'', '\\', '(', ')', '[', ']', '{', '}'].all
      fun c => decide (c.toNat < 0x80)) = true := by decide
    have hlow := of_decide_eq_true (List.all_eq_true.1 hascii marker hmem)
    omega
  have hbar : Site.selectors.bars marker = false := by
    refine beq_eq_false_iff_ne.2 ?_
    rintro rfl
    exact absurd hcode (by decide)
  exact ⟨.char hordinary hbar .nil, List.cons_ne_nil _ _⟩

/-- Canonical texts of tidy rules get the copies of their declarations, and nothing else changes. -/
theorem withVendorPrefixes_rulesText {unprefixed : Bool} {rules : List FlatRule}
    (h : FlatRule.AllTidy unprefixed rules) (hcanonical : isCanonical (rulesText rules) = true) :
    withVendorPrefixes (rulesText rules) = .ok (rulesText (rulesWithCopies rules)) := by
  obtain ⟨cs, hreads, -, htexts⟩ :=
    areReread_rulesText rules h (by rwa [List.append_nil])
  rw [List.append_nil] at hreads
  have hparse : Component.parse (rulesText rules) = cs := by
    rw [Component.parse, (FlatRule.AllTidy.isNormal rules h).normalize, hreads.ofTokens_scan]
  rw [withVendorPrefixes, hparse]
  exact htexts _ fun c hc => hc

/-- **Flat CSS without prefixed properties passes unchanged.** A template under a class marker whose
nesting tree is tidy and declares no property that needs a prefix: if the tokens of its flat text are
written as the printers write them then adding vendor prefixes gives the text back. -/
theorem withVendorPrefixes_flattenCss {marker : Char} (hcode : 0x80 ≤ marker.toNat)
    (hblank : isBlank marker = false) {css flat : List Char} {content : List Component}
    (hcontent : templateBody [marker] css = .ok content)
    (htidy : bodyIsTidy true (NestedRule.ofBody content) = true)
    (hplain : bodyIsUnprefixed (NestedRule.ofBody content) = true)
    (hflat : flattenCss [marker] css = .ok flat) (hcanonical : isCanonical flat = true) :
    withVendorPrefixes flat = .ok flat := by
  obtain ⟨rules, hrules, rfl⟩ := Except.map_eq_ok_iff.1 hflat
  have hall : FlatRule.AllTidy true rules := FlatRule.allTidy_iff.2 (tidy_flattenTemplate
    (isSelector_singleton hcode hblank) hcontent htidy (fun _ => hplain) hrules)
  rw [withVendorPrefixes_rulesText hall hcanonical, FlatRule.AllTidy.withCopies rules hall]

/-- A name that runs on from the marker, a group with spaces in it, a mark, and a condition around a
bare statement. -/
theorem withVendorPrefixes_flattenCss_nested :
    flattenCss ['æ'] "&-a\x7bb:c( d )!important\x7d@media p\x7be\x7d".toList =
        .ok "æ-a\x7bb:c(d)!important;\x7d@media p\x7bæ\x7be;\x7d\x7d".toList ∧
      withVendorPrefixes "æ-a\x7bb:c(d)!important;\x7d@media p\x7bæ\x7be;\x7d\x7d".toList =
        .ok "æ-a\x7bb:c(d)!important;\x7d@media p\x7bæ\x7be;\x7d\x7d".toList := by
  have hflat : flattenCss ['æ'] "&-a\x7bb:c( d )!important\x7d@media p\x7be\x7d".toList =
      .ok "æ-a\x7bb:c(d)!important;\x7d@media p\x7bæ\x7be;\x7d\x7d".toList := by cbv
  obtain ⟨content, hcontent, htree⟩ : ∃ content,
      templateBody ['æ'] "&-a\x7bb:c( d )!important\x7d@media p\x7be\x7d".toList = .ok content ∧
        NestedRule.ofBody content =
          [.rule [.atom (.literal ['&']), .atom (.ident ['-', 'a'])]
            [.declaration ⟨['b'], [.group (.function ['c'])
              [.atom (.space [' ']), .atom (.ident ['d']), .atom (.space [' '])]], true⟩],
            .atRule .conditional "media".toList [.atom (.space [' ']), .atom (.ident ['p'])]
              [.bare ['e']]] :=
    ⟨_, by cbv, by cbv⟩
  refine ⟨hflat, withVendorPrefixes_flattenCss (by decide) (by decide) hcontent ?_ ?_ hflat (by cbv)⟩
  · rw [htree]
    decide
  · rw [htree]
    decide

/-- A class name that starts with a digit, a custom property whose value is a block, and a bare name with
an escape: a tidy tree, and a canonical text. -/
example :
    (∃ content, templateBody ['æ'] ".\\31 0\x7b--x: \x7ba:b ; c\x7d;\\31 \x7d".toList = .ok content ∧
      bodyIsTidy true (NestedRule.ofBody content) = true) ∧
    flattenCss ['æ'] ".\\31 0\x7b--x: \x7ba:b ; c\x7d;\\31 \x7d".toList =
      .ok "æ .\\31 0\x7b--x:\x7ba:b ; c\x7d;\\31 ;\x7d".toList ∧
    isCanonical "æ .\\31 0\x7b--x:\x7ba:b ; c\x7d;\\31 ;\x7d".toList = true := by
  obtain ⟨content, hcontent, htree⟩ : ∃ content,
      templateBody ['æ'] ".\\31 0\x7b--x: \x7ba:b ; c\x7d;\\31 \x7d".toList = .ok content ∧
        NestedRule.ofBody content =
          [.rule [.atom (.literal ['.']), .atom (.ident ['1', '0'])]
            [.declaration ⟨['-', '-', 'x'], [.atom (.space [' ']), .group (.bracket .curly)
              [.atom (.ident ['a']), .atom (.literal [':']), .atom (.ident ['b']), .atom (.space [' ']),
                .atom (.literal [';']), .atom (.space [' ']), .atom (.ident ['c'])]], false⟩,
              .bare ['1']]] :=
    ⟨_, by cbv, by cbv⟩
  refine ⟨⟨content, hcontent, ?_⟩, by cbv, by cbv⟩
  rw [htree]
  decide

/-- An element `u` before a sibling `b`, written under the other, is read as a Unicode range. The tree is
tidy and needs no prefixes, but the text is not canonical, and it changes. -/
theorem withVendorPrefixes_respells :
    flattenCss ['æ'] "u\x7b&+b\x7bcolor:red\x7d\x7d".toList = .ok "æ u+b\x7bcolor:red;\x7d".toList ∧
      (∃ content, templateBody ['æ'] "u\x7b&+b\x7bcolor:red\x7d\x7d".toList = .ok content ∧
        bodyIsTidy true (NestedRule.ofBody content) = true ∧
        bodyIsUnprefixed (NestedRule.ofBody content) = true) ∧
      withVendorPrefixes "æ u+b\x7bcolor:red;\x7d".toList = .ok "æ U+B\x7bcolor:red;\x7d".toList := by
  obtain ⟨content, hcontent, htree⟩ : ∃ content,
      templateBody ['æ'] "u\x7b&+b\x7bcolor:red\x7d\x7d".toList = .ok content ∧
        NestedRule.ofBody content =
          [.rule [.atom (.ident ['u'])]
            [.rule [.atom (.literal ['&']), .atom (.literal ['+']), .atom (.ident ['b'])]
              [.declaration ⟨['c', 'o', 'l', 'o', 'r'], [.atom (.ident ['r', 'e', 'd'])], false⟩]]] :=
    ⟨_, by cbv, by cbv⟩
  refine ⟨by cbv, ⟨content, hcontent, ?_, ?_⟩, by cbv⟩
  · rw [htree]
    decide
  · rw [htree]
    decide

end CssTemplate.Css
