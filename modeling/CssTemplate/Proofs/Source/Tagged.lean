import CssTemplate.Proofs.Except
import CssTemplate.Proofs.Source.Reader
import CssTemplate.Source.Tagged

/-!
# What a tagged template denotes

The source of a tagged template, taken apart by the grammar, is a tag, a backquote, raw texts with
substitutions between them (`RawTemplate`), and a backquote (`Decomposes`). `read_iff_decomposes`
says that reading succeeds exactly on the sources that can be taken apart so, that the result is
what the parts denote, and that no source can be taken apart in two ways.

On the way from the parts of the reader to the template, blank expressions are found:
`partsFit_nonBlank_iff` says that none is found exactly where no expression of the tree is blank,
at any depth.
-/

namespace CssTemplate

/-! ## Blank texts -/

/-- A text with something other than white space in it. -/
def NonBlank (text : List Char) : Prop :=
  isBlankText text = false

/-- Two texts are blank together if both are. -/
theorem isBlankText_append (text more : List Char) :
    isBlankText (text ++ more) = (isBlankText text && isBlankText more) :=
  List.all_append

/-- Trimming takes nothing but blanks away. -/
theorem isBlankText_trim (text : List Char) : isBlankText (trim text) = isBlankText text := by
  obtain ⟨tail, htail, hblank⟩ := exists_trimEnd_append isBlank (text.dropWhile isBlank)
  have hfront : isBlankText (text.takeWhile isBlank) = true := List.all_takeWhile
  have hback : isBlankText tail = true := List.all_eq_true.2 hblank
  calc isBlankText (trim text)
      = (isBlankText (text.takeWhile isBlank) &&
          (isBlankText (trim text) && isBlankText tail)) := by
        rw [hfront, hback, Bool.true_and, Bool.and_true]
    _ = isBlankText (text.takeWhile isBlank ++ text.dropWhile isBlank) := by
        rw [← isBlankText_append, ← isBlankText_append, htail]
        rfl
    _ = isBlankText text := by rw [List.takeWhile_append_dropWhile]

mutual

/-- No blank expression is found in a part exactly when none of its expressions is blank. -/
theorem SourcePart.fits_nonBlank_iff (offset : Nat) : ∀ {part : SourcePart},
    part.Fits NonBlank ↔ part.Fits AnyNode ∧ part.blankAt? offset = none
  | .chunk raw => by simp [SourcePart.Fits, SourcePart.blankAt?]
  | .substitution body => by
      rw [SourcePart.Fits, SourcePart.Fits, SourcePart.blankAt?,
        itemsFit_nonBlank_iff (offset + 2)]
      by_cases hblank : isBlankText (itemsText body) = true <;>
        simp [NonBlank, AnyNode, hblank, and_assoc]

/-- No blank expression is found in an item exactly when none of its expressions is blank. -/
theorem SourceItem.fits_nonBlank_iff (offset : Nat) : ∀ {item : SourceItem},
    item.Fits NonBlank ↔ item.Fits AnyNode ∧ item.blankAt? offset = none
  | .text text => by simp [SourceItem.Fits, SourceItem.blankAt?]
  | .quoted quote content => by simp [SourceItem.Fits, SourceItem.blankAt?]
  | .braces [] => by simp [SourceItem.Fits, SourceItem.blankAt?, ItemsFit]
  | .braces (item :: items) => by
      rw [SourceItem.Fits, SourceItem.Fits, SourceItem.blankAt?,
        itemsFit_nonBlank_iff (offset + 1)]
      by_cases hblank : isBlankText (itemsText (item :: items)) = true <;>
        simp [NonBlank, AnyNode, hblank, and_assoc]
  | .template parts => by
      rw [SourceItem.Fits, SourceItem.Fits, SourceItem.blankAt?,
        partsFit_nonBlank_iff (offset + 1), and_assoc]

/-- No blank expression is found in parts exactly when none of their expressions is blank. -/
theorem partsFit_nonBlank_iff (offset : Nat) : ∀ {parts : List SourcePart},
    PartsFit NonBlank parts ↔ PartsFit AnyNode parts ∧ partsBlankAt? offset parts = none
  | [] => by simp [PartsFit, partsBlankAt?]
  | part :: parts => by
      rw [PartsFit, PartsFit, partsBlankAt?, SourcePart.fits_nonBlank_iff offset,
        partsFit_nonBlank_iff (offset + part.text.length)]
      cases part.blankAt? offset <;> simp [and_assoc]

/-- No blank expression is found in items exactly when none of their expressions is blank. -/
theorem itemsFit_nonBlank_iff (offset : Nat) : ∀ {items : List SourceItem},
    ItemsFit NonBlank items ↔ ItemsFit AnyNode items ∧ itemsBlankAt? offset items = none
  | [] => by simp [ItemsFit, itemsBlankAt?]
  | item :: items => by
      rw [ItemsFit, ItemsFit, itemsBlankAt?, SourceItem.fits_nonBlank_iff offset,
        itemsFit_nonBlank_iff (offset + item.source.length)]
      cases item.blankAt? offset <;> simp [and_assoc]

end

/-! ## Templates taken apart -/

/-- The source of an expression, and the raw text after its closing brace. -/
structure RawSpan where
  expression : List Char
  literal : List Char

/-- A raw text and the spans after it. -/
structure RawTemplate where
  head : List Char
  spans : List RawSpan

/-- The source of a span. -/
def RawSpan.text (s : RawSpan) : List Char :=
  '$' :: '{' :: (s.expression ++ '}' :: s.literal)

/-- The source of a template, without its backquotes. -/
def RawTemplate.text (t : RawTemplate) : List Char :=
  t.head ++ t.spans.flatMap RawSpan.text

/-- The expression is one of the grammar without a blank expression at any depth, and the text
after it is a raw text. -/
structure RawSpan.Valid (s : RawSpan) : Prop where
  derives : Derives NonBlank .expression s.expression
  nonBlank : NonBlank s.expression
  literal : RawText s.literal

/-- The first text is a raw text, and every span is valid. -/
structure RawTemplate.Valid (t : RawTemplate) : Prop where
  head : RawText t.head
  spans : ∀ span ∈ t.spans, span.Valid

/-- The template has the literals with their escapes resolved, and the expressions without blanks
at their ends. -/
structure RawTemplate.Denotes (raw : RawTemplate) (t : Template) : Prop where
  head : t.head = resolveEscapes raw.head
  spans : t.spans.map (fun span => (span.expression.text, span.literal)) =
    raw.spans.map fun span => (trim span.expression, resolveEscapes span.literal)

/-- The parts of a template, taken apart. -/
def rawTemplate : List SourcePart → RawTemplate
  | [] => ⟨[], []⟩
  | .chunk raw :: parts => ⟨raw ++ (rawTemplate parts).head, (rawTemplate parts).spans⟩
  | .substitution body :: parts =>
    ⟨[], ⟨itemsText body, (rawTemplate parts).head⟩ :: (rawTemplate parts).spans⟩

section

variable {parts : List SourcePart} {raw : RawTemplate}

/-- Taking parts apart keeps their source. -/
theorem text_rawTemplate (parts : List SourcePart) :
    (rawTemplate parts).text = partsText parts := by
  induction parts with
  | nil => rfl
  | cons part parts ih =>
    rw [partsText, ← ih]
    cases part with
    | chunk raw => exact List.append_assoc _ _ _
    | substitution body =>
      simp [rawTemplate, RawTemplate.text, RawSpan.text, SourcePart.text]

/-- Parts that do not start with a chunk start with the empty text. -/
theorem head_rawTemplate (h : ∀ part ∈ parts.head?, part.isChunk = false) :
    (rawTemplate parts).head = [] := by
  cases parts with
  | nil => rfl
  | cons part parts =>
    cases part with
    | chunk raw => exact nomatch h _ rfl
    | substitution body => rfl

/-- Fitting parts are valid when taken apart. -/
theorem valid_rawTemplate (hfit : PartsFit NonBlank parts)
    (hapart : Apart SourcePart.isChunk parts) : (rawTemplate parts).Valid := by
  induction parts with
  | nil => exact ⟨.nil, nofun⟩
  | cons part parts ih =>
    obtain ⟨hpart, hparts⟩ := hfit
    obtain ⟨hnext, hrest⟩ := apart_cons.1 hapart
    obtain ⟨hhead, hspans⟩ := ih hparts hrest
    cases part with
    | chunk raw =>
      refine ⟨?_, hspans⟩
      show RawText (raw ++ (rawTemplate parts).head)
      rw [head_rawTemplate (hnext rfl), List.append_nil]
      exact hpart.2
    | substitution body =>
      obtain ⟨hne, hnode, _, hbody⟩ := hpart
      refine ⟨.nil, fun span hspan => ?_⟩
      rcases List.mem_cons.1 hspan with rfl | hspan
      · exact ⟨derives_items hbody hne, hnode, hhead⟩
      · exact hspans span hspan

/-- Taking parts apart with a raw text in front of them. -/
theorem rawTemplate_consChunk (text : List Char) (parts : List SourcePart) :
    rawTemplate (consChunk text parts) =
      ⟨text ++ (rawTemplate parts).head, (rawTemplate parts).spans⟩ := by
  unfold consChunk
  split
  · next h => rw [h, List.nil_append]
  · rfl

/-- Every valid template comes from fitting parts. -/
theorem exists_rawTemplate (h : raw.Valid) : ∃ parts, PartsFit NonBlank parts ∧
    Apart SourcePart.isChunk parts ∧ rawTemplate parts = raw := by
  obtain ⟨head, spans⟩ := raw
  obtain ⟨hhead, hspans⟩ := h
  induction spans generalizing head with
  | nil =>
    refine ⟨consChunk head [], partsFit_consChunk hhead trivial,
      apart_consChunk_nil head, ?_⟩
    rw [rawTemplate_consChunk, rawTemplate, List.append_nil]
  | cons span spans ih =>
    obtain ⟨hexpression, hnonBlank, hliteral⟩ := hspans span (.head _)
    obtain ⟨items, hne, hitems, hitemsApart, htext⟩ := hexpression.hasTree
    obtain ⟨parts, hparts, hpartsApart, hraw⟩ := ih span.literal hliteral fun more hmore =>
      hspans more (.tail _ hmore)
    refine ⟨consChunk head (.substitution items :: parts), ?_, ?_, ?_⟩
    · refine partsFit_consChunk hhead ⟨⟨hne, ?_, hitemsApart, hitems⟩, hparts⟩
      rw [htext]
      exact hnonBlank
    · exact apart_consChunk_substitution head items hpartsApart
    · rw [rawTemplate_consChunk, rawTemplate, hraw, htext, List.append_nil]

/-- A source taken apart denotes one template at most. -/
theorem RawTemplate.Denotes.unique {t t' : Template} (h : raw.Denotes t) (h' : raw.Denotes t') :
    t = t' := by
  obtain ⟨head, spans⟩ := t
  obtain ⟨head', spans'⟩ := t'
  have hspans : spans = spans' := by
    refine List.map_injective_iff.2 ?_ (h.spans.trans h'.spans.symm)
    rintro ⟨e, literal⟩ ⟨e', literal'⟩ heq
    obtain ⟨htext, hliteral⟩ := Prod.mk.inj heq
    obtain rfl : e = e' := Expression.ext htext
    obtain rfl : literal = literal' := hliteral
    rfl
  rw [hspans, show head = head' from h.head.trans h'.head.symm]

/-- A text that is not blank gives an expression when it is trimmed. -/
theorem exists_ofText?_trim {text : List Char} (h : NonBlank text) :
    ∃ e, Expression.ofText? (trim text) = some e ∧ e.text = trim text :=
  ⟨⟨trim text, (isBlankText_trim text).trans h⟩, Expression.ofText?_eq_some.2 rfl, rfl⟩

/-- Fitting parts without blank expressions give the template that they denote. -/
theorem exists_partsTemplate (hfit : PartsFit NonBlank parts)
    (hapart : Apart SourcePart.isChunk parts) (offset : Nat) :
    ∃ t, partsTemplate offset parts = .ok t ∧ (rawTemplate parts).Denotes t := by
  induction parts generalizing offset with
  | nil => exact ⟨⟨[], []⟩, rfl, rfl, rfl⟩
  | cons part parts ih =>
    obtain ⟨hpart, hparts⟩ := hfit
    obtain ⟨hnext, hrest⟩ := apart_cons.1 hapart
    cases part with
    | chunk raw =>
      obtain ⟨t, ht, hhead, hspans⟩ := ih hparts hrest (offset + raw.length)
      rw [head_rawTemplate (hnext rfl)] at hhead
      refine ⟨⟨resolveEscapes raw ++ t.head, t.spans⟩, ?_, ?_, hspans⟩
      · rw [partsTemplate, ht, Except.bind_ok]
      · show resolveEscapes raw ++ t.head = resolveEscapes (raw ++ (rawTemplate parts).head)
        rw [head_rawTemplate (hnext rfl), hhead]
        exact (List.append_nil _).trans (congrArg _ (List.append_nil _).symm)
    | substitution body =>
      obtain ⟨hne, hnode, _, hbody⟩ := hpart
      obtain ⟨t, ht, hhead, hspans⟩ :=
        ih hparts hrest (offset + (itemsText body).length + 3)
      obtain ⟨e, he, htext⟩ := exists_ofText?_trim hnode
      refine ⟨⟨[], ⟨e, t.head⟩ :: t.spans⟩, ?_, rfl, ?_⟩
      · rw [partsTemplate, he, ((itemsFit_nonBlank_iff (offset + 2)).1 hbody).2]
        simp only
        rw [ht, Except.bind_ok]
      · show (e.text, t.head) :: _ = (trim (itemsText body), _) :: _
        rw [htext, hhead, hspans]

/-- Parts that give a template have no blank expression. -/
theorem partsFit_of_partsTemplate {offset : Nat} {t : Template} (hfit : PartsFit AnyNode parts)
    (h : partsTemplate offset parts = .ok t) : PartsFit NonBlank parts := by
  induction parts generalizing offset t with
  | nil => trivial
  | cons part parts ih =>
    obtain ⟨hpart, hparts⟩ := hfit
    cases part with
    | chunk raw =>
      rw [partsTemplate, Except.bind_eq_ok_iff] at h
      obtain ⟨t', ht', _⟩ := h
      exact ⟨hpart, ih hparts ht'⟩
    | substitution body =>
      obtain ⟨hne, _, hbodyApart, hbody⟩ := hpart
      rw [partsTemplate] at h
      split at h
      · cases h
      · cases h
      · next e he hblank =>
        rw [Except.bind_eq_ok_iff] at h
        obtain ⟨t', ht', _⟩ := h
        have hnode : NonBlank (itemsText body) := by
          rw [NonBlank, ← isBlankText_trim, ← Expression.ofText?_eq_some.1 he]
          exact e.not_blank
        have hitems : ItemsFit NonBlank body := (itemsFit_nonBlank_iff _).2 ⟨hbody, hblank⟩
        exact ⟨⟨hne, hnode, hbodyApart, hitems⟩, ih hparts ht'⟩

end

/-! ## Tagged templates -/

/-- A source is a tag without backquotes and the source of a valid template between backquotes. -/
structure Decomposes (source tag : List Char) (raw : RawTemplate) : Prop where
  not_mem : backquote ∉ tag
  valid : raw.Valid
  source_eq : source = tag ++ backquote :: (raw.text ++ [backquote])

/-- A source is cut at its first backquote. -/
theorem cut_at_backquote {tag body : List Char} (h : backquote ∉ tag) :
    (tag ++ backquote :: body).takeWhile (· != backquote) = tag ∧
      (tag ++ backquote :: body).dropWhile (· != backquote) = backquote :: body := by
  have htag : ∀ c ∈ tag, (c != backquote) = true := fun c hc =>
    bne_iff_ne.2 fun heq => h (heq ▸ hc)
  refine takeWhile_dropWhile_append htag ?_
  rintro c ⟨⟩
  exact bne_self_eq_false _

section

variable {source tag tag' : List Char} {raw raw' : RawTemplate} {tagged : Tagged}

/-- A source that can be taken apart is read from parts that are the same when taken apart. -/
theorem Decomposes.exists_parts (h : Decomposes source tag raw) (last : List Char) :
    ∃ parts, PartsFit NonBlank parts ∧ Apart SourcePart.isChunk parts ∧ rawTemplate parts = raw ∧
      readParts (.inTemplate [] .top) last (raw.text ++ [backquote]) = .ok (parts, []) := by
  obtain ⟨parts, hfit, hapart, rfl⟩ := exists_rawTemplate h.valid
  refine ⟨parts, hfit, hapart, rfl, ?_⟩
  rw [readParts_eq_ok_iff, text_rawTemplate]
  exact ⟨((partsFit_nonBlank_iff 0).1 hfit).1, hapart, rfl⟩

/-- A source that can be taken apart is read, and gives what its parts denote. -/
theorem Decomposes.readTagged (h : Decomposes source tag raw) :
    ∃ t, readTagged source = .ok ⟨tagOf tag, t⟩ ∧ raw.Denotes t := by
  obtain ⟨parts, hfit, hapart, hraw, hread⟩ :=
    h.exists_parts (backquote :: (raw.text ++ [backquote]))
  obtain ⟨t, ht, hdenotes⟩ := exists_partsTemplate hfit hapart (tag.length + 1)
  obtain ⟨htake, hdrop⟩ := cut_at_backquote h.not_mem
  refine ⟨t, ?_, hraw ▸ hdenotes⟩
  rw [CssTemplate.readTagged, h.source_eq, htake, hdrop]
  simp only [hread, ht]
  rfl

/-- A source that is read can be taken apart. -/
theorem exists_decomposes :
    readTagged source = .ok tagged → ∃ tag raw, Decomposes source tag raw := by
  fun_cases readTagged source with
  | case4 tag first body hcut parts rest hread hrest t ht =>
    intro _
    obtain ⟨hany, hapart, hbody⟩ := readParts_eq_ok_iff.1 hread
    have hfit := partsFit_of_partsTemplate hany ht
    have htag : ∀ c ∈ tag, (c != backquote) = true := fun c hc =>
      List.all_eq_true.1 List.all_takeWhile c hc
    have hfirst : (first != backquote) = false :=
      of_mem_head?_dropWhile first (congrArg List.head? hcut)
    refine ⟨tag, rawTemplate parts, fun hmem => bne_iff_ne.1 (htag _ hmem) rfl,
      valid_rawTemplate hfit hapart, ?_⟩
    calc source = tag ++ first :: body := by rw [← hcut, List.takeWhile_append_dropWhile]
      _ = _ := by
        rw [bne_eq_false_iff_eq.1 hfirst, hbody, List.isEmpty_iff.1 hrest, text_rawTemplate]
  | _ => nofun

/-- A source can be taken apart in one way at most. -/
theorem Decomposes.unique (h : Decomposes source tag raw) (h' : Decomposes source tag' raw') :
    tag = tag' ∧ raw = raw' := by
  have heq := h.source_eq.symm.trans h'.source_eq
  -- both cuts are at the first backquote, and the reader gives one sequence of parts
  obtain ⟨htake, hdrop⟩ := cut_at_backquote h.not_mem
  obtain ⟨htake', hdrop'⟩ := cut_at_backquote h'.not_mem
  rw [heq] at htake hdrop
  have hbody := (List.cons.inj (hdrop.symm.trans hdrop')).2
  obtain ⟨parts, _, _, hraw, hread⟩ := h.exists_parts []
  obtain ⟨parts', _, _, hraw', hread'⟩ := h'.exists_parts []
  rw [hbody, hread'] at hread
  cases hread
  exact ⟨htake.symm.trans htake', hraw.symm.trans hraw'⟩

end

/-- **Reading a tagged template.** Without its trailer, a source that is read is a tag and a
template of the grammar in which no expression is blank, and reading gives what these denote. Every
such source is read, and it can be taken apart in one way only. -/
theorem read_iff_decomposes (source : List Char) :
    (∀ tagged, Tagged.read source = .ok tagged ↔
      ∃ tag raw, Decomposes (trimEnd isTrailer source) tag raw ∧
        tagged.tag = (if trim tag = [] then none else some (trim tag)) ∧
        raw.Denotes tagged.template) ∧
    (∀ tag raw, Decomposes (trimEnd isTrailer source) tag raw →
      ∃ tagged, Tagged.read source = .ok tagged) ∧
    (∀ tag raw tag' raw', Decomposes (trimEnd isTrailer source) tag raw →
      Decomposes (trimEnd isTrailer source) tag' raw' → tag = tag' ∧ raw = raw') := by
  have htagOf : ∀ tag, tagOf tag = if trim tag = [] then none else some (trim tag) := by
    intro tag
    simp only [tagOf, List.isEmpty_iff]
  refine ⟨fun tagged => ⟨fun h => ?_, ?_⟩, fun tag raw h => ?_, fun _ _ _ _ h h' => h.unique h'⟩
  · obtain ⟨tag, raw, hsource⟩ := exists_decomposes h
    obtain ⟨t, ht, hdenotes⟩ := hsource.readTagged
    rw [Tagged.read, ht] at h
    cases h
    exact ⟨tag, raw, hsource, htagOf tag, hdenotes⟩
  · rintro ⟨tag, raw, hsource, htag, hdenotes⟩
    obtain ⟨t, ht, hdenotes'⟩ := hsource.readTagged
    obtain ⟨tag', t'⟩ := tagged
    obtain rfl : t' = t := hdenotes.unique hdenotes'
    rw [Tagged.read, ht, htagOf, ← htag]
  · obtain ⟨t, ht, _⟩ := h.readTagged
    exact ⟨_, ht⟩

/-- A lone dollar sign, an empty pair of braces with blanks around it, and an escaped backquote. -/
theorem read_iff_decomposes_braces :
    Decomposes
      (trimEnd isTrailer ['t', ' ', backquote, '$', '5', '$', '{', ' ', '{', '}', ' ', '}', '\\',
        backquote, backquote, ';'])
      ['t', ' '] ⟨['$', '5'], [⟨[' ', '{', '}', ' '], ['\\', backquote]⟩]⟩ ∧
    Tagged.read ['t', ' ', backquote, '$', '5', '$', '{', ' ', '{', '}', ' ', '}', '\\',
        backquote, backquote, ';'] =
      .ok ⟨some ['t'], ['$', '5'], [⟨⟨['{', '}'], rfl⟩, [backquote]⟩]⟩ := by
  have hblank : PlainText [' '] := ⟨List.cons_ne_nil _ _, List.all_eq_true.1 rfl⟩
  have hexpression : Derives NonBlank .expression ([' '] ++ (['{', '}'] ++ [' '])) :=
    .more (.text hblank) (.more .emptyBraces (.last (.text hblank)))
  have hhead : RawText ['$', '5'] :=
    .dollar (by decide) (.plain (by decide) (by decide) (by decide) .nil)
  have hspan : RawSpan.Valid ⟨[' ', '{', '}', ' '], ['\\', backquote]⟩ :=
    ⟨hexpression, rfl, .escape backquote .nil⟩
  have hsource : Decomposes
      (trimEnd isTrailer ['t', ' ', backquote, '$', '5', '$', '{', ' ', '{', '}', ' ', '}', '\\',
        backquote, backquote, ';'])
      ['t', ' '] ⟨['$', '5'], [⟨[' ', '{', '}', ' '], ['\\', backquote]⟩]⟩ :=
    ⟨by decide, ⟨hhead, by simpa using hspan⟩, rfl⟩
  exact ⟨hsource, ((read_iff_decomposes _).1 _).2 ⟨_, _, hsource, rfl, rfl, rfl⟩⟩

end CssTemplate
