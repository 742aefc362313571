import CssTemplate.Proofs.Source.Grammar
import CssTemplate.Proofs.Text.Trimmed

/-!
# One lexeme of the reader

Chunks and texts are the longest ones of their kind: `spanChunk_spec` and `spanChunk_append` say
what a chunk holds and where it ends, `takeWhile_dropWhile_append` the same of a text, and
`spanQuoted?_eq_some_iff` of a string. One lexeme is then inverted once: `ReaderState.Advances`
lists what the reader can do at a place (`step_eq_next_iff`), and `step_eq_done_iff` says where it
is done.
-/

namespace CssTemplate

/-! ## Lexemes -/

/-- A chunk cannot go on here. -/
def ChunkEnds (text : List Char) : Prop :=
  (spanChunk text).1 = []

/-- A text of an expression cannot go on here. -/
def TextEnds (text : List Char) : Prop :=
  ∀ c ∈ text.head?, isExpressionText c = false

/-- A chunk ends before a backquote. -/
theorem ChunkEnds.backquote (rest : List Char) : ChunkEnds (backquote :: rest) := by
  simp [ChunkEnds, spanChunk, CssTemplate.backquote]

/-- A chunk ends before a substitution. -/
theorem ChunkEnds.substitution (rest : List Char) : ChunkEnds ('$' :: '{' :: rest) := by
  simp [ChunkEnds, spanChunk]

/-- The text of an expression ends before a brace. -/
theorem TextEnds.brace (rest : List Char) : TextEnds ('}' :: rest) := by
  rintro c ⟨⟩
  rfl

/-- Where a chunk cannot go on, there is none. -/
theorem spanChunk_of_ends {text : List Char} (h : ChunkEnds text) :
    spanChunk text = ([], text) := by
  unfold ChunkEnds at h
  fun_cases spanChunk text <;> simp_all [spanChunk]

/-- A character that stands for itself, or a dollar sign without a brace, goes to the chunk. -/
theorem spanChunk_cons {c : Char} {rest : List Char} (hbackquote : c ≠ backquote)
    (hbackslash : c ≠ '\\') (hopen : c = '$' → rest.head? ≠ some '{') :
    spanChunk (c :: rest) = (c :: (spanChunk rest).1, (spanChunk rest).2) := by
  rw [spanChunk, if_neg hbackquote]
  · exact fun h => absurd h hbackslash
  · exact fun _ _ h => absurd h hbackslash
  · rintro more hdollar rfl
    exact hopen hdollar rfl

/-- A chunk does not end in front of a brace. -/
theorem ChunkEnds.head?_ne {text : List Char} (h : ChunkEnds text) : text.head? ≠ some '{' := by
  intro hbrace
  obtain ⟨rest, rfl⟩ := List.head?_eq_some_iff.1 hbrace
  rw [ChunkEnds, spanChunk_cons (by decide) (by decide) (fun h => absurd h (by decide))] at h
  exact nomatch h

/-- The longest chunk is a raw text, and it cannot go on. -/
theorem spanChunk_spec (text : List Char) : RawText (spanChunk text).1 ∧
    text = (spanChunk text).1 ++ (spanChunk text).2 ∧ ChunkEnds (spanChunk text).2 := by
  fun_induction spanChunk text with
  | case1 => exact ⟨.nil, rfl, rfl⟩
  | case2 => exact ⟨.nil, rfl, rfl⟩
  | case3 c rest _ ih =>
    obtain ⟨hraw, htext, hends⟩ := ih
    exact ⟨.escape c hraw, congrArg ('\\' :: c :: ·) htext, hends⟩
  | case4 rest => exact ⟨.nil, rfl, .substitution rest⟩
  | case5 rest => exact ⟨.nil, rfl, .backquote rest⟩
  | case6 c rest hlast hescape hopen hbackquote _ ih =>
    obtain ⟨hraw, htext, hends⟩ := ih
    refine ⟨?_, congrArg (c :: ·) htext, hends⟩
    have hbackslash : c ≠ '\\' := by
      intro hc
      cases rest with
      | nil => exact hlast hc rfl
      | cons d rest => exact hescape d rest hc rfl
    by_cases hdollar : c = '$'
    · rw [hdollar]
      refine .dollar (fun hbrace => ?_) hraw
      -- a brace at the start of the chunk is one at the start of the rest
      obtain ⟨more, hmore⟩ := List.head?_eq_some_iff.1 hbrace
      rw [hmore] at htext
      exact hopen _ hdollar htext
    · exact .plain hbackquote hdollar hbackslash hraw

/-- A raw text in front of a place where chunks end is the longest chunk. -/
theorem spanChunk_append {raw rest : List Char} (hraw : RawText raw) (hends : ChunkEnds rest) :
    spanChunk (raw ++ rest) = (raw, rest) := by
  induction hraw with
  | nil => exact spanChunk_of_ends hends
  | plain hbackquote hdollar hbackslash _ ih =>
    rw [List.cons_append, spanChunk_cons hbackquote hbackslash fun h => absurd h hdollar, ih]
  | escape c _ ih => rw [List.cons_append, List.cons_append, spanChunk, ih]
  | @dollar more hbrace _ ih =>
    rw [List.cons_append, spanChunk_cons (by decide) (by decide) fun _ => ?_, ih]
    cases more with
    | nil => exact hends.head?_ne
    | cons c more => exact hbrace

/-- The content of a string, and the rest after its quote. -/
theorem spanQuoted?_eq_some_iff {quote : Char} {text content rest : List Char}
    (hquote : IsQuote quote) : spanQuoted? quote text = some (content, rest) ↔
      QuotedText quote content ∧ text = content ++ quote :: rest := by
  constructor
  · intro h
    fun_induction spanQuoted? quote text generalizing content with
    | case1 => cases h
    | case2 => cases h
    | case3 c after hline ih =>
      obtain ⟨⟨content', rest'⟩, hs, heq⟩ := Option.map_eq_some_iff.1 h
      cases heq
      obtain ⟨hcontent, rfl⟩ := ih hs
      exact ⟨.escape hline hcontent, rfl⟩
    | case4 => cases h; exact ⟨.nil, rfl⟩
    | case5 => cases h
    | case6 c after _ hc hstop ih =>
      obtain ⟨⟨content', rest'⟩, hs, heq⟩ := Option.map_eq_some_iff.1 h
      cases heq
      obtain ⟨hcontent, rfl⟩ := ih hs
      simp only [Bool.or_eq_true, decide_eq_true_eq, not_or] at hstop
      exact ⟨.plain hc hstop.2 hstop.1 hcontent, rfl⟩
  · rintro ⟨hcontent, rfl⟩
    induction hcontent with
    | nil => rcases hquote with rfl | rfl <;> simp [spanQuoted?]
    | plain hc hbackslash hline _ ih =>
      rw [List.cons_append, spanQuoted?]
      · simp [hc, hbackslash, hline, ih]
      · simp_all
    | escape hline _ ih =>
      rw [List.cons_append, List.cons_append, spanQuoted?, if_neg hline, ih]
      rfl

/-! ## One lexeme -/

/-- What one lexeme does: the reader goes from a place with some text ahead to another place
with less text ahead. -/
inductive ReaderState.Advances : ReaderState → List Char → ReaderState → List Char → Prop
  | openSubstitution (before : List SourcePart) (around : TemplateHole) (rest : List Char) :
      Advances (.inTemplate before around) ('$' :: '{' :: rest)
        (.inExpression [] (.substitution before around)) rest
  | closeTemplate (before : List SourcePart) (items : List SourceItem) (around : ExpressionHole)
      (rest : List Char) :
      Advances (.inTemplate before (.inside items around)) (backquote :: rest)
        (.inExpression (.template before.reverse :: items) around) rest
  | chunk (before : List SourcePart) (around : TemplateHole) {raw rest : List Char}
      (hne : raw ≠ []) (hraw : RawText raw) (hends : ChunkEnds rest) :
      Advances (.inTemplate before around) (raw ++ rest)
        (.inTemplate (.chunk raw :: before) around) rest
  | openBraces (before : List SourceItem) (around : ExpressionHole) (rest : List Char) :
      Advances (.inExpression before around) ('{' :: rest)
        (.inExpression [] (.braces before around)) rest
  | closeSubstitution {before : List SourceItem} (hne : before ≠ []) (parts : List SourcePart)
      (around : TemplateHole) (rest : List Char) :
      Advances (.inExpression before (.substitution parts around)) ('}' :: rest)
        (.inTemplate (.substitution before.reverse :: parts) around) rest
  | closeBraces (before items : List SourceItem) (around : ExpressionHole) (rest : List Char) :
      Advances (.inExpression before (.braces items around)) ('}' :: rest)
        (.inExpression (.braces before.reverse :: items) around) rest
  | openTemplate (before : List SourceItem) (around : ExpressionHole) (rest : List Char) :
      Advances (.inExpression before around) (backquote :: rest)
        (.inTemplate [] (.inside before around)) rest
  | quoted (before : List SourceItem) (around : ExpressionHole) {quote : Char}
      {content : List Char} (hquote : IsQuote quote) (hcontent : QuotedText quote content)
      (rest : List Char) :
      Advances (.inExpression before around) (quote :: (content ++ quote :: rest))
        (.inExpression (.quoted quote content :: before) around) rest
  | text (before : List SourceItem) (around : ExpressionHole) {text rest : List Char}
      (htext : PlainText text) (hends : TextEnds rest) :
      Advances (.inExpression before around) (text ++ rest)
        (.inExpression (.text text :: before) around) rest

section

variable {state next : ReaderState} {text rest : List Char}

/-- A lexeme inside a template. -/
theorem stepTemplate_advances {before : List SourcePart} {around : TemplateHole} :
    stepTemplate before around text = .next next rest →
      ReaderState.Advances (.inTemplate before around) text next rest := by
  fun_cases stepTemplate before around text with
  | case1 tail =>
    rintro ⟨⟩
    exact .openSubstitution before around _
  | case3 tail items hole =>
    rintro ⟨⟩
    exact .closeTemplate before items hole _
  | case5 _ c tail _ _ _ hne =>
    replace hne : ¬ (spanChunk (c :: tail)).1.isEmpty = true := hne
    simp only [if_neg hne]
    rintro ⟨⟩
    obtain ⟨hraw, htext, hends⟩ := spanChunk_spec (c :: tail)
    rw [List.isEmpty_iff] at hne
    have hchunk := ReaderState.Advances.chunk before around hne hraw hends
    rw [← htext] at hchunk
    exact hchunk
  | case4 _ c tail _ _ _ hempty =>
    replace hempty : (spanChunk (c :: tail)).1.isEmpty = true := hempty
    simp only [if_pos hempty]
    exact nofun
  | case2 | case6 => exact nofun

/-- The closing brace of an expression. -/
theorem closeExpression_advances {before : List SourceItem} {around : ExpressionHole}
    {tail : List Char} :
    closeExpression before around tail = .next next rest →
      ReaderState.Advances (.inExpression before around) ('}' :: tail) next rest := by
  fun_cases closeExpression before around tail with
  | case1 => exact nofun
  | case2 parts hole hne =>
    rintro ⟨⟩
    exact .closeSubstitution (fun he => hne (List.isEmpty_iff.2 he)) parts hole _
  | case3 items hole =>
    rintro ⟨⟩
    exact .closeBraces before items hole _

/-- A lexeme inside an expression. -/
theorem stepExpression_advances {before : List SourceItem} {around : ExpressionHole} :
    stepExpression before around text = .next next rest →
      ReaderState.Advances (.inExpression before around) text next rest := by
  fun_cases stepExpression before around text with
  | case2 tail =>
    rintro ⟨⟩
    exact .openBraces before around _
  | case3 tail => exact closeExpression_advances
  | case4 tail =>
    rintro ⟨⟩
    exact .openTemplate before around _
  | case5 c tail _ _ _ hc content after hspan =>
    rintro ⟨⟩
    have hquote : IsQuote c := by simpa [IsQuote] using hc
    obtain ⟨hcontent, rfl⟩ := (spanQuoted?_eq_some_iff hquote).1 hspan
    exact .quoted before around hquote hcontent _
  | case7 c tail hopen hclose hbackquote hquote =>
    rintro ⟨⟩
    have hc : isExpressionText c = true := by simp_all [isExpressionText]
    have htext : PlainText (c :: tail.takeWhile isExpressionText) := by
      refine ⟨List.cons_ne_nil _ _, fun d hd => ?_⟩
      rcases List.mem_cons.1 hd with rfl | hd
      · exact hc
      · exact List.all_eq_true.1 List.all_takeWhile d hd
    have hends : TextEnds (tail.dropWhile isExpressionText) := of_mem_head?_dropWhile
    have hadvances := ReaderState.Advances.text before around htext hends
    rw [List.cons_append, List.takeWhile_append_dropWhile] at hadvances
    exact hadvances
  | case1 | case6 => exact nofun

/-- A chunk can go on in front of a raw text that is not empty. -/
theorem RawText.not_ends {raw : List Char} (hne : raw ≠ []) (hraw : RawText raw)
    (hends : ChunkEnds rest) : ¬ ChunkEnds (raw ++ rest) := by
  intro h
  rw [ChunkEnds, spanChunk_append hraw hends] at h
  exact hne h

/-- A text can go on in front of another one. -/
theorem PlainText.not_ends {more : List Char} (htext : PlainText more) :
    ¬ TextEnds (more ++ rest) := by
  obtain ⟨hne, hall⟩ := htext
  cases more with
  | nil => exact absurd rfl hne
  | cons c more =>
    intro h
    cases (h c rfl).symm.trans (hall c (.head _))

/-- The lexeme in front of a raw text is the whole of it. -/
theorem stepTemplate_chunk (before : List SourcePart) (around : TemplateHole) {raw : List Char}
    (hne : raw ≠ []) (hraw : RawText raw) (hends : ChunkEnds rest) :
    stepTemplate before around (raw ++ rest) =
      .next (.inTemplate (.chunk raw :: before) around) rest := by
  have hspan := spanChunk_append hraw hends
  have hgoes := RawText.not_ends hne hraw hends
  unfold stepTemplate
  split
  · next heq => exact absurd (heq ▸ .substitution _) hgoes
  · next heq =>
    split
    · next hc => exact absurd (heq ▸ hc ▸ .backquote _) hgoes
    · simp only [hspan]
      rw [if_neg (fun he => hne (List.isEmpty_iff.1 he))]
  · next heq => exact absurd (List.append_eq_nil_iff.1 heq).1 hne

/-- The lexeme in front of a text is the whole of it. -/
theorem stepExpression_text (before : List SourceItem) (around : ExpressionHole)
    {more : List Char} (htext : PlainText more) (hends : TextEnds rest) :
    stepExpression before around (more ++ rest) =
      .next (.inExpression (.text more :: before) around) rest := by
  obtain ⟨hne, hall⟩ := htext
  cases more with
  | nil => exact absurd rfl hne
  | cons c cs =>
    obtain ⟨htake, hdrop⟩ := takeWhile_dropWhile_append (fun d hd => hall d (.tail _ hd)) hends
    have hc := hall c (.head _)
    simp only [isExpressionText, Bool.and_eq_true, bne_iff_ne] at hc
    obtain ⟨⟨⟨⟨hopen, hclose⟩, hsingle⟩, hdouble⟩, hbackquote⟩ := hc
    rw [List.cons_append, stepExpression, if_neg hopen, if_neg hclose, if_neg hbackquote,
      if_neg (by simp [hsingle, hdouble]), htake, hdrop]

/-- The lexeme at a quote is the string. -/
theorem stepExpression_quoted (before : List SourceItem) (around : ExpressionHole) {quote : Char}
    {content : List Char} (hquote : IsQuote quote) (hcontent : QuotedText quote content)
    (rest : List Char) : stepExpression before around (quote :: (content ++ quote :: rest)) =
      .next (.inExpression (.quoted quote content :: before) around) rest := by
  have hspan : spanQuoted? quote (content ++ quote :: rest) = some (content, rest) :=
    (spanQuoted?_eq_some_iff hquote).2 ⟨hcontent, rfl⟩
  have hopen : quote ≠ '{' := by rcases hquote with rfl | rfl <;> decide
  have hclose : quote ≠ '}' := by rcases hquote with rfl | rfl <;> decide
  have hbackquote : quote ≠ backquote := by rcases hquote with rfl | rfl <;> decide
  rw [stepExpression, if_neg hopen, if_neg hclose, if_neg hbackquote,
    if_pos (by simpa [IsQuote] using hquote), hspan]

/-- One lexeme does what `Advances` says. -/
theorem ReaderState.step_eq_next_iff :
    state.step text = .next next rest ↔ state.Advances text next rest := by
  constructor
  · intro h
    cases state with
    | inTemplate before around => exact stepTemplate_advances h
    | inExpression before around => exact stepExpression_advances h
  · intro h
    cases h with
    | openSubstitution before around => rfl
    | closeTemplate before items around => rfl
    | chunk before around hne hraw hends => exact stepTemplate_chunk before around hne hraw hends
    | openBraces before around => rfl
    | @closeSubstitution before hne parts around =>
      show closeExpression before (.substitution parts around) rest = _
      rw [closeExpression, if_neg fun he => hne (List.isEmpty_iff.1 he)]
    | closeBraces before items around => rfl
    | openTemplate before around => rfl
    | quoted before around hquote hcontent =>
      exact stepExpression_quoted before around hquote hcontent rest
    | text before around htext hends => exact stepExpression_text before around htext hends

/-- No lexeme inside an expression closes the outermost template. -/
theorem stepExpression_ne_done (before : List SourceItem) (around : ExpressionHole)
    (text : List Char) (parts : List SourcePart) (rest : List Char) :
    stepExpression before around text ≠ .done parts rest := by
  fun_cases stepExpression before around text with
  | case3 tail => fun_cases closeExpression before around tail <;> nofun
  | _ => nofun

/-- The reader is done at the closing backquote of the outermost template. -/
theorem ReaderState.step_eq_done_iff {parts : List SourcePart} :
    state.step text = .done parts rest ↔
      state = .inTemplate parts.reverse .top ∧ text = backquote :: rest := by
  constructor
  · intro h
    cases state with
    | inTemplate before around =>
      change stepTemplate before around text = _ at h
      unfold stepTemplate at h
      split at h
      · cases h
      · split at h
        · next hc =>
          split at h
          · cases h
            rw [hc, List.reverse_reverse]
            exact ⟨rfl, rfl⟩
          · cases h
        · simp only at h
          split at h <;> cases h
      · cases h
    | inExpression before around => exact absurd h (stepExpression_ne_done before around text _ _)
  · rintro ⟨rfl, rfl⟩
    show ReaderStep.done parts.reverse.reverse rest = _
    rw [List.reverse_reverse]

end

end CssTemplate
