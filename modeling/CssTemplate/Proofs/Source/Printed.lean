import CssTemplate.Proofs.Source.Tagged

/-!
# Templates written as source

`Tagged.source` writes a tagged template as a source: the tag, and between backquotes the literals
and the expressions of the template. In literals a backslash stands before every character that
would not stand for itself there (`escaped`), so what is written is a raw text
(`rawText_escaped`) that denotes the literal (`resolveEscapes_escaped`). Hence a written source can
be taken apart into what was written, and reading it gives the template back, whatever trailer
follows (`read_source`).
-/

namespace CssTemplate

/-! ## Literals -/

/-- Whether a character does not stand for itself in a raw text. -/
def needsEscape (c : Char) : Bool :=
  c == '\\' || c == backquote || c == '$'

/-- A character of a literal, as it is written. -/
def writtenChar (c : Char) : List Char :=
  if needsEscape c then ['\\', c] else [c]

/-- A literal, as it is written. -/
def escaped (text : List Char) : List Char :=
  text.flatMap writtenChar

section
variable {c : Char}

/-- A backslash, a backquote and a dollar sign are escaped. -/
theorem needsEscape_iff : needsEscape c = true ↔ c = '\\' ∨ c = backquote ∨ c = '$' := by
  simp [needsEscape, or_assoc]

/-- An escape of a character that needs one stands for that character. -/
theorem resolvedChar_of_needsEscape (h : needsEscape c = true) : resolvedChar c = c := by
  rcases needsEscape_iff.1 h with rfl | rfl | rfl <;> rfl

/-- A character other than the backslash stands for itself. -/
theorem resolveEscapes_cons (h : c ≠ '\\') (rest : List Char) :
    resolveEscapes (c :: rest) = c :: resolveEscapes rest := by
  rw [resolveEscapes.eq_def]
  split
  · next heq => cases heq
  · next heq => exact absurd (List.cons.inj heq).1 h
  · next heq =>
    cases heq
    rfl

/-- A written literal denotes the literal. -/
theorem resolveEscapes_escaped (text : List Char) : resolveEscapes (escaped text) = text := by
  induction text with
  | nil => rfl
  | cons c text ih =>
    rw [escaped, List.flatMap_cons, writtenChar]
    split
    · next hc =>
      show resolvedChar c :: resolveEscapes (escaped text) = c :: text
      rw [resolvedChar_of_needsEscape hc, ih]
    · next hc =>
      have hbackslash : c ≠ '\\' := fun heq => hc (needsEscape_iff.2 (.inl heq))
      show resolveEscapes (c :: escaped text) = c :: text
      rw [resolveEscapes_cons hbackslash, ih]

/-- A written literal is a raw text. -/
theorem rawText_escaped (text : List Char) : RawText (escaped text) := by
  induction text with
  | nil => exact .nil
  | cons c text ih =>
    rw [escaped, List.flatMap_cons, writtenChar]
    split
    · exact .escape c ih
    · next hc =>
      rw [needsEscape_iff, not_or, not_or] at hc
      obtain ⟨hbackslash, hbackquote, hdollar⟩ := hc
      exact .plain hbackquote hdollar hbackslash ih

end

/-! ## Templates -/

/-- A template as it is written, taken apart. -/
def Template.written (t : Template) : RawTemplate where
  head := escaped t.head
  spans := t.spans.map fun span => ⟨span.expression.text, escaped span.literal⟩

/-- A tagged template as a source. -/
def Tagged.source (t : Tagged) : List Char :=
  t.tag.getD [] ++ backquote :: (t.template.written.text ++ [backquote])

/-- The expression can stand in a substitution: it is one of the grammar without a blank expression
at any depth, and has no blanks at its ends. -/
structure Expression.Readable (e : Expression) : Prop where
  derives : Derives NonBlank .expression e.text
  trimmed : trim e.text = e.text

/-- The tag can stand before a template: there is no backquote in it, and there are no blanks at
its ends. -/
structure ReadableTag (tag : List Char) : Prop where
  filled : tag ≠ []
  not_mem : backquote ∉ tag
  trimmed : trim tag = tag

section
variable {t : Template}

/-- What is written for a readable template is a valid template source. -/
theorem Template.valid_written (h : ∀ e ∈ t.expressions, e.Readable) : t.written.Valid where
  head := rawText_escaped t.head
  spans := by
    intro span hspan
    obtain ⟨own, hown, rfl⟩ := List.mem_map.1 hspan
    exact {
      derives := (h own.expression (List.mem_map_of_mem hown)).derives
      nonBlank := own.expression.not_blank
      literal := rawText_escaped own.literal }

/-- What is written for a readable template denotes it. -/
theorem Template.denotes_written (h : ∀ e ∈ t.expressions, e.Readable) : t.written.Denotes t where
  head := (resolveEscapes_escaped t.head).symm
  spans := by
    rw [Template.written, List.map_map]
    refine List.map_congr_left fun span hspan => ?_
    have hexpression := (h span.expression (List.mem_map_of_mem hspan)).trimmed
    rw [Function.comp_apply, hexpression, resolveEscapes_escaped]

end

/-- A readable tag is read back, and so is none at all. -/
theorem tagOf_of_readable {tag : Option (List Char)} (h : ∀ text ∈ tag, ReadableTag text) :
    tagOf (tag.getD []) = tag := by
  cases tag with
  | none => rfl
  | some text =>
    obtain ⟨hfilled, -, htrimmed⟩ := h text rfl
    rw [Option.getD_some, tagOf, htrimmed, if_neg (by rwa [List.isEmpty_iff])]

/-- A trailer is taken away up to the character before it. -/
theorem trimEnd_append {drop : Char → Bool} {text trailer : List Char} {c : Char}
    (hlast : drop c = false) (htrailer : ∀ d ∈ trailer, drop d = true) :
    trimEnd drop (text ++ [c] ++ trailer) = text ++ [c] := by
  have hreverse : ∀ d ∈ trailer.reverse, drop d = true := fun d hd =>
    htrailer d (List.mem_reverse.1 hd)
  rw [trimEnd, List.reverse_append, List.dropWhile_append_of_pos hreverse, List.reverse_append,
    List.reverse_singleton, List.singleton_append, List.dropWhile_cons_of_neg (by rw [hlast]; decide),
    List.reverse_cons, List.reverse_reverse]

/-- **Reading gives back what was written.** A tagged template with a readable tag, or with none,
and with readable expressions is read back from its source, whatever its literals hold and whatever
trailer follows. -/
theorem read_source (t : Tagged) (htag : ∀ tag ∈ t.tag, ReadableTag tag)
    (hexpressions : ∀ e ∈ t.template.expressions, e.Readable) {trailer : List Char}
    (htrailer : ∀ c ∈ trailer, isTrailer c = true) :
    Tagged.read (t.source ++ trailer) = .ok t := by
  have hcut : trimEnd isTrailer (t.source ++ trailer) = t.source := by
    rw [Tagged.source, ← List.cons_append, ← List.append_assoc]
    exact trimEnd_append (by decide) htrailer
  have hsource : Decomposes t.source (t.tag.getD []) t.template.written := by
    refine ⟨?_, Template.valid_written hexpressions, rfl⟩
    cases hcase : t.tag with
    | none => exact List.not_mem_nil
    | some tag => exact (htag tag hcase).not_mem
  obtain ⟨template, hread, hdenotes⟩ := hsource.readTagged
  rw [Tagged.read, hcut, hread, tagOf_of_readable htag,
    hdenotes.unique (Template.denotes_written hexpressions)]

/-- A literal with everything that needs an escape and a dollar sign before a brace, an expression
with a template inside it, and a trailer. -/
theorem read_source_nested :
    Tagged.read (['t', backquote, '\\', '\\', '\\', '$', '{', '\n', '\\', backquote, '$', '{', 'f', '(',
        backquote, '$', '{', 'x', '}', backquote, ')', '}', '\\', '$', backquote] ++ [';', '\n']) =
      .ok ⟨some ['t'], ['\\', '$', '{', '\n', backquote],
        [⟨⟨['f', '(', backquote, '$', '{', 'x', '}', backquote, ')'], rfl⟩, ['$']⟩]⟩ := by
  have hplain : ∀ {text : List Char}, text ≠ [] → text.all isExpressionText = true →
      PlainText text := fun hne hall => ⟨hne, List.all_eq_true.1 hall⟩
  have hinner : Derives NonBlank .template ([] ++ '$' :: '{' :: (['x'] ++ '}' :: [])) :=
    .substitution .nil (.last (.text (hplain (by decide) rfl))) rfl (.raw .nil)
  have hcall : PlainText ['f', '('] := hplain (by decide) rfl
  have hclose : PlainText [')'] := hplain (by decide) rfl
  have hexpression : Expression.Readable
      ⟨['f', '(', backquote, '$', '{', 'x', '}', backquote, ')'], rfl⟩ :=
    ⟨.more (.text hcall) (.more (.template hinner) (.last (.text hclose))), by decide⟩
  exact read_source ⟨some ['t'], ['\\', '$', '{', '\n', backquote],
    [⟨⟨['f', '(', backquote, '$', '{', 'x', '}', backquote, ')'], rfl⟩, ['$']⟩]⟩
    (by rintro _ ⟨⟩; exact ⟨by decide, by decide, by decide⟩)
    (List.forall_mem_singleton.2 hexpression) (List.all_eq_true.1 rfl)

end CssTemplate
