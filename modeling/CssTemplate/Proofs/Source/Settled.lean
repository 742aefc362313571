import CssTemplate.Proofs.Output.HostPlace
import CssTemplate.Proofs.Source.Tagged
import CssTemplate.Proofs.Text.Trimmed

/-!
# Expressions are closed

The grammar of templates takes an expression apart into texts, strings, pairs of braces and further
templates. `HostPlace` follows a text without the grammar. The two agree: an expression of the grammar
leads from any code back to the same code (`Derives.settled`), so every string, template and brace that
it opens is closed in it. Trimming keeps this, because no string or template ends with a blank
(`Settled.trim`). So it holds of all expressions of a template that is read (`settled_of_read`).
-/

namespace CssTemplate

/-- From code the text leads back to the same code. -/
def Settled (text : List Char) : Prop :=
  ∀ around, (HostPlace.code around).after text = .code around

namespace HostPlace

/-- Inside of a template, with or without a dollar sign before the place. -/
def IsTemplate (around : List HostFrame) (place : HostPlace) : Prop :=
  place = .template around ∨ place = .templateDollar around

section
variable {place : HostPlace} {around : List HostFrame} {text : List Char} {c : Char}

/-! ## Templates -/

/-- Any other character stays in the template. -/
theorem step_template (hbackquote : c ≠ backquote) (hdollar : c ≠ '$') (hbackslash : c ≠ '\\') :
    (template around).step c = template around := by
  rw [step, inTemplate, if_neg hbackquote, if_neg hbackslash, if_neg hdollar]

/-- A dollar sign is forgotten at any character but an opening brace. -/
theorem step_templateDollar (h : c ≠ '{') :
    (templateDollar around).step c = (template around).step c :=
  if_neg h

/-- A backquote ends the template. -/
theorem IsTemplate.step_backquote (h : IsTemplate around place) :
    place.step backquote = code around := by
  rcases h with rfl | rfl <;> rfl

/-- A dollar sign may open a substitution. -/
theorem IsTemplate.step_dollar (h : IsTemplate around place) :
    place.step '$' = templateDollar around := by
  rcases h with rfl | rfl <;> rfl

/-- A raw text opens and closes nothing. -/
theorem isTemplate_of_rawText (h : RawText text) :
    IsTemplate around ((template around).after text) := by
  induction h with
  | nil => exact .inl rfl
  | plain hbackquote hdollar hbackslash _ ih =>
    rw [after_cons, step_template hbackquote hdollar hbackslash]
    exact ih
  | escape c _ ih => exact ih
  | @dollar rest hbrace _ ih =>
    have hdollar : (template around).step '$' = templateDollar around := rfl
    rw [after_cons, hdollar]
    cases rest with
    | nil => exact .inr rfl
    | cons c rest =>
      rw [after_cons, step_templateDollar fun hc => hbrace (congrArg some hc)]
      exact ih

/-! ## Strings -/

/-- A quote opens a string in code, and ends a string of its kind. -/
theorem step_quote (quote : HostQuote) :
    (code around).step quote.char = quoted quote around ∧
      (quoted quote around).step quote.char = code around := by
  cases quote <;> exact ⟨rfl, rfl⟩

/-- The content of a string stays in it. -/
theorem after_quotedText {quote : HostQuote} (h : QuotedText quote.char text) :
    (quoted quote around).after text = quoted quote around := by
  induction h with
  | nil => rfl
  | plain hquote hbackslash _ _ ih =>
    rw [after_cons, step, if_neg hquote, if_neg hbackslash]
    exact ih
  | escape _ _ ih =>
    have hescape : (quoted quote around).step '\\' = escaped quote around := by
      cases quote <;> rfl
    rw [after_cons, hescape]
    exact ih

/-! ## Texts of expressions -/

/-- Only characters with a meaning of their own end a string or a template. -/
theorem eq_code_of_step (hc : isExpressionText c = true) (h : place.step c = code around) :
    place = code around := by
  have hchar := hc
  simp only [isExpressionText, Bool.and_eq_true, bne_iff_ne] at hchar
  obtain ⟨⟨⟨⟨hopen, -⟩, hsingle⟩, hdouble⟩, hbackquote⟩ := hchar
  have htemplate : ∀ frames, inTemplate frames c ≠ code around := by
    intro frames
    rw [inTemplate, if_neg hbackquote]
    split
    · intro heq
      cases heq
    · split <;> intro heq <;> cases heq
  cases place with
  | code frames => rwa [step_code hc] at h
  | quoted quote frames =>
    have hquote : c ≠ quote.char := by
      cases quote with
      | single => exact hsingle
      | double => exact hdouble
    rw [step, if_neg hquote] at h
    split at h <;> cases h
  | escaped quote frames => cases h
  | template frames => exact absurd h (htemplate frames)
  | templateEscape frames => cases h
  | templateDollar frames =>
    rw [step, if_neg hopen] at h
    exact absurd h (htemplate frames)

/-- A text without quotes and braces ends in code only if it started there. -/
theorem eq_code_of_after (htext : ∀ c ∈ text, isExpressionText c = true)
    (h : place.after text = code around) : place = code around := by
  induction text generalizing place with
  | nil => exact h
  | cons c text ih =>
    obtain ⟨hc, htext⟩ := List.forall_mem_cons.1 htext
    exact eq_code_of_step hc (ih htext h)

end

end HostPlace

/-! ## Derivations -/

/-- What a text of the grammar does to the place where it stands. -/
def Nonterminal.Settles : Nonterminal → List Char → Prop
  | .template, raw => ∀ around, HostPlace.IsTemplate around ((HostPlace.template around).after raw)
  | .expression, text => Settled text
  | .item, text => Settled text

section
variable {node : List Char → Prop} {text more : List Char} {c : Char}

/-- Settled texts one after the other are settled. -/
theorem Settled.append (h : Settled text) (h' : Settled more) : Settled (text ++ more) := by
  intro around
  rw [HostPlace.after_append, h, h']

/-- A string is settled. -/
theorem settled_string {quote : Char} (hquote : IsQuote quote) (h : QuotedText quote text) :
    Settled (quote :: (text ++ [quote])) := by
  obtain ⟨kind, rfl⟩ : ∃ kind : HostQuote, kind.char = quote := by
    rcases hquote with rfl | rfl
    · exact ⟨.double, rfl⟩
    · exact ⟨.single, rfl⟩
  intro around
  obtain ⟨hopen, hclose⟩ := @HostPlace.step_quote around kind
  rw [HostPlace.after_cons, hopen, HostPlace.after_append, HostPlace.after_quotedText h,
    HostPlace.after_cons, hclose, HostPlace.after_nil]

/-- A settled text in braces is settled. -/
theorem Settled.braces (h : Settled text) : Settled ('{' :: (text ++ ['}'])) := by
  intro around
  have hopen : (HostPlace.code around).step '{' = .code (.braces :: around) := rfl
  rw [HostPlace.after_cons, hopen, HostPlace.after_append, h]
  rfl

/-- The texts of the grammar are closed; the induction is on the derivation, and a template leads from
the inside of a template to the inside of it. -/
theorem Derives.settles {symbol : Nonterminal} (h : Derives node symbol text) :
    symbol.Settles text := by
  induction h with
  | text htext => exact fun around => HostPlace.after_code htext.2
  | quoted hquote hcontent => exact settled_string hquote hcontent
  | emptyBraces => exact fun around => rfl
  | braces _ _ ih => exact ih.braces
  | template _ ih =>
    intro around
    have hopen : (HostPlace.code around).step backquote = .template around := rfl
    rw [HostPlace.after_cons, hopen, HostPlace.after_append, HostPlace.after_cons, HostPlace.after_nil]
    exact (ih around).step_backquote
  | last _ ih => exact ih
  | more _ _ ihitem ihrest => exact Settled.append ihitem ihrest
  | raw hraw => exact fun around => HostPlace.isTemplate_of_rawText hraw
  | substitution hraw _ _ _ ihbody ihrest =>
    intro around
    have hopen : (HostPlace.templateDollar around).step '{' = .code (.substitution :: around) := rfl
    have hclose : (HostPlace.code (.substitution :: around)).step '}' = .template around := rfl
    rw [HostPlace.after_append, HostPlace.after_cons,
      (HostPlace.isTemplate_of_rawText hraw).step_dollar, HostPlace.after_cons, hopen,
      HostPlace.after_append, ihbody, HostPlace.after_cons, hclose]
    exact ihrest around

/-- Whatever the grammar takes for an expression is settled. -/
theorem Derives.settled (h : Derives node .expression text) : Settled text :=
  h.settles

/-- A blank may stand in an expression. -/
theorem isExpressionText_of_isBlank (h : isBlank c = true) : isExpressionText c = true := by
  simp only [isExpressionText, Bool.and_eq_true, bne_iff_ne]
  refine ⟨⟨⟨⟨?_, ?_⟩, ?_⟩, ?_⟩, ?_⟩ <;> rintro rfl <;> cases h

/-- Trimming keeps a closed text closed. -/
theorem Settled.trim (h : Settled text) : Settled (trim text) := by
  intro around
  obtain ⟨tail, htail, hblank⟩ := exists_trimEnd_append isBlank (text.dropWhile isBlank)
  have hfront : ∀ c ∈ text.takeWhile isBlank, isExpressionText c = true := fun c hc =>
    isExpressionText_of_isBlank (List.all_eq_true.1 List.all_takeWhile c hc)
  have htext := h around
  rw [← @List.takeWhile_append_dropWhile _ isBlank text, HostPlace.after_append,
    HostPlace.after_code hfront, htail, HostPlace.after_append] at htext
  exact HostPlace.eq_code_of_after (fun c hc => isExpressionText_of_isBlank (hblank c hc)) htext

end

/-- The expressions of a template that is read are closed. -/
theorem settled_of_read {source : List Char} {tagged : Tagged} (h : Tagged.read source = .ok tagged) :
    ∀ e ∈ tagged.template.expressions, Settled e.text := by
  obtain ⟨tag, raw, hsource⟩ := exists_decomposes h
  obtain ⟨t, ht, hdenotes⟩ := hsource.readTagged
  rw [Tagged.read, ht] at h
  cases h
  intro e he
  obtain ⟨span, hspan, rfl⟩ := List.mem_map.1 he
  have hmem := List.mem_map_of_mem (f := fun s : Span => (s.expression.text, s.literal)) hspan
  rw [hdenotes.spans] at hmem
  obtain ⟨rawSpan, hraw, heq⟩ := List.mem_map.1 hmem
  rw [← (Prod.mk.inj heq).1]
  exact (hsource.valid.spans rawSpan hraw).derives.settled.trim

end CssTemplate
