import CssTemplate.Text.Blank

/-!
# Trimmed texts

A run of a class goes on up to the first character that is not of the class. A text is trimmed when no
blank stands at either end of it; trimming gives such a text, leaves one as it is, and leaves one that
stands inside a longer text (`Firm.infix_trim`).
-/

namespace CssTemplate

/-- A run of characters of a class is the longest one where the next character is not of it. -/
theorem takeWhile_dropWhile_append {p : Char → Bool} {run rest : List Char}
    (hrun : ∀ c ∈ run, p c = true) (hends : ∀ c ∈ rest.head?, p c = false) :
    (run ++ rest).takeWhile p = run ∧ (run ++ rest).dropWhile p = rest := by
  rw [List.takeWhile_append_of_pos hrun, List.dropWhile_append_of_pos hrun]
  cases rest with
  | nil => simp
  | cons c rest => simp [hends c rfl]

/-- The character after the longest run of a class is not of it. -/
theorem of_mem_head?_dropWhile {p : Char → Bool} {text : List Char} :
    ∀ c ∈ (text.dropWhile p).head?, p c = false := by
  intro c hc
  have hnot := List.head?_dropWhile_not p text
  rw [Option.mem_def.1 hc] at hnot
  exact hnot

/-- No blank stands at either end of the text. -/
structure Trimmed (text : List Char) : Prop where
  head : ∀ c ∈ text.head?, isBlank c = false
  last : ∀ c ∈ text.getLast?, isBlank c = false

/-- What trimming gives is trimmed. -/
theorem trimmed_trim (text : List Char) : Trimmed (trim text) where
  head := by
    obtain ⟨tail, htail, -⟩ := exists_trimEnd_append isBlank (text.dropWhile isBlank)
    intro c hc
    refine @of_mem_head?_dropWhile isBlank text c ?_
    rw [htail, List.head?_append, ← trimBy, ← trim, Option.mem_def.1 hc]
    rfl
  last := by
    rw [trim, trimBy, trimEnd, List.getLast?_reverse]
    exact of_mem_head?_dropWhile

/-- Nothing is dropped off a text whose first character is not blank. -/
theorem dropWhile_eq_self {text : List Char} (h : ∀ c ∈ text.head?, isBlank c = false) :
    text.dropWhile isBlank = text := by
  cases text with
  | nil => rfl
  | cons c text => exact List.dropWhile_cons_of_neg (by simpa using h c rfl)

/-- Trimming leaves a trimmed text as it is. -/
theorem Trimmed.trim_eq {text : List Char} (h : Trimmed text) : trim text = text := by
  have hlast : text.reverse.dropWhile isBlank = text.reverse :=
    dropWhile_eq_self (by simpa using h.last)
  rw [trim, trimBy, trimEnd, dropWhile_eq_self h.head, hlast, List.reverse_reverse]

/-- Dropping blanks stops in front of a part that does not start with one. -/
theorem exists_dropWhile_append {before part : List Char} (hne : part ≠ [])
    (h : ∀ c ∈ part.head?, isBlank c = false) (after : List Char) :
    ∃ before', (before ++ part ++ after).dropWhile isBlank = before' ++ part ++ after := by
  induction before with
  | nil =>
    obtain ⟨c, rest, rfl⟩ := List.exists_cons_of_ne_nil hne
    exact ⟨[], dropWhile_eq_self h⟩
  | cons c before ih =>
    cases hc : isBlank c with
    | true => simpa [List.dropWhile_cons, hc] using ih
    | false => exact ⟨c :: before, by simp [hc]⟩

/-- A text that is not cut where it stands inside one that is trimmed. -/
structure Firm (text : List Char) : Prop extends Trimmed text where
  ne_nil : text ≠ []

/-- Trimming keeps a firm part. -/
theorem Firm.infix_trim {part text : List Char} (h : Firm part) (hpart : part <:+: text) :
    part <:+: trim text := by
  obtain ⟨before, after, rfl⟩ := hpart
  obtain ⟨before', hbefore⟩ := @exists_dropWhile_append before part h.ne_nil h.head after
  obtain ⟨after', hafter⟩ := @exists_dropWhile_append after.reverse part.reverse
    (by simpa using h.ne_nil) (by simpa using h.last) before'.reverse
  refine ⟨before', after'.reverse, ?_⟩
  have hreverse : (before' ++ part ++ after).reverse =
      after.reverse ++ part.reverse ++ before'.reverse := by
    simp
  rw [trim, trimBy, trimEnd, hbefore, hreverse, hafter]
  simp

end CssTemplate
