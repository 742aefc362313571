import CssTemplate.Proofs.Text.Characters
import CssTemplate.Proofs.Text.Trimmed

/-!
# Identifiers

No blank stands in an identifier, so trimming leaves it as it is, and takes away the line end that may
follow it (`isIdentifierLine_iff`, `trim_append_lineEnd`). Cutting a list at a separator undoes joining parts that do
not hold it (`splitWhere_append_cons`).
-/

namespace CssTemplate

variable {c : Char} {name word : List Char}

/-- A digit may stand in an identifier. -/
theorem continuesIdentifier_of_isDigit (h : c.isDigit = true) : continuesIdentifier c = true := by
  have hascii : c.toNat < 0x80 := by
    have := isDigit_iff.1 h
    omega
  rw [continuesIdentifier, isWord, isAlphanumeric, if_pos hascii, Char.isAlphanum, h]
  simp

/-- An identifier is not empty. -/
theorem ne_nil_of_isIdentifier (h : isIdentifier name = true) : name ≠ [] := by
  rintro rfl
  cases h

/-- Whether a name is an identifier does not depend on the characters that continue it. -/
theorem isIdentifier_append {more : List Char} (hname : name ≠ [])
    (hmore : ∀ c ∈ more, continuesIdentifier c = true) :
    isIdentifier (name ++ more) = isIdentifier name := by
  obtain ⟨first, rest, rfl⟩ := List.exists_cons_of_ne_nil hname
  rw [List.cons_append, isIdentifier, isIdentifier, List.all_append, List.all_eq_true.2 hmore,
    Bool.and_true]

/-- An identifier has no blanks at its ends. -/
theorem trimmed_of_isIdentifier (h : isIdentifier name = true) : Trimmed name where
  head c hc := isBlank_of_continuesIdentifier (continuesIdentifier_of_mem h c (List.mem_of_mem_head? hc))
  last c hc := isBlank_of_continuesIdentifier (continuesIdentifier_of_mem h c (List.mem_of_getLast? hc))

/-! ## A line end after an identifier -/

/-- The test accepts an identifier, with one line end behind it or without. -/
theorem isIdentifierLine_iff : isIdentifierLine name = true ↔
    ∃ word, isIdentifier word = true ∧ (name = word ∨ name = word ++ ['\n']) := by
  rw [isIdentifierLine, Bool.or_eq_true, Bool.and_eq_true, beq_iff_eq]
  constructor
  · rintro (h | ⟨hlast, h⟩)
    · exact ⟨name, h, .inl rfl⟩
    · obtain ⟨word, rfl⟩ := List.getLast?_eq_some_iff.1 hlast
      rw [List.dropLast_concat] at h
      exact ⟨word, h, .inr rfl⟩
  · rintro ⟨word, h, rfl | rfl⟩
    · exact .inl h
    · exact .inr ⟨List.getLast?_concat, by rwa [List.dropLast_concat]⟩

/-- No line end stands in an identifier. -/
theorem getLast?_of_isIdentifier (h : isIdentifier name = true) : name.getLast? ≠ some '\n' := by
  intro hlast
  cases (trimmed_of_isIdentifier h).last _ hlast

/-- A name with a line end that passes is no identifier. -/
theorem isIdentifier_iff_getLast? (h : isIdentifierLine name = true) :
    isIdentifier name = true ↔ name.getLast? ≠ some '\n' := by
  obtain ⟨word, hword, rfl | rfl⟩ := isIdentifierLine_iff.1 h
  · exact iff_of_true hword (getLast?_of_isIdentifier hword)
  · have hlast : (word ++ ['\n']).getLast? = some '\n' := List.getLast?_concat
    exact iff_of_false (fun h => getLast?_of_isIdentifier h hlast) (not_not_intro hlast)

/-- What the test accepts holds characters of identifiers and a line end. -/
theorem of_mem_identifierLine (h : isIdentifierLine name = true) :
    ∀ c ∈ name, continuesIdentifier c = true ∨ c = '\n' := by
  obtain ⟨word, hword, rfl | rfl⟩ := isIdentifierLine_iff.1 h
  · exact fun c hc => .inl (continuesIdentifier_of_mem hword c hc)
  · intro c hc
    rcases List.mem_append.1 hc with hc | hc
    · exact .inl (continuesIdentifier_of_mem hword c hc)
    · exact .inr (List.mem_singleton.1 hc)

/-- Trimming takes the line end behind an identifier off. -/
theorem trim_append_lineEnd (h : isIdentifier word = true) : trim (word ++ ['\n']) = word := by
  have hword := trimmed_of_isIdentifier h
  have hhead : ∀ c ∈ (word ++ ['\n']).head?, isBlank c = false := by
    rw [List.head?_append_of_ne_nil _ (ne_nil_of_isIdentifier h)]
    exact hword.head
  have hlast : word.reverse.dropWhile isBlank = word.reverse :=
    dropWhile_eq_self (by simpa using hword.last)
  rw [trim, trimBy, dropWhile_eq_self hhead, trimEnd, List.reverse_concat,
    List.dropWhile_cons_of_pos rfl, hlast, List.reverse_reverse]

/-! ## Cutting at a separator -/

/-- Nothing is split where no separator is. -/
theorem splitWhere_of_forall {p : Char → Bool} {part : List Char} (h : ∀ c ∈ part, p c = false) :
    splitWhere p part = [part] := by
  induction part with
  | nil => rfl
  | cons c part ih =>
    rw [splitWhere, if_neg (by rw [h c (.head _)]; exact Bool.false_ne_true),
      ih fun d hd => h d (.tail _ hd)]

/-- A part is split off at the first separator. -/
theorem splitWhere_append_cons {p : Char → Bool} {part : List Char} {separator : Char}
    (h : ∀ c ∈ part, p c = false) (hseparator : p separator = true) (rest : List Char) :
    splitWhere p (part ++ separator :: rest) = part :: splitWhere p rest := by
  induction part with
  | nil => rw [List.nil_append, splitWhere, if_pos hseparator]
  | cons c part ih =>
    rw [List.cons_append, splitWhere, if_neg (by rw [h c (.head _)]; exact Bool.false_ne_true),
      ih fun d hd => h d (.tail _ hd)]

/-- What is no separator stands in one of the parts. -/
theorem exists_mem_splitWhere {p : Char → Bool} {text : List Char} (hmem : c ∈ text)
    (hc : p c = false) : ∃ part ∈ splitWhere p text, c ∈ part := by
  induction text with
  | nil => cases hmem
  | cons d text ih =>
    rw [splitWhere]
    split
    · next hd =>
      rcases List.mem_cons.1 hmem with rfl | hmem
      · cases hc.symm.trans hd
      · obtain ⟨part, hpart, hmem⟩ := ih hmem
        exact ⟨part, .tail _ hpart, hmem⟩
    · split
      · next hnone => exact absurd hnone (splitWhere_ne_nil p text)
      · next first parts hparts =>
        rw [hparts] at ih
        rcases List.mem_cons.1 hmem with rfl | hmem
        · exact ⟨c :: first, .head _, .head _⟩
        · obtain ⟨part, hpart, hmem⟩ := ih hmem
          rcases List.mem_cons.1 hpart with rfl | hpart
          · exact ⟨d :: part, .head _, .tail _ hmem⟩
          · exact ⟨part, .tail _ hpart, hmem⟩

/-- The characters of a path are those of identifiers, and dots. -/
theorem of_mem_path {text : List Char} (h : isPath text = true) :
    ∀ c ∈ text, continuesIdentifier c = true ∨ c = '.' := by
  intro c hc
  by_cases hdot : c = '.'
  · exact .inr hdot
  · obtain ⟨part, hpart, hmem⟩ := @exists_mem_splitWhere c (· == '.') text hc (beq_eq_false_iff_ne.2 hdot)
    exact .inl (continuesIdentifier_of_mem (List.all_eq_true.1 h part hpart) c hmem)

end CssTemplate
