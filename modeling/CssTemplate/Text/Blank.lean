/-!
# Blank characters and trimming

The blank characters are the white space of Unicode together with the four ASCII information
separators; zero-width characters are not among them. `trim` removes blanks at both ends of a
text, and a text is blank when nothing is left. `trimEnd` removes characters of a class at the
end only.
-/

namespace CssTemplate

/-- A white-space character or one of the separators `U+001C` to `U+001F`. -/
def isBlank (c : Char) : Bool :=
  let code := c.toNat
  (0x09 ≤ code && code ≤ 0x0D) || (0x1C ≤ code && code ≤ 0x20) || code == 0x85 || code == 0xA0 ||
  code == 0x1680 || (0x2000 ≤ code && code ≤ 0x200A) || code == 0x2028 || code == 0x2029 ||
  code == 0x202F || code == 0x205F || code == 0x3000

/-- The text without the longest suffix of characters in the class. -/
def trimEnd (drop : Char → Bool) (text : List Char) : List Char :=
  (text.reverse.dropWhile drop).reverse

/-- The text without its longest prefix and suffix of characters in the class. -/
def trimBy (drop : Char → Bool) (text : List Char) : List Char :=
  trimEnd drop (text.dropWhile drop)

/-- The text without blanks at its ends. -/
def trim (text : List Char) : List Char :=
  trimBy isBlank text

/-- Whether a text holds nothing but blanks. -/
def isBlankText (text : List Char) : Bool :=
  text.all isBlank

/-! ## Facts about trimming -/

/-- Trimming the end leaves a prefix, and what it drops is of the class. -/
theorem exists_trimEnd_append (drop : Char → Bool) (text : List Char) :
    ∃ tail, text = trimEnd drop text ++ tail ∧ ∀ c ∈ tail, drop c = true := by
  refine ⟨(text.reverse.takeWhile drop).reverse, ?_, ?_⟩
  · rw [trimEnd, ← List.reverse_append, List.takeWhile_append_dropWhile, List.reverse_reverse]
  · intro c hc
    rw [List.mem_reverse] at hc
    exact List.all_eq_true.1 List.all_takeWhile c hc

/-- A trimmed end is never longer than the text. -/
theorem length_trimEnd_le (drop : Char → Bool) (text : List Char) :
    (trimEnd drop text).length ≤ text.length := by
  obtain ⟨tail, h, _⟩ := exists_trimEnd_append drop text
  calc (trimEnd drop text).length
      ≤ (trimEnd drop text ++ tail).length := by simp
    _ = text.length := by rw [← h]

/-- Dropping a prefix never lengthens a list. -/
theorem length_dropWhile_le {α : Type _} (p : α → Bool) (l : List α) :
    (l.dropWhile p).length ≤ l.length :=
  (List.dropWhile_suffix p).length_le

/-- A trimmed text is never longer than the text. -/
theorem length_trim_le (text : List Char) : (trim text).length ≤ text.length :=
  Nat.le_trans (length_trimEnd_le _ _) (length_dropWhile_le _ _)

end CssTemplate
