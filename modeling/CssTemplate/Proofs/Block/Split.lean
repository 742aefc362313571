import CssTemplate.Block.Split
import CssTemplate.Proofs.Except

/-!
# The form of rule blocks

A text that splits is cut behind closing braces only: every block ends with one
(`getLast?_of_mem_splitBlocks`), so no block is empty. The blocks join to the text
(`flatten_splitBlocks`).
-/

namespace CssTemplate

/-- Every block ends with the brace that it is cut behind. -/
theorem getLast?_of_mem_cutBlocks {offset depth : Nat} {pending css : List Char}
    {blocks : List (List Char)} (h : cutBlocks offset depth pending css = .ok blocks) :
    ∀ block ∈ blocks, block.getLast? = some '}' := by
  fun_induction cutBlocks offset depth pending css generalizing blocks with
  | case1 => cases h; exact fun _ hmem => nomatch hmem
  | case2 => cases h
  | case3 => cases h
  | case4 offset pending rest ih =>
    obtain ⟨more, hmore, rfl⟩ := Except.map_eq_ok_iff.1 h
    intro block hmem
    rcases List.mem_cons.1 hmem with rfl | hmem
    · simp
    · exact ih hmore block hmem
  | case5 offset pending rest depth ih => exact ih h
  | case6 offset depth pending c rest hc ih => exact ih h

/-- Every block of a split text ends with a closing brace. -/
theorem getLast?_of_mem_splitBlocks {css : List Char} {blocks : List (List Char)}
    (h : splitBlocks css false = .ok blocks) : ∀ block ∈ blocks, block.getLast? = some '}' :=
  getLast?_of_mem_cutBlocks h

/-- No block of a split text is empty. -/
theorem filter_splitBlocks {css : List Char} {blocks : List (List Char)}
    (h : splitBlocks css false = .ok blocks) :
    (blocks.filter fun block => !block.isEmpty) = blocks := by
  rw [List.filter_eq_self]
  intro block hmem
  have hlast := getLast?_of_mem_splitBlocks h block hmem
  cases block with
  | nil => cases hlast
  | cons c rest => rfl

/-- The blocks join to what has been read of the first one and the rest of the text. -/
theorem flatten_cutBlocks {offset depth : Nat} {pending css : List Char} {blocks : List (List Char)}
    (h : cutBlocks offset depth pending css = .ok blocks) :
    blocks.flatten = pending.reverse ++ css := by
  fun_induction cutBlocks offset depth pending css generalizing blocks with
  | case1 offset depth pending hpending =>
    cases h
    rw [List.isEmpty_iff.1 hpending]
    rfl
  | case2 => cases h
  | case3 => cases h
  | case4 offset pending rest ih =>
    obtain ⟨more, hmore, rfl⟩ := Except.map_eq_ok_iff.1 h
    rw [List.flatten_cons, ih hmore]
    simp
  | case5 offset pending rest depth ih => simpa using ih h
  | case6 offset depth pending c rest hc ih => simpa using ih h

/-- The blocks of a text join to it. -/
theorem flatten_splitBlocks {css : List Char} {asKeyframes : Bool} {blocks : List (List Char)}
    (h : splitBlocks css asKeyframes = .ok blocks) : blocks.flatten = css := by
  unfold splitBlocks at h
  split at h
  · cases h
    simp
  · simpa using flatten_cutBlocks h

end CssTemplate
