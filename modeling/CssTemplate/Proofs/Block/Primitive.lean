import CssTemplate.Fault
import CssTemplate.Proofs.Block.Braces

/-!
# Blocks as a decomposition

A text is primitive if its braces pair up for the first time behind its last character, a closing
brace. No primitive text is the front of another one (`Primitive.eq_of_prefix`), so a text is a row
of primitive texts in one way at most, and the rows at the front of a text are the fronts of the
longest one (`prefix_of_flatten_prefix`).

`cutsTo_cutBlocks` follows cutting through a text: inside a block, the front that has been read so
far is `Unclosed`. What is left when cutting fails is a text with no primitive text in front of it
(`LeftAt`). `splitBlocks_iff_row` puts these together: the blocks of a text are the row that the
text is, and without one the remainder is what follows the longest row in front of it.
-/

namespace CssTemplate

/-- The braces of a text pair up for the first time behind the closing brace at its end. -/
structure Primitive (text : List Char) : Prop where
  last : text.getLast? = some '}'
  balanced : Balanced text
  first : ∀ front, front ++ ['}'] <+: text → Balanced (front ++ ['}']) → front ++ ['}'] = text

/-- A text is the given primitive texts in a row. -/
structure IsRow (text : List Char) (blocks : List (List Char)) : Prop where
  primitive : ∀ block ∈ blocks, Primitive block
  flatten_eq : blocks.flatten = text

/-- The depth of the braces first falls below zero at the character with the given index. -/
structure FallsAt (text : List Char) (index : Nat) : Prop where
  before : ∀ i ≤ index, ∃ depth, braceDepth 0 (text.take i) = some depth
  falls : braceDepth 0 (text.take (index + 1)) = none

/-! ## Primitive texts -/

section
variable {text front block block' rest : List Char} {blocks blocks' : List (List Char)}
  {depth : Nat}

/-- A primitive text ends with a closing brace. -/
theorem Primitive.exists_front (h : Primitive block) : ∃ front, block = front ++ ['}'] :=
  List.getLast?_eq_some_iff.1 h.last

/-- No primitive text is the front of another one. -/
theorem Primitive.eq_of_prefix (h : Primitive block) (h' : Primitive block')
    (hbegins : block <+: block') : block = block' := by
  obtain ⟨front, rfl⟩ := h.exists_front
  exact h'.first front hbegins h.balanced

/-- Rows join to a text whose braces pair up. -/
theorem balanced_flatten (h : ∀ block ∈ blocks, Primitive block) : Balanced blocks.flatten := by
  induction blocks with
  | nil => rfl
  | cons block blocks ih =>
    obtain ⟨hblock, hblocks⟩ := List.forall_mem_cons.1 h
    exact hblock.balanced.append (ih hblocks)

/-- A row in front of a text is the front of any row there to which no primitive text can be
added. -/
theorem prefix_of_flatten_prefix (h : ∀ block ∈ blocks, Primitive block)
    (h' : ∀ block ∈ blocks', Primitive block)
    (hrest : ∀ block, Primitive block → ¬block <+: rest)
    (hbegins : blocks.flatten <+: blocks'.flatten ++ rest) : blocks <+: blocks' := by
  induction blocks generalizing blocks' with
  | nil => exact List.nil_prefix
  | cons block blocks ih =>
    obtain ⟨hblock, hblocks⟩ := List.forall_mem_cons.1 h
    have hfront : block <+: blocks'.flatten ++ rest := (List.prefix_append _ _).trans hbegins
    cases blocks' with
    | nil => exact absurd hfront (hrest block hblock)
    | cons block' blocks' =>
      obtain ⟨hblock', hblocks'⟩ := List.forall_mem_cons.1 h'
      rw [List.flatten_cons, List.append_assoc] at hfront
      rw [List.flatten_cons, List.flatten_cons, List.append_assoc] at hbegins
      -- the two first blocks are fronts of one text, so one of them is the front of the other
      have heq : block = block' := by
        rcases List.prefix_or_prefix_of_prefix hfront (List.prefix_append _ _) with hle | hle
        · exact hblock.eq_of_prefix hblock' hle
        · exact (hblock'.eq_of_prefix hblock hle).symm
      subst heq
      rw [List.prefix_append_right_inj] at hbegins
      rw [List.prefix_cons_inj]
      exact ih hblocks hblocks' hbegins

/-! ## Inside a block -/

/-- A front of a text that is inside a block, or just before one: its braces have the given depth,
and they never pair up behind a closing brace. -/
structure Unclosed (front : List Char) (depth : Nat) : Prop where
  depth_eq : braceDepth 0 front = some depth
  apart : ∀ start, start ++ ['}'] <+: front → ¬Balanced (start ++ ['}'])

/-- Nothing is open at the start. -/
theorem Unclosed.nil : Unclosed [] 0 where
  depth_eq := rfl
  apart := by
    intro start hbegins
    have hne : start ++ ['}'] ≠ [] := List.append_ne_nil_of_right_ne_nil _ (List.cons_ne_nil _ _)
    exact absurd (List.prefix_nil.1 hbegins) hne

/-- A character other than a closing brace leaves a front unclosed. -/
theorem Unclosed.push {c : Char} (h : Unclosed front depth) (hc : c ≠ '}') :
    Unclosed (front ++ [c]) (if c = '{' then depth + 1 else depth) where
  depth_eq := by
    rw [braceDepth_append, h.depth_eq, Option.bind_some, braceDepth_cons hc]
    rfl
  apart := by
    intro start hbegins
    rcases List.prefix_concat_iff.1 hbegins with heq | hbegins
    · exact absurd (List.append_inj_right' heq rfl) (by simpa using hc.symm)
    · exact h.apart start hbegins

/-- A closing brace goes one level up. -/
theorem Unclosed.depth_close (h : Unclosed front (depth + 1)) :
    braceDepth 0 (front ++ ['}']) = some depth := by
  rw [braceDepth_append, h.depth_eq, Option.bind_some]
  rfl

/-- A closing brace that does not close the block leaves a front unclosed. -/
theorem Unclosed.close (h : Unclosed front (depth + 2)) :
    Unclosed (front ++ ['}']) (depth + 1) where
  depth_eq := h.depth_close
  apart := by
    intro start hbegins
    rcases List.prefix_concat_iff.1 hbegins with heq | hbegins
    · rw [heq, Balanced, h.depth_close]
      intro hdepth
      have := Option.some.inj hdepth
      omega
    · exact h.apart start hbegins

/-- The brace that closes the block makes a front primitive. -/
theorem Unclosed.primitive (h : Unclosed front 1) : Primitive (front ++ ['}']) where
  last := List.getLast?_concat
  balanced := h.depth_close
  first := by
    intro start hbegins hbalanced
    rcases List.prefix_concat_iff.1 hbegins with heq | hbegins
    · exact heq
    · exact absurd hbalanced (h.apart start hbegins)

/-- No primitive text is the front of a text that is still open. -/
theorem Unclosed.not_prefix (h : Unclosed front depth) (hblock : Primitive block) :
    ¬block <+: front := by
  intro hbegins
  obtain ⟨start, rfl⟩ := hblock.exists_front
  exact h.apart start hbegins hblock.balanced

/-! ## Cutting -/

/-- How cutting a text that starts at the given offset can fail before a block of it is complete:
the text ends, or its depth falls below zero. -/
inductive LeftAt (offset : Nat) : BlockFault → Prop
  | outside {front : List Char} {depth : Nat} (hne : front ≠ []) (h : Unclosed front depth) :
      LeftAt offset (.outside front)
  | unmatched {front : List Char} (rest : List Char) (h : Unclosed front 0) :
      LeftAt offset (.unmatched (offset + front.length) (front ++ '}' :: rest))

/-- Something is left. -/
theorem LeftAt.ne_nil {offset : Nat} {fault : BlockFault} (h : LeftAt offset fault) :
    fault.remainder ≠ [] := by
  cases h with
  | outside hne _ => exact hne
  | unmatched rest _ => exact List.append_ne_nil_of_right_ne_nil _ (List.cons_ne_nil _ _)

/-- No primitive text stands in front of what is left. -/
theorem LeftAt.not_prefix {offset : Nat} {fault : BlockFault} (h : LeftAt offset fault)
    (hblock : Primitive block) : ¬block <+: fault.remainder := by
  intro hbegins
  cases h with
  | outside _ h => exact h.not_prefix hblock hbegins
  | @unmatched front rest h =>
    have hfront : front ++ ['}'] <+: front ++ '}' :: rest := by
      rw [List.prefix_append_right_inj]
      exact List.prefix_append ['}'] rest
    rcases List.prefix_or_prefix_of_prefix hbegins hfront with hle | hle
    · rcases List.prefix_concat_iff.1 hle with rfl | hle
      · have hbalanced := hblock.balanced
        rw [Balanced, braceDepth_append, h.depth_eq] at hbalanced
        cases hbalanced
      · exact h.not_prefix hblock hle
    · -- the depth falls below zero inside the primitive text
      obtain ⟨more, rfl⟩ := hle
      have hbalanced := hblock.balanced
      rw [Balanced, braceDepth_append, braceDepth_append, h.depth_eq] at hbalanced
      cases hbalanced

/-- What cutting a text that starts at the given offset gives: the blocks that the text is a row of,
or a fault with what is left behind the blocks in front of it. -/
inductive CutsTo (start : Nat) (text : List Char) : Except BlockFault (List (List Char)) → Prop
  | row {blocks : List (List Char)} (h : IsRow text blocks) : CutsTo start text (.ok blocks)
  | left {blocks : List (List Char)} {fault : BlockFault} (h : ∀ block ∈ blocks, Primitive block)
      (htext : blocks.flatten ++ fault.remainder = text)
      (hleft : LeftAt (start + blocks.flatten.length) fault) : CutsTo start text (.error fault)

/-- One more block in front. -/
theorem CutsTo.cons {start : Nat} {result : Except BlockFault (List (List Char))}
    (hblock : Primitive block) (h : CutsTo (start + block.length) text result) :
    CutsTo start (block ++ text) (result.map (block :: ·)) := by
  cases h with
  | @row blocks hrow =>
    refine .row ⟨List.forall_mem_cons.2 ⟨hblock, hrow.primitive⟩, ?_⟩
    rw [List.flatten_cons, hrow.flatten_eq]
  | @left blocks fault hblocks htext hleft =>
    refine @CutsTo.left _ _ (block :: blocks) fault (List.forall_mem_cons.2 ⟨hblock, hblocks⟩) ?_ ?_
    · rw [List.flatten_cons, List.append_assoc, htext]
    · rwa [List.flatten_cons, List.length_append, ← Nat.add_assoc]

/-- What cutting gives from a front of the first block on. -/
theorem cutsTo_cutBlocks (start : Nat) (h : Unclosed front depth) (text : List Char) :
    CutsTo start (front ++ text)
      (cutBlocks (start + front.length) depth front.reverse text) := by
  induction text generalizing start front depth with
  | nil =>
    rw [cutBlocks, List.append_nil]
    by_cases hfront : front = []
    · rw [hfront]
      exact .row ⟨List.forall_mem_nil _, rfl⟩
    · rw [if_neg (by simpa using hfront), List.reverse_reverse]
      exact @CutsTo.left _ _ [] _ (List.forall_mem_nil _) rfl (.outside hfront h)
  | cons c text ih =>
    have hlength : start + front.length + 1 = start + (front ++ [c]).length := by
      rw [List.length_append, List.length_singleton]
      omega
    have hpending : c :: front.reverse = (front ++ [c]).reverse := by
      rw [List.reverse_append, List.reverse_singleton, List.singleton_append]
    have htext : front ++ c :: text = (front ++ [c]) ++ text := by
      rw [List.append_assoc, List.singleton_append]
    by_cases hc : c = '}'
    · subst hc
      cases depth with
      | zero =>
        rw [cutBlocks, if_pos rfl, List.reverse_reverse]
        exact @CutsTo.left _ _ [] _ (List.forall_mem_nil _) rfl (.unmatched text h)
      | succ depth =>
        cases depth with
        | zero =>
          rw [cutBlocks, if_pos rfl, hpending, hlength, htext, List.reverse_reverse]
          exact .cons h.primitive (ih (start + (front ++ ['}']).length) .nil)
        | succ depth =>
          rw [cutBlocks, if_pos rfl, hpending, hlength, htext]
          exact ih start h.close
    · rw [cutBlocks_cons hc, hpending, hlength, htext]
      exact ih start (h.push hc)

/-- Splitting does what the cutter does from the start. -/
theorem cutsTo_splitBlocks (css : List Char) : CutsTo 0 css (splitBlocks css false) :=
  cutsTo_cutBlocks 0 .nil css

/-! ## Rows -/

/-- A row in front of a text is no longer than one to which no primitive text can be added. -/
theorem IsRow.length_le {longer : List Char} (h : IsRow longer blocks)
    (h' : ∀ block ∈ blocks', Primitive block) (hrest : ∀ block, Primitive block → ¬block <+: rest)
    (hbegins : longer <+: blocks'.flatten ++ rest) : longer.length ≤ blocks'.flatten.length := by
  rw [← h.flatten_eq] at hbegins ⊢
  obtain ⟨more, rfl⟩ := prefix_of_flatten_prefix h.primitive h' hrest hbegins
  rw [List.flatten_append, List.length_append]
  omega

/-- A text is a row in one way at most. -/
theorem IsRow.unique (h : IsRow text blocks) (h' : IsRow text blocks') : blocks = blocks' := by
  have hnil : ∀ block, Primitive block → ¬block <+: [] := fun block hblock =>
    Unclosed.nil.not_prefix hblock
  have hjoined : blocks.flatten = blocks'.flatten := h.flatten_eq.trans h'.flatten_eq.symm
  have hle : blocks <+: blocks' := prefix_of_flatten_prefix h.primitive h'.primitive hnil
    (by rw [hjoined]; exact List.prefix_append _ _)
  have hge : blocks' <+: blocks := prefix_of_flatten_prefix h'.primitive h.primitive hnil
    (by rw [hjoined]; exact List.prefix_append _ _)
  exact hle.eq_of_length_le hge.length_le

/-- Rows one after the other are a row. -/
theorem IsRow.append {text' : List Char} (h : IsRow text blocks) (h' : IsRow text' blocks') :
    IsRow (text ++ text') (blocks ++ blocks') where
  primitive := List.forall_mem_append.2 ⟨h.primitive, h'.primitive⟩
  flatten_eq := by rw [List.flatten_append, h.flatten_eq, h'.flatten_eq]

/-- The blocks of a text are the row that it is. -/
theorem splitBlocks_eq_ok_iff {css : List Char} :
    splitBlocks css false = .ok blocks ↔ IsRow css blocks := by
  have hcuts := cutsTo_splitBlocks css
  generalize splitBlocks css false = result at hcuts ⊢
  cases hcuts with
  | row hown =>
    constructor
    · intro h
      cases h
      exact hown
    · intro h
      rw [hown.unique h]
  | @left own fault hown hcss hleft =>
    refine iff_of_false (fun h => by cases h) fun h => ?_
    -- the whole text would be no longer than a front of it that leaves something
    have hwhole : css <+: own.flatten ++ fault.remainder := hcss ▸ List.prefix_refl _
    have hlength := h.length_le hown (fun _ hblock => hleft.not_prefix hblock) hwhole
    have hleftover := List.length_pos_iff.2 hleft.ne_nil
    rw [← hcss, List.length_append] at hlength
    omega

/-! ## Falling below zero -/

/-- A text that never falls below zero has a depth at each of its characters. -/
theorem exists_braceDepth_take {final : Nat} (h : braceDepth 0 text = some final) (i : Nat) :
    ∃ depth, braceDepth 0 (text.take i) = some depth := by
  rw [← List.take_append_drop i text, braceDepth_append] at h
  obtain ⟨depth, hdepth, -⟩ := Option.bind_eq_some_iff.1 h
  exact ⟨depth, hdepth⟩

/-- The depth first falls below zero at one place only. -/
theorem FallsAt.unique {i j : Nat} (h : FallsAt text i) (h' : FallsAt text j) : i = j := by
  have hle : ∀ {i j : Nat}, FallsAt text i → FallsAt text j → j ≤ i := by
    intro i j hi hj
    refine Nat.le_of_not_lt fun hlt => ?_
    obtain ⟨depth, hdepth⟩ := hj.before (i + 1) hlt
    cases hi.falls.symm.trans hdepth
  have := hle h h'
  have := hle h' h
  omega

/-- A text that never falls below zero falls nowhere. -/
theorem not_fallsAt {final i : Nat} (h : braceDepth 0 text = some final) : ¬FallsAt text i := by
  intro hfalls
  obtain ⟨depth, hdepth⟩ := exists_braceDepth_take h (i + 1)
  cases hfalls.falls.symm.trans hdepth

/-- A closing brace behind a text whose braces pair up closes nothing. -/
theorem fallsAt_of_balanced (h : Balanced front) (rest : List Char) :
    FallsAt (front ++ '}' :: rest) front.length where
  before := by
    intro i hi
    rw [List.take_append_of_le_length hi]
    exact exists_braceDepth_take h i
  falls := by
    rw [List.take_length_add_append, braceDepth_append, h]
    rfl

/-- A closing brace closes nothing where the depth first falls below zero. -/
theorem exists_unmatched_iff (css : List Char) (index : Nat) :
    (∃ remainder, splitBlocks css false = .error (.unmatched index remainder)) ↔
      FallsAt css index := by
  have hcuts := cutsTo_splitBlocks css
  generalize splitBlocks css false = result at hcuts ⊢
  cases hcuts with
  | row hrow =>
    have hbalanced : Balanced css := hrow.flatten_eq ▸ balanced_flatten hrow.primitive
    refine iff_of_false ?_ (not_fallsAt hbalanced)
    rintro ⟨remainder, h⟩
    cases h
  | @left blocks fault hblocks hcss hleft =>
    have hflat := balanced_flatten hblocks
    rw [Nat.zero_add] at hleft
    cases hleft with
    | @outside front depth _ h =>
      have hdepth : braceDepth 0 css = some depth := by
        rw [← hcss, braceDepth_append, hflat, Option.bind_some]
        exact h.depth_eq
      refine iff_of_false ?_ (not_fallsAt hdepth)
      rintro ⟨remainder, h⟩
      cases h
    | @unmatched front rest h =>
      have hfront : Balanced (blocks.flatten ++ front) := hflat.append h.depth_eq
      have hfalls : FallsAt css (blocks.flatten.length + front.length) := by
        rw [← hcss, ← List.length_append]
        show FallsAt (blocks.flatten ++ (front ++ '}' :: rest)) _
        rw [← List.append_assoc]
        exact fallsAt_of_balanced hfront rest
      constructor
      · rintro ⟨remainder, h⟩
        cases h
        exact hfalls
      · intro h
        rw [h.unique hfalls]
        exact ⟨_, rfl⟩

end

/-- **Splitting a text into blocks.** The blocks of a text are the primitive texts that it is a row
of. If it is no such row, it is reported as unbalanced: the remainder is what follows the longest
row in front of it, and the fault is a closing brace that closes nothing exactly if the depth falls
below zero, where it first does. So the blocks of two joined texts are those of the one and then
those of the other. -/
theorem splitBlocks_iff_row (css : List Char) :
    (∀ blocks, splitBlocks css false = .ok blocks ↔ IsRow css blocks) ∧
    ((¬∃ blocks, IsRow css blocks) → ∃ fault, splitBlocks css false = .error fault ∧
      (CompileFault.blocks fault).name = "UnbalancedRulesError".toList ∧
      ∃ front blocks, IsRow front blocks ∧ front ++ fault.remainder = css ∧
        ∀ longer more, IsRow longer more → longer <+: css → longer.length ≤ front.length) ∧
    (∀ index, (∃ remainder, splitBlocks css false = .error (.unmatched index remainder)) ↔
      FallsAt css index) ∧
    (∀ css' blocks blocks', splitBlocks css false = .ok blocks →
      splitBlocks css' false = .ok blocks' →
      splitBlocks (css ++ css') false = .ok (blocks ++ blocks')) := by
  refine ⟨fun _ => splitBlocks_eq_ok_iff, fun hnone => ?_, fun index => ?_, ?_⟩
  · have hcuts := cutsTo_splitBlocks css
    generalize splitBlocks css false = result at hcuts ⊢
    cases hcuts with
    | @row blocks hrow => exact absurd ⟨blocks, hrow⟩ hnone
    | @left blocks fault hblocks hcss hleft =>
      refine ⟨fault, rfl, rfl, blocks.flatten, blocks, ⟨hblocks, rfl⟩, hcss, ?_⟩
      intro longer more hmore hbegins
      rw [← hcss] at hbegins
      exact hmore.length_le hblocks (fun _ hblock => hleft.not_prefix hblock) hbegins
  · exact exists_unmatched_iff css index
  · intro css' blocks blocks' h h'
    rw [splitBlocks_eq_ok_iff] at h h' ⊢
    exact h.append h'

/-- One block, and the same text with a closing brace too many behind it. -/
theorem splitBlocks_iff_row_stray :
    IsRow ['a', '{', '{', '}', '}'] [['a', '{', '{', '}', '}']] ∧
    (¬∃ blocks, IsRow ['a', '{', '{', '}', '}', '}', 'b'] blocks) ∧
    FallsAt ['a', '{', '{', '}', '}', '}', 'b'] 5 ∧
    ∃ fault, splitBlocks ['a', '{', '{', '}', '}', '}', 'b'] false = .error fault ∧
      (CompileFault.blocks fault).name = "UnbalancedRulesError".toList ∧
      ∃ front blocks, IsRow front blocks ∧
        front ++ fault.remainder = ['a', '{', '{', '}', '}', '}', 'b'] ∧
        ∀ longer more, IsRow longer more → longer <+: ['a', '{', '{', '}', '}', '}', 'b'] →
          longer.length ≤ front.length := by
  obtain ⟨hrow, -⟩ := splitBlocks_iff_row ['a', '{', '{', '}', '}']
  obtain ⟨hrows, hleft, hfalls, -⟩ := splitBlocks_iff_row ['a', '{', '{', '}', '}', '}', 'b']
  have hnone : ¬∃ blocks, IsRow ['a', '{', '{', '}', '}', '}', 'b'] blocks := by
    rintro ⟨blocks, hblocks⟩
    cases (hrows blocks).2 hblocks
  exact ⟨(hrow _).1 rfl, hnone, (hfalls 5).1 ⟨_, rfl⟩, hleft hnone⟩

end CssTemplate
