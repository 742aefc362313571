import Mathlib
import CssTemplate.Proofs.Block.Braces
import CssTemplate.Proofs.Css.Written

/-!
# Flat rules and blocks

Cutting into blocks counts braces and knows no strings. So it finds the rules that flattening has
written if their braces stand around bodies: no brace in a selector or in the head of an at-rule, and
braces that pair up in the values of declarations (`cutBlocks_rulesText`).
-/

namespace CssTemplate.Css

/-- Trimming adds no characters. -/
theorem trim_subset (text : List Char) : trim text ⊆ text := by
  obtain ⟨tail, htail, -⟩ := exists_trimEnd_append isBlank (text.dropWhile isBlank)
  intro c hc
  refine (List.dropWhile_suffix isBlank).subset ?_
  rw [htail]
  exact List.mem_append_left _ hc

/-- Texts without braces are closed under what printers do. -/
theorem writable_braceless : Writable Braceless where
  punctuation _ hopen hclose := ⟨hopen, hclose⟩
  append := Braceless.append
  trim {text} h := h.of_subset (trim_subset text)

/-- Balanced texts are closed under what printers do. -/
theorem writable_balanced : Writable Balanced where
  punctuation _ hopen hclose := (Braceless.mk hopen hclose).balanced
  append := Balanced.append
  trim := by
    intro text h
    obtain ⟨tail, htail, hblank⟩ := exists_trimEnd_append isBlank (text.dropWhile isBlank)
    have hfront : Braceless (text.takeWhile isBlank) := braceless_takeWhile rfl rfl text
    have hparts : text = text.takeWhile isBlank ++ (trim text ++ tail) := by
      rw [trim, trimBy, ← htail, List.takeWhile_append_dropWhile]
    rw [hparts] at h
    exact h.of_append hfront (braceless_of_forall rfl rfl hblank)

/-! ## The blocks of flat rules -/

/-- A block with a head without braces and a balanced body is balanced. -/
theorem balanced_blockText {head body : List Char} (hhead : Braceless head) (hbody : Balanced body) :
    Balanced (blockText head body) := by
  rw [blockText, List.append_assoc]
  exact hhead.balanced.append hbody.braces

mutual

/-- A flat rule is a block: a head without braces and a body in which they pair up. -/
theorem FlatRule.WrittenIn.exists_block : ∀ rule : FlatRule, rule.WrittenIn Braceless Balanced →
    ∃ head body, rule.text = blockText head body ∧ Braceless head ∧ Balanced body
  | .style selectors declarations, h => by
    rw [FlatRule.WrittenIn] at h
    rw [FlatRule.text]
    exact ⟨_, _, rfl, writable_braceless.joinCommas h.1, writable_balanced.flatMap h.2⟩
  | .atRule head rules, h => by
    rw [FlatRule.WrittenIn] at h
    rw [FlatRule.text]
    exact ⟨_, _, rfl, h.1, FlatRule.AllWrittenIn.balanced rules h.2⟩

/-- Flat rules with heads without braces and balanced declarations are balanced. -/
theorem FlatRule.AllWrittenIn.balanced : ∀ rules : List FlatRule,
    FlatRule.AllWrittenIn Braceless Balanced rules → Balanced (rulesText rules)
  | [], _ => by
    rw [rulesText]
    rfl
  | rule :: rules, h => by
    rw [FlatRule.AllWrittenIn] at h
    obtain ⟨head, body, htext, hhead, hbody⟩ := FlatRule.WrittenIn.exists_block rule h.1
    rw [rulesText, htext]
    exact (balanced_blockText hhead hbody).append (FlatRule.AllWrittenIn.balanced rules h.2)

end

/-- Flat rules in a row are cut into the rules. -/
theorem cutBlocks_rulesText {rules : List FlatRule}
    (h : ∀ rule ∈ rules, rule.WrittenIn Braceless Balanced) (offset : Nat) :
    cutBlocks offset 0 [] (rulesText rules) = .ok (rules.map FlatRule.text) := by
  induction rules generalizing offset with
  | nil =>
    rw [rulesText]
    rfl
  | cons rule rules ih =>
    obtain ⟨hrule, hrules⟩ := List.forall_mem_cons.1 h
    obtain ⟨head, body, htext, hhead, hbody⟩ := FlatRule.WrittenIn.exists_block rule hrule
    have hblock : rule.text ++ rulesText rules = head ++ '{' :: (body ++ '}' :: rulesText rules) := by
      rw [htext, blockText]
      simp
    obtain ⟨next, hcut⟩ := cutBlocks_block hhead hbody offset (rulesText rules)
    rw [rulesText, hblock, hcut, ih hrules next, List.map_cons, htext, blockText]
    simp [Except.map]

end CssTemplate.Css
