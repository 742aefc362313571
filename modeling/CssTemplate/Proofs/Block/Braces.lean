import CssTemplate.Block.Split
import CssTemplate.Proofs.Except
import CssTemplate.Text.Blank

/-!
# Braces that pair up

`braceDepth` follows the depth of the braces through a text, and a text is `Balanced` if it never
falls below its start and comes back to it. Cutting into blocks passes over a balanced text inside a
block, and over a text without braces anywhere. So a block, a head without braces and a balanced
body, is cut off behind the brace that closes it (`cutBlocks_block`).
-/

namespace CssTemplate

/-- A text without braces. -/
structure Braceless (text : List Char) : Prop where
  opening : '{' ∉ text
  closing : '}' ∉ text

instance (text : List Char) : Decidable (Braceless text) :=
  decidable_of_iff ('{' ∉ text ∧ '}' ∉ text) ⟨fun h => ⟨h.1, h.2⟩, fun h => ⟨h.1, h.2⟩⟩

/-- A text has no braces if its first character is none and its rest has none. -/
theorem braceless_cons {c : Char} {text : List Char} :
    Braceless (c :: text) ↔ c ≠ '{' ∧ c ≠ '}' ∧ Braceless text := by
  constructor
  · rintro ⟨hopen, hclose⟩
    exact ⟨fun h => hopen (h ▸ .head _), fun h => hclose (h ▸ .head _),
      fun h => hopen (.tail _ h), fun h => hclose (.tail _ h)⟩
  · rintro ⟨hopen, hclose, htext⟩
    refine ⟨fun h => ?_, fun h => ?_⟩
    · rcases List.mem_cons.1 h with h | h
      · exact hopen h.symm
      · exact htext.opening h
    · rcases List.mem_cons.1 h with h | h
      · exact hclose h.symm
      · exact htext.closing h

/-- A part of a text without braces has none. -/
theorem Braceless.of_subset {text part : List Char} (h : Braceless text) (hpart : part ⊆ text) :
    Braceless part :=
  ⟨fun hc => h.opening (hpart hc), fun hc => h.closing (hpart hc)⟩

/-- Two texts without braces have none together. -/
theorem Braceless.append {a b : List Char} (ha : Braceless a) (hb : Braceless b) :
    Braceless (a ++ b) := by
  refine ⟨fun h => ?_, fun h => ?_⟩
  · exact (List.mem_append.1 h).elim ha.opening hb.opening
  · exact (List.mem_append.1 h).elim ha.closing hb.closing

/-- Characters of a class without braces. -/
theorem braceless_of_forall {p : Char → Bool} (hopen : p '{' = false) (hclose : p '}' = false)
    {text : List Char} (h : ∀ c ∈ text, p c = true) : Braceless text := by
  refine ⟨fun hmem => ?_, fun hmem => ?_⟩
  · exact absurd (h _ hmem) (Bool.eq_false_iff.1 hopen)
  · exact absurd (h _ hmem) (Bool.eq_false_iff.1 hclose)

/-- A run that braces end has none. -/
theorem braceless_takeWhile {p : Char → Bool} (hopen : p '{' = false) (hclose : p '}' = false)
    (text : List Char) : Braceless (text.takeWhile p) :=
  braceless_of_forall hopen hclose fun c hc => List.all_eq_true.1 List.all_takeWhile c hc

/-! ## Depth -/

/-- The depth of the braces after a text that starts at the given depth, unless a closing brace
closes nothing. -/
def braceDepth (depth : Nat) : List Char → Option Nat
  | [] => some depth
  | c :: rest =>
    if c = '}' then
      match depth with
      | 0 => none
      | depth + 1 => braceDepth depth rest
    else braceDepth (if c = '{' then depth + 1 else depth) rest

/-- A closing brace goes one level up. -/
theorem braceDepth_close (depth : Nat) (rest : List Char) :
    braceDepth (depth + 1) ('}' :: rest) = braceDepth depth rest :=
  rfl

/-- Any other character goes one level down or stays. -/
theorem braceDepth_cons {c : Char} (hc : c ≠ '}') (depth : Nat) (rest : List Char) :
    braceDepth depth (c :: rest) = braceDepth (if c = '{' then depth + 1 else depth) rest := by
  rw [braceDepth.eq_def]
  exact if_neg hc

/-- The second of two texts starts at the depth that the first one leaves. -/
theorem braceDepth_append (depth : Nat) (a b : List Char) :
    braceDepth depth (a ++ b) = (braceDepth depth a).bind (braceDepth · b) := by
  induction a generalizing depth with
  | nil => rfl
  | cons c a ih =>
    by_cases hc : c = '}'
    · subst hc
      cases depth with
      | zero => rfl
      | succ depth => exact ih depth
    · rw [List.cons_append, braceDepth_cons hc, braceDepth_cons hc]
      exact ih _

/-- A text without braces keeps the depth. -/
theorem braceDepth_braceless {text : List Char} (h : Braceless text) (depth : Nat) :
    braceDepth depth text = some depth := by
  induction text with
  | nil => rfl
  | cons c text ih =>
    obtain ⟨hopen, hclose, htext⟩ := braceless_cons.1 h
    rw [braceDepth_cons hclose, if_neg hopen, ih htext]

/-- More depth at the start is more depth at the end. -/
theorem braceDepth_add {depth final : Nat} {text : List Char} (h : braceDepth depth text = some final)
    (more : Nat) : braceDepth (depth + more) text = some (final + more) := by
  induction text generalizing depth with
  | nil =>
    cases h
    rfl
  | cons c text ih =>
    by_cases hc : c = '}'
    · subst hc
      cases depth with
      | zero => cases h
      | succ depth =>
        rw [Nat.add_right_comm, braceDepth_close]
        exact ih h
    · rw [braceDepth_cons hc] at h ⊢
      have hdepth : (if c = '{' then depth + more + 1 else depth + more) =
          (if c = '{' then depth + 1 else depth) + more := by
        split <;> omega
      rw [hdepth]
      exact ih h

/-- The braces of a text pair up. -/
def Balanced (text : List Char) : Prop :=
  braceDepth 0 text = some 0

instance (text : List Char) : Decidable (Balanced text) :=
  inferInstanceAs (Decidable (braceDepth 0 text = some 0))

/-- A balanced text keeps every depth. -/
theorem Balanced.depth {text : List Char} (h : Balanced text) (depth : Nat) :
    braceDepth depth text = some depth := by
  have hdepth := braceDepth_add h depth
  rwa [Nat.zero_add] at hdepth

/-- A text without braces is balanced. -/
theorem Braceless.balanced {text : List Char} (h : Braceless text) : Balanced text :=
  braceDepth_braceless h 0

/-- Two balanced texts are balanced together. -/
theorem Balanced.append {a b : List Char} (ha : Balanced a) (hb : Balanced b) :
    Balanced (a ++ b) := by
  rw [Balanced, braceDepth_append, ha.depth 0]
  exact hb.depth 0

/-- A balanced text stays balanced when it loses text without braces at its ends. -/
theorem Balanced.of_append {front text tail : List Char} (h : Balanced (front ++ (text ++ tail)))
    (hfront : Braceless front) (htail : Braceless tail) : Balanced text := by
  rw [Balanced, braceDepth_append, braceDepth_braceless hfront, Option.bind_some,
    braceDepth_append] at h
  cases hdepth : braceDepth 0 text with
  | none =>
    rw [hdepth] at h
    cases h
  | some depth =>
    rw [hdepth, Option.bind_some, braceDepth_braceless htail] at h
    rw [Balanced, hdepth, h]

/-- A balanced text in braces is balanced. -/
theorem Balanced.braces {text : List Char} (h : Balanced text) :
    Balanced ('{' :: (text ++ ['}'])) := by
  have hinside : braceDepth 1 (text ++ ['}']) = some 0 := by
    rw [braceDepth_append, h.depth 1]
    rfl
  exact hinside

/-! ## Blocks -/

/-- Cutting goes on at any character but a closing brace. -/
theorem cutBlocks_cons {c : Char} (hc : c ≠ '}') (offset depth : Nat) (pending rest : List Char) :
    cutBlocks offset depth pending (c :: rest) =
      cutBlocks (offset + 1) (if c = '{' then depth + 1 else depth) (c :: pending) rest := by
  rw [cutBlocks.eq_def]
  exact if_neg hc

/-- Cutting passes over a text without braces. -/
theorem cutBlocks_braceless {text : List Char} (h : Braceless text) (offset depth : Nat)
    (pending rest : List Char) :
    cutBlocks offset depth pending (text ++ rest) =
      cutBlocks (offset + text.length) depth (text.reverse ++ pending) rest := by
  induction text generalizing offset pending with
  | nil => rfl
  | cons c text ih =>
    obtain ⟨hopen, hclose, htext⟩ := braceless_cons.1 h
    rw [List.cons_append, cutBlocks_cons hclose, if_neg hopen, ih htext, List.length_cons,
      List.reverse_cons, List.append_assoc, Nat.add_assoc, Nat.add_comm 1]
    rfl

/-- Inside a block, cutting passes over a text that does not close it. -/
theorem cutBlocks_inside {depth final : Nat} {text : List Char}
    (h : braceDepth depth text = some final) (offset : Nat) (pending rest : List Char) :
    cutBlocks offset (depth + 1) pending (text ++ rest) =
      cutBlocks (offset + text.length) (final + 1) (text.reverse ++ pending) rest := by
  induction text generalizing offset depth pending with
  | nil =>
    cases h
    rfl
  | cons c text ih =>
    have hlength : offset + (c :: text).length = offset + 1 + text.length := by
      rw [List.length_cons, Nat.add_assoc, Nat.add_comm 1]
    have hpending : (c :: text).reverse ++ pending = text.reverse ++ (c :: pending) := by simp
    rw [hlength, hpending, List.cons_append]
    by_cases hc : c = '}'
    · subst hc
      cases depth with
      | zero => cases h
      | succ depth => exact ih h _ _
    · rw [braceDepth_cons hc] at h
      have hdepth : (if c = '{' then depth + 1 + 1 else depth + 1) =
          (if c = '{' then depth + 1 else depth) + 1 := by
        split <;> rfl
      rw [cutBlocks_cons hc, hdepth]
      exact ih h _ _

/-- A block is cut off behind the brace that closes it. -/
theorem cutBlocks_block {head body : List Char} (hhead : Braceless head) (hbody : Balanced body)
    (offset : Nat) (rest : List Char) :
    ∃ next, cutBlocks offset 0 [] (head ++ '{' :: (body ++ '}' :: rest)) =
      (cutBlocks next 0 [] rest).map ((head ++ '{' :: (body ++ ['}'])) :: ·) := by
  refine ⟨offset + head.length + 1 + body.length + 1, ?_⟩
  rw [cutBlocks_braceless hhead, cutBlocks_cons (by decide), if_pos rfl, cutBlocks_inside hbody]
  have hblock : ('}' :: (body.reverse ++ '{' :: (head.reverse ++ []))).reverse =
      head ++ '{' :: (body ++ ['}']) := by
    simp
  rw [← hblock]
  rfl

end CssTemplate
