import CssTemplate.Proofs.Block.Refused
import CssTemplate.Proofs.Css.Blocks

/-!
# The heads of flat rules

Flat rules are written as heads with bodies in braces, and the heads of at-rules start with an at-sign
(`FlatRule.Headed`). Following such a text from where a rule can start, the heads in the order of their
opening braces (`FlatRule.heads`) decide what becomes of it: the head of an at-rule is refused if the
head before it is one of an at-rule too, also if that one has been closed. Otherwise the text leads to
where a rule can start again (`FlatRule.ends_text`).
-/

namespace CssTemplate.Css

/-! ## At-rules start with an at-sign -/

mutual

/-- The at-rules of a flat rule start with an at-sign. -/
def FlatRule.Headed : FlatRule → Prop
  | .style _ _ => True
  | .atRule head rules => head.head? = some '@' ∧ FlatRule.AllHeaded rules

/-- The same for all rules of a list. -/
def FlatRule.AllHeaded : List FlatRule → Prop
  | [] => True
  | rule :: rules => rule.Headed ∧ FlatRule.AllHeaded rules

end

/-- All rules of a list are headed if each of them is. -/
theorem FlatRule.allHeaded_iff {rules : List FlatRule} :
    FlatRule.AllHeaded rules ↔ ∀ rule ∈ rules, rule.Headed := by
  induction rules with
  | nil => simp [FlatRule.AllHeaded]
  | cons rule rules ih => simp [FlatRule.AllHeaded, ih]

/-- The rules of a body are headed if those inside it are. -/
theorem headed_rules {flat : Flattened} (h : ∀ rule ∈ flat.inner, rule.Headed)
    (selectors : List (List Char)) : ∀ rule ∈ flat.rules selectors, rule.Headed := by
  intro rule hrule
  rcases List.mem_append.1 hrule with hrule | hrule
  · split at hrule
    · cases hrule
    · rw [List.mem_singleton.1 hrule]
      trivial
  · exact h rule hrule

/-- The head of an at-rule starts with an at-sign. -/
theorem head?_of_atRuleHead {keyword head : List Char} {prelude : List Component}
    (h : atRuleHead keyword prelude = .ok head) : head.head? = some '@' := by
  obtain ⟨text, -, rfl⟩ := Except.map_eq_ok_iff.1 h
  rfl

mutual

/-- Flattening a node gives headed rules. -/
theorem NestedRule.headed_flatten {selectors : List (List Char)} {flat : Flattened} :
    ∀ node : NestedRule, node.flatten selectors = .ok flat → ∀ rule ∈ flat.inner, rule.Headed
  | .bare name, h => by
    cases h
    exact List.forall_mem_nil _
  | .declaration d, h => by
    obtain ⟨value, -, h⟩ := Except.bind_eq_ok_iff.1 h
    cases h
    exact List.forall_mem_nil _
  | .rule inner body, h => by
    obtain ⟨under, -, h⟩ := Except.bind_eq_ok_iff.1 h
    obtain ⟨nested, hnested, h⟩ := Except.bind_eq_ok_iff.1 h
    cases h
    exact headed_rules (headed_flattenBody body hnested) under
  | .atRule .conditional keyword prelude body, h => by
    obtain ⟨head, hhead, h⟩ := Except.bind_eq_ok_iff.1 h
    obtain ⟨nested, hnested, h⟩ := Except.bind_eq_ok_iff.1 h
    cases h
    exact List.forall_mem_singleton.2 ⟨head?_of_atRuleHead hhead,
      FlatRule.allHeaded_iff.2 (headed_rules (headed_flattenBody body hnested) selectors)⟩
  | .atRule .keyframes keyword prelude frames, h => by
    obtain ⟨head, hhead, h⟩ := Except.bind_eq_ok_iff.1 h
    obtain ⟨rules, hrules, h⟩ := Except.bind_eq_ok_iff.1 h
    cases h
    exact List.forall_mem_singleton.2 ⟨head?_of_atRuleHead hhead,
      FlatRule.allHeaded_iff.2 (headed_flattenFrames head frames hrules)⟩
  | .atRule .unscoped keyword prelude body, h => by
    obtain ⟨head, -, h⟩ := Except.bind_eq_ok_iff.1 h
    obtain ⟨nested, hnested, h⟩ := Except.bind_eq_ok_iff.1 h
    cases h
    simp only
    split
    · exact List.forall_mem_singleton.2 trivial
    · exact headed_rules (headed_flattenBody body hnested) [head]
  | .atStatement keyword prelude, h => by
    obtain ⟨head, -, h⟩ := Except.bind_eq_ok_iff.1 h
    cases h
  | .malformed what, h => by cases h

/-- Flattening a body gives headed rules. -/
theorem headed_flattenBody {selectors : List (List Char)} {flat : Flattened} :
    ∀ nodes : List NestedRule, flattenBody selectors nodes = .ok flat →
      ∀ rule ∈ flat.inner, rule.Headed
  | [], h => by
    cases h
    exact List.forall_mem_nil _
  | node :: nodes, h => by
    obtain ⟨first, hfirst, h⟩ := Except.bind_eq_ok_iff.1 h
    obtain ⟨rest, hrest, h⟩ := Except.bind_eq_ok_iff.1 h
    cases h
    exact List.forall_mem_append.2
      ⟨NestedRule.headed_flatten node hfirst, headed_flattenBody nodes hrest⟩

/-- Flattening frames gives headed rules. -/
theorem headed_flattenFrames (head : List Char) {rules : List FlatRule} :
    ∀ nodes : List NestedRule, flattenFrames head nodes = .ok rules → ∀ rule ∈ rules, rule.Headed
  | [], h => by
    cases h
    exact List.forall_mem_nil _
  | .rule selector body :: nodes, h => by
    obtain ⟨own, -, h⟩ := Except.bind_eq_ok_iff.1 h
    obtain ⟨flat, hflat, h⟩ := Except.bind_eq_ok_iff.1 h
    obtain ⟨rest, hrest, h⟩ := Except.bind_eq_ok_iff.1 h
    cases h
    exact List.forall_mem_append.2 ⟨headed_rules (headed_flattenBody body hflat) [own],
      headed_flattenFrames head nodes hrest⟩
  | .bare _ :: _, h => by cases h
  | .declaration _ :: _, h => by cases h
  | .atRule _ _ _ _ :: _, h => by cases h
  | .atStatement _ _ :: _, h => by cases h
  | .malformed _ :: _, h => by cases h

end

/-- Flattening a template gives headed rules. -/
theorem headed_flattenTemplate {context css : List Char} {rules : List FlatRule}
    (h : flattenTemplate context css = .ok rules) : ∀ rule ∈ rules, rule.Headed := by
  obtain ⟨content, -, h⟩ := Except.bind_eq_ok_iff.1 h
  obtain ⟨flat, hflat, h⟩ := Except.bind_eq_ok_iff.1 h
  cases h
  exact headed_rules (headed_flattenBody _ hflat) [context]

/-- A head that is written with an at-sign in front starts with it. -/
theorem startsAt_of_head? {head : List Char} (h : head.head? = some '@') : StartsAt head := by
  obtain ⟨rest, rfl⟩ := List.head?_eq_some_iff.1 h
  rfl

/-! ## Heads -/

mutual

/-- The heads in the text of a flat rule, in their order. -/
def FlatRule.heads : FlatRule → List (List Char)
  | .style selectors _ => [joinCommas selectors]
  | .atRule head rules => head :: headsOf rules

/-- The same for flat rules in a row. -/
def headsOf : List FlatRule → List (List Char)
  | [] => []
  | rule :: rules => rule.heads ++ headsOf rules

end

mutual

/-- What is read as a selector in a style rule opens an at-rule. This is what stands before the brace,
or between the braces if the selectors start with an at-sign. -/
def FlatRule.Misread : FlatRule → Prop
  | .style selectors declarations =>
    opensAtRule true (if StartsAt (joinCommas selectors) then declarationsText declarations
      else joinCommas selectors) = true
  | .atRule _ rules => FlatRule.AnyMisread rules

/-- The same for one of the rules of a list. -/
def FlatRule.AnyMisread : List FlatRule → Prop
  | [] => False
  | rule :: rules => rule.Misread ∨ FlatRule.AnyMisread rules

end

/-- Not both are heads of at-rules. -/
def Separated (a b : List Char) : Prop :=
  ¬(StartsAt a ∧ StartsAt b)

instance (a b : List Char) : Decidable (Separated a b) :=
  inferInstanceAs (Decidable (¬_))

/-- The heads of rules are those of each of them. -/
theorem mem_headsOf {head : List Char} {rules : List FlatRule} :
    head ∈ headsOf rules ↔ ∃ rule ∈ rules, head ∈ rule.heads := by
  induction rules with
  | nil => simp [headsOf]
  | cons rule rules ih => simp [headsOf, ih]

/-- Two lists in a row are chained if each is, the second one from the end of the first one. -/
theorem isChain_cons_append {α : Type} {R : α → α → Prop} {a : α} {l l' : List α} :
    List.IsChain R (a :: (l ++ l')) ↔ List.IsChain R (a :: l) ∧ List.IsChain R (l.getLastD a :: l') := by
  induction l generalizing a with
  | nil => simp
  | cons b l ih =>
    rw [List.cons_append, List.isChain_cons_cons, ih, List.isChain_cons_cons, List.getLastD_cons,
      and_assoc]

/-! ## Following a rule -/

section
variable {cursor final : Cursor} {before head body : List Char}

/-- A block is its head with the brace, and its body with the other one. -/
theorem blockText_eq (head body : List Char) :
    blockText head body = (head ++ ['{']) ++ (body ++ ['}']) := by
  simp [blockText]

/-- A head with a body in which no other heads are. -/
theorem ends_blockText (hafter : cursor.After before) (hhead : Braceless head)
    (hbody : Braceless body) :
    cursor.Ends (blockText head body)
      (opensAtRule true (if StartsAt head then body else head) = true ∨ ¬Separated before head)
      fun final => final.After head := by
  rw [blockText_eq]
  -- Behind a head with an at-sign the body is read as a selector, and so is the brace at its end.
  by_cases hat : StartsAt head
  · have hends := (hafter.ends_atRule hhead hat).append fun opened hopened =>
      (hopened.2.ends_selector hopened.1 hbody).append fun closed hclosed =>
        Cursor.ends_close (by rw [hclosed]; decide) (iff_of_true hclosed hat)
    refine hends.congr ?_
    simp [Separated, hat, hafter.selector_iff, or_comm]
  · have hends := (hafter.ends_head hhead hat).append fun opened hopened =>
      (Cursor.ends_declarations hopened hbody).append fun closed hclosed =>
        Cursor.ends_close (by rw [hclosed]; decide) (iff_of_false (by rw [hclosed]; decide) hat)
    refine hends.congr ?_
    simp [Separated, hat]

mutual

/-- **Which rules are refused.** -/
theorem FlatRule.ends_text {cursor : Cursor} {before : List Char} (hafter : cursor.After before) :
    ∀ rule : FlatRule, rule.Headed → rule.WrittenIn Braceless Braceless →
      cursor.Ends rule.text (rule.Misread ∨ ¬List.IsChain Separated (before :: rule.heads))
        fun final => final.After (rule.heads.getLastD before)
  | .style selectors declarations, _, hwritten => by
    rw [FlatRule.WrittenIn] at hwritten
    have hhead := writable_braceless.joinCommas hwritten.1
    have hbody : Braceless (declarationsText declarations) := writable_braceless.flatMap hwritten.2
    have hends := ends_blockText hafter hhead hbody
    rw [FlatRule.text, FlatRule.heads, FlatRule.Misread]
    refine hends.congr ?_
    rw [List.isChain_cons_cons]
    simp
  | .atRule head rules, hheaded, hwritten => by
    rw [FlatRule.Headed] at hheaded
    rw [FlatRule.WrittenIn] at hwritten
    have hat := startsAt_of_head? hheaded.1
    -- The first rule inside starts behind `head`, the rule after this one behind the last head inside.
    have hends := (hafter.ends_atRule hwritten.1 hat).append fun opened hopened =>
      (ends_rulesText ⟨hopened.2, iff_of_true hopened.1 hat⟩ rules hheaded.2 hwritten.2).append
        fun closed hclosed => Cursor.ends_close
          (by rcases hclosed.place with hplace | hplace <;> rw [hplace] <;> decide) hclosed.selector_iff
    rw [FlatRule.text, FlatRule.heads, FlatRule.Misread, blockText_eq, List.getLastD_cons]
    refine hends.congr ?_
    rw [List.isChain_cons_cons, hafter.selector_iff]
    simp only [Separated, hat]
    tauto

/-- The text of rules is refused exactly when a head in it is misread or two neighbours are not
apart. -/
theorem ends_rulesText {cursor : Cursor} {before : List Char} (hafter : cursor.After before) :
    ∀ rules : List FlatRule, FlatRule.AllHeaded rules → FlatRule.AllWrittenIn Braceless Braceless rules →
      cursor.Ends (rulesText rules)
        (FlatRule.AnyMisread rules ∨ ¬List.IsChain Separated (before :: headsOf rules))
        fun final => final.After ((headsOf rules).getLastD before)
  | [], _, _ => by
    rw [rulesText, headsOf, FlatRule.AnyMisread]
    refine (Cursor.ends_nil hafter).congr ?_
    simp
  | rule :: rules, hheaded, hwritten => by
    rw [FlatRule.AllHeaded] at hheaded
    rw [FlatRule.AllWrittenIn] at hwritten
    have hends := (FlatRule.ends_text hafter rule hheaded.1 hwritten.1).append fun next hnext =>
      ends_rulesText hnext rules hheaded.2 hwritten.2
    have hlast : (rule.heads ++ headsOf rules).getLastD before =
        (headsOf rules).getLastD (rule.heads.getLastD before) := by simp
    rw [rulesText, headsOf, FlatRule.AnyMisread, hlast]
    refine hends.congr ?_
    rw [isChain_cons_append]
    tauto

end

/-- The head of an at-rule leads to where a rule can start. -/
theorem ready_of_atRule (hready : cursor.Ready) (hhead : Braceless head)
    (hat : head.head? = some '@') (h : cursor.run (head ++ ['{']) = .ok final) : final.Ready :=
  ((hready.ends_atRule hhead (startsAt_of_head? hat)).post final h).2

/-- After rules, a rule can start. -/
theorem ready_of_run_rulesText (hready : cursor.Ready) (rules : List FlatRule)
    (hheaded : FlatRule.AllHeaded rules) (hwritten : FlatRule.AllWrittenIn Braceless Braceless rules)
    (h : cursor.run (rulesText rules) = .ok final) : final.Ready := by
  obtain ⟨before, hafter⟩ := hready.exists_after
  exact ((ends_rulesText hafter rules hheaded hwritten).post final h).toReady

end

end CssTemplate.Css
