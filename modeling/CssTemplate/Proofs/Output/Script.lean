import CssTemplate.Output.Script
import CssTemplate.Proofs.Config
import CssTemplate.Proofs.Output.HostPlace

/-!
# Rules as sums

The terms of a rule are written with a plus sign between them, and a text among them is written as a
string literal, whatever it holds. `cutSum` cuts such a sum at the plus signs that no string hides. It
finds the terms again (`cutSum_ruleScript`): a literal hides all that is in it, and there is no blank in
a name or a path.
-/

namespace CssTemplate

/-! ## Sums -/

/-- Parts with more characters at the front of the first one. -/
def prependPart (text : List Char) : List (List Char) → List (List Char)
  | [] => [text]
  | part :: parts => (text ++ part) :: parts

/-- The parts of a text that starts at the given place, cut at each plus sign between two blanks that
stands outside of strings and templates. -/
def cutSumFrom : HostPlace → List Char → List (List Char)
  | _, [] => [[]]
  | place, ' ' :: '+' :: ' ' :: rest =>
    if place.isOutside then [] :: cutSumFrom place rest
    else prependPart [' '] (cutSumFrom (place.step ' ') ('+' :: ' ' :: rest))
  | place, c :: rest => prependPart [c] (cutSumFrom (place.step c) rest)

/-- The parts of a sum. -/
def cutSum (text : List Char) : List (List Char) :=
  cutSumFrom .start text

section
variable {place : HostPlace} {c : Char} {text : List Char}

/-- A text in front of parts leaves some parts. -/
theorem prependPart_ne_nil (text : List Char) (parts : List (List Char)) :
    prependPart text parts ≠ [] := by
  cases parts <;> exact List.cons_ne_nil _ _

/-- Texts are put in front one after the other. -/
theorem prependPart_prependPart (text more : List Char) (parts : List (List Char)) :
    prependPart text (prependPart more parts) = prependPart (text ++ more) parts := by
  cases parts with
  | nil => rfl
  | cons part parts => rw [prependPart, prependPart, prependPart, List.append_assoc]

/-- A text is cut into one part at least. -/
theorem cutSumFrom_ne_nil (place : HostPlace) (text : List Char) : cutSumFrom place text ≠ [] := by
  unfold cutSumFrom
  split
  · exact List.cons_ne_nil _ _
  · split
    · exact List.cons_ne_nil _ _
    · exact prependPart_ne_nil _ _
  · exact prependPart_ne_nil _ _

/-- A character at which nothing is cut goes in front of the first part. -/
theorem cutSumFrom_cons (h : c = ' ' → place.isOutside = false) (rest : List Char) :
    cutSumFrom place (c :: rest) = prependPart [c] (cutSumFrom (place.step c) rest) := by
  rw [cutSumFrom.eq_def]
  split
  · next heq => cases heq
  · next heq =>
    cases heq
    rw [if_neg (by rw [h rfl]; exact Bool.false_ne_true)]
  · next heq =>
    cases heq
    rfl

/-- A text without an open blank belongs to one part. -/
theorem cutSumFrom_append
    (h : ∀ before rest, text = before ++ ' ' :: rest → (place.after before).isOutside = false)
    (rest : List Char) :
    cutSumFrom place (text ++ rest) = prependPart text (cutSumFrom (place.after text) rest) := by
  induction text generalizing place with
  | nil =>
    obtain ⟨part, parts, hparts⟩ := List.exists_cons_of_ne_nil (cutSumFrom_ne_nil place rest)
    rw [List.nil_append, HostPlace.after_nil, hparts, prependPart, List.nil_append]
  | cons c text ih =>
    have hc : c = ' ' → place.isOutside = false := by
      rintro rfl
      exact h [] text rfl
    have htext : ∀ before rest, text = before ++ ' ' :: rest →
        ((place.step c).after before).isOutside = false := by
      rintro before rest rfl
      exact h (c :: before) rest rfl
    rw [List.cons_append, cutSumFrom_cons hc, ih htext, prependPart_prependPart, HostPlace.after_cons]
    rfl

/-- Cutting a sum gives back the parts that were joined, if they hide their blanks. -/
theorem cutSum_intercalate {pieces : List (List Char)} (hne : pieces ≠ [])
    (h : ∀ piece ∈ pieces, Hides ' ' piece) : cutSum ([' ', '+', ' '].intercalate pieces) = pieces := by
  rw [cutSum]
  induction pieces with
  | nil => exact absurd rfl hne
  | cons piece pieces ih =>
    obtain ⟨hpiece, hpieces⟩ := List.forall_mem_cons.1 h
    cases pieces with
    | nil =>
      have hcut := cutSumFrom_append hpiece.hidden []
      rw [List.append_nil, hpiece.settled] at hcut
      rw [List.intercalate_singleton, hcut, cutSumFrom, prependPart, List.append_nil]
    | cons next pieces =>
      rw [List.intercalate_cons_cons, List.append_assoc, cutSumFrom_append hpiece.hidden, hpiece.settled]
      have hrest := ih (List.cons_ne_nil _ _) hpieces
      have hplus : ∀ rest, cutSumFrom .start ([' ', '+', ' '] ++ rest) = [] :: cutSumFrom .start rest :=
        fun rest => rfl
      rw [hplus, hrest, prependPart, List.append_nil]

end

/-! ## Terms -/

/-- A term that is written as a literal, as a parameter of the configuration or as a path. -/
def Term.IsSimple (config : Config) : Term → Prop
  | .text _ => True
  | .value .className => True
  | .value (.slot slot) => ∃ k, slot.name = config.slotStem ++ decimal k
  | .value (.expression e) => isPath (trim e.text) = true
  | .value (.foreign _) => False

section
variable {config : Config} {term : Term} {rule : Rule}

/-- There is no blank in a name or a path. -/
theorem hides_blank_of_name {text : List Char}
    (h : ∀ c ∈ text, continuesIdentifier c = true ∨ c = '.') : Hides ' ' text :=
  hides_of_name (by decide) fun c hc => (h c hc).imp_right .inl

/-- A simple term is written as a text that hides spaces. -/
theorem Term.IsSimple.exists_script (h : term.IsSimple config)
    (hclass : isIdentifier config.classParameter = true)
    (hstem : isIdentifier config.slotStem = true) :
    ∃ text, termScript config term = .ok text ∧ Hides ' ' text := by
  have hname : ∀ {name : List Char}, isIdentifier name = true → Hides ' ' name := fun hname =>
    hides_blank_of_name fun c hc => .inl (continuesIdentifier_of_mem hname c hc)
  cases term with
  | text text => exact ⟨_, rfl, hides_stringLiteral (by decide) text⟩
  | value handle =>
    cases handle with
    | className => exact ⟨_, rfl, hname hclass⟩
    | slot slot =>
      obtain ⟨k, hk⟩ := h
      exact ⟨_, rfl, hname (by rw [hk, config.isIdentifier_slot, hstem])⟩
    | expression e =>
      have hscript : expressionScript e = trim e.text := if_pos h
      exact ⟨_, rfl, hscript ▸ hides_blank_of_name (of_mem_path h)⟩
    | foreign value => cases h

/-- The texts of simple terms, which all hide their blanks. -/
theorem exists_mapM_termScript (h : ∀ term ∈ rule, term.IsSimple config)
    (hclass : isIdentifier config.classParameter = true)
    (hstem : isIdentifier config.slotStem = true) :
    ∃ pieces, rule.mapM (termScript config) = .ok pieces ∧ ∀ piece ∈ pieces, Hides ' ' piece := by
  induction rule with
  | nil => exact ⟨[], rfl, List.forall_mem_nil _⟩
  | cons term rule ih =>
    obtain ⟨hterm, hrule⟩ := List.forall_mem_cons.1 h
    obtain ⟨text, htext, hhides⟩ := hterm.exists_script hclass hstem
    obtain ⟨pieces, hpieces, hall⟩ := ih hrule
    refine ⟨text :: pieces, ?_, List.forall_mem_cons.2 ⟨hhides, hall⟩⟩
    rw [List.mapM_cons, htext, hpieces]
    rfl

end

/-- **Rules are cut into their terms again.** A text is written between two quotes. Between them there
is no control character, every quote stands after a backslash that escapes it, and undoing the escapes
gives the text. In a configuration with identifiers for its names, a rule of texts, parameters and paths
is written so that cutting it at the plus signs outside of strings gives its terms as they were written,
one by one; a rule without terms is written as the empty text. -/
theorem cutSum_ruleScript (config : Config) :
    (∀ text, ∃ body, termScript config (.text text) = .ok ('"' :: (body ++ ['"'])) ∧
      (∀ c ∈ body, 0x20 ≤ c.toNat) ∧
      (∀ before rest, body = before ++ '"' :: rest →
        (HostPlace.quoted .double []).after before = .escaped .double []) ∧
      unescape body = some text) ∧
    (isIdentifier config.classParameter = true → isIdentifier config.slotStem = true →
      ∀ rule : Rule, (∀ term ∈ rule, term.IsSimple config) →
        ∃ pieces script, rule.mapM (termScript config) = .ok pieces ∧
          ruleScript config rule = .ok script ∧
          (rule ≠ [] → cutSum script = pieces) ∧ (rule = [] → script = stringLiteral [])) := by
  constructor
  · intro text
    exact ⟨text.flatMap literalChar, rfl, le_toNat_of_mem_literal,
      fun _ _ h => HostPlace.escaped_of_literal h, unescape_literal text⟩
  · intro hclass hstem rule hrule
    obtain ⟨pieces, hpieces, hhides⟩ := exists_mapM_termScript hrule hclass hstem
    cases rule with
    | nil => exact ⟨pieces, _, hpieces, rfl, fun h => absurd rfl h, fun _ => rfl⟩
    | cons term rule =>
      have hne : pieces ≠ [] := by
        rintro rfl
        cases length_of_mapM_ok hpieces
      refine ⟨pieces, _, hpieces, ?_, fun _ => cutSum_intercalate hne hhides, fun h => by cases h⟩
      rw [ruleScript, hpieces]
      rfl

/-- A text with a quote, a backslash, a plus sign between blanks and a line end, between parameters and a
path. -/
theorem cutSum_ruleScript_hidden :
    ∃ script, ruleScript .default [.value .className, .text "\" + \\\n".toList,
        .value (.slot ⟨"expr0".toList, ⟨['x'], rfl⟩⟩),
        .value (.expression ⟨"theme.red".toList, by decide⟩)] = .ok script ∧
      cutSum script = ["cls".toList, "\"\\\" + \\\\\\n\"".toList, "expr0".toList,
        "theme.red".toList] := by
  have hsimple : ∀ term ∈ ([.value .className, .text "\" + \\\n".toList,
      .value (.slot ⟨"expr0".toList, ⟨['x'], rfl⟩⟩),
      .value (.expression ⟨"theme.red".toList, by decide⟩)] : Rule), term.IsSimple .default := by
    refine List.forall_mem_cons.2 ⟨trivial, List.forall_mem_cons.2 ⟨trivial, ?_⟩⟩
    refine List.forall_mem_cons.2 ⟨⟨0, by decide⟩, List.forall_mem_singleton.2 ?_⟩
    show isPath (trim "theme.red".toList) = true
    decide
  obtain ⟨pieces, script, hpieces, hscript, hcut, -⟩ :=
    (cutSum_ruleScript .default).2 (by decide) (by decide) _ hsimple
  refine ⟨script, hscript, (hcut (List.cons_ne_nil _ _)).trans ?_⟩
  exact (Except.ok.inj hpieces).symm

end CssTemplate
