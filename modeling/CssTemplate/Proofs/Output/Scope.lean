import CssTemplate.Proofs.Output.Shape
import Mathlib.Data.List.Chain
import Mathlib.Data.List.Nodup

/-!
# Scope and normal form of outputs

Every output that is built is closed: a function mentions its own parameters only, and the other
shapes mention none. The parameters are the class parameter and the names of the slots, all of them
different, and the slots stand in the order in which the rules first mention them. This last fact is
an invariant of the pass over a block that speaks of whatever is read later
(`TermRun.eraseDups_slots`).

Every rule is in normal form (`Rule.Normal`). It starts with a string, so joining its terms by `+`
joins strings from left to right. That the first term is no expression is due to the first step of
the classification: a marker that opens a block stands in a selector, and gets a dot before it
(`Cursor.place_of_step_start`).
-/

namespace CssTemplate

/-! ## Normal form -/

/-- The slot that a term takes its value from. -/
def Term.slot? : Term → Option Slot
  | .value (.slot slot) => some slot
  | _ => none

/-- The texts of a rule are as long as they can be: none is empty, and no two are neighbours. -/
structure Rule.Spaced (rule : Rule) : Prop where
  filled : .text [] ∉ rule
  apart : rule.IsChain fun a b => ¬ (a.isText = true ∧ b.isText = true)

/-- A rule whose texts are as long as they can be, and whose first term is a string: a text or the
class name. -/
structure Rule.Normal (rule : Rule) : Prop extends Rule.Spaced rule where
  first : ∀ term ∈ rule.head?, term.isText = true ∨ term.isClassName = true

section
variable {rule : Rule} {text : List Char}

/-- A text gives one term, unless it is empty. -/
theorem mem_textTerm {term : Term} : term ∈ textTerm text ↔ text ≠ [] ∧ term = .text text := by
  cases text with
  | nil => simp [textTerm]
  | cons c text => simp [textTerm]

/-- The rule of one text is spaced. -/
theorem Rule.Spaced.textTerm (text : List Char) : Rule.Spaced (textTerm text) where
  filled := fun h => by
    obtain ⟨hne, heq⟩ := mem_textTerm.1 h
    cases heq
    exact hne rfl
  apart := by
    cases text with
    | nil => exact .nil
    | cons c text => exact .singleton _

/-- A value separates the text before it from what follows it. -/
theorem Rule.Spaced.value (h : Rule.Spaced rule) (text : List Char) (handle : Handle) :
    Rule.Spaced (CssTemplate.textTerm text ++ .value handle :: rule) := by
  have hvalue : Rule.Spaced (.value handle :: rule) := by
    refine ⟨fun hmem => ?_, ?_⟩
    · cases hmem with
      | tail _ hmem => exact h.filled hmem
    · cases rule with
      | nil => exact .singleton _
      | cons term rule => exact .cons_cons (fun hboth => nomatch hboth.1) h.apart
  refine ⟨fun hmem => ?_, ?_⟩
  · rcases List.mem_append.1 hmem with hmem | hmem
    · exact (Rule.Spaced.textTerm text).filled hmem
    · exact hvalue.filled hmem
  · cases text with
    | nil => exact hvalue.apart
    | cons c text => exact .cons_cons (fun hboth => nomatch hboth.2) hvalue.apart

/-- The rule of one text is normal. -/
theorem Rule.Normal.textTerm (text : List Char) : Rule.Normal (CssTemplate.textTerm text) where
  toSpaced := .textTerm text
  first := by
    intro term hterm
    obtain ⟨-, rfl⟩ := mem_textTerm.1 (List.mem_of_mem_head? hterm)
    exact .inl rfl

end

/-! ## Rules of one pass -/

section
variable {m : Markers} {cursor next : Cursor} {run text block : List Char} {slots final : Slots}
  {rule : Rule}

/-- The rule of a run is spaced. -/
theorem TermRun.spaced (h : TermRun m cursor run slots text rule final) : Rule.Spaced rule := by
  induction h with
  | done => exact .textTerm _
  | text _ _ _ ih => exact ih
  | className _ _ _ ih => exact ih.value _ _
  | expression _ _ _ _ ih => exact ih.value _ _

/-- Some text stays some text before a reference to a class. -/
theorem leadText_ne_nil {role : MarkerRole} (h : text ≠ []) : leadText role text ≠ [] := by
  unfold leadText
  split
  · simp
  · exact h

/-- After a character of text, the next term is a text. -/
theorem TermRun.head?_of_run (h : TermRun m cursor run slots text rule final) (hrun : run ≠ []) :
    ∃ first, rule.head? = some (.text first) := by
  have hterm : ∀ {first : List Char}, first ≠ [] → ∀ more : Rule,
      ∃ text, (textTerm first ++ more).head? = some (.text text) := by
    intro first hfirst more
    cases first with
    | nil => exact absurd rfl hfirst
    | cons c first => exact ⟨_, rfl⟩
  have hreverse : ∀ {run : List Char}, run ≠ [] → run.reverse ≠ [] := fun h =>
    mt List.reverse_eq_nil_iff.1 h
  induction h with
  | done =>
    obtain ⟨first, hfirst⟩ := hterm (hreverse hrun) []
    exact ⟨first, by rwa [List.append_nil] at hfirst⟩
  | text _ _ _ ih => exact ih (List.cons_ne_nil _ _)
  | className => exact hterm (hreverse hrun) _
  | expression => exact hterm (leadText_ne_nil (hreverse hrun)) _

/-- A character outside ASCII that opens a block stands in a selector. -/
theorem Cursor.place_of_step_start {c : Char} (hc : 0x80 ≤ c.toNat)
    (h : Cursor.step {} c = .ok next) : next.place = .selector := by
  have hne : ∀ a : Char, a.toNat < 0x80 → c ≠ a := by
    rintro a ha rfl
    omega
  have hstep : Place.step .outside c none = .ok .selector := by
    simp [Place.step, Place.enter, hne '@' (by decide), hne '}' (by decide), hne ' ' (by decide),
      hne '{' (by decide)]
  obtain ⟨place, hplace, rfl⟩ := Except.map_eq_ok_iff.1 h
  rw [hstep] at hplace
  cases hplace
  rfl

/-- The rule of a whole block starts with a text or the class name. -/
theorem TermRun.first (hbase : 0x80 ≤ m.base) (h : TermRun m {} [] slots block rule final) :
    ∀ term ∈ rule.head?, term.isText = true ∨ term.isClassName = true := by
  cases h with
  | done => nofun
  | text _ _ h =>
    obtain ⟨first, hfirst⟩ := h.head?_of_run (List.cons_ne_nil _ _)
    rw [hfirst]
    rintro term ⟨⟩
    exact .inl rfl
  | className =>
    rintro term ⟨⟩
    exact .inr rfl
  | @expression _ next _ _ _ _ c _ role _ hstep he hrole _ =>
    obtain ⟨hcontains, hclass⟩ := Markers.contains_of_occurrence he
    have hc : 0x80 ≤ c.toNat := Nat.le_trans hbase (Markers.contains_iff.1 hcontains).1
    have hreference : role = .classReference := by
      rw [← hrole, FoundMarker.role_eq_classReference_iff _ hclass]
      exact Cursor.place_of_step_start hc hstep
    subst hreference
    rintro term ⟨⟩
    exact .inl rfl

/-- The rule of a block starts with a string: nothing is read as a value before the first text. -/
theorem TermRun.normal (hbase : 0x80 ≤ m.base) (h : TermRun m {} [] slots block rule final) :
    Rule.Normal rule :=
  ⟨h.spaced, h.first hbase⟩

/-- The rules of a run are normal. -/
theorem RuleRuns.normal {blocks : List (List Char)} {rules : List Rule} (hbase : 0x80 ≤ m.base)
    (h : RuleRuns m slots blocks rules final) : ∀ rule ∈ rules, Rule.Normal rule := by
  induction h with
  | nil => nofun
  | cons h _ ih => exact List.forall_mem_cons.2 ⟨h.normal hbase, ih⟩

end

/-! ## The order of the slots -/

/-- An element that was there before adds nothing to a list without repetitions. -/
theorem eraseDups_append_cons {α : Type} [BEq α] [LawfulBEq α] {a : α} {front : List α}
    (h : a ∈ front) (more : List α) :
    (front ++ a :: more).eraseDups = (front ++ more).eraseDups := by
  rw [List.eraseDups_append, List.eraseDups_append]
  congr 2
  simp [List.removeAll, h]

/-- A list without repetitions is left as it is. -/
theorem eraseDups_of_nodup {α : Type} [BEq α] [LawfulBEq α] {l : List α} (h : l.Nodup) :
    l.eraseDups = l := by
  induction l with
  | nil => rfl
  | cons a l ih =>
    obtain ⟨ha, hl⟩ := List.nodup_cons.1 h
    have hfilter : l.filter (fun b => !b == a) = l := by
      rw [List.filter_eq_self]
      intro b hb
      simpa using fun heq : b = a => ha (heq ▸ hb)
    rw [List.eraseDups_cons, hfilter, ih hl]

section
variable {m : Markers} {cursor : Cursor} {run text : List Char} {slots final : Slots} {rule : Rule}

/-- A text refers to no slot. -/
theorem filterMap_slot?_textTerm (text : List Char) (terms : Rule) :
    (textTerm text ++ terms).filterMap Term.slot? = terms.filterMap Term.slot? := by
  cases text with
  | nil => rfl
  | cons c text => rfl

/-- A pass binds the slots that its terms mention first, in this order. The statement speaks of all
slots mentioned later, so that passes can follow each other. -/
theorem TermRun.eraseDups_slots (h : TermRun m cursor run slots text rule final) (more : List Slot) :
    (slots.toList ++ (rule.filterMap Term.slot? ++ more)).eraseDups =
      (final.toList ++ more).eraseDups := by
  induction h with
  | done cursor run slots =>
    rw [← List.append_nil (textTerm _), filterMap_slot?_textTerm]
    rfl
  | text _ _ _ ih => exact ih
  | className _ _ _ ih =>
    rw [filterMap_slot?_textTerm, List.filterMap_cons_none rfl]
    exact ih
  | @expression _ _ run _ slots _ c e role rule _ _ _ _ ih =>
    have hslot : ∀ slot : Slot, (.value (.slot slot) :: rule : Rule).filterMap Term.slot? =
        slot :: rule.filterMap Term.slot? := fun slot => rfl
    rw [filterMap_slot?_textTerm]
    rcases slots.handle_cases [c] e role.takesSlot with
      ⟨slot, hget, heq⟩ | ⟨-, -, heq⟩ | ⟨-, -, heq⟩ <;> rw [heq] at ih ⊢ <;> simp only at ih ⊢
    · -- a slot that is bound already is mentioned again
      have hmem : slot ∈ slots.toList := List.mem_map.2 ⟨_, Slots.mem_of_get? hget, rfl⟩
      rw [hslot, List.cons_append, eraseDups_append_cons hmem]
      exact ih
    · have hpush : (slots.push [c] e).toList = slots.toList ++ [⟨slots.nextName, e⟩] := by
        simp [Slots.push, Slots.toList]
      rw [hpush, List.append_assoc] at ih
      rw [hslot]
      exact ih
    · rw [List.filterMap_cons_none rfl]
      exact ih

/-- The slots of the table are those of the rules, in the order of their first use. -/
theorem RuleRuns.eraseDups_slots {blocks : List (List Char)} {rules : List Rule}
    (h : RuleRuns m slots blocks rules final) :
    (slots.toList ++ rules.flatten.filterMap Term.slot?).eraseDups = final.toList.eraseDups := by
  induction h with
  | nil => rw [List.flatten_nil, List.filterMap_nil, List.append_nil]
  | cons h _ ih => rw [List.flatten_cons, List.filterMap_append, h.eraseDups_slots, ih]

/-- The slots of a valid table are different. -/
theorem Slots.Valid.nodup (h : slots.Valid m) : slots.toList.Nodup :=
  List.Nodup.of_map _ h.names_nodup

/-- The slots bound by the blocks of a template are those that its rules mention, in the order of
their first mention. -/
theorem RuleRuns.slots_eq {stem : List Char} {blocks : List (List Char)} {rules : List Rule}
    (h : RuleRuns m { stem := stem } blocks rules final) :
    (rules.flatten.filterMap Term.slot?).eraseDups = final.toList := by
  have hvalid := h.valid (.empty m stem)
  rw [← eraseDups_of_nodup hvalid.nodup, ← h.eraseDups_slots]
  rfl

end

/-! ## Scope -/

/-- A function in which every name is bound once and in order. -/
structure Output.Scoped (config : Config) (o : Output) : Prop where
  parameters : o.parameters = config.classParameter :: o.slots.map Slot.name
  named : ∀ (k : Nat) slot, o.slots[k]? = some slot → slot.name = config.slotStem ++ decimal k
  distinct : o.parameters.Nodup
  /-- There is one argument for each slot, its expression. -/
  arguments : ∀ k : Nat, o.arguments[k]? = o.slots[k]?.map Slot.occurrence
  bound : ∀ rule ∈ o.rules, ∀ slot, .value (.slot slot) ∈ rule → slot ∈ o.slots
  /-- The slots stand in the order in which the rules mention them first. -/
  mentioned : (o.rules.flatten.filterMap Term.slot?).eraseDups = o.slots

/-- An output without parameters, which mentions none. -/
structure Output.Closed (o : Output) : Prop where
  parameters : o.parameters = []
  slots : o.slots = []
  className : ∀ rule ∈ o.rules, .value .className ∉ rule
  slot : ∀ rule ∈ o.rules, ∀ slot, .value (.slot slot) ∉ rule
  static : o.shape ≠ .keyframe → ∀ rule ∈ o.rules, ∀ term ∈ rule, term.isText = true

/-- A slot in a rule is among the slots of the rules. -/
theorem mem_filterMap_slot? {rules : List Rule} {rule : Rule} {slot : Slot} (hrule : rule ∈ rules)
    (hslot : .value (.slot slot) ∈ rule) : slot ∈ rules.flatten.filterMap Term.slot? :=
  List.mem_filterMap.2 ⟨_, List.mem_flatten.2 ⟨rule, hrule, hslot⟩, rfl⟩

section
variable {config : Config} {m : Markers} {blocks : List (List Char)} {rules : List Rule}
  {slots final : Slots} {o : Output}

/-- Everything that can come of building an output: the terms of its blocks, empty ones left out,
and then one of three ways to go on. -/
theorem of_buildOutput {asKeyframes : Bool} (h : buildOutput config m asKeyframes blocks = .ok o) :
    ∃ rules final filled, RuleRuns m { stem := config.slotStem } filled rules final ∧
      (asKeyframes = true ∧ keyframeOutput rules final = .ok o ∨
        asKeyframes = false ∧ Static m filled ∧ staticOutput filled rules = .ok o ∨
        asKeyframes = false ∧ functionalOutput config rules final = .ok o) := by
  rw [buildOutput] at h
  rcases rulesTerms_cases m (blocks.filter fun block => !block.isEmpty)
      { stem := config.slotStem } with ⟨-, herr⟩ | ⟨-, rules, final, hok, hruns⟩
  · rw [herr] at h
    cases h
  · simp only [hok, Except.bind_ok] at h
    refine ⟨rules, final, _, hruns, ?_⟩
    cases asKeyframes with
    | true => exact .inl ⟨rfl, h⟩
    | false =>
      simp only [Bool.false_eq_true, if_false] at h
      split at h
      · next hstatic => exact .inr (.inl ⟨rfl, static_iff.1 hstatic, h⟩)
      · exact .inr (.inr ⟨rfl, h⟩)

/-- The rules of a run refer to the parameters and slots of their table only. -/
theorem RuleRuns.scoped (hruns : RuleRuns m { stem := config.slotStem } blocks rules final)
    (h : functionalOutput config rules final = .ok o) : o.Scoped config := by
  obtain ⟨-, hrules, hparameters, hslots⟩ := of_makeOutput h
  have hvalid := hruns.valid (.empty m config.slotStem)
  have hstem : final.stem = config.slotStem := hruns.stem_slots
  have hmentioned : (o.rules.flatten.filterMap Term.slot?).eraseDups = o.slots := by
    rw [hrules, hslots, hruns.slots_eq]
  refine ⟨by rw [hparameters, hslots], ?_, ?_, fun k => List.getElem?_map, ?_, hmentioned⟩
  · rw [hslots, ← hstem]
    exact hvalid.named
  · rw [hparameters]
    refine List.nodup_cons.2 ⟨fun hname => ?_, hvalid.names_nodup⟩
    obtain ⟨slot, hslot, hname⟩ := List.mem_map.1 hname
    exact hvalid.name_ne_classParameter config hstem slot hslot hname
  · intro rule hrule slot hslot
    rw [← hmentioned, List.mem_eraseDups]
    exact mem_filterMap_slot? hrule hslot

/-- The output of an animation is closed. -/
theorem RuleRuns.closed_keyframeOutput
    (hruns : RuleRuns m { stem := config.slotStem } blocks rules final)
    (h : keyframeOutput rules final = .ok o) : o.shape = .keyframe ∧ o.rules = rules ∧ o.Closed := by
  unfold keyframeOutput at h
  split at h
  · cases h
  · next hsize =>
    have hnone : final.toList = [] := by
      have hsize : final.entries.length = 0 := Decidable.not_not.1 hsize
      rw [Slots.toList, List.eq_nil_of_length_eq_zero hsize]
      rfl
    split at h
    · next rule =>
      split at h
      · cases h
      · next hclass =>
        obtain ⟨hshape, hrules, hparameters, hslots⟩ := of_makeOutput h
        refine ⟨hshape, hrules, hparameters, hslots, ?_, ?_, fun hne => absurd hshape hne⟩
        · rw [hrules]
          refine List.forall_mem_singleton.2 fun hmem => hclass ?_
          exact List.any_eq_true.2 ⟨_, hmem, rfl⟩
        · rw [hrules]
          intro rule hrule slot hslot
          have hmem := mem_filterMap_slot? hrule hslot
          rw [← List.mem_eraseDups, hruns.slots_eq, hnone] at hmem
          cases hmem
    · cases h

/-- One text between braces stays one text, or none. -/
theorem textTerm_of_unbraced {text : List Char} {texts : List (List Char)}
    (h : unbraced [text] = .ok texts) : ∃ inner, texts.map Term.text = textTerm inner := by
  obtain ⟨opened, hopened, h⟩ := Except.bind_eq_ok_iff.1 h
  obtain ⟨closed, hclosed, h⟩ := Except.bind_eq_ok_iff.1 h
  cases h
  obtain ⟨body, rfl⟩ : ∃ body, opened = [body] := by
    unfold dropOpening at hopened
    split at hopened
    · cases hopened
    · next heq =>
      cases heq
      cases hopened
      exact ⟨_, rfl⟩
    · cases hopened
  unfold dropClosing at hclosed
  simp only [List.getLast?_singleton] at hclosed
  split at hclosed
  · cases hclosed
    refine ⟨body.dropLast, ?_⟩
    cases body.dropLast <;> simp [textTerm]
  · cases hclosed

/-- A static rule is at most one text. -/
theorem TermRun.textTerm_of_staticRule {block rest : List Char} {rule static : Rule}
    {collapse : Bool} (h : TermRun m {} [] slots block rule final) (hocc : m.occurrences = [])
    (hfirst : ClassFirst m block rest) (hstatic : staticRule collapse rule = .ok static) :
    ∃ text, static = textTerm text := by
  rw [h.rule_of_classFirst hocc hfirst, staticRule, staticTexts_classFirst, Except.bind_ok] at hstatic
  cases collapse with
  | false =>
    cases hstatic
    refine ⟨rest, ?_⟩
    cases rest <;> rfl
  | true =>
    obtain ⟨texts, htexts, hstatic⟩ := Except.bind_eq_ok_iff.1 hstatic
    cases hstatic
    cases rest with
    | nil => cases htexts
    | cons c rest => exact textTerm_of_unbraced htexts

/-- Rules without expressions collapse to one text each. -/
theorem RuleRuns.textTerm_of_staticRules {collapse : Bool} {statics : List Rule}
    (h : RuleRuns m slots blocks rules final) (hstatic : Static m blocks)
    (hrules : rules.mapM (staticRule collapse) = .ok statics) :
    ∀ rule ∈ statics, ∃ text, rule = textTerm text := by
  induction h generalizing statics with
  | nil =>
    cases hrules
    nofun
  | @cons slots next final block blocks rule rules hrun _ ih =>
    rw [List.mapM_cons] at hrules
    obtain ⟨static, hrule, hrules⟩ := Except.bind_eq_ok_iff.1 hrules
    obtain ⟨more, hmore, hrules⟩ := Except.bind_eq_ok_iff.1 hrules
    cases hrules
    obtain ⟨rest, hfirst⟩ := hstatic.2 block (.head _)
    exact List.forall_mem_cons.2 ⟨hrun.textTerm_of_staticRule hstatic.1 hfirst hrule,
      ih ⟨hstatic.1, fun b hb => hstatic.2 b (.tail _ hb)⟩ hmore⟩

/-- The output of blocks without expressions is closed and made of texts. -/
theorem RuleRuns.closed_staticOutput (hruns : RuleRuns m slots blocks rules final)
    (hstatic : Static m blocks) (h : staticOutput blocks rules = .ok o) :
    o.shape ≠ .functional ∧ (∀ rule ∈ o.rules, ∃ text, rule = textTerm text) ∧ o.Closed := by
  obtain ⟨statics, hstatics, h⟩ := Except.bind_eq_ok_iff.1 h
  obtain ⟨hshape, hrules, hparameters, hslots⟩ := of_makeOutput h
  have htexts := hruns.textTerm_of_staticRules hstatic hstatics
  rw [← hrules] at htexts
  have htext : ∀ rule ∈ o.rules, ∀ term ∈ rule, term.isText = true := by
    intro rule hrule term hterm
    obtain ⟨text, rfl⟩ := htexts rule hrule
    obtain ⟨-, rfl⟩ := mem_textTerm.1 hterm
    rfl
  refine ⟨?_, htexts, hparameters, hslots, ?_, ?_, fun _ => htext⟩
  · rw [hshape]
    split <;> decide
  · intro rule hrule hmem
    exact absurd (htext rule hrule _ hmem) (by decide)
  · intro rule hrule slot hmem
    exact absurd (htext rule hrule _ hmem) Bool.false_ne_true

end

/-- **Outputs are closed and in normal form.** In a function, parameters are the class parameter and
the numbered slots, all different, in the order of their first mention, and every slot in a rule is
one of them; all other outputs are without parameters and mention none. Every rule starts with a
string and has its texts joined. -/
theorem scoped_buildOutput (config : Config) {m : Markers} (hbase : 0x80 ≤ m.base)
    {asKeyframes : Bool} {blocks : List (List Char)} {o : Output}
    (h : buildOutput config m asKeyframes blocks = .ok o) :
    (o.shape = .functional → o.Scoped config) ∧ (o.shape ≠ .functional → o.Closed) ∧
      ∀ rule ∈ o.rules, Rule.Normal rule := by
  obtain ⟨rules, final, filled, hruns, hcases⟩ := of_buildOutput h
  rcases hcases with ⟨-, h⟩ | ⟨-, hstatic, h⟩ | ⟨-, h⟩
  · obtain ⟨hshape, hrules, hclosed⟩ := hruns.closed_keyframeOutput h
    refine ⟨fun hf => ?_, fun _ => hclosed, ?_⟩
    · rw [hshape] at hf
      cases hf
    · rw [hrules]
      exact hruns.normal hbase
  · obtain ⟨hshape, htexts, hclosed⟩ := hruns.closed_staticOutput hstatic h
    refine ⟨fun hf => absurd hf hshape, fun _ => hclosed, fun rule hrule => ?_⟩
    obtain ⟨text, rfl⟩ := htexts rule hrule
    exact .textTerm text
  · obtain ⟨hshape, hrules, -, -⟩ := of_makeOutput h
    refine ⟨fun _ => hruns.scoped h, fun hne => absurd hshape hne, ?_⟩
    rw [hrules]
    exact hruns.normal hbase

/-- An expression that stands in a body before it stands for a class: the slot is bound at its second
mention, and the third one shares it. -/
theorem scoped_buildOutput_value_then_class :
    ∃ o, buildOutput .default ⟨230, [⟨['x'], rfl⟩]⟩ false
        [['æ', '{', 'ç', '}'], ['ç', '{', 'ç', '}']] = .ok o ∧
      o.shape = .functional ∧ o.slots = [⟨"expr0".toList, ⟨['x'], rfl⟩⟩] ∧
      o.Scoped .default ∧ ∀ rule ∈ o.rules, Rule.Normal rule := by
  refine ⟨_, rfl, rfl, by decide, ?_⟩
  obtain ⟨hscoped, -, hnormal⟩ := scoped_buildOutput .default (by decide)
    (show buildOutput .default ⟨230, [⟨['x'], rfl⟩]⟩ false
      [['æ', '{', 'ç', '}'], ['ç', '{', 'ç', '}']] = _ from rfl)
  exact ⟨hscoped rfl, hnormal⟩

end CssTemplate
