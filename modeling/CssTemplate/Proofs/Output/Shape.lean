import CssTemplate.Proofs.Block.Split
import CssTemplate.Proofs.Output.Terms

/-!
# The choice of a shape

`shape_buildOutput` says when the blocks of a split text have an output and which shape it has.
The only fault is that of the classification: every other check that building an output makes
holds by what the stages before it promise. A static block (`ClassFirst`) has the class marker in
front and no other marker, so its terms are the class name and at most one text
(`TermRun.rule_of_classFirst`); and a block ends with a closing brace, so the one text of a
collapsed rule has both braces to drop (`exists_unbraced`).
-/

namespace CssTemplate

/-- The block starts with the class marker, goes on with `rest`, and holds the class marker nowhere
else. -/
def ClassFirst (m : Markers) (block rest : List Char) : Prop :=
  ∃ c, block = c :: rest ∧ c.toNat = m.base ∧ ∀ x ∈ rest, x.toNat ≠ m.base

/-- No expressions, and every block has the class marker in front and nowhere else. -/
def Static (m : Markers) (blocks : List (List Char)) : Prop :=
  m.occurrences = [] ∧ ∀ block ∈ blocks, ∃ rest, ClassFirst m block rest

/-- No expressions, and a single block: the class marker, its declarations in braces, and the class
marker nowhere else. -/
def Collapsible (m : Markers) (blocks : List (List Char)) : Prop :=
  m.occurrences = [] ∧ ∃ block body, blocks = [block] ∧ ClassFirst m block ('{' :: body)

section
variable {m : Markers} {block rest : List Char} {blocks : List (List Char)}

/-- Blocks that collapse are static. -/
theorem Collapsible.static (h : Collapsible m blocks) : Static m blocks := by
  obtain ⟨hocc, block, body, rfl, hfirst⟩ := h
  refine ⟨hocc, fun b hb => ?_⟩
  cases List.mem_singleton.1 hb
  exact ⟨_, hfirst⟩

/-- The check of a static block. -/
theorem isStaticBlock_iff : isStaticBlock m block = true ↔ ∃ rest, ClassFirst m block rest := by
  cases block with
  | nil => exact iff_of_false Bool.false_ne_true (fun ⟨_, _, h, _⟩ => nomatch h)
  | cons c rest =>
    rw [isStaticBlock, Bool.and_eq_true, Markers.isClass_iff, Bool.not_eq_true',
      List.any_eq_false]
    simp only [Markers.isClass_iff]
    constructor
    · rintro ⟨hc, hrest⟩
      exact ⟨rest, c, rfl, hc, hrest⟩
    · rintro ⟨_, _, heq, hc, hrest⟩
      cases heq
      exact ⟨hc, hrest⟩

/-- The check of static blocks. -/
theorem static_iff : (m.occurrences.isEmpty && blocks.all (isStaticBlock m)) = true ↔
    Static m blocks := by
  simp only [Bool.and_eq_true, List.isEmpty_iff, List.all_eq_true, isStaticBlock_iff, Static]

/-- Blocks collapse when there is one of them, with an opening brace in the second place. -/
theorem collapses_iff : collapses blocks = true ↔ ∃ c body, blocks = [c :: '{' :: body] := by
  constructor
  · intro h
    unfold collapses at h
    split at h
    · next c body => exact ⟨c, body, rfl⟩
    · cases h
  · rintro ⟨c, body, rfl⟩
    rfl

/-- Among static blocks, those that collapse are the collapsible ones. -/
theorem Static.collapsible_iff (h : Static m blocks) :
    collapses blocks = true ↔ Collapsible m blocks := by
  rw [collapses_iff]
  constructor
  · rintro ⟨c, body, rfl⟩
    obtain ⟨rest, hrest⟩ := h.2 _ (.head _)
    have hbody : ClassFirst m (c :: '{' :: body) ('{' :: body) := by
      obtain ⟨_, heq, hc⟩ := hrest
      cases heq
      exact ⟨c, rfl, hc⟩
    exact ⟨h.1, _, body, rfl, hbody⟩
  · rintro ⟨-, block, body, rfl, c, rfl, -⟩
    exact ⟨c, body, rfl⟩

end

/-! ## Terms of static blocks -/

section
variable {m : Markers} {cursor : Cursor} {run text block rest : List Char} {slots final : Slots}
  {rule : Rule}

/-- A text without markers is written as one text. -/
theorem TermRun.rule_of_text (h : TermRun m cursor run slots text rule final)
    (htext : ∀ x ∈ text, m.contains x = false) : rule = textTerm (run.reverse ++ text) := by
  induction h with
  | done => rw [List.append_nil]
  | text _ _ _ ih =>
    rw [ih fun x hx => htext x (.tail _ hx), List.reverse_cons, List.append_assoc]
    rfl
  | className _ hc _ _ =>
    have := htext _ (.head _)
    rw [Markers.contains_of_isClass hc] at this
    cases this
  | expression _ he _ _ _ =>
    have := htext _ (.head _)
    rw [(Markers.contains_of_occurrence he).1] at this
    cases this

/-- Without expressions, the class marker is the only marker. -/
theorem Markers.contains_eq_isClass (hocc : m.occurrences = []) (c : Char) :
    m.contains c = m.isClass c := by
  rw [Bool.eq_iff_iff, contains_iff, isClass_iff, size, hocc, List.length_nil]
  omega

/-- The terms of a static block: the class name, and the rest as one text. -/
theorem TermRun.rule_of_classFirst (h : TermRun m cursor [] slots block rule final)
    (hocc : m.occurrences = []) (hfirst : ClassFirst m block rest) :
    rule = .value .className :: textTerm rest := by
  obtain ⟨c, rfl, hc, hrest⟩ := hfirst
  have hclass := Markers.isClass_iff.2 hc
  cases h with
  | text _ htext _ =>
    rw [Markers.contains_of_isClass hclass] at htext
    cases htext
  | className _ _ hrun =>
    rw [hrun.rule_of_text fun x hx => ?_]
    · rfl
    · rw [Markers.contains_eq_isClass hocc, Markers.isClass_eq_false_iff]
      exact hrest x hx
  | expression _ he _ _ =>
    rw [Markers.occurrence?_of_isClass hclass] at he
    cases he

end

/-! ## Static outputs -/

/-- The texts of the terms of a static block. -/
theorem staticTexts_classFirst (rest : List Char) :
    staticTexts (.value .className :: textTerm rest) =
      .ok (if rest.isEmpty then [] else [rest]) := by
  cases rest <;> rfl

/-- A text between braces can be taken out of them. -/
theorem exists_unbraced (body : List Char) (h : ('{' :: body).getLast? = some '}') :
    ∃ inner, unbraced ['{' :: body] = .ok inner := by
  have hbody : body.getLast? = some '}' := by
    cases body with
    | nil => cases h
    | cons c body => exact h
  refine ⟨[body.dropLast].filter fun text => !text.isEmpty, ?_⟩
  rw [unbraced, dropOpening, Except.bind_ok, dropClosing, List.getLast?_singleton]
  simp only [hbody]
  rfl

section
variable {m : Markers} {slots final : Slots} {block rest : List Char} {blocks : List (List Char)}
  {rule : Rule} {rules : List Rule} {collapse : Bool}

/-- A static block becomes a static rule, without its braces where the rest starts with one. -/
theorem exists_staticRule (hrun : TermRun m {} [] slots block rule final)
    (hocc : m.occurrences = []) (hfirst : ClassFirst m block rest)
    (hlast : block.getLast? = some '}') (hopen : collapse = true → ∃ body, rest = '{' :: body) :
    ∃ static, staticRule collapse rule = .ok static := by
  rw [hrun.rule_of_classFirst hocc hfirst, staticRule, staticTexts_classFirst, Except.bind_ok]
  cases collapse with
  | false => exact ⟨_, rfl⟩
  | true =>
    obtain ⟨body, rfl⟩ := hopen rfl
    obtain ⟨c, rfl, -⟩ := hfirst
    obtain ⟨inner, hinner⟩ := exists_unbraced body hlast
    refine ⟨inner.map .text, ?_⟩
    show (unbraced ['{' :: body] >>= fun texts => .ok (texts.map Term.text)) = _
    rw [hinner, Except.bind_ok]

/-- Static blocks become static rules, one for each. -/
theorem RuleRuns.exists_staticRules (h : RuleRuns m slots blocks rules final)
    (hstatic : Static m blocks) (hlast : ∀ block ∈ blocks, block.getLast? = some '}')
    (hopen : collapse = true → ∀ block ∈ blocks, ∀ rest, ClassFirst m block rest →
      ∃ body, rest = '{' :: body) :
    ∃ statics, rules.mapM (staticRule collapse) = .ok statics ∧ statics.length = blocks.length := by
  induction h with
  | nil => exact ⟨[], rfl, rfl⟩
  | @cons slots next final block blocks rule rules hrun _ ih =>
    obtain ⟨rest, hfirst⟩ := hstatic.2 block (.head _)
    obtain ⟨static, hrule⟩ := exists_staticRule hrun hstatic.1 hfirst (hlast block (.head _))
      (fun hc => hopen hc block (.head _) rest hfirst)
    obtain ⟨statics, hrules, hlength⟩ := ih
      ⟨hstatic.1, fun b hb => hstatic.2 b (.tail _ hb)⟩ (fun b hb => hlast b (.tail _ hb))
      (fun hc b hb => hopen hc b (.tail _ hb))
    refine ⟨static :: statics, ?_, congrArg (· + 1) hlength⟩
    rw [List.mapM_cons, hrule, Except.bind_ok, hrules]
    rfl

/-- Static blocks have a static output, collapsed exactly when they collapse. -/
theorem RuleRuns.exists_staticOutput (h : RuleRuns m slots blocks rules final)
    (hstatic : Static m blocks) (hlast : ∀ block ∈ blocks, block.getLast? = some '}') :
    ∃ o, staticOutput blocks rules = .ok o ∧
      o.shape = if collapses blocks then .singleCollapsed else .staticArray := by
  have hopen : collapses blocks = true → ∀ block ∈ blocks, ∀ rest, ClassFirst m block rest →
      ∃ body, rest = '{' :: body := by
    intro hc block hmem rest hfirst
    obtain ⟨c, body, rfl⟩ := collapses_iff.1 hc
    cases List.mem_singleton.1 hmem
    obtain ⟨_, heq, -⟩ := hfirst
    cases heq
    exact ⟨body, rfl⟩
  obtain ⟨statics, hstatics, hlength⟩ := h.exists_staticRules hstatic hlast hopen
  have hone : (if collapses blocks then Shape.singleCollapsed else .staticArray).isSingle = true →
      statics.length = 1 := by
    intro hsingle
    split at hsingle
    · next hc =>
      obtain ⟨c, body, rfl⟩ := collapses_iff.1 hc
      exact hlength
    · cases hsingle
  obtain ⟨o, ho⟩ := exists_makeOutput hone fun _ => ⟨rfl, rfl⟩
  refine ⟨o, ?_, (of_makeOutput ho).1⟩
  rw [staticOutput, hstatics, Except.bind_ok]
  exact ho

/-- Blocks with terms have an output: a static one, or a function. -/
theorem RuleRuns.exists_buildOutput {config : Config}
    (hblocks : (blocks.filter fun block => !block.isEmpty) = blocks)
    (hlast : ∀ block ∈ blocks, block.getLast? = some '}')
    (hok : rulesTerms m blocks { stem := config.slotStem } = .ok (rules, final))
    (h : RuleRuns m slots blocks rules final) :
    ∃ o, buildOutput config m false blocks = .ok o ∧
      (Static m blocks ∧ o.shape = (if collapses blocks then .singleCollapsed else .staticArray) ∨
        ¬ Static m blocks ∧ o.shape = .functional) := by
  rw [buildOutput_eq hblocks hok]
  by_cases hstatic : Static m blocks
  · obtain ⟨o, ho, hshape⟩ := h.exists_staticOutput hstatic hlast
    exact ⟨o, by rw [if_pos (static_iff.2 hstatic)]; exact ho, .inl ⟨hstatic, hshape⟩⟩
  · obtain ⟨o, ho⟩ : ∃ o, functionalOutput config rules final = .ok o :=
      exists_makeOutput (fun h => nomatch h) fun h => absurd rfl h
    refine ⟨o, ?_, .inr ⟨hstatic, (of_makeOutput ho).1⟩⟩
    rw [if_neg fun h => hstatic (static_iff.1 h)]
    exact ho

/-- Blocks of a split text are refused exactly if one of them cannot be classified. -/
theorem buildOutput_eq_error_iff (config : Config) (m : Markers) {css : List Char}
    (hsplit : splitBlocks css false = .ok blocks) :
    buildOutput config m false blocks = .error (.place .nestedAtRule) ↔
      ∃ block ∈ blocks, places block = .error .nestedAtRule := by
  have hblocks := filter_splitBlocks hsplit
  rcases rulesTerms_cases m blocks { stem := config.slotStem } with
    ⟨hbad, herr⟩ | ⟨hall, rules, final, hok, hruns⟩
  · exact iff_of_true (buildOutput_eq_error hblocks herr) hbad
  · obtain ⟨built, hbuilt, -⟩ :=
      hruns.exists_buildOutput hblocks (getLast?_of_mem_splitBlocks hsplit) hok
    refine iff_of_false (fun h => by rw [hbuilt] at h; cases h) ?_
    rintro ⟨block, hmem, hnested⟩
    obtain ⟨ps, hps⟩ := hall block hmem
    rw [hps] at hnested
    cases hnested

end

/-! ## The choice -/

/-- **The shape of an output is determined by its blocks.** Blocks of a split text have an output
unless one of them nests at-rules, and this is the only fault. The output collapses exactly when
the blocks do, is an array exactly when they are static and do not collapse, and is a function
otherwise. -/
theorem shape_buildOutput (config : Config) (m : Markers) {css : List Char}
    {blocks : List (List Char)} (hsplit : splitBlocks css false = .ok blocks) :
    (∀ f, buildOutput config m false blocks = .error f ↔
      f = .place .nestedAtRule ∧ ∃ block ∈ blocks, places block = .error .nestedAtRule) ∧
    ∀ o, buildOutput config m false blocks = .ok o →
      (o.shape = .singleCollapsed ↔ Collapsible m blocks) ∧
      (o.shape = .staticArray ↔ Static m blocks ∧ ¬ Collapsible m blocks) ∧
      (o.shape = .functional ↔ ¬ Collapsible m blocks ∧ ¬ Static m blocks) := by
  have hblocks := filter_splitBlocks hsplit
  rcases rulesTerms_cases m blocks { stem := config.slotStem } with
    ⟨hbad, herr⟩ | ⟨hall, rules, final, hok, hruns⟩
  · rw [buildOutput_eq_error hblocks herr]
    refine ⟨fun f => ⟨?_, ?_⟩, fun o ho => nomatch ho⟩
    · rintro h
      cases h
      exact ⟨rfl, hbad⟩
    · rintro ⟨rfl, -⟩
      rfl
  · obtain ⟨built, hbuilt, hshape⟩ :=
      hruns.exists_buildOutput hblocks (getLast?_of_mem_splitBlocks hsplit) hok
    rw [hbuilt]
    refine ⟨fun f => iff_of_false (fun h => nomatch h) ?_, ?_⟩
    · rintro ⟨-, block, hmem, hnested⟩
      obtain ⟨ps, hps⟩ := hall block hmem
      rw [hps] at hnested
      cases hnested
    · rintro o ho
      cases ho
      rcases hshape with ⟨hstatic, hshape⟩ | ⟨hstatic, hshape⟩
      · rw [hshape, ← hstatic.collapsible_iff]
        cases collapses blocks <;> simp [hstatic]
      · have hcollapsible : ¬ Collapsible m blocks := fun h => hstatic h.static
        rw [hshape]
        simp [hstatic, hcollapsible]

/-- Declarations of the class alone collapse, and nested at-rules are refused. -/
theorem shape_buildOutput_collapsed :
    (∃ o, buildOutput .default ⟨230, []⟩ false [['æ', '{', 'a', '}']] = .ok o ∧
      o.shape = .singleCollapsed) ∧
    buildOutput .default ⟨230, []⟩ false [['@', '{', '@', '{', '}', '}']] =
      .error (.place .nestedAtRule) := by
  constructor
  · refine ⟨_, rfl, ?_⟩
    refine (((shape_buildOutput .default ⟨230, []⟩
      (show splitBlocks ['æ', '{', 'a', '}'] false = _ from rfl)).2 _ rfl).1).2 ?_
    exact ⟨rfl, _, ['a', '}'], rfl, 'æ', rfl, rfl, by simp⟩
  · refine ((shape_buildOutput .default ⟨230, []⟩
      (show splitBlocks ['@', '{', '@', '{', '}', '}'] false = _ from rfl)).1 _).2 ?_
    exact ⟨rfl, _, .head _, rfl⟩

end CssTemplate
