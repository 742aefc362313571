import CssTemplate.Call
import CssTemplate.Proofs.Marker.RoundTrip
import CssTemplate.Proofs.Output.Scope

/-!
# What can go wrong with a source

A source is read, compiled and written as a call. Each step can fail, and its fault type lists more
than what can happen to a source: checks that an output makes of its own parts, markers outside a
table, handles that give no value. `call_or_fault` says what remains. A source is no template, or its
tag makes no styling call, or the compilation fails with a documented fault, or the call is written.

`FailsOnly` follows the faults through the steps. For outputs the work is in two facts about the
terms of blocks: there are as many rules as blocks, and no handle is foreign.
-/

namespace CssTemplate

/-- Steps that all succeed succeed together, with one result each. -/
theorem exists_mapM_ok {ε α β : Type} {f : α → Except ε β} {l : List α}
    (h : ∀ a ∈ l, ∃ b, f a = .ok b) : ∃ bs, l.mapM f = .ok bs := by
  cases hbs : l.mapM f with
  | ok bs => exact ⟨bs, rfl⟩
  | error what =>
    have hnone : FailsOnly (fun _ => False) (l.mapM f) := .mapM fun a ha what hwhat => by
      obtain ⟨b, hb⟩ := h a ha
      rw [hb] at hwhat
      cases hwhat
    exact (hnone what hbs).elim

/-- A list read in order gives as many results as it has elements. -/
theorem length_of_mapM_ok {ε α β : Type} {f : α → Except ε β} {l : List α} {bs : List β}
    (h : l.mapM f = .ok bs) : bs.length = l.length := by
  induction l generalizing bs with
  | nil =>
    cases h
    rfl
  | cons a l ih =>
    rw [List.mapM_cons] at h
    obtain ⟨b, -, h⟩ := Except.bind_eq_ok_iff.1 h
    obtain ⟨more, hmore, h⟩ := Except.bind_eq_ok_iff.1 h
    cases h
    exact congrArg (· + 1) (ih hmore)

/-! ## Documented faults -/

/-- The names of the faults that a compilation may end with. -/
def documentedNames : List (List Char) :=
  ["MalformedTemplateError".toList, "ReservedCharacterError".toList, "SegmentMismatchError".toList,
   "UnbalancedRulesError".toList, "ShapeInvariantError".toList,
   "UnexpectedKeyframeOutputError".toList, "CssPipelineError".toList,
   "UnsupportedKeyframeReferenceError".toList, "NestedAtRuleError".toList]

/-- A fault with a tier, and with one of the documented names. -/
structure CompileFault.Documented (f : CompileFault) : Prop where
  tier : f.tier.isSome = true
  name : f.name ∈ documentedNames

/-- The faults with a tier are the documented ones. -/
theorem CompileFault.documented_of_tier {f : CompileFault} (h : f.tier.isSome = true) :
    f.Documented := by
  refine ⟨h, ?_⟩
  unfold CompileFault.name
  split <;> simp_all [CompileFault.tier, documentedNames]

/-! ## Encoding -/

/-- Joining segments fails when there are too many expressions or a segment is foreign. -/
theorem Markers.documented_join (m : Markers) (segments : List Segment) :
    FailsOnly (fun f => (CompileFault.marker f).Documented) (m.join segments) := by
  induction segments generalizing m with
  | nil => exact .ok _
  | cons segment segments ih =>
    cases segment with
    | literal text => exact (ih m).bind fun _ _ => .ok _
    | foreign value => exact .error (CompileFault.documented_of_tier rfl)
    | expression e =>
      refine FailsOnly.bind ?_ fun marked _ => (ih marked.2).bind fun _ _ => .ok _
      unfold Markers.add
      simp only
      split
      · exact .error (CompileFault.documented_of_tier rfl)
      · exact .ok _

/-- Encoding fails in documented ways only. -/
theorem Markers.documented_encode (m : Markers) (segments : List Segment) :
    FailsOnly (fun f => (CompileFault.marker f).Documented) (m.encode segments) := by
  refine (m.documented_join segments).bind fun encoded _ => ?_
  split
  · exact .error (CompileFault.documented_of_tier rfl)
  · exact .ok _

/-- Encoding the template of a call fails in documented ways only. -/
theorem Compiler.documented_encode (compiler : Compiler) (t : Template) :
    FailsOnly CompileFault.Documented (compiler.encode t.toNode) := by
  unfold Compiler.encode
  rw [segments_toNode]
  simp only [Except.bind_ok]
  split
  · exact .ok _
  · next what hwhat => exact .error (Markers.documented_encode _ _ what hwhat)

/-! ## Processing -/

/-- A fault of the steps on style sheets is documented. -/
theorem documented_liftCss {α : Type} (x : Except Css.Fault α) :
    FailsOnly CompileFault.Documented (liftCss x) := by
  cases x with
  | ok a => exact .ok a
  | error what => exact .error (CompileFault.documented_of_tier rfl)

/-- Processing a style sheet fails in documented ways only. -/
theorem documented_processCss (processor : CssProcessor) (text context : List Char)
    (asKeyframes : Bool) (name : List Char) :
    FailsOnly CompileFault.Documented (processCss processor text context asKeyframes name) := by
  refine (documented_liftCss _).bind fun flat _ => ?_
  simp only
  split
  · refine FailsOnly.bind ?_ fun body _ => documented_liftCss _
    unfold unwrapKeyframes
    simp only
    split
    · exact .ok _
    · exact .error (CompileFault.documented_of_tier rfl)
  · exact documented_liftCss _

/-! ## Outputs -/

/-- An output whose shape fits its rules and parameters fails in documented ways only. -/
theorem documented_makeOutput {shape : Shape} {rules : List Rule} {parameters : List (List Char)}
    {slots : List Slot} (hr : shape.isSingle = true → rules.length = 1)
    (hp : shape ≠ .functional → parameters = [] ∧ slots = []) :
    FailsOnly CompileFault.Documented (makeOutput shape rules parameters slots) := by
  obtain ⟨o, ho⟩ := exists_makeOutput hr hp
  rw [ho]
  exact .ok o

/-- The output of an animation fails in documented ways only. -/
theorem documented_keyframeOutput (rules : List Rule) (slots : Slots) :
    FailsOnly CompileFault.Documented (keyframeOutput rules slots) := by
  unfold keyframeOutput
  split
  · exact .error (CompileFault.documented_of_tier rfl)
  · split
    · split
      · exact .error (CompileFault.documented_of_tier rfl)
      · exact documented_makeOutput (fun _ => rfl) fun _ => ⟨rfl, rfl⟩
    · exact .error (CompileFault.documented_of_tier rfl)

/-- Taking rules out of their braces fails in documented ways only. -/
theorem documented_unbraced (texts : List (List Char)) :
    FailsOnly CompileFault.Documented (unbraced texts) := by
  refine FailsOnly.bind ?_ fun opened _ => FailsOnly.bind ?_ fun closed _ => .ok _
  · unfold dropOpening
    split
    · exact .error (CompileFault.documented_of_tier rfl)
    · exact .ok _
    · exact .error (CompileFault.documented_of_tier rfl)
  · unfold dropClosing
    split
    · exact .error (CompileFault.documented_of_tier rfl)
    · split
      · exact .ok _
      · exact .error (CompileFault.documented_of_tier rfl)

/-- Collapsing a rule without expressions fails in documented ways only. -/
theorem documented_staticRule (collapse : Bool) (rule : Rule) :
    FailsOnly CompileFault.Documented (staticRule collapse rule) := by
  refine FailsOnly.bind ?_ fun texts _ => ?_
  · unfold staticTexts
    split
    · refine .mapM fun term _ => ?_
      cases term with
      | text text => exact .ok text
      | value handle => exact .error (CompileFault.documented_of_tier rfl)
    · exact .error (CompileFault.documented_of_tier rfl)
  · cases collapse with
    | true => exact (documented_unbraced texts).bind fun _ _ => .ok _
    | false => exact .ok _

section
variable {m : Markers} {cursor : Cursor} {run text : List Char} {slots final : Slots} {rule : Rule}
  {blocks : List (List Char)} {rules : List Rule}

/-- A run gives one rule for each block. -/
theorem RuleRuns.length_eq (h : RuleRuns m slots blocks rules final) :
    rules.length = blocks.length := by
  induction h with
  | nil => rfl
  | cons _ _ ih => exact congrArg (· + 1) ih

/-- A static output collapses only if there is one rule to collapse. -/
theorem RuleRuns.documented_staticOutput (h : RuleRuns m slots blocks rules final) :
    FailsOnly CompileFault.Documented (staticOutput blocks rules) := by
  refine FailsOnly.bind (.mapM fun rule _ => documented_staticRule _ rule) fun statics hstatics => ?_
  refine documented_makeOutput (fun hsingle => ?_) fun _ => ⟨rfl, rfl⟩
  split at hsingle
  · next hcollapse =>
    obtain ⟨c, body, rfl⟩ := collapses_iff.1 hcollapse
    rw [length_of_mapM_ok hstatics, h.length_eq]
    rfl
  · cases hsingle

/-- Building an output fails in documented ways only. -/
theorem documented_buildOutput (config : Config) (m : Markers) (asKeyframes : Bool)
    (blocks : List (List Char)) :
    FailsOnly CompileFault.Documented (buildOutput config m asKeyframes blocks) := by
  rw [buildOutput]
  rcases rulesTerms_cases m (blocks.filter fun block => !block.isEmpty)
      { stem := config.slotStem } with ⟨-, herr⟩ | ⟨-, rules, final, hok, hruns⟩
  · rw [herr]
    exact .error (CompileFault.documented_of_tier rfl)
  · simp only [hok, Except.bind_ok]
    split
    · exact documented_keyframeOutput _ _
    · split
      · exact hruns.documented_staticOutput
      · exact documented_makeOutput (fun h => by cases h) fun h => absurd rfl h

/-! ## Program text -/

/-- Every handle of the rule gives a value. -/
def Rule.Native (rule : Rule) : Prop :=
  ∀ value, .value (.foreign value) ∉ rule

/-- A rule of texts has no foreign values. -/
theorem Rule.native_of_texts (h : ∀ term ∈ rule, term.isText = true) : Rule.Native rule :=
  fun _ hmem => nomatch h _ hmem

/-- A rule stays without foreign values behind a text and a value that is none. -/
theorem Rule.Native.value {handle : Handle} (h : Rule.Native rule)
    (hhandle : ∀ value, handle ≠ .foreign value) (text : List Char) :
    Rule.Native (textTerm text ++ .value handle :: rule) := by
  intro value hmem
  rcases List.mem_append.1 hmem with hmem | hmem
  · exact nomatch (mem_textTerm.1 hmem).2
  · cases hmem with
    | head => exact hhandle value rfl
    | tail _ hmem => exact h value hmem

/-- The rule of a run has no foreign values. -/
theorem TermRun.native (h : TermRun m cursor run slots text rule final) : Rule.Native rule := by
  induction h with
  | done => exact fun value hmem => nomatch (mem_textTerm.1 hmem).2
  | text _ _ _ ih => exact ih
  | className _ _ _ ih => exact ih.value (fun _ h => by cases h) _
  | @expression _ _ _ _ slots _ c e role _ _ _ _ _ ih =>
    refine ih.value (fun value => ?_) _
    rcases slots.handle_cases [c] e role.takesSlot with ⟨_, -, h⟩ | ⟨-, -, h⟩ | ⟨-, -, h⟩ <;>
      rw [h] <;> exact nofun

/-- The rules of a run have no foreign values. -/
theorem RuleRuns.native (h : RuleRuns m slots blocks rules final) :
    ∀ rule ∈ rules, Rule.Native rule := by
  induction h with
  | nil => nofun
  | cons h _ ih => exact List.forall_mem_cons.2 ⟨h.native, ih⟩

/-- The rules of an output have no foreign values. -/
theorem native_of_buildOutput {config : Config} {asKeyframes : Bool} {o : Output}
    (h : buildOutput config m asKeyframes blocks = .ok o) : ∀ rule ∈ o.rules, Rule.Native rule := by
  obtain ⟨rules, final, filled, hruns, ⟨-, h⟩ | ⟨-, hstatic, h⟩ | ⟨-, h⟩⟩ := of_buildOutput h
  · rw [(hruns.closed_keyframeOutput h).2.1]
    exact hruns.native
  · obtain ⟨-, htexts, -⟩ := hruns.closed_staticOutput hstatic h
    intro rule hrule
    obtain ⟨text, rfl⟩ := htexts rule hrule
    exact Rule.native_of_texts fun term hterm => by rw [(mem_textTerm.1 hterm).2]; rfl
  · rw [(of_makeOutput h).2.1]
    exact hruns.native

end

section
variable (config : Config) {rule : Rule} {o : Output}

/-- A rule without foreign values can be written. -/
theorem Rule.Native.exists_script (h : Rule.Native rule) : ∃ text, ruleScript config rule = .ok text := by
  have hterm : ∀ term ∈ rule, ∃ text, termScript config term = .ok text := by
    intro term hmem
    cases term with
    | text text => exact ⟨_, rfl⟩
    | value handle =>
      cases handle with
      | className => exact ⟨_, rfl⟩
      | slot slot => exact ⟨_, rfl⟩
      | expression e => exact ⟨_, rfl⟩
      | foreign value => exact absurd hmem (h value)
  obtain ⟨texts, htexts⟩ := exists_mapM_ok hterm
  unfold ruleScript
  split
  · exact ⟨_, rfl⟩
  · exact ⟨_, by rw [htexts, Except.map_ok]⟩

/-- An output whose handles all give values can be written: a shape of one rule has that rule. -/
theorem Output.exists_script (h : ∀ rule ∈ o.rules, Rule.Native rule) :
    ∃ text, o.script config = .ok text := by
  unfold Output.script
  split
  · next hsingle =>
    obtain ⟨rule, hrule⟩ := List.length_eq_one_iff.1 (o.one_rule hsingle)
    have hsole : o.soleRule = .ok rule := by rw [Output.soleRule, hrule]
    rw [hsole]
    exact (h rule (by rw [hrule]; exact .head _)).exists_script config
  · obtain ⟨texts, htexts⟩ := exists_mapM_ok fun rule hrule => (h rule hrule).exists_script config
    rw [arrayScript, htexts, Except.map_ok, Except.bind_ok]
    split <;> exact ⟨_, rfl⟩

end

/-! ## Calls -/

/-- Compiling a template fails in documented ways only. -/
theorem Compiler.documented_compile (compiler : Compiler) (t : Template) (asKeyframes : Bool) :
    FailsOnly CompileFault.Documented (compiler.compile t.toNode asKeyframes) := by
  refine (compiler.documented_encode t).bind fun encoded _ => ?_
  refine FailsOnly.bind (documented_processCss _ _ _ _ _) fun css _ => ?_
  refine FailsOnly.bind ?_ fun assembled _ => .ok _
  unfold Compiler.assemble
  cases splitBlocks css asKeyframes with
  | ok blocks => exact (documented_buildOutput _ _ _ blocks).bind fun _ _ => .ok _
  | error what => exact .error (CompileFault.documented_of_tier rfl)

/-- The output of a compilation is built from its blocks. -/
theorem Compiler.buildOutput_of_compile {compiler : Compiler} {template : Node} {asKeyframes : Bool}
    {compilation : Compilation} (h : compiler.compile template asKeyframes = .ok compilation) :
    buildOutput compiler.config compilation.encoded.markers asKeyframes compilation.blocks =
      .ok compilation.output := by
  obtain ⟨encoded, -, h⟩ := Except.bind_eq_ok_iff.1 h
  obtain ⟨css, -, h⟩ := Except.bind_eq_ok_iff.1 h
  obtain ⟨assembled, hassemble, h⟩ := Except.bind_eq_ok_iff.1 h
  cases h
  unfold Compiler.assemble at hassemble
  cases hblocks : splitBlocks css asKeyframes with
  | error what =>
    rw [hblocks] at hassemble
    cases hassemble
  | ok blocks =>
    simp only [hblocks, Except.bind_ok] at hassemble
    obtain ⟨output, hbuild, hassemble⟩ := Except.bind_eq_ok_iff.1 hassemble
    cases hassemble
    exact hbuild

/-- **A source becomes a call, or fails in a documented way.** Reading can fail; then the tag can be
refused; then the compilation can fail with a documented fault. A compiled call can always be
written. -/
theorem call_or_fault (config : Config) (source : List Char) (keyframes : Bool) :
    (∃ f, Tagged.read source = .error f) ∨
    ∃ tagged, Tagged.read source = .ok tagged ∧
      ((∃ tag, tagged.tag = some tag ∧ (Compiler.ofConfig config).call tagged.tag
          tagged.template.toNode keyframes = .error (.notStyled tag)) ∨
        (∃ f, f.Documented ∧ (Compiler.ofConfig config).call tagged.tag
          tagged.template.toNode keyframes = .error (.compile f)) ∨
        ∃ call text, (Compiler.ofConfig config).call tagged.tag tagged.template.toNode keyframes =
          .ok call ∧ call.script config = .ok text) := by
  cases hread : Tagged.read source with
  | error what => exact .inl ⟨what, rfl⟩
  | ok tagged =>
    refine .inr ⟨tagged, rfl, ?_⟩
    rw [Compiler.call]
    cases hkind : callKind tagged.tag keyframes with
    | error what =>
      unfold callKind at hkind
      split at hkind
      · cases hkind
      · next tag htag =>
        split at hkind
        · cases hkind
        · cases hkind
          exact .inl ⟨tag, htag, rfl⟩
    | ok kind =>
      refine .inr ?_
      rw [Except.bind_ok]
      cases hcompile : (Compiler.ofConfig config).compile tagged.template.toNode (kind = .keyframes) with
      | error what => exact .inl ⟨what, Compiler.documented_compile _ _ _ what hcompile, rfl⟩
      | ok compilation =>
        have hnative := native_of_buildOutput (Compiler.buildOutput_of_compile hcompile)
        obtain ⟨text, htext⟩ := Output.exists_script config hnative
        refine .inr ⟨_, _, rfl, Except.bind_eq_ok_iff.2 ⟨text, htext, rfl⟩⟩

end CssTemplate
