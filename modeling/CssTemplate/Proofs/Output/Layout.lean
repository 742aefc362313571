import CssTemplate.Proofs.Config
import CssTemplate.Proofs.Output.HostPlace

/-!
# Parts of a call

The text of a call consists of what is written around the expressions of the template, and of the
expressions. `Call.layout` keeps the two apart: literals, names, brackets and separators on one side,
expressions on the other. A call is written as its tag with the text of this layout after it
(`Call.script_eq_layoutText`).

`Arranged` says how the parts of a layout follow each other. No slash shows in what is written, and an
expression is a path, in which there is no slash at all, or it stands between brackets.
-/

namespace CssTemplate

/-- A part of the text of a call. -/
inductive ScriptPart where
  /-- A text that does not come from an expression. -/
  | written (text : List Char)
  | expression (e : Expression)

/-- The text of a part. -/
def ScriptPart.text : ScriptPart → List Char
  | .written text => text
  | .expression e => trim e.text

/-- The text of parts in a row. -/
def layoutText (parts : List ScriptPart) : List Char :=
  parts.flatMap ScriptPart.text

/-! ## Layouts -/

/-- An expression, in brackets unless it is a path. -/
def Expression.layout (e : Expression) : List ScriptPart :=
  if isPath (trim e.text) then [.expression e]
  else [.written ['('], .expression e, .written [')']]

/-- The parts of a term; none for a term that cannot be written. -/
def Term.layout (config : Config) : Term → List ScriptPart
  | .text literal => [.written (stringLiteral literal)]
  | .value .className => [.written config.classParameter]
  | .value (.slot slot) => [.written slot.name]
  | .value (.expression e) => e.layout
  | .value (.foreign _) => []

/-- The parts of a rule. -/
def Rule.layout (config : Config) (rule : Rule) : List ScriptPart :=
  if rule.isEmpty then [.written ['"', '"']]
  else [.written [' ', '+', ' ']].intercalate (rule.map (Term.layout config))

/-- Layouts with commas between them. -/
def joinLayouts (layouts : List (List ScriptPart)) : List ScriptPart :=
  [.written [',', ' ']].intercalate layouts

/-- The parts of an output: those of its only rule, of an array or of a function. -/
def Output.layout (config : Config) (o : Output) : List ScriptPart :=
  if o.shape.isSingle then o.rules.flatMap (Rule.layout config)
  else
    let array := .written ['['] :: (joinLayouts (o.rules.map (Rule.layout config)) ++ [.written [']']])
    if o.isFunctional then .written ('(' :: joinComma o.parameters ++ ") => ".toList) :: array
    else array

/-- The parts of a call after its tag. -/
def Call.layout (config : Config) (call : Call) : List ScriptPart :=
  .written ['('] ::
    (joinLayouts (call.output.layout config :: call.arguments.map Expression.layout) ++ [.written [')']])

/-! ## Texts of layouts -/

section
variable {config : Config} {rule : Rule} {o : Output}

/-- No parts have no text. -/
@[simp] theorem layoutText_nil : layoutText [] = [] :=
  rfl

/-- The text of parts is that of the first one and that of the rest. -/
@[simp] theorem layoutText_cons (part : ScriptPart) (parts : List ScriptPart) :
    layoutText (part :: parts) = part.text ++ layoutText parts :=
  rfl

/-- Parts are written one after the other. -/
@[simp] theorem layoutText_append (parts more : List ScriptPart) :
    layoutText (parts ++ more) = layoutText parts ++ layoutText more :=
  List.flatMap_append

/-- Layouts with a separator between them are written with it between their texts. -/
theorem layoutText_intercalate (separator : List Char) (layouts : List (List ScriptPart)) :
    layoutText ([.written separator].intercalate layouts) =
      separator.intercalate (layouts.map layoutText) := by
  induction layouts with
  | nil => rfl
  | cons layout layouts ih =>
    cases layouts with
    | nil => simp
    | cons next layouts =>
      rw [List.map_cons] at ih
      simp [ih, ScriptPart.text]

/-- Layouts joined by commas are written as their texts joined by commas. -/
theorem layoutText_joinLayouts (layouts : List (List ScriptPart)) :
    layoutText (joinLayouts layouts) = joinComma (layouts.map layoutText) :=
  layoutText_intercalate _ _

/-- Steps that all succeed give all their results. -/
theorem mapM_eq_ok_map {ε α β : Type} {f : α → Except ε β} {g : α → β} {l : List α}
    (h : ∀ a ∈ l, f a = .ok (g a)) : l.mapM f = .ok (l.map g) := by
  induction l with
  | nil => rfl
  | cons a l ih =>
    obtain ⟨ha, hl⟩ := List.forall_mem_cons.1 h
    rw [List.mapM_cons, ha, ih hl]
    rfl

/-- An expression is written as its layout. -/
theorem expressionScript_eq_layoutText (e : Expression) : expressionScript e = layoutText e.layout := by
  simp only [expressionScript, Expression.layout]
  split <;> simp [ScriptPart.text]

/-- The terms of a rule without foreign values are written as their layouts. -/
theorem Rule.Native.termScript (h : Rule.Native rule) :
    ∀ term ∈ rule, termScript config term = .ok (layoutText (term.layout config)) := by
  intro term hterm
  cases term with
  | text text => simp [CssTemplate.termScript, Term.layout, ScriptPart.text]
  | value handle =>
    cases handle with
    | className => simp [CssTemplate.termScript, handleScript, Term.layout, ScriptPart.text]
    | slot slot => simp [CssTemplate.termScript, handleScript, Term.layout, ScriptPart.text]
    | expression e => exact congrArg Except.ok (expressionScript_eq_layoutText e)
    | foreign value => exact absurd hterm (h value)

/-- A rule without foreign values is written as its layout. -/
theorem Rule.Native.ruleScript (h : Rule.Native rule) :
    ruleScript config rule = .ok (layoutText (Rule.layout config rule)) := by
  unfold CssTemplate.ruleScript Rule.layout
  split
  · rfl
  · rw [mapM_eq_ok_map h.termScript, layoutText_intercalate, List.map_map]
    rfl

/-- An output without foreign values is written as its layout. -/
theorem Output.script_eq_layoutText (h : ∀ rule ∈ o.rules, Rule.Native rule) :
    o.script config = .ok (layoutText (o.layout config)) := by
  unfold Output.script Output.layout
  split
  · next hsingle =>
    obtain ⟨rule, hrule⟩ := List.length_eq_one_iff.1 (o.one_rule hsingle)
    have hsole : o.soleRule = .ok rule := by rw [Output.soleRule, hrule]
    rw [hsole, hrule, List.flatMap_singleton]
    exact (h rule (by rw [hrule]; exact .head _)).ruleScript
  · have harray : arrayScript config o.rules = .ok (layoutText
        (.written ['['] :: (joinLayouts (o.rules.map (Rule.layout config)) ++ [.written [']']]))) := by
      rw [arrayScript, mapM_eq_ok_map fun rule hrule => (h rule hrule).ruleScript]
      simp [layoutText_joinLayouts, ScriptPart.text, Function.comp_def]
    rw [harray, Except.bind_ok]
    split <;> simp [ScriptPart.text]

/-- A call is written as its tag and its parts. -/
theorem Call.script_eq_layoutText {call : Call} (h : ∀ rule ∈ call.output.rules, Rule.Native rule) :
    call.script config = .ok (call.tag ++ layoutText (call.layout config)) := by
  have harguments : expressionScript = layoutText ∘ Expression.layout :=
    funext expressionScript_eq_layoutText
  rw [Call.script, callScript, Output.script_eq_layoutText h, Except.bind_ok, Call.layout, harguments]
  simp [layoutText_joinLayouts, ScriptPart.text, Call.arguments]

end

/-! ## Arrangement -/

/-- Parts in a row that hide their slashes but for those of expressions in brackets. The expressions
have a property. -/
inductive Arranged (allowed : Expression → Prop) : List ScriptPart → Prop
  | nil : Arranged allowed []
  | written {text : List Char} {parts : List ScriptPart} (htext : Hides '/' text)
      (hparts : Arranged allowed parts) : Arranged allowed (.written text :: parts)
  | path {e : Expression} {parts : List ScriptPart} (he : allowed e)
      (hpath : isPath (trim e.text) = true) (hparts : Arranged allowed parts) :
      Arranged allowed (.expression e :: parts)
  | bracketed {e : Expression} {parts : List ScriptPart} (he : allowed e)
      (hparts : Arranged allowed parts) :
      Arranged allowed (.written ['('] :: .expression e :: .written [')'] :: parts)

/-- A property of lists that are joined holds of the whole. -/
theorem forall_intercalate {α : Type} {P : List α → Prop} {separator : List α} {lists : List (List α)}
    (hnil : P []) (happend : ∀ {l l'}, P l → P l' → P (l ++ l')) (hseparator : P separator)
    (h : ∀ l ∈ lists, P l) : P (separator.intercalate lists) := by
  induction lists with
  | nil => exact hnil
  | cons l lists ih =>
    obtain ⟨hl, hlists⟩ := List.forall_mem_cons.1 h
    cases lists with
    | nil => rwa [List.intercalate_singleton]
    | cons next lists =>
      rw [List.intercalate_cons_cons]
      exact happend (happend hl hseparator) (ih hlists)

section
variable {allowed : Expression → Prop} {config : Config} {parts more : List ScriptPart}

/-- Arranged parts one after the other are arranged. -/
theorem Arranged.append (h : Arranged allowed parts) (h' : Arranged allowed more) :
    Arranged allowed (parts ++ more) := by
  induction h with
  | nil => exact h'
  | written htext _ ih => exact .written htext ih
  | path he hpath _ ih => exact .path he hpath ih
  | bracketed he _ ih => exact .bracketed he ih

/-- Arranged layouts with a separator between them are arranged. -/
theorem Arranged.intercalate {separator : List Char} {layouts : List (List ScriptPart)}
    (hseparator : Hides '/' separator) (h : ∀ layout ∈ layouts, Arranged allowed layout) :
    Arranged allowed ([.written separator].intercalate layouts) :=
  forall_intercalate .nil .append (.written hseparator .nil) h

/-- The expressions in arranged parts are allowed. -/
theorem Arranged.allowed_of_mem (h : Arranged allowed parts) {e : Expression}
    (he : .expression e ∈ parts) : allowed e := by
  induction h with
  | nil => cases he
  | written _ _ ih =>
    cases he with
    | tail _ he => exact ih he
  | path hallowed _ _ ih =>
    cases he with
    | head => exact hallowed
    | tail _ he => exact ih he
  | bracketed hallowed _ ih =>
    simp only [List.mem_cons, ScriptPart.expression.injEq, reduceCtorEq, false_or] at he
    rcases he with rfl | he
    · exact hallowed
    · exact ih he

/-- There is no slash in a name or a path. -/
theorem hides_slash_of_name {text : List Char}
    (h : ∀ c ∈ text, continuesIdentifier c = true ∨ c = '.' ∨ c = '\n') : Hides '/' text :=
  hides_of_name (by decide) h

/-- A path has no slash outside of strings. -/
theorem hides_slash_of_path {text : List Char} (h : isPath text = true) : Hides '/' text :=
  hides_slash_of_name fun c hc => (of_mem_path h c hc).imp_right .inl

/-- A parameter has no slash outside of strings. -/
theorem hides_slash_of_mem_parameterNames {n : Nat} {name : List Char}
    (h : name ∈ config.parameterNames n) : Hides '/' name :=
  hides_slash_of_name fun c hc => (config.of_mem_parameterNames h c hc).imp_right .inr

/-- An allowed expression is arranged. -/
theorem Expression.arranged {e : Expression} (he : allowed e) : Arranged allowed e.layout := by
  unfold Expression.layout
  split
  · next hpath => exact .path he hpath .nil
  · exact .bracketed he .nil

/-- A term is arranged if its slot hides slashes and its expression is allowed. -/
theorem Term.arranged {term : Term}
    (hslot : ∀ slot, term = .value (.slot slot) → Hides '/' slot.name)
    (hexpression : ∀ e, term = .value (.expression e) → allowed e) :
    Arranged allowed (term.layout config) := by
  cases term with
  | text text => exact .written (hides_stringLiteral (by decide) text) .nil
  | value handle =>
    cases handle with
    | className => exact .written (hides_slash_of_mem_parameterNames (n := 0) (.head _)) .nil
    | slot slot => exact .written (hslot slot rfl) .nil
    | expression e => exact Expression.arranged (hexpression e rfl)
    | foreign value => exact .nil

/-- A rule is arranged if its terms are. -/
theorem Rule.arranged {rule : Rule} (h : ∀ term ∈ rule, Arranged allowed (term.layout config)) :
    Arranged allowed (Rule.layout config rule) := by
  unfold Rule.layout
  split
  · exact .written (hides_stringLiteral (by decide) []) .nil
  · exact .intercalate (hides_of_all rfl) (List.forall_mem_map.2 h)

/-- Layouts with commas between them, in brackets. -/
theorem Arranged.enclosed {opening closing : List Char} {layouts : List (List ScriptPart)}
    (hopening : Hides '/' opening) (hclosing : Hides '/' closing)
    (h : ∀ layout ∈ layouts, Arranged allowed layout) :
    Arranged allowed (.written opening :: (joinLayouts layouts ++ [.written closing])) := by
  have hjoined : Arranged allowed (joinLayouts layouts) :=
    .intercalate (hides_of_all rfl) h
  exact .written hopening (hjoined.append (.written hclosing .nil))

/-- An output is arranged if its rules are and its parameters hide slashes. -/
theorem Output.arranged {o : Output} (hparameters : ∀ name ∈ o.parameters, Hides '/' name)
    (h : ∀ rule ∈ o.rules, Arranged allowed (Rule.layout config rule)) :
    Arranged allowed (o.layout config) := by
  unfold Output.layout
  split
  · next hsingle =>
    obtain ⟨rule, hrule⟩ := List.length_eq_one_iff.1 (o.one_rule hsingle)
    rw [hrule, List.flatMap_singleton]
    exact h rule (by rw [hrule]; exact .head _)
  · have harray : Arranged allowed (.written ['['] ::
        (joinLayouts (o.rules.map (Rule.layout config)) ++ [.written [']']])) :=
      .enclosed (hides_of_all rfl) (hides_of_all rfl) (List.forall_mem_map.2 h)
    split
    · have hjoined : Hides '/' (joinComma o.parameters) :=
        forall_intercalate (hides_of_all rfl) .append
          (hides_of_all rfl) hparameters
      have hopen : Hides '/' ['('] := hides_of_all rfl
      exact .written ((hopen.append hjoined).append (hides_of_all rfl)) harray
    · exact harray

end

/-! ## Built outputs -/

section
variable {config : Config} {m : Markers} {asKeyframes : Bool} {blocks : List (List Char)} {o : Output}

/-- What an output is built from: the parameters of the configuration, if any, with the slots among
them, and expressions that have a property. -/
structure Output.BuiltFrom (config : Config) (allowed : Expression → Prop) (o : Output) : Prop where
  parameters : ∀ name ∈ o.parameters, ∃ n, name ∈ config.parameterNames n
  slots : ∀ rule ∈ o.rules, ∀ slot, .value (.slot slot) ∈ rule → slot.name ∈ o.parameters
  inlined : ∀ e ∈ o.inlined, allowed e
  arguments : ∀ e ∈ o.arguments, allowed e

/-- A closed output is built from the expressions that it inlines. -/
theorem Output.Closed.builtFrom {allowed : Expression → Prop} (h : o.Closed)
    (hinlined : ∀ e ∈ o.inlined, allowed e) : o.BuiltFrom config allowed where
  parameters := by
    rw [h.parameters]
    exact List.forall_mem_nil _
  slots := fun rule hrule slot hslot => absurd hslot (h.slot rule hrule slot)
  inlined := hinlined
  arguments := by
    rw [Output.arguments, h.slots]
    exact List.forall_mem_nil _

/-- An output is built from the expressions behind the markers. -/
theorem builtFrom_of_buildOutput (h : buildOutput config m asKeyframes blocks = .ok o) :
    o.BuiltFrom config (· ∈ m.occurrences) := by
  obtain ⟨rules, final, filled, hruns, hcases⟩ := of_buildOutput h
  rcases hcases with ⟨-, hbuilt⟩ | ⟨-, hstatic, hbuilt⟩ | ⟨-, hbuilt⟩
  · obtain ⟨-, hrules, hclosed⟩ := hruns.closed_keyframeOutput hbuilt
    refine hclosed.builtFrom fun e he => ?_
    obtain ⟨rule, hrule, hterm⟩ := Output.mem_inlined.1 he
    exact hruns.mem_occurrences (hrules ▸ hrule) hterm
  · obtain ⟨-, htexts, hclosed⟩ := hruns.closed_staticOutput hstatic hbuilt
    refine hclosed.builtFrom fun e he => ?_
    obtain ⟨rule, hrule, hterm⟩ := Output.mem_inlined.1 he
    obtain ⟨text, rfl⟩ := htexts rule hrule
    cases (mem_textTerm.1 hterm).2
  · obtain ⟨hshape, -, -, hslots⟩ := of_makeOutput hbuilt
    obtain ⟨hscoped, hinlined⟩ := scoped_of_functional h hshape
    refine ⟨fun name hname => ⟨_, hscoped.parameters_eq ▸ hname⟩, ?_, hinlined, ?_⟩
    · intro rule hrule slot hslot
      rw [hscoped.parameters]
      exact .tail _ (List.mem_map_of_mem (hscoped.bound rule hrule slot hslot))
    · intro e he
      rw [Output.arguments, hslots] at he
      obtain ⟨slot, hslot, rfl⟩ := List.mem_map.1 he
      obtain ⟨⟨marker, bound⟩, hentry, rfl⟩ := List.mem_map.1 hslot
      obtain ⟨c, -, hoccurrence⟩ :=
        (hruns.valid (.empty m config.slotStem)).marked marker bound hentry
      exact Markers.mem_of_occurrence hoccurrence

/-- The parts of a call are arranged. -/
theorem Call.arranged {call : Call} {allowed : Expression → Prop}
    (h : call.output.BuiltFrom config allowed) : Arranged allowed (call.layout config) := by
  have hhidden : ∀ name ∈ call.output.parameters, Hides '/' name := by
    intro name hname
    obtain ⟨n, hn⟩ := h.parameters name hname
    exact hides_slash_of_mem_parameterNames hn
  have houtput : Arranged allowed (call.output.layout config) := by
    refine Output.arranged hhidden fun rule hrule => Rule.arranged fun term hterm => ?_
    refine Term.arranged ?_ ?_
    · rintro slot rfl
      exact hhidden _ (h.slots rule hrule slot hterm)
    · rintro e rfl
      exact h.inlined e (Output.mem_inlined.2 ⟨rule, hrule, hterm⟩)
  refine .enclosed (hides_of_all rfl) (hides_of_all rfl) ?_
  exact List.forall_mem_cons.2
    ⟨houtput, List.forall_mem_map.2 fun e he => Expression.arranged (h.arguments e he)⟩

end

end CssTemplate
