import CssTemplate.Proofs.Call
import CssTemplate.Proofs.Compilation
import CssTemplate.Proofs.Output.Interpretation

/-!
# Expressions inside a function

A function takes some expressions as arguments and holds others in its body. Arguments are evaluated
where the function is called. An expression in the body is evaluated inside the function, where a
parameter hides the identifier of the same name outside. So an expression that is written as a path
keeps its meaning unless its leading identifier is a parameter (`scope_of_inlined`). Nothing keeps a
template from using such a name: the class parameter is one that authors can write
(`compile_captures_class`).

`Program` says how the host program evaluates, as far as it matters here, and `Output.call` evaluates
a function inside its own scope. The interpretation of outputs evaluates all expressions outside
(`Program.host`).
-/

namespace CssTemplate

/-! ## Paths -/

/-- The leading identifier of an expression that is written as a path. -/
def Expression.leading? (e : Expression) : Option (List Char) :=
  if isPath (trim e.text) then (splitWhere (· == '.') (trim e.text)).head? else none

/-- How a host program evaluates: the value of an expression where identifiers have given values, and
the text that a value is written as. A path has its value from its leading identifier. -/
structure Program (Value : Type) where
  value : (List Char → Value) → Expression → Value
  text : Value → List Char
  value_path : ∀ {scope inner : List Char → Value} {e : Expression} {name : List Char},
    e.leading? = some name → inner name = scope name → value inner e = value scope e

/-- The program in which a path has the value of its leading identifier, and values are texts. -/
def Program.leading : Program (List Char) where
  value scope e := (e.leading?.map scope).getD []
  text value := value
  value_path := by
    intro scope inner e name hname hscope
    rw [hname, Option.map_some, Option.map_some, hscope]

/-- What the program supplies when everything is evaluated outside. -/
def Program.host {Value : Type} (program : Program Value) (scope : List Char → Value)
    (className : Value) : Host where
  className := program.text className
  value e := program.text (program.value scope e)

/-! ## Functions -/

/-- The expression that a term holds itself. -/
def Term.expression? : Term → Option Expression
  | .value (.expression e) => some e
  | _ => none

/-- The expressions in the rules of an output. -/
def Output.inlined (o : Output) : List Expression :=
  o.rules.flatten.filterMap Term.expression?

/-- The inlined expressions are the expressions in the terms of the rules. -/
theorem Output.mem_inlined {o : Output} {e : Expression} :
    e ∈ o.inlined ↔ ∃ rule ∈ o.rules, .value (.expression e) ∈ rule := by
  simp only [inlined, List.mem_filterMap, List.mem_flatten]
  constructor
  · rintro ⟨term, ⟨rule, hrule, hterm⟩, he⟩
    unfold Term.expression? at he
    split at he
    · cases he
      exact ⟨rule, hrule, hterm⟩
    · cases he
  · rintro ⟨rule, hrule, hterm⟩
    exact ⟨_, ⟨rule, hrule, hterm⟩, rfl⟩

section
variable {Value : Type} (program : Program Value) (scope : List Char → Value) (className : Value)

/-- The value of an identifier inside the function that an output is. Parameters have the values of
the class name and of the arguments, which are evaluated outside. -/
def Output.inside (o : Output) (name : List Char) : Value :=
  ((o.parameters.zip (className :: o.arguments.map (program.value scope))).lookup name).getD
    (scope name)

/-- A handle, evaluated where it is written. -/
def Program.read (config : Config) : Handle → Option (List Char)
  | .className => some (program.text (scope config.classParameter))
  | .slot slot => some (program.text (scope slot.name))
  | .expression e => some (program.text (program.value scope e))
  | .foreign _ => none

/-- The texts that a function gives when it is called with the class name and its arguments. -/
def Output.call (o : Output) (config : Config) : Option (List (List Char)) :=
  o.rules.mapM (evalRule (program.read (o.inside program scope className) config))

end

/-! ## Evaluation inside and outside -/

/-- Rules that hold the same values where they look evaluate to the same texts. -/
theorem mapM_evalRule_congr {value value' : Handle → Option (List Char)} {rules : List Rule}
    (h : ∀ rule ∈ rules, ∀ handle, .value handle ∈ rule → value handle = value' handle) :
    rules.mapM (evalRule value) = rules.mapM (evalRule value') := by
  induction rules with
  | nil => rfl
  | cons rule rules ih =>
    rw [List.mapM_cons, List.mapM_cons, evalRule_congr (h rule (.head _)),
      ih fun rule hmem => h rule (.tail _ hmem)]

section
variable {config : Config} {o : Output}

/-- The class parameter is bound to what comes first. -/
theorem Output.Scoped.lookup_classParameter {α : Type} (h : o.Scoped config) (first : α)
    (value : Expression → α) :
    (o.parameters.zip (first :: o.arguments.map value)).lookup config.classParameter =
      some first := by
  rw [h.parameters, List.zip_cons_cons, List.lookup_cons_self]

/-- A slot is bound to the value of its occurrence. -/
theorem Output.Scoped.lookup_slot {α : Type} (h : o.Scoped config) (first : α)
    (value : Expression → α) {slot : Slot} (hslot : slot ∈ o.slots) :
    (o.parameters.zip (first :: o.arguments.map value)).lookup slot.name =
      some (value slot.occurrence) := by
  obtain ⟨k, hk, rfl⟩ := List.mem_iff_getElem.1 hslot
  have hname : o.parameters[k + 1]? = some o.slots[k].name := by
    rw [h.parameters, List.getElem?_cons_succ, List.getElem?_map, List.getElem?_eq_getElem hk,
      Option.map_some]
  have hvalue : (first :: o.arguments.map value)[k + 1]? = some (value o.slots[k].occurrence) := by
    rw [List.getElem?_cons_succ, List.getElem?_map, h.arguments, List.getElem?_eq_getElem hk,
      Option.map_some, Option.map_some]
  exact lookup_zip h.distinct hname hvalue

/-- The parameters are the class parameter and the numbered slots. -/
theorem Output.Scoped.mem_parameters_iff (h : o.Scoped config) {name : List Char} :
    name ∈ o.parameters ↔
      name = config.classParameter ∨ ∃ k < o.slots.length, name = config.slotStem ++ decimal k := by
  have hslots : (∃ slot ∈ o.slots, slot.name = name) ↔
      ∃ k < o.slots.length, name = config.slotStem ++ decimal k := by
    constructor
    · rintro ⟨slot, hslot, rfl⟩
      obtain ⟨k, hk, rfl⟩ := List.mem_iff_getElem.1 hslot
      exact ⟨k, hk, h.named k _ (List.getElem?_eq_getElem hk)⟩
    · rintro ⟨k, hk, rfl⟩
      exact ⟨o.slots[k], List.getElem_mem hk, h.named k _ (List.getElem?_eq_getElem hk)⟩
  rw [h.parameters, List.mem_cons, List.mem_map, hslots]

variable {Value : Type} (program : Program Value) (scope : List Char → Value) (className : Value)

/-- Inside the function, a name that is no parameter has the value that it has outside. -/
theorem Output.inside_of_not_mem {name : List Char} (h : name ∉ o.parameters) :
    o.inside program scope className name = scope name := by
  have hnone : (o.parameters.zip (className :: o.arguments.map (program.value scope))).lookup name =
      none := by
    rw [List.lookup_eq_none_iff]
    intro entry hentry
    rw [bne_iff_ne]
    rintro rfl
    exact h (List.of_mem_zip hentry).1
  rw [inside, hnone, Option.getD_none]

/-- A path that starts with the class parameter starts from the class name inside the function. -/
theorem Output.Scoped.value_of_classParameter (h : o.Scoped config) {e : Expression}
    (he : e.leading? = some config.classParameter) :
    program.value (o.inside program scope className) e = program.value (fun _ => className) e := by
  refine program.value_path he ?_
  rw [inside, h.lookup_classParameter, Option.getD_some]

/-- A path that starts with the name of a slot starts from its argument inside the function. -/
theorem Output.Scoped.value_of_slot (h : o.Scoped config) {e : Expression} {slot : Slot}
    (hslot : slot ∈ o.slots) (he : e.leading? = some slot.name) :
    program.value (o.inside program scope className) e =
      program.value (fun _ => program.value scope slot.occurrence) e := by
  refine program.value_path he ?_
  rw [inside, h.lookup_slot _ _ hslot, Option.getD_some]

/-- A function is evaluated as if everything in it stood outside, if its own expressions are paths
that do not start with a parameter. -/
theorem Output.Scoped.call_eq_texts (h : o.Scoped config) (hshape : o.shape = .functional)
    (hfree : ∀ e ∈ o.inlined, ∃ name, e.leading? = some name ∧ name ∉ o.parameters) :
    o.call program scope className config = o.texts config (program.host scope className) := by
  have houtside : o.texts config (program.host scope className) =
      o.rules.mapM (evalRule ((program.host scope className).read config
        (o.bindings (program.host scope className)))) := by
    rw [Output.texts, hshape]
  rw [houtside, Output.call]
  refine mapM_evalRule_congr fun rule hrule handle hhandle => ?_
  cases handle with
  | className =>
    rw [Program.read, inside, h.lookup_classParameter, Host.read, bindings, h.lookup_classParameter]
    rfl
  | slot slot =>
    have hslot := h.bound rule hrule slot hhandle
    rw [Program.read, inside, h.lookup_slot _ _ hslot, Host.read, bindings, h.lookup_slot _ _ hslot]
    rfl
  | expression e =>
    obtain ⟨name, hname, hmem⟩ := hfree e (Output.mem_inlined.2 ⟨rule, hrule, hhandle⟩)
    have hscope := o.inside_of_not_mem program scope className hmem
    rw [Program.read, program.value_path hname hscope]
    rfl
  | foreign value => rfl

end

/-! ## Compiled functions -/

section
variable {m : Markers} {config : Config} {o : Output}

/-- The expression of a marker is among those of the table. -/
theorem Markers.mem_of_occurrence {c : Char} {e : Expression} (h : m.occurrence? c = some e) :
    e ∈ m.occurrences := by
  unfold Markers.occurrence? at h
  split at h
  · exact List.mem_of_getElem? h
  · cases h

/-- What a pass leaves in its place is an occurrence. -/
theorem TermRun.mem_occurrences {cursor : Cursor} {run text : List Char} {slots final : Slots}
    {rule : Rule} (h : TermRun m cursor run slots text rule final) {e : Expression}
    (he : .value (.expression e) ∈ rule) : e ∈ m.occurrences := by
  have hafter : ∀ {text : List Char} {handle : Handle} {rule : Rule},
      Term.value (.expression e) ∈ textTerm text ++ .value handle :: rule →
        handle = .expression e ∨ .value (.expression e) ∈ rule := by
    intro text handle rule hmem
    rcases List.mem_append.1 hmem with hmem | hmem
    · cases (mem_textTerm.1 hmem).2
    · rcases List.mem_cons.1 hmem with heq | hmem
      · exact .inl (Term.value.inj heq).symm
      · exact .inr hmem
  induction h with
  | done cursor run slots => cases (mem_textTerm.1 he).2
  | text _ _ _ ih => exact ih he
  | className _ _ _ ih =>
    rcases hafter he with heq | he
    · cases heq
    · exact ih he
  | @expression _ _ _ _ slots _ c own role _ _ hown _ _ ih =>
    rcases hafter he with heq | he
    · rcases slots.handle_cases [c] own role.takesSlot with
        ⟨slot, -, hcase⟩ | ⟨-, -, hcase⟩ | ⟨-, -, hcase⟩ <;> rw [hcase] at heq <;> cases heq
      exact Markers.mem_of_occurrence hown
    · exact ih he

/-- The expressions in the rules of a run are among those of the table. -/
theorem RuleRuns.mem_occurrences {slots final : Slots} {blocks : List (List Char)} {rules : List Rule}
    (h : RuleRuns m slots blocks rules final) {e : Expression} {rule : Rule} (hrule : rule ∈ rules)
    (he : .value (.expression e) ∈ rule) : e ∈ m.occurrences := by
  induction h with
  | nil => cases hrule
  | cons hrun _ ih =>
    rcases List.mem_cons.1 hrule with rfl | hrule
    · exact hrun.mem_occurrences he
    · exact ih hrule

/-- A function that is built has its names in order, and its own expressions are occurrences. -/
theorem scoped_of_functional {asKeyframes : Bool} {blocks : List (List Char)}
    (h : buildOutput config m asKeyframes blocks = .ok o) (hshape : o.shape = .functional) :
    o.Scoped config ∧ ∀ e ∈ o.inlined, e ∈ m.occurrences := by
  obtain ⟨rules, final, filled, hruns, hcases⟩ := of_buildOutput h
  rcases hcases with ⟨-, h⟩ | ⟨-, hstatic, h⟩ | ⟨-, h⟩
  · rw [(hruns.closed_keyframeOutput h).1] at hshape
    cases hshape
  · exact absurd hshape (hruns.closed_staticOutput hstatic h).1
  · obtain ⟨-, hrules, -, -⟩ := of_makeOutput h
    refine ⟨hruns.scoped h, fun e he => ?_⟩
    obtain ⟨rule, hrule, hterm⟩ := Output.mem_inlined.1 he
    rw [hrules] at hrule
    exact hruns.mem_occurrences hrule hterm

end

/-- The segments of a compilation are encoded; encoding looks at the configuration only. -/
theorem Compiler.encode_of_compile {compiler : Compiler} {template : Node} {asKeyframes : Bool}
    {compilation : Compilation} (h : compiler.compile template asKeyframes = .ok compilation) :
    (Compiler.ofConfig compiler.config).encode template =
      .ok (compilation.segments, compilation.encoded) := by
  obtain ⟨⟨segments, encoded⟩, hencode, h⟩ := Except.bind_eq_ok_iff.1 h
  obtain ⟨css, -, h⟩ := Except.bind_eq_ok_iff.1 h
  obtain ⟨assembled, -, h⟩ := Except.bind_eq_ok_iff.1 h
  cases h
  exact hencode

/-- The markers of a compilation stand for the expressions of its template. -/
theorem Compiler.occurrences_of_compile {compiler : Compiler} {template : Node} {asKeyframes : Bool}
    {compilation : Compilation} (h : compiler.compile template asKeyframes = .ok compilation) :
    compilation.encoded.markers.occurrences = segmentExpressions compilation.segments := by
  obtain ⟨-, -, -, hencoded⟩ := Compiler.of_encode (Compiler.encode_of_compile h)
  rw [hencoded]

/-- **Which expressions of a function keep their meaning.** The expressions in the body of a compiled
function are expressions of its template. One that is written as a path starts with a parameter
exactly when its leading identifier is the class parameter or the stem with the number of a slot, and
then it is evaluated from the class name or from the argument of that slot. If the body has only paths
and none starts so, then calling the function gives what evaluating everything outside gives. All of
this holds in every program and every scope. -/
theorem scope_of_inlined {compiler : Compiler} {template : Node} {asKeyframes : Bool}
    {compilation : Compilation} (h : compiler.compile template asKeyframes = .ok compilation)
    (hshape : compilation.output.shape = .functional) :
    (∀ e ∈ compilation.output.inlined, e ∈ segmentExpressions compilation.segments ∧
      ∀ name, e.leading? = some name →
        (name ∈ compilation.output.parameters ↔ name = compiler.config.classParameter ∨
          ∃ k < compilation.output.slots.length, name = compiler.config.slotStem ++ decimal k)) ∧
    ∀ {Value : Type} (program : Program Value) (scope : List Char → Value) (className : Value),
      (∀ e ∈ compilation.output.inlined, e.leading? = some compiler.config.classParameter →
        program.value (compilation.output.inside program scope className) e =
          program.value (fun _ => className) e) ∧
      (∀ e ∈ compilation.output.inlined, ∀ slot ∈ compilation.output.slots,
        e.leading? = some slot.name →
          program.value (compilation.output.inside program scope className) e =
            program.value (fun _ => program.value scope slot.occurrence) e) ∧
      ((∀ e ∈ compilation.output.inlined, ∃ name, e.leading? = some name ∧
          name ≠ compiler.config.classParameter ∧
          ∀ k < compilation.output.slots.length, name ≠ compiler.config.slotStem ++ decimal k) →
        compilation.output.call program scope className compiler.config =
          compilation.output.texts compiler.config (program.host scope className)) := by
  obtain ⟨hscoped, hoccurrences⟩ :=
    scoped_of_functional (Compiler.buildOutput_of_compile h) hshape
  rw [Compiler.occurrences_of_compile h] at hoccurrences
  refine ⟨fun e he => ⟨hoccurrences e he, fun name _ => hscoped.mem_parameters_iff⟩, ?_⟩
  intro Value program scope className
  refine ⟨fun e _ => hscoped.value_of_classParameter program scope className,
    fun e _ slot hslot => hscoped.value_of_slot program scope className hslot, fun hfree => ?_⟩
  refine hscoped.call_eq_texts program scope className hshape fun e he => ?_
  obtain ⟨name, hname, hclass, hslot⟩ := hfree e he
  refine ⟨name, hname, fun hmem => ?_⟩
  rcases hscoped.mem_parameters_iff.1 hmem with hmem | ⟨k, hk, hmem⟩
  · exact hclass hmem
  · exact hslot k hk hmem

/-- Assembling is splitting and then building. -/
theorem Compiler.assemble_of_buildOutput {compiler : Compiler} {m : Markers} {css : List Char}
    {asKeyframes : Bool} {blocks : List (List Char)} {output : Output}
    (hsplit : splitBlocks css asKeyframes = .ok blocks)
    (hbuild : buildOutput compiler.config m asKeyframes blocks = .ok output) :
    compiler.assemble m css asKeyframes = .ok (blocks, output) := by
  simp only [Compiler.assemble, hsplit, Except.bind_ok, hbuild]

/-- A class that one expression gives and a color that another one gives: the class is an argument, the
color stays in the body and starts with no parameter. -/
theorem scope_of_inlined_color :
    ∃ compilation, (Compiler.ofConfig Config.default).compile
        (.template (.text "&.".toList) [.span ⟨"kind".toList, by decide⟩ (.text "\x7bcolor:".toList),
          .span ⟨"theme.red".toList, by decide⟩ (.text "\x7d".toList)]) false = .ok compilation ∧
      compilation.output.inlined = [⟨"theme.red".toList, by decide⟩] ∧
      compilation.output.parameters = ["cls".toList, "expr0".toList] ∧
      ∀ scope className, compilation.output.call Program.leading scope className Config.default =
        compilation.output.texts Config.default (Program.leading.host scope className) := by
  have hencode : (Compiler.ofConfig Config.default).encode
      (.template (.text "&.".toList) [.span ⟨"kind".toList, by decide⟩ (.text "\x7bcolor:".toList),
        .span ⟨"theme.red".toList, by decide⟩ (.text "\x7d".toList)]) =
      .ok ([.literal "&.".toList, .expression ⟨"kind".toList, by decide⟩,
          .literal "\x7bcolor:".toList, .expression ⟨"theme.red".toList, by decide⟩,
          .literal "\x7d".toList],
        ⟨"&.ç\x7bcolor:è\x7d".toList,
          ⟨230, [⟨"kind".toList, by decide⟩, ⟨"theme.red".toList, by decide⟩]⟩⟩) := by cbv
  have hprocess : (Compiler.ofConfig Config.default).process ⟨"&.ç\x7bcolor:è\x7d".toList,
      ⟨230, [⟨"kind".toList, by decide⟩, ⟨"theme.red".toList, by decide⟩]⟩⟩ false =
        .ok "æ.ç\x7bcolor:è;\x7d".toList := by cbv
  have hsplit : splitBlocks "æ.ç\x7bcolor:è;\x7d".toList false =
      .ok ["æ.ç\x7bcolor:è;\x7d".toList] := by cbv
  obtain ⟨output, hbuild, hshape, hinlined, hparameters, hslots⟩ : ∃ output,
      buildOutput .default ⟨230, [⟨"kind".toList, by decide⟩, ⟨"theme.red".toList, by decide⟩]⟩ false
        ["æ.ç\x7bcolor:è;\x7d".toList] = .ok output ∧ output.shape = .functional ∧
      output.inlined = [⟨"theme.red".toList, by decide⟩] ∧
      output.parameters = ["cls".toList, "expr0".toList] ∧ output.slots.length = 1 :=
    ⟨_, rfl, rfl, by decide, by decide, by decide⟩
  have hcompile := Compiler.compile_of_stages hencode hprocess
    (Compiler.assemble_of_buildOutput hsplit hbuild)
  refine ⟨_, hcompile, hinlined, hparameters, fun scope className => ?_⟩
  refine ((scope_of_inlined hcompile hshape).2 Program.leading scope className).2.2 ?_
  rw [hinlined, hslots]
  refine List.forall_mem_singleton.2 ⟨"theme".toList, by decide, by decide, fun k hk => ?_⟩
  obtain rfl : k = 0 := Nat.lt_one_iff.1 hk
  decide

/-- An expression with the name of the class parameter is captured: the function writes the class name
in its place. -/
theorem compile_captures_class :
    ∃ compilation, (Compiler.ofConfig Config.default).compile
        (.template (.text "color:".toList) [.span ⟨"cls".toList, by decide⟩ (.text [])]) false =
          .ok compilation ∧
      compilation.output.shape = .functional ∧
      (∃ e ∈ compilation.output.inlined, ∃ name, e.leading? = some name ∧
        name ∈ compilation.output.parameters) ∧
      compilation.output.call Program.leading (fun _ => "red".toList) ".k".toList Config.default =
        some [".k\x7bcolor:.k;\x7d".toList] ∧
      compilation.output.texts Config.default
        (Program.leading.host (fun _ => "red".toList) ".k".toList) =
        some [".k\x7bcolor:red;\x7d".toList] := by
  have hencode : (Compiler.ofConfig Config.default).encode
      (.template (.text "color:".toList) [.span ⟨"cls".toList, by decide⟩ (.text [])]) =
      .ok ([.literal "color:".toList, .expression ⟨"cls".toList, by decide⟩, .literal []],
        ⟨"color:ç".toList, ⟨230, [⟨"cls".toList, by decide⟩]⟩⟩) := by cbv
  have hprocess : (Compiler.ofConfig Config.default).process
      ⟨"color:ç".toList, ⟨230, [⟨"cls".toList, by decide⟩]⟩⟩ false =
        .ok "æ\x7bcolor:ç;\x7d".toList := by cbv
  have hsplit : splitBlocks "æ\x7bcolor:ç;\x7d".toList false =
      .ok ["æ\x7bcolor:ç;\x7d".toList] := by cbv
  obtain ⟨output, hbuild, hshape, hinlined, hparameters, hcall, htexts⟩ : ∃ output,
      buildOutput .default ⟨230, [⟨"cls".toList, by decide⟩]⟩ false
        ["æ\x7bcolor:ç;\x7d".toList] = .ok output ∧ output.shape = .functional ∧
      output.inlined = [⟨"cls".toList, by decide⟩] ∧ output.parameters = ["cls".toList] ∧
      output.call Program.leading (fun _ => "red".toList) ".k".toList Config.default =
        some [".k\x7bcolor:.k;\x7d".toList] ∧
      output.texts Config.default (Program.leading.host (fun _ => "red".toList) ".k".toList) =
        some [".k\x7bcolor:red;\x7d".toList] :=
    ⟨_, rfl, rfl, by decide, by decide, by decide, by decide⟩
  have hcaptured : ∃ e ∈ output.inlined, ∃ name, e.leading? = some name ∧
      name ∈ output.parameters := by
    rw [hinlined, hparameters]
    exact ⟨_, .head _, "cls".toList, by decide, .head _⟩
  have hcompile := Compiler.compile_of_stages hencode hprocess
    (Compiler.assemble_of_buildOutput hsplit hbuild)
  exact ⟨_, hcompile, hshape, hcaptured, hcall, htexts⟩

end CssTemplate
