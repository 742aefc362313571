import CssTemplate.Proofs.Block.Split
import CssTemplate.Proofs.Output.Terms

/-!
# What outputs mean when the host program runs

`Output.texts` interprets an output: the texts of its rules, once the class name and the values of
the expressions are known (`Host`). A static shape leaves the class name in front of a rule out,
the collapsed one also the braces; a function binds its parameters by name. `Host.dotted` is the
other side, a substitution in the block itself: the class marker becomes the class name, and the
marker of an occurrence its value, after a dot where the block needs one.

`texts_buildOutput` says that the two agree for every shape. The step is `TermRun.eval`: under any
reading of handles that agrees with the host on the slots bound in the end, the terms of a block
give the run that was not written yet followed by the substituted rest.
-/

namespace CssTemplate

/-! ## Interpretation -/

/-- What the host program supplies where an output is used. -/
structure Host where
  className : List Char
  value : Expression → List Char

/-- The text of a term, when handles are read by `value`. -/
def Term.eval (value : Handle → Option (List Char)) : Term → Option (List Char)
  | .text literal => some literal
  | .value handle => value handle

/-- The text of a rule: the texts of its terms, joined. -/
def evalRule (value : Handle → Option (List Char)) : Rule → Option (List Char)
  | [] => some []
  | term :: rule => do
    let first ← term.eval value
    let rest ← evalRule value rule
    some (first ++ rest)

/-- The text of a rule without values. -/
def ruleText (rule : Rule) : Option (List Char) :=
  evalRule (fun _ => none) rule

/-- A handle inside a function whose parameters are bound as given. Parameters are found by their
names, and expressions in their places are evaluated by the host. -/
def Host.read (host : Host) (config : Config) (bound : List (List Char × List Char)) :
    Handle → Option (List Char)
  | .className => bound.lookup config.classParameter
  | .slot slot => bound.lookup slot.name
  | .expression e => some (host.value e)
  | .foreign _ => none

/-- The parameters of an output, bound to the class name and the arguments. -/
def Output.bindings (o : Output) (host : Host) : List (List Char × List Char) :=
  o.parameters.zip (host.className :: o.arguments.map host.value)

/-- The texts of the rules of an output. -/
def Output.texts (o : Output) (config : Config) (host : Host) : Option (List (List Char)) :=
  match o.shape with
  | .staticArray => o.rules.mapM fun rule => (ruleText rule).map (host.className ++ ·)
  | .singleCollapsed =>
    o.rules.mapM fun rule =>
      (ruleText rule).map fun text => host.className ++ '{' :: (text ++ ['}'])
  | .functional => o.rules.mapM (evalRule (host.read config (o.bindings host)))
  | .keyframe => o.rules.mapM (evalRule (host.read config []))

/-! ## Substitution in a block -/

/-- What a character of a block becomes at its place, after the character before it. -/
def Host.substituted (host : Host) (m : Markers) (before : Option Char) (c : Char) (place : Place) :
    List Char :=
  if c.toNat = m.base then host.className
  else
    match m.occurrence? c with
    | some e =>
      if place = .selector ∧ before ≠ some '.' then '.' :: host.value e else host.value e
    | none => [c]

/-- What a text becomes, its characters standing at the given places after the given one. -/
def Host.substitutedFrom (host : Host) (m : Markers) (before : Option Char) (text : List Char)
    (ps : List Place) : List Char :=
  ((before :: text.map some).zip (text.zip ps)).flatMap fun (before, c, place) =>
    host.substituted m before c place

/-- What a block becomes. -/
def Host.dotted (host : Host) (m : Markers) (block : List Char) :
    Except PlaceFault (List Char) :=
  (places block).map (host.substitutedFrom m none block)

section
variable {m : Markers} {host : Host} {before : Option Char} {c : Char} {place : Place}

/-- Substitution works character by character. -/
theorem Host.substitutedFrom_cons (text : List Char) (ps : List Place) :
    host.substitutedFrom m before (c :: text) (place :: ps) =
      host.substituted m before c place ++ host.substitutedFrom m (some c) text ps := rfl

/-- A character that is no marker stays. -/
theorem Host.substituted_text (h : m.contains c = false) :
    host.substituted m before c place = [c] := by
  have hclass : c.toNat ≠ m.base := by
    intro heq
    rw [Markers.contains_of_isClass (Markers.isClass_iff.2 heq)] at h
    cases h
  rw [substituted, if_neg hclass, Markers.occurrence?_of_not_contains h]

/-- The class marker becomes the class name. -/
theorem Host.substituted_class (h : m.isClass c = true) :
    host.substituted m before c place = host.className := by
  rw [substituted, if_pos (Markers.isClass_iff.1 h)]

/-- The marker of an occurrence becomes its value, after a dot where one is missing. -/
theorem Host.substituted_occurrence {e : Expression} (h : m.occurrence? c = some e) :
    host.substituted m before c place =
      if place = .selector ∧ before ≠ some '.' then '.' :: host.value e else host.value e := by
  have hclass := Markers.isClass_eq_false_iff.1 (Markers.contains_of_occurrence h).2
  rw [substituted, if_neg hclass, h]

end

/-! ## Terms under a reading -/

section
variable {value : Handle → Option (List Char)} {rule : Rule}

/-- The text of a rule after a literal text. -/
theorem evalRule_textTerm (text : List Char) (rule : Rule) :
    evalRule value (textTerm text ++ rule) = (evalRule value rule).map (text ++ ·) := by
  cases text with
  | nil => simp [textTerm]
  | cons c rest =>
    show ((evalRule value rule).bind fun more => some (c :: rest ++ more)) = _
    cases evalRule value rule <;> rfl

/-- The text of a rule after a value. -/
theorem evalRule_value {handle : Handle} {text : List Char} (h : value handle = some text) :
    evalRule value (.value handle :: rule) = (evalRule value rule).map (text ++ ·) := by
  show ((value handle).bind fun first => (evalRule value rule).bind fun more =>
    some (first ++ more)) = _
  rw [h]
  cases evalRule value rule <;> rfl

end

/-- The text of a rule depends on the handles in it. -/
theorem evalRule_congr {value value' : Handle → Option (List Char)} {rule : Rule}
    (h : ∀ handle, .value handle ∈ rule → value handle = value' handle) :
    evalRule value rule = evalRule value' rule := by
  induction rule with
  | nil => rfl
  | cons term rule ih =>
    have hterm : term.eval value = term.eval value' := by
      cases term with
      | text literal => rfl
      | value handle => exact h handle (.head _)
    rw [evalRule, evalRule, hterm, ih fun handle hmem => h handle (.tail _ hmem)]

/-- A reading of handles agrees with the host on the class name, on every expression in its place,
and on the slots of a table. -/
structure Host.Agrees (host : Host) (value : Handle → Option (List Char)) (slots : Slots) :
    Prop where
  className : value .className = some host.className
  expression : ∀ e, value (.expression e) = some (host.value e)
  slot : ∀ slot ∈ slots.toList, value (.slot slot) = some (host.value slot.occurrence)

/-- A marker is no dot in a table above ASCII. -/
theorem Markers.ne_dot_of_contains {m : Markers} {c : Char} (hbase : 0x80 ≤ m.base)
    (h : m.contains c = true) : c ≠ '.' := by
  intro hc
  rw [hc, Markers.not_contains_of_lt hbase (by decide)] at h
  cases h

/-- The dot of a class reference is written exactly where the substitution writes one. -/
theorem leadText_append_value {m : Markers} {host : Host} {before : Option Char} {c : Char}
    {e : Expression} {place : Place} {run : List Char} (he : m.occurrence? c = some e)
    (hdot : before = some '.' ↔ run.head? = some '.') :
    leadText (FoundMarker.role ⟨c, place, run.reverse⟩ m) run.reverse ++ host.value e =
      run.reverse ++ host.substituted m before c place := by
  have hclass := (Markers.contains_of_occurrence he).2
  have hrole := FoundMarker.role_eq_classReference_iff ⟨c, place, run.reverse⟩ hclass
  rw [Host.substituted_occurrence he, leadText]
  by_cases hneeds : place = .selector ∧ before ≠ some '.'
  · have hlast : run.head? ≠ some '.' := fun h => hneeds.2 (hdot.2 h)
    rw [if_pos hneeds, if_pos (by simp [hrole.2 hneeds.1, hlast])]
    simp
  · rw [if_neg hneeds, if_neg]
    intro hlead
    simp only [Bool.and_eq_true, decide_eq_true_eq, List.getLast?_reverse] at hlead
    exact hneeds ⟨hrole.1 hlead.1, fun h => hlead.2 (hdot.1 h)⟩

/-- **The terms of a block mean its substitution.** After a run that is not written yet, the terms
of the rest of a block give that run and the substituted rest. What the substitution needs of the
character before is whether it is a dot, and the run knows that: after a marker it is empty, and no
marker is a dot. -/
theorem TermRun.eval {m : Markers} {host : Host} {value : Handle → Option (List Char)}
    {cursor : Cursor} {run text : List Char} {slots final : Slots} {rule : Rule}
    (hbase : 0x80 ≤ m.base) (h : TermRun m cursor run slots text rule final)
    (hvalid : slots.Valid m) (hagrees : host.Agrees value final) :
    ∀ before : Option Char, (before = some '.' ↔ run.head? = some '.') →
      ∃ ps, placesFrom cursor text = .ok ps ∧
        evalRule value rule = some (run.reverse ++ host.substitutedFrom m before text ps) := by
  induction h with
  | done cursor run slots =>
    intro before _
    refine ⟨[], rfl, ?_⟩
    rw [← List.append_nil (textTerm run.reverse), evalRule_textTerm]
    rfl
  | @text cursor next run rest slots final c rule hstep hc _ ih =>
    intro before _
    obtain ⟨ps, hps, heval⟩ := ih hvalid hagrees (some c) (by simp)
    refine ⟨next.place :: ps, by rw [placesFrom_cons hstep, hps, Except.map_ok], ?_⟩
    rw [heval, Host.substitutedFrom_cons, Host.substituted_text hc]
    simp
  | @className cursor next run rest slots final c rule hstep hc _ ih =>
    intro before _
    have hne := Markers.ne_dot_of_contains hbase (Markers.contains_of_isClass hc)
    obtain ⟨ps, hps, heval⟩ := ih hvalid hagrees (some c) (by simp [hne])
    refine ⟨next.place :: ps, by rw [placesFrom_cons hstep, hps, Except.map_ok], ?_⟩
    rw [evalRule_textTerm, evalRule_value hagrees.className, heval, Host.substitutedFrom_cons,
      Host.substituted_class hc]
    rfl
  | @expression cursor next run rest slots final c e role rule hstep he hrole hrest ih =>
    intro before hdot
    have hne := Markers.ne_dot_of_contains hbase (Markers.contains_of_occurrence he).1
    obtain ⟨ps, hps, heval⟩ := ih (hvalid.handle he) hagrees (some c) (by simp [hne])
    have hvalue : value (slots.handle [c] e role.takesSlot).1 = some (host.value e) := by
      rcases hvalid.handle_value he role.takesSlot with hex | ⟨slot, hmem, hsl, rfl⟩
      · rw [hex, hagrees.expression]
      · rw [hsl]
        exact hagrees.slot slot (hrest.mem_slots hmem)
    refine ⟨next.place :: ps, by rw [placesFrom_cons hstep, hps, Except.map_ok], ?_⟩
    rw [evalRule_textTerm, evalRule_value hvalue, heval, Host.substitutedFrom_cons, ← hrole,
      ← List.append_assoc run.reverse, ← leadText_append_value he hdot]
    simp

/-- A reading that agrees with the host on a table agrees on every table before it. -/
theorem Host.Agrees.mono {host : Host} {value : Handle → Option (List Char)} {slots final : Slots}
    (h : host.Agrees value final) (hsub : slots.entries <+: final.entries) :
    host.Agrees value slots where
  className := h.className
  expression := h.expression
  slot := by
    intro slot hmem
    obtain ⟨entry, hentry, rfl⟩ := List.mem_map.1 hmem
    exact h.slot _ (List.mem_map.2 ⟨entry, hsub.subset hentry, rfl⟩)

/-- The terms of the blocks of a template mean their substitutions, in order. -/
theorem RuleRuns.eval {m : Markers} {host : Host} {value : Handle → Option (List Char)}
    {slots final : Slots} {blocks : List (List Char)} {rules : List Rule} (hbase : 0x80 ≤ m.base)
    (h : RuleRuns m slots blocks rules final) (hvalid : slots.Valid m)
    (hagrees : host.Agrees value final) :
    ∃ texts, blocks.mapM (host.dotted m) = .ok texts ∧
      rules.mapM (evalRule value) = some texts := by
  induction h with
  | nil => exact ⟨[], rfl, rfl⟩
  | @cons slots next final block blocks rule rules hrun hruns ih =>
    obtain ⟨ps, hps, heval⟩ :=
      hrun.eval hbase hvalid (hagrees.mono hruns.prefix_slots) none (by simp)
    obtain ⟨texts, hdotted, htexts⟩ := ih (hrun.valid hvalid) hagrees
    refine ⟨host.substitutedFrom m none block ps :: texts, ?_, ?_⟩
    · rw [List.mapM_cons, Host.dotted, places, hps, hdotted]
      rfl
    · rw [List.mapM_cons, heval, htexts]
      rfl

/-! ## Static rules -/

/-- The host's own reading: a slot stands for the value of its occurrence. -/
def Host.direct (host : Host) : Handle → Option (List Char)
  | .className => some host.className
  | .slot slot => some (host.value slot.occurrence)
  | .expression e => some (host.value e)
  | .foreign _ => none

/-- The host's own reading agrees with the host on every table. -/
theorem Host.agrees_direct (host : Host) (slots : Slots) : host.Agrees host.direct slots where
  className := rfl
  expression := fun _ => rfl
  slot := fun _ _ => rfl

/-- The text of literal terms. -/
theorem evalRule_map_text (value : Handle → Option (List Char)) (texts : List (List Char)) :
    evalRule value (texts.map .text) = some texts.flatten := by
  induction texts with
  | nil => rfl
  | cons text texts ih => rw [List.map_cons, evalRule, ih]; rfl

/-- A rule with static texts is the class name and these texts. -/
theorem rule_of_staticTexts {rule : Rule} {texts : List (List Char)}
    (h : staticTexts rule = .ok texts) : rule = .value .className :: texts.map .text := by
  unfold staticTexts at h
  split at h
  · next rest =>
    refine congrArg _ ?_
    induction rest generalizing texts with
    | nil => cases h; rfl
    | cons term rest ih =>
      rw [List.mapM_cons, Except.bind_eq_ok_iff] at h
      obtain ⟨text, hterm, h⟩ := h
      obtain ⟨more, hmore, h⟩ := Except.bind_eq_ok_iff.1 h
      cases h
      cases term with
      | text literal => cases hterm; rw [ih hmore]; rfl
      | value => cases hterm
  · cases h

/-- Texts with the opening brace dropped had it in front. -/
theorem flatten_of_dropOpening {texts opened : List (List Char)}
    (h : dropOpening texts = .ok opened) : texts.flatten = '{' :: opened.flatten := by
  unfold dropOpening at h
  split at h
  · cases h
  · cases h; rfl
  · cases h

/-- Texts with the closing brace dropped had it at the end. -/
theorem flatten_of_dropClosing {texts closed : List (List Char)}
    (h : dropClosing texts = .ok closed) : texts.flatten = closed.flatten ++ ['}'] := by
  unfold dropClosing at h
  split at h
  · cases h
  · next last hlast =>
    split at h
    · next hbrace =>
      cases h
      obtain ⟨front, rfl⟩ := List.getLast?_eq_some_iff.1 hlast
      obtain ⟨inner, rfl⟩ := List.getLast?_eq_some_iff.1 hbrace
      simp
    · cases h

/-- Texts without their braces are the texts between them. -/
theorem flatten_of_unbraced {texts inner : List (List Char)} (h : unbraced texts = .ok inner) :
    texts.flatten = '{' :: (inner.flatten ++ ['}']) := by
  rw [unbraced, Except.bind_eq_ok_iff] at h
  obtain ⟨opened, hopened, h⟩ := h
  obtain ⟨closed, hclosed, h⟩ := Except.bind_eq_ok_iff.1 h
  cases h
  rw [flatten_of_dropOpening hopened, flatten_of_dropClosing hclosed,
    List.flatten_filter_not_isEmpty]

/-- A static rule says what the full rule says after the class name, in braces if these were left
out. -/
theorem eval_staticRule (host : Host) {collapse : Bool} {rule static : Rule}
    (h : staticRule collapse rule = .ok static) :
    ((ruleText static).map fun text =>
      host.className ++ if collapse then '{' :: (text ++ ['}']) else text) =
        evalRule host.direct rule := by
  rw [staticRule, Except.bind_eq_ok_iff] at h
  obtain ⟨texts, htexts, h⟩ := h
  have hrule : evalRule host.direct rule = some (host.className ++ texts.flatten) := by
    have hclass : host.direct .className = some host.className := rfl
    rw [rule_of_staticTexts htexts, evalRule_value hclass, evalRule_map_text]
    rfl
  rw [hrule]
  cases collapse with
  | true =>
    obtain ⟨inner, hinner, h⟩ := Except.bind_eq_ok_iff.1 h
    cases h
    rw [ruleText, evalRule_map_text, flatten_of_unbraced hinner]
    rfl
  | false =>
    cases h
    rw [ruleText, evalRule_map_text]
    rfl

/-! ## Parameters -/

/-- A parameter is found by its name where no other parameter has this name. -/
theorem lookup_zip {α : Type} {keys : List (List Char)} {values : List α} {key : List Char}
    {value : α} {k : Nat} (hnodup : keys.Nodup) (hkey : keys[k]? = some key)
    (hvalue : values[k]? = some value) :
    (keys.zip values).lookup key = some value := by
  induction keys generalizing values k with
  | nil => cases hkey
  | cons first keys ih =>
    cases values with
    | nil => cases hvalue
    | cons v values =>
      cases k with
      | zero =>
        cases hkey
        cases hvalue
        exact List.lookup_cons_self
      | succ k =>
        obtain ⟨hfresh, hnodup⟩ := List.nodup_cons.1 hnodup
        have hne : (key == first) = false := by
          rw [beq_eq_false_iff_ne]
          rintro rfl
          exact hfresh (List.mem_of_getElem? hkey)
        rw [List.zip_cons_cons, List.lookup_cons, hne]
        exact ih hnodup hkey hvalue

/-- Inside a function of the class name and of valid slots, parameters are read as the host means
them: the names of the slots differ from each other and from the class parameter. -/
theorem Host.agrees_read {m : Markers} {config : Config} {slots : Slots} {o : Output} (host : Host)
    (hvalid : slots.Valid m) (hstem : slots.stem = config.slotStem)
    (hparams : o.parameters = config.classParameter :: slots.toList.map Slot.name)
    (hslots : o.slots = slots.toList) :
    host.Agrees (host.read config (o.bindings host)) slots where
  className := by
    rw [read, Output.bindings, hparams]
    exact List.lookup_cons_self
  expression := fun _ => rfl
  slot := by
    intro slot hmem
    obtain ⟨k, hk, rfl⟩ := List.mem_iff_getElem.1 hmem
    have hnodup : (config.classParameter :: slots.toList.map Slot.name).Nodup := by
      refine List.nodup_cons.2 ⟨fun hname => ?_, hvalid.names_nodup⟩
      obtain ⟨other, hother, hname⟩ := List.mem_map.1 hname
      exact hvalid.name_ne_classParameter config hstem other hother hname
    rw [read, Output.bindings, hparams, Output.arguments, hslots]
    refine lookup_zip (k := k + 1) hnodup ?_ ?_
    · rw [List.getElem?_cons_succ, List.getElem?_map, List.getElem?_eq_getElem hk, Option.map_some]
    · rw [List.getElem?_cons_succ, List.getElem?_map, List.getElem?_map,
        List.getElem?_eq_getElem hk, Option.map_some, Option.map_some]

/-! ## Outputs -/

/-- A static output says what the rules say under the host's own reading. -/
theorem texts_staticOutput {host : Host} {config : Config} {blocks : List (List Char)}
    {rules : List Rule} {o : Output} (h : staticOutput blocks rules = .ok o) :
    o.texts config host = rules.mapM (evalRule host.direct) := by
  rw [staticOutput, Except.bind_eq_ok_iff] at h
  obtain ⟨statics, hstatics, h⟩ := h
  obtain ⟨hshape, hrules, -, -⟩ := of_makeOutput h
  rw [← Except.mapM_of_mapM_ok (fun _ _ => eval_staticRule host) hstatics, Output.texts,
    hshape, hrules]
  cases collapses blocks <;> rfl

/-- **Outputs mean what their blocks say.** Whatever shape is chosen for the blocks of a split text,
interpreting it gives the blocks, in order, with the class name and the values of the expressions
in place of the markers. -/
theorem texts_buildOutput (config : Config) {m : Markers} (hbase : 0x80 ≤ m.base)
    {css : List Char} {blocks : List (List Char)} (hsplit : splitBlocks css false = .ok blocks)
    {o : Output} (hbuild : buildOutput config m false blocks = .ok o) (host : Host) :
    ∃ texts, blocks.mapM (host.dotted m) = .ok texts ∧ o.texts config host = some texts := by
  have hblocks := filter_splitBlocks hsplit
  rcases rulesTerms_cases m blocks { stem := config.slotStem } with
    ⟨-, herr⟩ | ⟨-, rules, final, hok, hruns⟩
  · rw [buildOutput_eq_error hblocks herr] at hbuild
    cases hbuild
  · have hvalid := Slots.Valid.empty m config.slotStem
    rw [buildOutput_eq hblocks hok] at hbuild
    split at hbuild
    · obtain ⟨texts, hdotted, htexts⟩ := hruns.eval hbase hvalid (host.agrees_direct final)
      exact ⟨texts, hdotted, by rw [texts_staticOutput hbuild, htexts]⟩
    · obtain ⟨hshape, hrules, hparams, hslots⟩ := of_makeOutput hbuild
      obtain ⟨texts, hdotted, htexts⟩ := hruns.eval hbase hvalid
        (host.agrees_read (hruns.valid hvalid) hruns.stem_slots hparams hslots)
      exact ⟨texts, hdotted, by rw [Output.texts, hshape, hrules]; exact htexts⟩

/-- An expression that stands in a body first, and then both as a class and in a body: its first
use stays in its place, the others go through a slot, and only the class gets a dot. -/
theorem texts_buildOutput_value_then_class :
    ∃ o, splitBlocks ['æ', '{', 'ç', '}', 'ç', '{', 'ç', '}'] false =
        .ok [['æ', '{', 'ç', '}'], ['ç', '{', 'ç', '}']] ∧
      buildOutput .default ⟨230, [⟨['x'], rfl⟩]⟩ false
        [['æ', '{', 'ç', '}'], ['ç', '{', 'ç', '}']] = .ok o ∧
      o.texts .default ⟨['.', 'k'], Expression.text⟩ =
        some [['.', 'k', '{', 'x', '}'], ['.', 'x', '{', 'x', '}']] := by
  refine ⟨_, rfl, rfl, ?_⟩
  obtain ⟨texts, hdotted, htexts⟩ := texts_buildOutput .default (m := ⟨230, [⟨['x'], rfl⟩]⟩)
    (by decide) (show splitBlocks ['æ', '{', 'ç', '}', 'ç', '{', 'ç', '}'] false = _ from rfl)
    rfl ⟨['.', 'k'], Expression.text⟩
  rw [htexts]
  exact congrArg some (Except.ok.inj hdotted).symm

end CssTemplate
