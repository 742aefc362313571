import CssTemplate.Proofs.Block.StyleRules
import CssTemplate.Proofs.Output.Interpretation
import CssTemplate.Proofs.Output.Scope

/-!
# Bodies of animations

The body of an animation is one block, and its output has no parameters. So an expression in it cannot
name a class or an animation (`Markers.references`): such markers are what gets a slot, once each
and in the order of their first use as a reference (`TermRun.eraseDups_markers`).

`keyframes_buildOutput` gives the outcome for every body. A body that cannot be classified is refused
first, then one with references, then one that is empty or mentions the class name. Any other body
becomes one rule, which is the body with the values of the expressions in their places.
-/

namespace CssTemplate

/-! ## References -/

/-- The markers of expressions that name a class or an animation, in a text whose characters stand at
the given places, behind the given front. -/
def Markers.references (m : Markers) : List Char → List Char → List Place → List Char
  | front, c :: text, place :: ps =>
    if (m.occurrence? c).isSome ∧
        (place = .selector ∨ place = .declarations ∧ NamesAnimation (m.sinceMarker front)) then
      c :: m.references (front ++ [c]) text ps
    else m.references (front ++ [c]) text ps
  | _, _, _ => []

/-- What a text becomes when only expressions are filled in. -/
def Host.filled (host : Host) (m : Markers) (text : List Char) : List Char :=
  text.flatMap fun c => ((m.occurrence? c).map host.value).getD [c]

section
variable {m : Markers} {front text run : List Char} {c : Char} {place : Place} {ps : List Place}
  {e : Expression} {cursor : Cursor} {slots final : Slots} {rule : Rule}

/-- A character that is no marker of an expression is no reference. -/
theorem Markers.references_cons_of_none (h : m.occurrence? c = none) :
    m.references front (c :: text) (place :: ps) = m.references (front ++ [c]) text ps := by
  rw [references, h, if_neg]
  rintro ⟨hsome, -⟩
  cases hsome

/-- The expressions that take a slot are the references. -/
theorem FoundMarker.takesSlot_role_iff (found : FoundMarker) (h : m.isClass found.char = false) :
    (found.role m).takesSlot = true ↔
      found.place = .selector ∨ found.place = .declarations ∧ NamesAnimation found.preceding := by
  rw [role, if_neg (by rw [h]; decide), ← endsWithAnimation_iff]
  by_cases hselector : found.place = .selector
  · simp [hselector, MarkerRole.takesSlot]
  · rw [if_neg hselector]
    split
    · next hname => simpa [MarkerRole.takesSlot, hselector] using hname
    · next hname => simpa [MarkerRole.takesSlot, hselector] using hname

/-- A marker of an expression is a reference if its role takes a slot. -/
theorem Markers.references_cons_of_some (he : m.occurrence? c = some e)
    (hrun : run.reverse = m.sinceMarker front) :
    m.references front (c :: text) (place :: ps) =
      if (FoundMarker.role ⟨c, place, run.reverse⟩ m).takesSlot then
        c :: m.references (front ++ [c]) text ps
      else m.references (front ++ [c]) text ps := by
  rw [references]
  refine if_congr ?_ rfl rfl
  rw [FoundMarker.takesSlot_role_iff _ (Markers.contains_of_occurrence he).2, hrun, he]
  simp

/-- There is one place for each character. -/
theorem length_placesFrom (h : placesFrom cursor text = .ok ps) : ps.length = text.length := by
  induction text generalizing cursor ps with
  | nil =>
    cases h
    rfl
  | cons c text ih =>
    obtain ⟨next, -, h⟩ := Except.bind_eq_ok_iff.1 h
    obtain ⟨qs, hqs, h⟩ := Except.bind_eq_ok_iff.1 h
    cases h
    exact congrArg (· + 1) (ih hqs)

/-- Without references and without the class name, filling in values is all there is to do. -/
theorem Host.substitutedFrom_of_references (host : Host) {before : Option Char}
    (hps : ps.length = text.length) (hreferences : m.references front text ps = [])
    (hclass : ∀ c ∈ text, m.isClass c = false) :
    host.substitutedFrom m before text ps = host.filled m text := by
  induction text generalizing front before ps with
  | nil => rfl
  | cons c text ih =>
    cases ps with
    | nil => cases hps
    | cons place ps =>
      obtain ⟨hc, hclass⟩ := List.forall_mem_cons.1 hclass
      rw [Host.substitutedFrom_cons, Host.filled, List.flatMap_cons]
      cases hoccurrence : m.occurrence? c with
      | none =>
        rw [Markers.references_cons_of_none hoccurrence] at hreferences
        rw [ih (Nat.succ.inj hps) hreferences hclass, Host.substituted,
          if_neg (Markers.isClass_eq_false_iff.1 hc), hoccurrence]
        rfl
      | some e =>
        rw [Markers.references] at hreferences
        split at hreferences
        · cases hreferences
        · next hplain =>
          have hplace : place ≠ .selector := fun h => hplain ⟨by rw [hoccurrence]; rfl, .inl h⟩
          rw [ih (Nat.succ.inj hps) hreferences hclass, Host.substituted_occurrence hoccurrence,
            if_neg fun h => hplace h.1]
          rfl

/-! ## Slots of references -/

/-- The markers that have slots, in the order of binding. -/
def Slots.markers (slots : Slots) : List Char :=
  slots.entries.flatMap Prod.fst

/-- A new slot has its marker at the end. -/
theorem Slots.markers_push (slots : Slots) (c : Char) (e : Expression) :
    (slots.push [c] e).markers = slots.markers ++ [c] := by
  rw [Slots.markers, Slots.push, List.flatMap_append]
  rfl

/-- The markers of a table are those with a slot. -/
theorem Slots.Valid.mem_markers_iff (h : slots.Valid m) :
    c ∈ slots.markers ↔ ∃ slot, slots.get? [c] = some slot := by
  constructor
  · intro hmem
    obtain ⟨⟨marker, slot⟩, hentry, hc⟩ := List.mem_flatMap.1 hmem
    obtain ⟨d, rfl, -⟩ := h.marked marker slot hentry
    cases List.mem_singleton.1 hc
    have hkey : [c] ∈ slots.entries.map Prod.fst := List.mem_map.2 ⟨_, hentry, rfl⟩
    cases hget : slots.get? [c] with
    | some found => exact ⟨found, rfl⟩
    | none =>
      have hne := List.lookup_eq_none_iff.1 hget _ hentry
      simp at hne
  · rintro ⟨slot, hget⟩
    exact List.mem_flatMap.2 ⟨_, Slots.mem_of_get? hget, .head _⟩

/-- The expressions of the slots are those of their markers. -/
theorem Slots.Valid.map_occurrence (h : slots.Valid m) :
    slots.toList.map Slot.occurrence = slots.markers.filterMap m.occurrence? := by
  have hmarked := h.marked
  rw [Slots.toList, Slots.markers]
  revert hmarked
  induction slots.entries with
  | nil => exact fun _ => rfl
  | cons entry entries ih =>
    intro hmarked
    obtain ⟨c, hc, he⟩ := hmarked entry.1 entry.2 (.head _)
    rw [List.flatMap_cons, List.filterMap_append, List.map_cons, List.map_cons, hc,
      ih fun marker slot hmem => hmarked marker slot (.tail _ hmem)]
    simp [he]

/-- A visit adds no marker that was there before. -/
theorem Slots.Valid.nodup_markers_handle (h : slots.Valid m) (hnodup : slots.markers.Nodup)
    (asParameter : Bool) : (slots.handle [c] e asParameter).2.markers.Nodup := by
  rcases slots.handle_cases [c] e asParameter with ⟨_, -, heq⟩ | ⟨hget, -, heq⟩ | ⟨-, -, heq⟩ <;>
    rw [heq]
  · exact hnodup
  · have hfresh : c ∉ slots.markers := by
      rw [h.mem_markers_iff, hget]
      rintro ⟨slot, hslot⟩
      cases hslot
    rw [Slots.markers_push, ← List.concat_eq_append]
    exact hnodup.concat hfresh
  · exact hnodup

/-- The run over a block leaves every marker with one slot at most. -/
theorem TermRun.nodup_markers (h : TermRun m cursor run slots text rule final)
    (hvalid : slots.Valid m) (hnodup : slots.markers.Nodup) : final.markers.Nodup := by
  induction h with
  | done => exact hnodup
  | text _ _ _ ih => exact ih hvalid hnodup
  | className _ _ _ ih => exact ih hvalid hnodup
  | expression _ he _ _ ih =>
    exact ih (hvalid.handle he) (hvalid.nodup_markers_handle hnodup _)

/-- The run since the last marker, one character further on. -/
theorem Markers.runAfter_concat (m : Markers) (run front : List Char) (c : Char) :
    m.runAfter run (front ++ [c]) = if m.contains c then [] else c :: m.runAfter run front := by
  rw [Markers.runAfter, List.foldl_append]
  rfl

/-- A pass binds slots to the references, in the order of their first use as one. -/
theorem TermRun.eraseDups_markers (h : TermRun m cursor run slots text rule final)
    (hvalid : slots.Valid m) (front : List Char) (hrun : run = m.runAfter [] front) :
    ∃ ps, placesFrom cursor text = .ok ps ∧
      (slots.markers ++ m.references front text ps).eraseDups = final.markers.eraseDups := by
  induction h generalizing front with
  | done cursor run slots => exact ⟨[], rfl, congrArg _ (List.append_nil _)⟩
  | @text cursor next run rest slots final c rule hstep hc _ ih =>
    obtain ⟨ps, hps, hmarkers⟩ := ih hvalid (front ++ [c])
      (by rw [Markers.runAfter_concat, hc, if_neg (by decide), hrun])
    refine ⟨next.place :: ps, by rw [placesFrom_cons hstep, hps, Except.map_ok], ?_⟩
    rwa [Markers.references_cons_of_none (Markers.occurrence?_of_not_contains hc)]
  | @className cursor next run rest slots final c rule hstep hc _ ih =>
    obtain ⟨ps, hps, hmarkers⟩ := ih hvalid (front ++ [c])
      (by rw [Markers.runAfter_concat, if_pos (Markers.contains_of_isClass hc)])
    refine ⟨next.place :: ps, by rw [placesFrom_cons hstep, hps, Except.map_ok], ?_⟩
    rwa [Markers.references_cons_of_none (Markers.occurrence?_of_isClass hc)]
  | @expression cursor next run rest slots final c e role rule hstep he hrole _ ih =>
    obtain ⟨ps, hps, hmarkers⟩ := ih (hvalid.handle he) (front ++ [c])
      (by rw [Markers.runAfter_concat, if_pos (Markers.contains_of_occurrence he).1])
    refine ⟨next.place :: ps, by rw [placesFrom_cons hstep, hps, Except.map_ok], ?_⟩
    have hpreceding : run.reverse = m.sinceMarker front := by rw [hrun, Markers.reverse_runAfter]
    rw [Markers.references_cons_of_some he hpreceding, hrole, ← hmarkers]
    cases hslot : role.takesSlot with
    | false =>
      rcases slots.handle_cases [c] e false with ⟨_, -, heq⟩ | ⟨-, hparameter, -⟩ | ⟨-, -, heq⟩
      · rw [heq]
        rfl
      · cases hparameter
      · rw [heq]
        rfl
    | true =>
      rw [if_pos rfl]
      rcases slots.handle_cases [c] e true with ⟨slot, hget, heq⟩ | ⟨-, -, heq⟩ | ⟨-, hinline, -⟩
      · rw [heq, eraseDups_append_cons (hvalid.mem_markers_iff.2 ⟨slot, hget⟩)]
      · rw [heq, Slots.markers_push, List.append_assoc]
        rfl
      · cases hinline

/-- The class name is among the terms exactly if its marker is in the text. -/
theorem TermRun.any_isClassName_iff (h : TermRun m cursor run slots text rule final) :
    rule.any Term.isClassName = true ↔ ∃ c ∈ text, m.isClass c = true := by
  have htext : ∀ (text : List Char) (rule : Rule),
      (textTerm text ++ rule).any Term.isClassName = rule.any Term.isClassName := by
    intro text rule
    cases text <;> rfl
  induction h with
  | done cursor run slots =>
    rw [← List.append_nil (textTerm _), htext]
    simp
  | text _ hc _ ih =>
    refine ih.trans ?_
    rw [List.exists_mem_cons_iff, or_iff_right]
    intro hclass
    rw [Markers.contains_of_isClass hclass] at hc
    cases hc
  | className _ hc _ _ =>
    rw [htext, List.exists_mem_cons_iff]
    exact iff_of_true rfl (.inl hc)
  | @expression _ _ run _ slots _ c e role rule _ he _ _ ih =>
    have hclass : ¬m.isClass c = true := by rw [(Markers.contains_of_occurrence he).2]; decide
    have hvalue : Term.isClassName (.value (slots.handle [c] e role.takesSlot).1) = false := by
      rcases slots.handle_cases [c] e role.takesSlot with ⟨_, -, heq⟩ | ⟨-, -, heq⟩ | ⟨-, -, heq⟩ <;>
        rw [heq] <;> rfl
    rw [htext, List.any_cons, hvalue, Bool.false_or, List.exists_mem_cons_iff, or_iff_right hclass]
    exact ih

end

/-! ## Outcomes -/

section
variable {config : Config} {m : Markers} {css : List Char} {rule : Rule} {final : Slots}

/-- The terms of one block are those of the block. -/
theorem rulesTerms_singleton {block : List Char} {slots : Slots}
    (h : ruleTerms m block slots = .ok (rule, final)) :
    rulesTerms m [block] slots = .ok ([rule], final) := by
  rw [rulesTerms, h, Except.bind_ok]
  rfl

/-- A body is built from its terms; the empty body has no rule at all. -/
theorem buildOutput_keyframes (h : ruleTerms m css { stem := config.slotStem } = .ok (rule, final)) :
    buildOutput config m true [css] = keyframeOutput (if css = [] then [] else [rule]) final := by
  rw [buildOutput]
  cases css with
  | nil =>
    cases h
    rfl
  | cons c css =>
    have hfilter : [c :: css].filter (fun block => !block.isEmpty) = [c :: css] := rfl
    simp only [hfilter, rulesTerms_singleton h, Except.bind_ok]
    rfl

/-- The markers with slots are the references. -/
theorem TermRun.markers_eq {stem : List Char} {ps : List Place}
    (h : TermRun m {} [] { stem := stem } css rule final) (hps : places css = .ok ps) :
    final.markers = (m.references [] css ps).eraseDups := by
  have hvalid := Slots.Valid.empty m stem
  obtain ⟨qs, hqs, hmarkers⟩ := h.eraseDups_markers hvalid [] rfl
  cases hqs.symm.trans hps
  rw [← eraseDups_of_nodup (h.nodup_markers hvalid .nil), ← hmarkers]
  rfl

/-- An animation that refers to slots fails with their expressions in order. -/
theorem keyframeOutput_of_references {rules : List Rule} (h : final.markers ≠ []) :
    keyframeOutput rules final = .error (.keyframeReferences (final.toList.map Slot.occurrence)) := by
  unfold keyframeOutput
  rw [if_pos]
  intro hsize
  rw [Slots.markers, List.eq_nil_of_length_eq_zero hsize] at h
  exact h rfl

/-- A table without markers has no slots. -/
theorem Slots.Valid.size_eq_zero (hvalid : final.Valid m) (h : final.markers = []) :
    final.size = 0 := by
  rw [Slots.size, List.length_eq_zero_iff, List.eq_nil_iff_forall_not_mem]
  intro entry hentry
  obtain ⟨c, hc, -⟩ := hvalid.marked entry.1 entry.2 hentry
  rw [List.flatMap_eq_nil_iff.1 h entry hentry] at hc
  cases hc

/-- One rule without slots and without the class name is an output. -/
theorem exists_keyframeOutput (hsize : final.size = 0) (hclass : rule.any Term.isClassName = false) :
    ∃ o, keyframeOutput [rule] final = .ok o := by
  unfold keyframeOutput
  rw [if_neg (not_not_intro hsize)]
  simp only [hclass, Bool.false_eq_true, if_false]
  exact exists_makeOutput (fun _ => rfl) fun _ => ⟨rfl, rfl⟩

/-- Without slots, a body has an output unless it is empty or mentions the class name. -/
theorem keyframeOutput_cases (hsize : final.size = 0) :
    (∃ fault, keyframeOutput (if css = [] then [] else [rule]) final = .error (.shape fault)) ∧
        (css = [] ∨ rule.any Term.isClassName = true) ∨
      (∃ o, keyframeOutput (if css = [] then [] else [rule]) final = .ok o) ∧
        ¬(css = [] ∨ rule.any Term.isClassName = true) := by
  by_cases hcss : css = []
  · refine .inl ⟨⟨.keyframeRules 0, ?_⟩, .inl hcss⟩
    unfold keyframeOutput
    rw [if_neg (not_not_intro hsize), if_pos hcss]
    rfl
  · rw [if_neg hcss]
    cases hclass : rule.any Term.isClassName with
    | true =>
      refine .inl ⟨⟨.classInKeyframes, ?_⟩, .inr rfl⟩
      unfold keyframeOutput
      rw [if_neg (not_not_intro hsize)]
      simp only [hclass, if_true]
    | false => exact .inr ⟨exists_keyframeOutput hsize hclass, by simp [hcss]⟩

/-- The rule of an animation says what the body says, with the values filled in. -/
theorem TermRun.eval_keyframes {o : Output} {ps : List Place} (hbase : 0x80 ≤ m.base)
    (hrun : TermRun m {} [] { stem := config.slotStem } css rule final) (hps : places css = .ok ps)
    (hreferences : m.references [] css ps = []) (hclass : ∀ c ∈ css, m.isClass c = false)
    (ho : keyframeOutput [rule] final = .ok o) :
    o.shape = .keyframe ∧ o.rules = [rule] ∧
      ∀ host : Host, evalRule (host.read config []) rule = some (host.filled m css) := by
  have hruns : RuleRuns m _ [css] [rule] final := .cons hrun (.nil _)
  obtain ⟨hshape, hrules, hclosed⟩ := hruns.closed_keyframeOutput ho
  refine ⟨hshape, hrules, fun host => ?_⟩
  have hmem : rule ∈ o.rules := by rw [hrules]; exact .head _
  have hread : evalRule (host.read config []) rule = evalRule host.direct rule := by
    refine evalRule_congr fun handle hhandle => ?_
    cases handle with
    | className => exact absurd hhandle (hclosed.className rule hmem)
    | slot slot => exact absurd hhandle (hclosed.slot rule hmem slot)
    | expression e => rfl
    | foreign value => rfl
  obtain ⟨qs, hqs, heval⟩ := hrun.eval hbase (.empty m _) (host.agrees_direct final) none (by simp)
  cases hqs.symm.trans hps
  rw [hread, heval, host.substitutedFrom_of_references (length_placesFrom hps) hreferences hclass]
  rfl

/-- A body that cannot be classified is refused for that reason. -/
theorem buildOutput_keyframes_eq_error (h : places css = .error .nestedAtRule) :
    buildOutput config m true [css] = .error (.place .nestedAtRule) := by
  have hfilter : [css].filter (fun block => !block.isEmpty) = [css] := by
    cases css with
    | nil => cases h
    | cons c css => rfl
  refine buildOutput_eq_error hfilter ?_
  rw [rulesTerms, ruleTerms_eq_error h, Except.bind_error]

/-- What becomes of a body that can be classified. -/
theorem buildOutput_keyframes_cases (config : Config) {ps : List Place} (hbase : 0x80 ≤ m.base)
    (hps : places css = .ok ps) :
    m.references [] css ps ≠ [] ∧ buildOutput config m true [css] = .error (.keyframeReferences
        ((m.references [] css ps).eraseDups.filterMap m.occurrence?)) ∨
    m.references [] css ps = [] ∧ (css = [] ∨ ∃ c ∈ css, m.isClass c = true) ∧
      (∃ fault, buildOutput config m true [css] = .error (.shape fault)) ∨
    m.references [] css ps = [] ∧ ¬(css = [] ∨ ∃ c ∈ css, m.isClass c = true) ∧
      ∃ o rule, buildOutput config m true [css] = .ok o ∧ o.shape = .keyframe ∧ o.rules = [rule] ∧
        ∀ host : Host, evalRule (host.read config []) rule = some (host.filled m css) := by
  obtain ⟨rule, final, hterms, hrun⟩ := exists_ruleTerms (m := m) hps { stem := config.slotStem }
  have hvalid := hrun.valid (.empty m _)
  have hmarkers := hrun.markers_eq hps
  rw [buildOutput_keyframes hterms, ← hrun.any_isClassName_iff]
  by_cases hreferences : m.references [] css ps = []
  · have hsize : final.size = 0 := by
      refine hvalid.size_eq_zero ?_
      rw [hmarkers, hreferences]
      rfl
    rcases keyframeOutput_cases hsize with ⟨hfault, hbad⟩ | ⟨⟨o, ho⟩, hgood⟩
    · exact .inr (.inl ⟨hreferences, hbad, hfault⟩)
    · refine .inr (.inr ⟨hreferences, hgood, o, rule, ho, ?_⟩)
      obtain ⟨hne, hclass⟩ := not_or.1 hgood
      rw [if_neg hne] at ho
      refine hrun.eval_keyframes hbase hps hreferences (fun c hc => ?_) ho
      rw [← Bool.not_eq_true]
      exact fun htrue => hclass (hrun.any_isClassName_iff.2 ⟨c, hc, htrue⟩)
  · refine .inl ⟨hreferences, ?_⟩
    have hne : final.markers ≠ [] := by
      rw [hmarkers]
      cases hlist : m.references [] css ps with
      | nil => exact absurd hlist hreferences
      | cons c rest =>
        rw [List.eraseDups_cons]
        exact List.cons_ne_nil _ _
    rw [keyframeOutput_of_references hne, hvalid.map_occurrence, hmarkers]

/-- **The outcome for the body of an animation.** -/
theorem keyframes_buildOutput (config : Config) (hbase : 0x80 ≤ m.base) (css : List Char) :
    splitBlocks css true = .ok [css] ∧
    (buildOutput config m true [css] = .error (.place .nestedAtRule) ↔
      places css = .error .nestedAtRule) ∧
    ∀ ps, places css = .ok ps →
      (∀ es, buildOutput config m true [css] = .error (.keyframeReferences es) ↔
        m.references [] css ps ≠ [] ∧
          es = (m.references [] css ps).eraseDups.filterMap m.occurrence?) ∧
      (m.references [] css ps = [] →
        ((∃ fault, buildOutput config m true [css] = .error (.shape fault)) ↔
          css = [] ∨ ∃ c ∈ css, m.isClass c = true) ∧
        (css ≠ [] → (∀ c ∈ css, m.isClass c = false) →
          ∃ o rule, buildOutput config m true [css] = .ok o ∧ o.shape = .keyframe ∧
            o.rules = [rule] ∧
            ∀ host : Host, evalRule (host.read config []) rule = some (host.filled m css))) := by
  refine ⟨rfl, ⟨fun h => ?_, buildOutput_keyframes_eq_error⟩, fun ps hps => ?_⟩
  · cases hps : places css with
    | error fault =>
      cases fault
      rfl
    | ok ps =>
      rcases buildOutput_keyframes_cases config hbase hps with
        ⟨-, hbuild⟩ | ⟨-, -, _, hbuild⟩ | ⟨-, -, _, _, hbuild, -⟩ <;> cases hbuild.symm.trans h
  · rcases buildOutput_keyframes_cases config hbase hps with
      ⟨hreferences, hbuild⟩ | ⟨hreferences, hbad, fault, hbuild⟩ |
      ⟨hreferences, hgood, o, rule, hbuild, houtput⟩ <;> rw [hbuild]
    · refine ⟨fun es => ⟨fun h => ?_, ?_⟩, fun h => absurd h hreferences⟩
      · cases h
        exact ⟨hreferences, rfl⟩
      · rintro ⟨-, rfl⟩
        rfl
    · refine ⟨fun es => iff_of_false (fun h => by cases h) fun h => h.1 hreferences, fun _ =>
        ⟨iff_of_true ⟨fault, rfl⟩ hbad, fun hne hclass => ?_⟩⟩
      rcases hbad with hcss | ⟨c, hc, htrue⟩
      · exact absurd hcss hne
      · cases (hclass c hc).symm.trans htrue
    · refine ⟨fun es => iff_of_false (fun h => by cases h) fun h => h.1 hreferences, fun _ =>
        ⟨iff_of_false ?_ hgood, fun _ _ => ⟨o, rule, rfl, houtput⟩⟩⟩
      rintro ⟨fault, h⟩
      cases h

/-- The first expression is a value before it names a class, so the second one, which names an
animation, is reported first. Without references the values are filled in. -/
theorem keyframes_buildOutput_references :
    let m : Markers := ⟨230, [⟨['x'], rfl⟩, ⟨['y'], rfl⟩]⟩
    0x80 ≤ m.base ∧
    buildOutput .default m true ["to\x7btop:ç;animation: è\x7dç\x7btop:è\x7d".toList] =
      .error (.keyframeReferences [⟨['y'], rfl⟩, ⟨['x'], rfl⟩]) ∧
    ∃ o rule, buildOutput .default m true [['t', 'o', '{', 'x', ':', 'ç', '}']] = .ok o ∧
      o.rules = [rule] ∧ ∀ host : Host, evalRule (host.read .default []) rule =
        some (['t', 'o', '{', 'x', ':'] ++ host.value ⟨['x'], rfl⟩ ++ ['}']) := by
  intro m
  have hbase : 0x80 ≤ m.base := by decide
  obtain ⟨-, -, hrefused⟩ := keyframes_buildOutput .default hbase
    "to\x7btop:ç;animation: è\x7dç\x7btop:è\x7d".toList
  obtain ⟨-, -, hfilled⟩ :=
    keyframes_buildOutput .default hbase ['t', 'o', '{', 'x', ':', 'ç', '}']
  refine ⟨hbase, ((hrefused _ rfl).1 _).2 ⟨by decide, by decide⟩, ?_⟩
  have hclass : ∀ c ∈ ['t', 'o', '{', 'x', ':', 'ç', '}'], m.isClass c = false := by
    intro c hc
    have hall : ['t', 'o', '{', 'x', ':', 'ç', '}'].all (m.isClass · == false) = true := by decide
    exact beq_iff_eq.1 (List.all_eq_true.1 hall c hc)
  obtain ⟨o, rule, ho, -, hrules, heval⟩ := ((hfilled _ rfl).2 (by decide)).2 (by decide) hclass
  exact ⟨o, rule, ho, hrules, fun host => by rw [heval]; rfl⟩

end

end CssTemplate
