import CssTemplate.Output.Build
import CssTemplate.Proofs.Except
import CssTemplate.Proofs.Output.Slots

/-!
# Terms of a block, character by character

`ruleTerms` first cuts a block into pieces and then turns the pieces into terms. `TermRun` is the
same work in one pass over the characters: the cursor that classifies them, the run of text that
is not written yet, and the slots. It has one rule per kind of character, and every fact about the
terms of a block is an induction over it.

The pass fails only where the classification does: `ruleTerms_eq_error` and `exists_ruleTerms`
split on `places` alone, so no fault of a marker or of a shape comes out of the terms. `RuleRuns`
chains the passes over the blocks of a template, which share their slots.
-/

namespace CssTemplate

/-! ## Pieces and places -/

section
variable {m : Markers} {cursor next : Cursor} {c : Char} {run rest : List Char}

/-- Places of a text whose first character can be read. -/
theorem placesFrom_cons (h : cursor.step c = .ok next) :
    placesFrom cursor (c :: rest) = (placesFrom next rest).map (next.place :: ·) := by
  rw [placesFrom, h, Except.bind_ok]
  cases placesFrom next rest <;> rfl

/-- Pieces of a text that goes on with a character of text. -/
theorem piecesFrom_cons_text (h : cursor.step c = .ok next) (hc : m.contains c = false) :
    piecesFrom m cursor run (c :: rest) = piecesFrom m next (c :: run) rest := by
  rw [piecesFrom, h, Except.bind_ok, hc, if_neg (by decide)]

/-- Pieces of a text that goes on with a marker. -/
theorem piecesFrom_cons_marker (h : cursor.step c = .ok next) (hc : m.contains c = true) :
    piecesFrom m cursor run (c :: rest) = (piecesFrom m next [] rest).map
      (textPiece run.reverse ++ .marker ⟨c, next.place, run.reverse⟩ :: ·) := by
  rw [piecesFrom, h, Except.bind_ok, if_pos hc]
  cases piecesFrom m next [] rest <;> rfl

/-- A text has no pieces exactly when it has no places, and for the same reason. -/
theorem piecesFrom_eq_error_iff (m : Markers) (cursor : Cursor) (run text : List Char)
    (f : PlaceFault) :
    piecesFrom m cursor run text = .error f ↔ placesFrom cursor text = .error f := by
  induction text generalizing cursor run with
  | nil => simp [piecesFrom, placesFrom]
  | cons c rest ih =>
    cases hstep : cursor.step c with
    | error g => simp only [piecesFrom, placesFrom, hstep, Except.bind_error]
    | ok next =>
      rw [placesFrom_cons hstep, Except.map_eq_error_iff]
      cases hc : m.contains c with
      | false => rw [piecesFrom_cons_text hstep hc, ih]
      | true => rw [piecesFrom_cons_marker hstep hc, Except.map_eq_error_iff, ih]

end

/-! ## The pass over a block -/

/-- One pass over the rest of a block, from a cursor, a run of text that is not written yet (last
character first) and the slots bound so far, to the terms of the rest and the slots bound then. -/
inductive TermRun (m : Markers) : Cursor → List Char → Slots → List Char → Rule → Slots → Prop where
  /-- The block ends: the run is written. -/
  | done (cursor : Cursor) (run : List Char) (slots : Slots) :
      TermRun m cursor run slots [] (textTerm run.reverse) slots
  /-- A character of text joins the run. -/
  | text {cursor next : Cursor} {run rest : List Char} {slots final : Slots} {c : Char}
      {rule : Rule} (hstep : cursor.step c = .ok next) (hc : m.contains c = false)
      (h : TermRun m next (c :: run) slots rest rule final) :
      TermRun m cursor run slots (c :: rest) rule final
  /-- The class marker becomes the class name. -/
  | className {cursor next : Cursor} {run rest : List Char} {slots final : Slots} {c : Char}
      {rule : Rule} (hstep : cursor.step c = .ok next) (hc : m.isClass c = true)
      (h : TermRun m next [] slots rest rule final) :
      TermRun m cursor run slots (c :: rest)
        (textTerm run.reverse ++ .value .className :: rule) final
  /-- The marker of an occurrence becomes a value, after a dot where it refers to a class. -/
  | expression {cursor next : Cursor} {run rest : List Char} {slots final : Slots} {c : Char}
      {e : Expression} {role : MarkerRole} {rule : Rule} (hstep : cursor.step c = .ok next)
      (he : m.occurrence? c = some e)
      (hrole : FoundMarker.role ⟨c, next.place, run.reverse⟩ m = role)
      (h : TermRun m next [] (slots.handle [c] e role.takesSlot).2 rest rule final) :
      TermRun m cursor run slots (c :: rest)
        (textTerm (leadText role run.reverse) ++
          .value (slots.handle [c] e role.takesSlot).1 :: rule) final

section
variable {m : Markers} {cursor : Cursor} {run text pending : List Char} {slots final : Slots}
  {rule : Rule} {pieces : List Piece} {found : FoundMarker}

/-- A run of text in front of pieces joins the text that is not written yet. -/
theorem pieceTerms_textPiece (run : List Char) :
    pieceTerms m (textPiece run ++ pieces) pending slots =
      pieceTerms m pieces (pending ++ run) slots := by
  cases run with
  | nil => simp [textPiece]
  | cons c run => rfl

/-- The class marker is the class name wherever it stands. -/
theorem FoundMarker.role_of_isClass (h : m.isClass found.char = true) :
    found.role m = .className := by
  rw [role, if_pos h]

/-- No other marker is the class name. -/
theorem FoundMarker.role_ne_className (h : m.isClass found.char = false) :
    found.role m ≠ .className := by
  rw [role, if_neg (by rw [h]; decide)]
  split
  · decide
  · split <;> decide

/-- A marker refers to a class exactly in the place of a selector. -/
theorem FoundMarker.role_eq_classReference_iff (found : FoundMarker)
    (h : m.isClass found.char = false) :
    found.role m = .classReference ↔ found.place = .selector := by
  rw [role, if_neg (by rw [h]; decide)]
  by_cases hp : found.place = .selector
  · simp [hp]
  · rw [if_neg hp]
    refine iff_of_false ?_ hp
    split <;> decide

/-- Outside selectors, a marker of an expression stands for a value or the name of an animation. -/
theorem FoundMarker.role_value_iff (found : FoundMarker) (h : m.isClass found.char = false) :
    (found.role m = .inlineValue ∨ found.role m = .animationName) ↔ found.place ≠ .selector := by
  rw [Ne, ← found.role_eq_classReference_iff h]
  have hname := FoundMarker.role_ne_className h
  cases hrole : found.role m <;> simp_all

/-- The expression behind the marker of an occurrence. -/
theorem markedExpression_of_occurrence {c : Char} {e : Expression}
    (h : m.occurrence? c = some e) : markedExpression m c = .ok e := by
  rw [markedExpression, Markers.meaning_of_occurrence h]

/-- Pieces become terms without fault, and the terms are those of one pass over the characters. -/
theorem exists_termRun (h : piecesFrom m cursor run text = .ok pieces) (slots : Slots) :
    ∃ rule final, pieceTerms m pieces [] slots = .ok (rule, final) ∧
      TermRun m cursor run slots text rule final := by
  induction text generalizing cursor run slots pieces with
  | nil =>
    rw [piecesFrom] at h
    cases h
    refine ⟨textTerm run.reverse, slots, ?_, .done _ _ _⟩
    rw [← List.append_nil (textPiece run.reverse), pieceTerms_textPiece, List.nil_append,
      pieceTerms]
  | cons c rest ih =>
    cases hstep : cursor.step c with
    | error g => rw [piecesFrom, hstep, Except.bind_error] at h; cases h
    | ok next =>
      cases hc : m.contains c with
      | false =>
        rw [piecesFrom_cons_text hstep hc] at h
        obtain ⟨rule, final, hterms, hrun⟩ := ih h slots
        exact ⟨rule, final, hterms, .text hstep hc hrun⟩
      | true =>
        rw [piecesFrom_cons_marker hstep hc, Except.map_eq_ok_iff] at h
        obtain ⟨pieces, hpieces, rfl⟩ := h
        rw [pieceTerms_textPiece, List.nil_append, pieceTerms]
        rcases Markers.isClass_or_occurrence hc with hclass | ⟨e, he⟩
        · obtain ⟨rule, final, hterms, hrun⟩ := ih hpieces slots
          refine ⟨_, final, ?_, .className hstep hclass hrun⟩
          rw [if_pos (FoundMarker.role_of_isClass hclass), hterms, Except.bind_ok]
        · have hclass := (Markers.contains_of_occurrence he).2
          obtain ⟨rule, final, hterms, hrun⟩ := ih hpieces
            (slots.handle [c] e (FoundMarker.role ⟨c, next.place, run.reverse⟩ m).takesSlot).2
          refine ⟨_, final, ?_, .expression hstep he rfl hrun⟩
          rw [if_neg (FoundMarker.role_ne_className hclass), markedExpression_of_occurrence he,
            Except.bind_ok]
          simp only
          rw [hterms, Except.bind_ok]

/-- A block that cannot be classified has no terms, for the same reason. -/
theorem ruleTerms_eq_error {block : List Char} {f : PlaceFault} (h : places block = .error f)
    (slots : Slots) : ruleTerms m block slots = .error (.place f) := by
  rw [ruleTerms, blockPieces, (piecesFrom_eq_error_iff m {} [] block f).2 h]

/-- A block that can be classified has terms, those of one pass. -/
theorem exists_ruleTerms {block : List Char} {ps : List Place} (h : places block = .ok ps)
    (slots : Slots) :
    ∃ rule final, ruleTerms m block slots = .ok (rule, final) ∧
      TermRun m {} [] slots block rule final := by
  rw [ruleTerms, blockPieces]
  cases hpieces : piecesFrom m {} [] block with
  | error f =>
    rw [piecesFrom_eq_error_iff] at hpieces
    rw [places, hpieces] at h
    cases h
  | ok pieces => exact exists_termRun hpieces slots

/-- A pass keeps the slots that it starts with. -/
theorem TermRun.prefix_slots (h : TermRun m cursor run slots text rule final) :
    slots.entries <+: final.entries := by
  induction h with
  | done => exact List.prefix_refl _
  | text _ _ _ ih => exact ih
  | className _ _ _ ih => exact ih
  | expression _ _ _ _ ih => exact (Slots.prefix_handle _ _ _ _).trans ih

/-- A pass keeps the stem of the slots. -/
theorem TermRun.stem_slots (h : TermRun m cursor run slots text rule final) :
    final.stem = slots.stem := by
  induction h with
  | done => rfl
  | text _ _ _ ih => exact ih
  | className _ _ _ ih => exact ih
  | expression _ _ _ _ ih => exact ih.trans (Slots.stem_handle _ _ _ _)

/-- A pass keeps the slots valid. -/
theorem TermRun.valid (h : TermRun m cursor run slots text rule final) (hv : slots.Valid m) :
    final.Valid m := by
  induction h with
  | done => exact hv
  | text _ _ _ ih => exact ih hv
  | className _ _ _ ih => exact ih hv
  | expression _ he _ _ ih => exact ih (hv.handle he)

/-- A slot that is bound stays bound. -/
theorem TermRun.mem_slots (h : TermRun m cursor run slots text rule final) {slot : Slot}
    (hmem : slot ∈ slots.toList) : slot ∈ final.toList := by
  obtain ⟨entry, hentry, rfl⟩ := List.mem_map.1 hmem
  exact List.mem_map.2 ⟨entry, h.prefix_slots.subset hentry, rfl⟩

end

/-! ## The blocks of a template -/

/-- The passes over the blocks of a template, one after the other, each with the slots that the
passes before have bound. -/
inductive RuleRuns (m : Markers) : Slots → List (List Char) → List Rule → Slots → Prop where
  | nil (slots : Slots) : RuleRuns m slots [] [] slots
  | cons {slots next final : Slots} {block : List Char} {blocks : List (List Char)} {rule : Rule}
      {rules : List Rule} (h : TermRun m {} [] slots block rule next)
      (hs : RuleRuns m next blocks rules final) :
      RuleRuns m slots (block :: blocks) (rule :: rules) final

/-- Blocks have terms unless one of them cannot be classified, and then that is the fault. -/
theorem rulesTerms_cases (m : Markers) (blocks : List (List Char)) (slots : Slots) :
    ((∃ block ∈ blocks, places block = .error .nestedAtRule) ∧
      rulesTerms m blocks slots = .error (.place .nestedAtRule)) ∨
    ((∀ block ∈ blocks, ∃ ps, places block = .ok ps) ∧
      ∃ rules final, rulesTerms m blocks slots = .ok (rules, final) ∧
        RuleRuns m slots blocks rules final) := by
  induction blocks generalizing slots with
  | nil => exact .inr ⟨by simp, [], slots, rfl, .nil slots⟩
  | cons block blocks ih =>
    cases hplaces : places block with
    | error f =>
      cases f
      refine .inl ⟨⟨block, .head _, hplaces⟩, ?_⟩
      rw [rulesTerms, ruleTerms_eq_error hplaces, Except.bind_error]
    | ok ps =>
      obtain ⟨rule, next, hterms, hrun⟩ := exists_ruleTerms (m := m) hplaces slots
      rw [rulesTerms, hterms, Except.bind_ok]
      simp only
      rcases ih next with ⟨⟨bad, hmem, hbad⟩, herr⟩ | ⟨hall, rules, final, hok, hruns⟩
      · exact .inl ⟨⟨bad, .tail _ hmem, hbad⟩, by rw [herr, Except.bind_error]⟩
      · refine .inr ⟨?_, rule :: rules, final, by rw [hok, Except.bind_ok], .cons hrun hruns⟩
        intro b hb
        rcases List.mem_cons.1 hb with rfl | hb
        · exact ⟨ps, hplaces⟩
        · exact hall b hb

section
variable {m : Markers} {slots final : Slots} {blocks : List (List Char)} {rules : List Rule}

/-- The passes keep the slots that they start with. -/
theorem RuleRuns.prefix_slots (h : RuleRuns m slots blocks rules final) :
    slots.entries <+: final.entries := by
  induction h with
  | nil => exact List.prefix_refl _
  | cons h _ ih => exact h.prefix_slots.trans ih

/-- The passes keep the stem of the slots. -/
theorem RuleRuns.stem_slots (h : RuleRuns m slots blocks rules final) :
    final.stem = slots.stem := by
  induction h with
  | nil => rfl
  | cons h _ ih => exact ih.trans h.stem_slots

/-- The passes keep the slots valid. -/
theorem RuleRuns.valid (h : RuleRuns m slots blocks rules final) (hv : slots.Valid m) :
    final.Valid m := by
  induction h with
  | nil => exact hv
  | cons h _ ih => exact ih (h.valid hv)

end

/-! ## Outputs -/

section
variable {m : Markers} {config : Config} {blocks : List (List Char)} {rules : List Rule}

/-- An output that is made has the parts that it is made of. -/
theorem of_makeOutput {shape : Shape} {parameters : List (List Char)} {slots : List Slot}
    {o : Output} (h : makeOutput shape rules parameters slots = .ok o) :
    o.shape = shape ∧ o.rules = rules ∧ o.parameters = parameters ∧ o.slots = slots := by
  rw [makeOutput, Output.make] at h
  split at h
  · next hmake =>
    split at hmake
    · split at hmake
      · cases h; cases hmake; exact ⟨rfl, rfl, rfl, rfl⟩
      · cases hmake
    · cases hmake
  · cases h

/-- Parts that keep the promises of a shape make an output. -/
theorem exists_makeOutput {shape : Shape} {parameters : List (List Char)} {slots : List Slot}
    (hr : shape.isSingle = true → rules.length = 1)
    (hp : shape ≠ .functional → parameters = [] ∧ slots = []) :
    ∃ o, makeOutput shape rules parameters slots = .ok o :=
  ⟨⟨shape, rules, parameters, slots, hr, hp⟩, by
    rw [makeOutput, Output.make, dif_pos hr, dif_pos hp]⟩

/-- Blocks without terms have no output, for the same reason. -/
theorem buildOutput_eq_error {f : CompileFault} {asKeyframes : Bool}
    (hblocks : (blocks.filter fun block => !block.isEmpty) = blocks)
    (h : rulesTerms m blocks { stem := config.slotStem } = .error f) :
    buildOutput config m asKeyframes blocks = .error f := by
  rw [buildOutput]
  simp only [hblocks, h, Except.bind_error]

/-- The output of blocks with terms, outside animations, is static or a function. -/
theorem buildOutput_eq {final : Slots}
    (hblocks : (blocks.filter fun block => !block.isEmpty) = blocks)
    (h : rulesTerms m blocks { stem := config.slotStem } = .ok (rules, final)) :
    buildOutput config m false blocks =
      if m.occurrences.isEmpty && blocks.all (isStaticBlock m) then staticOutput blocks rules
      else functionalOutput config rules final := by
  rw [buildOutput]
  simp only [hblocks, h, Except.bind_ok]
  rfl

end

end CssTemplate
