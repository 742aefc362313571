import CssTemplate.Proofs.Marker.Rebase
import CssTemplate.Proofs.Output.Shape

/-!
# Outputs at another base

Blocks whose markers are moved to another base give the same output (`buildOutput_rebase`). The
cursor that follows a block sees ASCII characters and blanks only, texts between markers stay as they
are, and the slots of the two runs differ in the markers that they are bound to and in nothing else.
What is asked of the blocks is that a character which is no marker on one side is none on the other.
-/

namespace CssTemplate

/-- No character of the text becomes a marker by the change of tables. -/
def Clean (m m' : Markers) (text : List Char) : Prop :=
  ∀ c ∈ text, m.contains c = false → m'.contains c = false

/-! ## Blocks -/

/-- The blocks of a recolored text, or the fault of the same kind. -/
theorem cutBlocks_map {f : Char → Char} (hf : Css.Recoloring f) (offset depth : Nat)
    (pending css : List Char) :
    (∃ blocks, cutBlocks offset depth pending css = .ok blocks ∧
      cutBlocks offset depth (pending.map f) (css.map f) = .ok (blocks.map (List.map f))) ∨
    ∃ what what', cutBlocks offset depth pending css = .error what ∧
      cutBlocks offset depth (pending.map f) (css.map f) = .error what' := by
  induction css generalizing offset depth pending with
  | nil =>
    cases pending with
    | nil => exact .inl ⟨[], rfl, rfl⟩
    | cons c pending => exact .inr ⟨_, _, rfl, rfl⟩
  | cons c css ih =>
    by_cases hclose : c = '}'
    · subst hclose
      rw [List.map_cons, hf.fixes '}' rfl]
      match depth with
      | 0 => exact .inr ⟨_, _, rfl, rfl⟩
      | 1 =>
        simp only [cutBlocks, if_true]
        rcases ih (offset + 1) 0 [] with ⟨blocks, hblocks, hmap⟩ | ⟨what, what', hwhat, hmap⟩
        · rw [List.map_nil] at hmap
          refine .inl ⟨_, by rw [hblocks]; rfl, ?_⟩
          rw [hmap]
          simp [hf.fixes '}' rfl]
        · rw [List.map_nil] at hmap
          exact .inr ⟨what, what', by rw [hwhat]; rfl, by rw [hmap]; rfl⟩
      | depth + 2 =>
        simp only [cutBlocks, if_true]
        have := ih (offset + 1) (depth + 1) ('}' :: pending)
        rwa [List.map_cons, hf.fixes '}' rfl] at this
    · have hclose' : f c ≠ '}' := fun h => hclose ((hf.eq_ascii_iff '}' rfl).1 h)
      have hopen : f c = '{' ↔ c = '{' := hf.eq_ascii_iff '{' rfl
      simp only [List.map_cons, cutBlocks, hclose, hclose', if_false, hopen]
      exact ih _ _ (c :: pending)

/-- The blocks of a recolored text, or a fault there too. -/
theorem splitBlocks_map {f : Char → Char} (hf : Css.Recoloring f) (css : List Char)
    (asKeyframes : Bool) :
    (∃ blocks, splitBlocks css asKeyframes = .ok blocks ∧
      splitBlocks (css.map f) asKeyframes = .ok (blocks.map (List.map f))) ∨
    ∃ what what', splitBlocks css asKeyframes = .error what ∧
      splitBlocks (css.map f) asKeyframes = .error what' := by
  cases asKeyframes with
  | true => exact .inl ⟨[css], rfl, rfl⟩
  | false => exact cutBlocks_map hf 0 0 [] css

/-- The blocks of a clean text are clean. -/
theorem Clean.of_splitBlocks {m m' : Markers} {css : List Char} (h : Clean m m' css)
    {asKeyframes : Bool} {blocks : List (List Char)}
    (hblocks : splitBlocks css asKeyframes = .ok blocks) : ∀ block ∈ blocks, Clean m m' block := by
  intro block hblock c hc
  refine h c ?_
  rw [← flatten_splitBlocks hblocks]
  exact List.mem_flatten.2 ⟨block, hblock, hc⟩

/-! ## Places -/

/-- A cursor in other colors. -/
def Cursor.map (f : Char → Char) (cursor : Cursor) : Cursor :=
  { cursor with before := cursor.before.map f }

/-- A step commutes with a recoloring. -/
theorem Cursor.step_map {f : Char → Char} (hf : Css.Recoloring f) (cursor : Cursor) (c : Char) :
    (cursor.map f).step (f c) = (cursor.step c).map (Cursor.map f) := by
  have hopens : opensStatement (cursor.before.map f) = opensStatement cursor.before := by
    cases hbefore : cursor.before with
    | none => rfl
    | some b =>
      rw [Bool.eq_iff_iff]
      simp only [Option.map_some, opensStatement, Bool.or_eq_true, beq_iff_eq,
        hf.eq_ascii_iff '{' rfl, hf.eq_ascii_iff '}' rfl, hf.eq_ascii_iff ';' rfl]
  have hstep : cursor.place.step (f c) (cursor.before.map f) = cursor.place.step c cursor.before := by
    have henter : cursor.place.enter (f c) = cursor.place.enter c := by
      cases cursor.place <;>
        simp only [Place.enter, hf.eq_ascii_iff '@' rfl, hf.eq_ascii_iff '}' rfl,
          hf.eq_ascii_iff ' ' rfl]
    simp only [Place.step, henter, hopens, hf.eq_ascii_iff '{' rfl, hf.eq_ascii_iff '@' rfl,
      hf.eq_ascii_iff '}' rfl]
  rw [Cursor.step, Cursor.step]
  show ((cursor.place.step (f c) (cursor.before.map f)).map _) = _
  rw [hstep]
  cases cursor.place.step c cursor.before with
  | error what => rfl
  | ok place =>
    simp only [Except.map_ok, Cursor.map, hf.blank]
    split <;> rfl

/-- The places of a recolored text are those of the text. -/
theorem placesFrom_map {f : Char → Char} (hf : Css.Recoloring f) (cursor : Cursor)
    (text : List Char) : placesFrom (cursor.map f) (text.map f) = placesFrom cursor text := by
  induction text generalizing cursor with
  | nil => rfl
  | cons c text ih =>
    rw [List.map_cons, placesFrom, placesFrom, Cursor.step_map hf]
    cases cursor.step c with
    | error what => rfl
    | ok next =>
      simp only [Except.map_ok, Except.bind_ok, ih]
      rfl

/-- The places of a recolored block are those of the block. -/
theorem places_map {f : Char → Char} (hf : Css.Recoloring f) (block : List Char) :
    places (block.map f) = places block :=
  placesFrom_map hf {} block

/-! ## Slots -/

/-- The same slots under other markers. -/
def Slots.rekey (f : Char → Char) (s : Slots) : Slots :=
  { s with entries := s.entries.map fun entry => (entry.1.map f, entry.2) }

/-- Other keys do not change the slots. -/
theorem Slots.toList_rekey (f : Char → Char) (s : Slots) : (s.rekey f).toList = s.toList := by
  simp [Slots.rekey, Slots.toList]

section

variable {f : Char → Char} {m m' : Markers} (hf : Rebasing f m m')

include hf

/-- A slot is found under the other key of its marker. -/
theorem Slots.get?_rekey {s : Slots} (hs : s.Valid m) {c : Char} (hc : m.contains c = true) :
    (s.rekey f).get? [f c] = s.get? [c] := by
  have hlookup : ∀ entries : List (List Char × Slot),
      (∀ entry ∈ entries, ∃ d, entry.1 = [d] ∧ m.contains d = true) →
      (entries.map fun entry => (entry.1.map f, entry.2)).lookup [f c] = entries.lookup [c] := by
    intro entries hentries
    induction entries with
    | nil => rfl
    | cons entry entries ih =>
      obtain ⟨d, hd, hcontains⟩ := hentries entry (.head _)
      have hkey : ([f c] == [f d]) = ([c] == [d]) := by
        rw [Bool.eq_iff_iff, beq_iff_eq, beq_iff_eq, List.singleton_inj, List.singleton_inj]
        exact ⟨hf.injective c d hc hcontains, congrArg f⟩
      obtain ⟨marker, slot⟩ := entry
      cases hd
      rw [List.map_cons, List.lookup_cons, List.lookup_cons, List.map_singleton, hkey,
        ih fun entry hmem => hentries entry (.tail _ hmem)]
  refine hlookup s.entries fun entry hmem => ?_
  obtain ⟨d, hd, hocc⟩ := hs.marked entry.1 entry.2 hmem
  exact ⟨d, hd, (Markers.contains_of_occurrence hocc).1⟩

/-- A visit gives the same value under the other key, and the table under other keys. -/
theorem Slots.handle_rekey {s : Slots} (hs : s.Valid m) {c : Char} {e : Expression}
    (hc : m.contains c = true) (asParameter : Bool) :
    (s.rekey f).handle [f c] e asParameter =
      ((s.handle [c] e asParameter).1, (s.handle [c] e asParameter).2.rekey f) := by
  have hget := Slots.get?_rekey hf hs hc
  have hname : (s.rekey f).nextName = s.nextName := by
    simp [Slots.nextName, Slots.size, Slots.rekey]
  cases hslot : s.get? [c] with
  | some slot =>
    rw [hslot] at hget
    cases asParameter <;> simp [Slots.handle, Slots.bind, hget, hslot]
  | none =>
    rw [hslot] at hget
    cases asParameter <;> simp [Slots.handle, Slots.bind, hget, hslot, hname]
    simp [Slots.rekey]

/-! ## Terms -/

/-- A marker of the other table has the same role. -/
theorem FoundMarker.role_rebase {c : Char} (hc : m.contains c = true) (place : Place)
    (preceding : List Char) :
    FoundMarker.role ⟨f c, place, preceding⟩ m' = FoundMarker.role ⟨c, place, preceding⟩ m := by
  simp only [FoundMarker.role, hf.isClass c hc]

/-- A pass over a rebased block. -/
theorem TermRun.rebase {cursor : Cursor} {run text : List Char} {slots final : Slots} {rule : Rule}
    (h : TermRun m cursor run slots text rule final) (hclean : Clean m m' text)
    (hs : slots.Valid m) :
    TermRun m' (cursor.map f) run (slots.rekey f) (text.map f) rule (final.rekey f) := by
  have hstep : ∀ {cursor next : Cursor} {c : Char}, cursor.step c = .ok next →
      (cursor.map f).step (f c) = .ok (next.map f) := by
    intro cursor next c h
    rw [Cursor.step_map hf.recoloring, h]
    rfl
  induction h with
  | done cursor run slots => exact .done _ _ _
  | @text cursor next run rest slots final c rule hnext hc h ih =>
    have hfixed := hf.fixes c hc
    have hrest := ih (fun d hd => hclean d (.tail _ hd)) hs
    refine .text (hstep hnext) ?_ ?_
    · rw [hfixed]
      exact hclean c (.head _) hc
    · rw [hfixed]
      exact hrest
  | @className cursor next run rest slots final c rule hnext hc h ih =>
    have hcontains := Markers.contains_of_isClass hc
    have hrest := ih (fun d hd => hclean d (.tail _ hd)) hs
    exact .className (hstep hnext) (by rw [hf.isClass c hcontains, hc]) hrest
  | @expression cursor next run rest slots final c e role rule hnext he hrole h ih =>
    have hcontains := (Markers.contains_of_occurrence he).1
    have hrest := ih (fun d hd => hclean d (.tail _ hd)) (hs.handle he)
    have hhandle := Slots.handle_rekey hf hs (e := e) hcontains role.takesSlot
    have hmarked : m'.occurrence? (f c) = some e := (hf.occurrence? c hcontains).trans he
    have hexpression := @TermRun.expression m' _ _ run (rest.map f) (slots.rekey f) (final.rekey f)
      _ _ _ rule (hstep hnext) hmarked
      ((FoundMarker.role_rebase hf hcontains _ _).trans hrole)
      (by rw [hhandle]; exact hrest)
    rw [hhandle] at hexpression
    exact hexpression

end

/-- One pass over the characters gives the terms of the pieces. -/
theorem TermRun.exists_pieces {m : Markers} {cursor : Cursor} {run text : List Char}
    {slots final : Slots} {rule : Rule} (h : TermRun m cursor run slots text rule final) :
    ∃ pieces, piecesFrom m cursor run text = .ok pieces ∧
      pieceTerms m pieces [] slots = .ok (rule, final) := by
  induction h with
  | done cursor run slots =>
    refine ⟨textPiece run.reverse, rfl, ?_⟩
    rw [← List.append_nil (textPiece run.reverse), pieceTerms_textPiece, List.nil_append, pieceTerms]
  | text hstep hc _ ih =>
    obtain ⟨pieces, hpieces, hterms⟩ := ih
    exact ⟨pieces, by rw [piecesFrom_cons_text hstep hc, hpieces], hterms⟩
  | className hstep hc _ ih =>
    obtain ⟨pieces, hpieces, hterms⟩ := ih
    refine ⟨_, by
      rw [piecesFrom_cons_marker hstep (Markers.contains_of_isClass hc), hpieces]; rfl, ?_⟩
    rw [pieceTerms_textPiece, List.nil_append, pieceTerms,
      if_pos (FoundMarker.role_of_isClass hc), hterms, Except.bind_ok]
  | expression hstep he hrole _ ih =>
    obtain ⟨pieces, hpieces, hterms⟩ := ih
    obtain ⟨hcontains, hclass⟩ := Markers.contains_of_occurrence he
    refine ⟨_, by rw [piecesFrom_cons_marker hstep hcontains, hpieces]; rfl, ?_⟩
    rw [pieceTerms_textPiece, List.nil_append, pieceTerms,
      if_neg (FoundMarker.role_ne_className hclass), markedExpression_of_occurrence he,
      Except.bind_ok]
    simp only [hrole]
    rw [hterms, Except.bind_ok]

/-- The terms of a block are those of one pass. -/
theorem ruleTerms_of_termRun {m : Markers} {block : List Char} {slots final : Slots} {rule : Rule}
    (h : TermRun m {} [] slots block rule final) : ruleTerms m block slots = .ok (rule, final) := by
  obtain ⟨pieces, hpieces, hterms⟩ := h.exists_pieces
  rw [ruleTerms, blockPieces, hpieces]
  exact hterms

/-! ## Outputs -/

section

variable {f : Char → Char} {m m' : Markers} (hf : Rebasing f m m')

include hf

/-- The terms of a block do not depend on the base of its markers. -/
theorem ruleTerms_rebase {block : List Char} (hclean : Clean m m' block) {slots : Slots}
    (hs : slots.Valid m) :
    ruleTerms m' (block.map f) (slots.rekey f) =
      (ruleTerms m block slots).map fun terms => (terms.1, terms.2.rekey f) := by
  cases hplaces : places block with
  | error what =>
    rw [ruleTerms_eq_error hplaces, ruleTerms_eq_error ((places_map hf.recoloring block).trans hplaces)]
    rfl
  | ok ps =>
    obtain ⟨rule, final, hterms, hrun⟩ := exists_ruleTerms (m := m) hplaces slots
    rw [hterms, ruleTerms_of_termRun (hrun.rebase hf hclean hs)]
    rfl

/-- The terms of blocks do not depend on the base of their markers. -/
theorem rulesTerms_rebase {blocks : List (List Char)} (hclean : ∀ block ∈ blocks, Clean m m' block)
    {slots : Slots} (hs : slots.Valid m) :
    rulesTerms m' (blocks.map (List.map f)) (slots.rekey f) =
      (rulesTerms m blocks slots).map fun terms => (terms.1, terms.2.rekey f) := by
  induction blocks generalizing slots with
  | nil => rfl
  | cons block blocks ih =>
    rw [List.map_cons, rulesTerms, rulesTerms, ruleTerms_rebase hf (hclean block (.head _)) hs]
    cases hplaces : places block with
    | error what => rw [ruleTerms_eq_error hplaces]; rfl
    | ok ps =>
      obtain ⟨rule, next, hterms, hrun⟩ := exists_ruleTerms (m := m) hplaces slots
      rw [hterms]
      simp only [Except.map_ok, Except.bind_ok]
      rw [ih (fun b hb => hclean b (.tail _ hb)) (hrun.valid hs)]
      cases rulesTerms m blocks next <;> rfl

/-- The marker of the class goes to that of the other table. -/
theorem isClass_rebase {c : Char} (hclean : m.contains c = false → m'.contains c = false) :
    m'.isClass (f c) = m.isClass c := by
  cases hc : m.contains c with
  | true => exact hf.isClass c hc
  | false =>
    have hclass : ∀ {table : Markers}, table.contains c = false → table.isClass c = false := by
      intro table htable
      rw [← Bool.not_eq_true]
      intro h
      rw [Markers.contains_of_isClass h] at htable
      cases htable
    rw [hf.fixes c hc, hclass hc, hclass (hclean hc)]

/-- Whether a block is static does not depend on the base of its markers. -/
theorem isStaticBlock_rebase {block : List Char} (hclean : Clean m m' block) :
    isStaticBlock m' (block.map f) = isStaticBlock m block := by
  cases block with
  | nil => rfl
  | cons c rest =>
    have hrest : (rest.map f).any m'.isClass = rest.any m.isClass := by
      rw [Bool.eq_iff_iff, List.any_map, List.any_eq_true, List.any_eq_true]
      refine exists_congr fun d => and_congr_right fun hd => ?_
      rw [Function.comp_apply, isClass_rebase hf (hclean d (.tail _ hd))]
    rw [List.map_cons, isStaticBlock, isStaticBlock, isClass_rebase hf (hclean c (.head _)), hrest]

omit hf in
/-- Whether blocks collapse does not depend on their colors. -/
theorem collapses_map (hf : Css.Recoloring f) (blocks : List (List Char)) :
    collapses (blocks.map (List.map f)) = collapses blocks := by
  rw [Bool.eq_iff_iff, collapses_iff, collapses_iff]
  constructor
  · rintro ⟨c, body, h⟩
    obtain ⟨block, rfl, hblock⟩ := List.map_eq_singleton_iff.1 h
    obtain ⟨d, rest, rfl, -, hrest⟩ := List.map_eq_cons_iff.1 hblock
    obtain ⟨brace, more, rfl, hbrace, -⟩ := List.map_eq_cons_iff.1 hrest
    exact ⟨d, more, by rw [(hf.eq_ascii_iff '{' rfl).1 hbrace]⟩
  · rintro ⟨c, body, rfl⟩
    exact ⟨f c, body.map f, by simp [hf.fixes '{' rfl]⟩

/-- The output of rebased blocks, under a configuration that names parameters in the same way. -/
theorem buildOutput_rebase {config config' : Config}
    (hclass : config'.classParameter = config.classParameter)
    (hstem : config'.slotStem = config.slotStem) (hocc : m'.occurrences = m.occurrences)
    (asKeyframes : Bool) {blocks : List (List Char)}
    (hclean : ∀ block ∈ blocks, Clean m m' block) :
    buildOutput config' m' asKeyframes (blocks.map (List.map f)) =
      buildOutput config m asKeyframes blocks := by
  have hfilter : (blocks.map (List.map f)).filter (fun block => !block.isEmpty) =
      (blocks.filter fun block => !block.isEmpty).map (List.map f) := by
    rw [List.filter_map]
    congr 2
    funext block
    simp
  have hclean' : ∀ block ∈ blocks.filter fun block => !block.isEmpty, Clean m m' block :=
    fun block hmem => hclean block ((List.mem_filter.1 hmem).1)
  rw [buildOutput, buildOutput]
  simp only [hfilter, hstem, hocc]
  generalize blocks.filter (fun block => !block.isEmpty) = blocks at hclean'
  have hterms := rulesTerms_rebase hf hclean' (Slots.Valid.empty m config.slotStem)
  have hempty : ({ stem := config.slotStem } : Slots).rekey f = { stem := config.slotStem } := rfl
  rw [hempty] at hterms
  rw [hterms]
  cases rulesTerms m blocks { stem := config.slotStem } with
  | error what => rfl
  | ok terms =>
    obtain ⟨rules, slots⟩ := terms
    have hall : (blocks.map (List.map f)).all (isStaticBlock m') =
        blocks.all (isStaticBlock m) := by
      rw [Bool.eq_iff_iff, List.all_map, List.all_eq_true, List.all_eq_true]
      refine forall_congr' fun block => forall_congr' fun hmem => ?_
      rw [Function.comp_apply, isStaticBlock_rebase hf (hclean' block hmem)]
    have hsize : (slots.rekey f).size = slots.size := by simp [Slots.size, Slots.rekey]
    simp only [Except.map_ok, Except.bind_ok, hall, keyframeOutput, functionalOutput, staticOutput,
      Slots.toList_rekey, hsize, hclass, collapses_map hf.recoloring]

end

/-! ## Renaming -/

/-- A renaming that moves the markers to another base and leaves every other character alone is the
move of the markers. -/
theorem Markers.eq_rebase {base base' : Nat} {es : List Expression} {f : Char → Char}
    (hmoves : ∀ k ≤ es.length, f (Char.ofNat (base + k)) = Char.ofNat (base' + k))
    (hfixes : ∀ c, (Markers.mk base es).contains c = false → f c = c) :
    f = (Markers.mk base es).rebase base' := by
  funext c
  cases hc : (Markers.mk base es).contains c with
  | false => rw [hfixes c hc, Markers.rebase, if_neg (by rw [hc]; decide)]
  | true =>
    obtain ⟨hlow, hhigh⟩ := Markers.contains_iff.1 hc
    simp only [Markers.size] at hlow hhigh
    have hcode : Char.ofNat (base + (c.toNat - base)) = c := by
      rw [Nat.add_sub_cancel' hlow, Char.ofNat_toNat]
    have hmoved := hmoves (c.toNat - base) (by omega)
    rw [hcode] at hmoved
    rw [hmoved, Markers.rebase, if_pos hc]

/-- **The code points of the markers do not matter to blocks and outputs.** Let a renaming move the
markers of a table to another base and leave every other character alone, and let no character of a
text become a marker by it. Then the renamed text has blocks exactly when the text has, the renamed
ones, and building gives the same output or the same fault, for rules and for animations. -/
theorem splitBlocks_buildOutput_rename {base base' : Nat} {es : List Expression} {f : Char → Char}
    (hlow : 0x80 ≤ base) (hlow' : 0x80 ≤ base') (hroom : base + es.length < firstSurrogate)
    (hroom' : base' + es.length < firstSurrogate)
    (hblank : ∀ c, (Markers.mk base es).contains c = true → isBlank c = false)
    (hblank' : ∀ c, (Markers.mk base' es).contains c = true → isBlank c = false)
    (hmoves : ∀ k ≤ es.length, f (Char.ofNat (base + k)) = Char.ofNat (base' + k))
    (hfixes : ∀ c, (Markers.mk base es).contains c = false → f c = c) {css : List Char}
    (hclean : Clean ⟨base, es⟩ ⟨base', es⟩ css) (config : Config) (asKeyframes : Bool) :
    ((∃ renamed, splitBlocks (css.map f) asKeyframes = .ok renamed) ↔
      ∃ blocks, splitBlocks css asKeyframes = .ok blocks) ∧
    ∀ blocks, splitBlocks css asKeyframes = .ok blocks →
      splitBlocks (css.map f) asKeyframes = .ok (blocks.map (List.map f)) ∧
      buildOutput config ⟨base', es⟩ asKeyframes (blocks.map (List.map f)) =
        buildOutput config ⟨base, es⟩ asKeyframes blocks := by
  have hf := Markers.rebasing_rebase hlow hlow' hroom hroom' hblank hblank'
  rw [← Markers.eq_rebase hmoves hfixes] at hf
  rcases splitBlocks_map hf.recoloring css asKeyframes with
    ⟨blocks, hblocks, hrenamed⟩ | ⟨what, what', hwhat, hrenamed⟩
  · refine ⟨⟨fun _ => ⟨_, hblocks⟩, fun _ => ⟨_, hrenamed⟩⟩, fun found hfound => ?_⟩
    rw [hblocks] at hfound
    cases hfound
    exact ⟨hrenamed, buildOutput_rebase hf rfl rfl rfl asKeyframes (hclean.of_splitBlocks hblocks)⟩
  · rw [hwhat, hrenamed]
    refine ⟨⟨?_, ?_⟩, ?_⟩ <;> simp

/-- Two ranges of markers that overlap: the first marker of one is the second marker of the other. -/
theorem splitBlocks_buildOutput_rename_overlap :
    splitBlocks ['æ', '{', 'ç', '}', 'ç', '{', 'ç', '}'] false =
        .ok [['æ', '{', 'ç', '}'], ['ç', '{', 'ç', '}']] ∧
      splitBlocks ['ç', '{', 'è', '}', 'è', '{', 'è', '}'] false =
        .ok [['ç', '{', 'è', '}'], ['è', '{', 'è', '}']] ∧
      buildOutput .default ⟨231, [⟨['x'], rfl⟩]⟩ false [['ç', '{', 'è', '}'], ['è', '{', 'è', '}']] =
        buildOutput .default ⟨230, [⟨['x'], rfl⟩]⟩ false
          [['æ', '{', 'ç', '}'], ['ç', '{', 'ç', '}']] := by
  have hblank : ∀ base : Nat, 230 ≤ base → base ≤ 231 → ∀ c,
      (Markers.mk base [⟨['x'], rfl⟩]).contains c = true → isBlank c = false := by
    intro base hlow hhigh c hc
    obtain ⟨hge, hle⟩ := Markers.contains_iff.1 hc
    simp only [Markers.size, List.length_singleton] at hge hle
    simp [isBlank]
    omega
  have hfixes : ∀ c, (Markers.mk 230 [⟨['x'], rfl⟩]).contains c = false →
      (if c = 'æ' then 'ç' else if c = 'ç' then 'è' else c) = c := by
    intro c hc
    rw [if_neg, if_neg]
    · rintro rfl
      cases hc
    · rintro rfl
      cases hc
  have hclean : Clean ⟨230, [⟨['x'], rfl⟩]⟩ ⟨231, [⟨['x'], rfl⟩]⟩
      ['æ', '{', 'ç', '}', 'ç', '{', 'ç', '}'] := by
    intro c hc
    simp only [List.mem_cons, List.not_mem_nil, or_false] at hc
    rcases hc with rfl | rfl | rfl | rfl | rfl | rfl | rfl | rfl <;> decide
  have hsplit : splitBlocks ['æ', '{', 'ç', '}', 'ç', '{', 'ç', '}'] false =
      .ok [['æ', '{', 'ç', '}'], ['ç', '{', 'ç', '}']] := rfl
  have hmoves : ∀ k ≤ 1, (fun c => if c = 'æ' then 'ç' else if c = 'ç' then 'è' else c)
      (Char.ofNat (230 + k)) = Char.ofNat (231 + k) := by
    intro k hk
    interval_cases k <;> rfl
  have hrename := splitBlocks_buildOutput_rename (by decide) (by decide) (by decide) (by decide)
    (hblank 230 (by decide) (by decide)) (hblank 231 (by decide) (by decide)) hmoves hfixes hclean
    .default false
  exact ⟨hsplit, hrename.2 _ hsplit⟩

end CssTemplate
