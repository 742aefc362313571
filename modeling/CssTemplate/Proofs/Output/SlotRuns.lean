import CssTemplate.Proofs.Output.Terms

/-!
# One table of slots over a run

The blocks of a template share one table of slots, and callers may bind slots of their own
(`SlotStep`). `Slots.build` works on the table itself, so a failure leaves what has been bound
before it; `Slots.build_cases` says that nothing has been: a block fails before its first slot is
bound, and otherwise `Slots.build` does what `ruleTerms` does.

The terms of a block visit its markers in order (`Visits`), one step of the table at each. From what
one visit does follow the slots that a block adds (`Visits.keys_eq`) and what the values in its
terms refer to (`Visits.refers`). `slots_of_run` says this of every table that a run can reach, and
that such a table only grows.
-/

namespace CssTemplate

/-! ## Steps on one table -/

/-- The outcome of pieces that work on one table, and the table that they leave. A marker that
stands for no expression leaves the slots that the markers before it have bound. -/
def pieceTermsIn (markers : Markers) :
    List Piece → List Char → Slots → Except CompileFault Rule × Slots
  | [], pending, slots => (.ok (textTerm pending), slots)
  | .text text :: pieces, pending, slots => pieceTermsIn markers pieces (pending ++ text) slots
  | .marker found :: pieces, pending, slots =>
    let role := found.role markers
    if role = .className then
      let rest := pieceTermsIn markers pieces [] slots
      (rest.1.map (textTerm pending ++ .value .className :: ·), rest.2)
    else
      match markedExpression markers found.char with
      | .error fault => (.error fault, slots)
      | .ok occurrence =>
        let handled := slots.handle [found.char] occurrence role.takesSlot
        let rest := pieceTermsIn markers pieces [] handled.2
        (rest.1.map (textTerm (leadText role pending) ++ .value handled.1 :: ·), rest.2)

/-- The outcome of a block that works on one table, and the table that it leaves. -/
def Slots.build (s : Slots) (markers : Markers) (block : List Char) :
    Except CompileFault Rule × Slots :=
  match blockPieces markers block with
  | .error fault => (.error (.place fault), s)
  | .ok pieces => pieceTermsIn markers pieces [] s

/-- What can be done with a table of slots. -/
inductive SlotStep where
  | build (block : List Char)
  | bind (marker : List Char) (occurrence : Expression)
  | get (marker : List Char)

/-- The table after a step, also after one that fails. -/
def SlotStep.next (markers : Markers) (s : Slots) : SlotStep → Slots
  | .build block => (s.build markers block).2
  | .bind marker occurrence => (s.bind marker occurrence).2
  | .get _ => s

/-- The table after steps in a row. -/
def Slots.run (markers : Markers) (s : Slots) (steps : List SlotStep) : Slots :=
  steps.foldl (SlotStep.next markers) s

section
variable {m : Markers} {pieces : List Piece} {pending block : List Char} {s final : Slots}
  {rule : Rule}

/-- Pieces that have terms give them, with the same slots, on one table. -/
theorem pieceTermsIn_eq (h : pieceTerms m pieces pending s = .ok (rule, final)) :
    pieceTermsIn m pieces pending s = (.ok rule, final) := by
  induction pieces generalizing pending s rule final with
  | nil =>
    cases h
    rfl
  | cons piece pieces ih =>
    cases piece with
    | text text => exact ih h
    | marker found =>
      rw [pieceTerms] at h
      rw [pieceTermsIn]
      simp only at h ⊢
      split at h
      · next hrole =>
        obtain ⟨⟨terms, slots⟩, hterms, h⟩ := Except.bind_eq_ok_iff.1 h
        cases h
        rw [if_pos hrole, ih hterms, Except.map_ok]
      · next hrole =>
        obtain ⟨e, he, h⟩ := Except.bind_eq_ok_iff.1 h
        obtain ⟨⟨terms, slots⟩, hterms, h⟩ := Except.bind_eq_ok_iff.1 h
        cases h
        rw [if_neg hrole, he]
        simp only
        rw [ih hterms, Except.map_ok]

/-- A block on one table ends as it does on a copy, and the copy takes the place of the table
exactly if the block has terms. -/
theorem Slots.build_cases (s : Slots) (m : Markers) (block : List Char) :
    (∃ fault, ruleTerms m block s = .error fault ∧ s.build m block = (.error fault, s)) ∨
    (∃ rule final pieces, ruleTerms m block s = .ok (rule, final) ∧
      s.build m block = (.ok rule, final) ∧ blockPieces m block = .ok pieces ∧
      TermRun m {} [] s block rule final) := by
  unfold ruleTerms Slots.build
  cases hpieces : blockPieces m block with
  | error fault => exact .inl ⟨.place fault, rfl, rfl⟩
  | ok pieces =>
    obtain ⟨rule, final, hterms, hrun⟩ := exists_termRun hpieces s
    exact .inr ⟨rule, final, pieces, hterms, pieceTermsIn_eq hterms, rfl, hrun⟩

end

/-! ## Look-up -/

namespace Slots

variable {m : Markers} {s final : Slots} {marker key : List Char} {e : Expression} {slot : Slot}
  {asParameter : Bool}

/-- The markers with slots, in the order of binding. -/
def keys (s : Slots) : List (List Char) :=
  s.entries.map Prod.fst

/-- A new slot comes last. -/
theorem keys_push (s : Slots) (marker : List Char) (e : Expression) :
    (s.push marker e).keys = s.keys ++ [marker] := by
  rw [keys, push, List.map_append]
  rfl

/-- A new slot is found under its marker, unless there was one before. -/
theorem get?_push (s : Slots) (marker : List Char) (e : Expression) (key : List Char) :
    (s.push marker e).get? key =
      (s.get? key).or (if key = marker then some ⟨s.nextName, e⟩ else none) := by
  rw [get?, push, List.lookup_append, List.lookup_cons]
  by_cases hkey : key = marker
  · rw [if_pos hkey, beq_iff_eq.2 hkey]
    rfl
  · rw [if_neg hkey, beq_eq_false_iff_ne.2 hkey]
    rfl

/-- A slot that is found is found in every larger table. -/
theorem get?_of_prefix (h : s.entries <+: final.entries) (hget : s.get? key = some slot) :
    final.get? key = some slot := by
  obtain ⟨more, hmore⟩ := h
  rw [get?] at hget
  rw [get?, ← hmore, List.lookup_append, hget]
  rfl

/-- A marker has a slot exactly if it is among the keys. -/
theorem get?_eq_none_iff : s.get? key = none ↔ key ∉ s.keys := by
  rw [get?, List.lookup_eq_none_iff]
  constructor
  · intro h hmem
    obtain ⟨entry, hentry, rfl⟩ := List.mem_map.1 hmem
    exact bne_iff_ne.1 (h entry hentry) rfl
  · intro h entry hentry
    exact bne_iff_ne.2 fun heq => h (List.mem_map.2 ⟨entry, hentry, heq.symm⟩)

/-- A marker has a slot after a step if it had one or if the step was at it and needed one. -/
theorem get?_handle_ne_none_iff :
    (s.handle marker e asParameter).2.get? key ≠ none ↔
      s.get? key ≠ none ∨ marker = key ∧ asParameter = true := by
  rcases s.handle_cases marker e asParameter with
    ⟨slot, hget, heq⟩ | ⟨hget, hparameter, heq⟩ | ⟨hget, hparameter, heq⟩ <;> rw [heq]
  · refine ⟨.inl, ?_⟩
    rintro (h | ⟨rfl, -⟩)
    · exact h
    · rw [hget]
      exact Option.some_ne_none slot
  · rw [get?_push]
    by_cases hkey : key = marker
    · simp [hkey, hparameter]
    · simp [hkey, Ne.symm hkey]
  · simp [hparameter]

/-! ## Ordered tables -/

/-- The slots are numbered in the order of binding, and no marker has two of them. -/
structure Ordered (s : Slots) : Prop where
  named : ∀ k slot, s.toList[k]? = some slot → slot.name = s.stem ++ decimal k
  nodup : s.keys.Nodup

/-- The empty table is ordered. -/
theorem Ordered.empty (stem : List Char) : Ordered { stem := stem } where
  named := by
    intro k slot hk
    simp [toList] at hk
  nodup := List.nodup_nil

/-- A new slot for a marker without one keeps a table ordered. -/
theorem Ordered.push (h : s.Ordered) (hget : s.get? marker = none) : (s.push marker e).Ordered where
  named := named_push h.named marker e
  nodup := by
    have hfresh : marker ∉ s.keys := get?_eq_none_iff.1 hget
    rw [keys_push, List.nodup_append]
    refine ⟨h.nodup, List.nodup_cons.2 ⟨List.not_mem_nil, List.nodup_nil⟩, ?_⟩
    intro key hkey last hlast heq
    rw [List.mem_singleton.1 hlast] at heq
    exact hfresh (heq ▸ hkey)

/-- A visit to a marker keeps a table ordered. -/
theorem Ordered.handle (h : s.Ordered) : (s.handle marker e asParameter).2.Ordered := by
  rcases s.handle_cases marker e asParameter with ⟨_, -, heq⟩ | ⟨hget, -, heq⟩ | ⟨-, -, heq⟩ <;>
    rw [heq]
  · exact h
  · exact h.push hget
  · exact h

/-- A marker that has a slot keeps it. -/
theorem bind_of_some (h : s.get? marker = some slot) : s.bind marker e = (slot, s) := by
  rw [bind, h]

/-- A marker without a slot gets the next one. -/
theorem bind_of_none (h : s.get? marker = none) :
    s.bind marker e = (⟨s.nextName, e⟩, s.push marker e) := by
  rw [bind, h]
  rfl

end Slots

/-! ## Visiting markers -/

/-- The value of a term, if it has one. -/
def Term.handle? : Term → Option Handle
  | .text _ => none
  | .value handle => some handle

/-- The marker that a piece is, if it is one. -/
def Piece.found? : Piece → Option FoundMarker
  | .text _ => none
  | .marker found => some found

/-- The visits to the markers of a block, with the value that each gives. -/
inductive Visits (m : Markers) : Slots → List FoundMarker → List Handle → Slots → Prop
  | nil (s : Slots) : Visits m s [] [] s
  | className {s final : Slots} {found : FoundMarker} {more : List FoundMarker}
      {handles : List Handle} (hc : m.isClass found.char = true)
      (h : Visits m s more handles final) :
      Visits m s (found :: more) (.className :: handles) final
  | expression {s final : Slots} {found : FoundMarker} {more : List FoundMarker}
      {handles : List Handle} {e : Expression} (he : m.occurrence? found.char = some e)
      (h : Visits m (s.handle [found.char] e (found.role m).takesSlot).2 more handles final) :
      Visits m s (found :: more)
        ((s.handle [found.char] e (found.role m).takesSlot).1 :: handles) final

/-- The markers of a block that need a slot, in the order of their uses. -/
def neededMarkers (m : Markers) (uses : List FoundMarker) : List Char :=
  (uses.filter fun found => (found.role m).takesSlot).map FoundMarker.char

/-- A marker is passed as a parameter: it had a slot, or one of the uses needs one. -/
def Slots.IsParameter (m : Markers) (s : Slots) (uses : List FoundMarker) (c : Char) : Prop :=
  s.get? [c] ≠ none ∨ ∃ use ∈ uses, use.char = c ∧ (use.role m).takesSlot = true

/-- What the value at a marker refers to, from the table before the block, the one after it and the
uses up to the marker: the class name, the slot of a marker that is passed as a parameter, or the
expression in its place. -/
inductive Refers (m : Markers) (before after : Slots) (uses : List FoundMarker)
    (found : FoundMarker) : Handle → Prop
  | className (hc : m.isClass found.char = true) : Refers m before after uses found .className
  | slot {slot : Slot} (he : (m.occurrence? found.char).isSome = true)
      (hparameter : before.IsParameter m uses found.char)
      (hslot : after.get? [found.char] = some slot) : Refers m before after uses found (.slot slot)
  | expression {e : Expression} (he : m.occurrence? found.char = some e)
      (hparameter : ¬before.IsParameter m uses found.char) :
      Refers m before after uses found (.expression e)

section
variable {m : Markers} {cursor : Cursor} {run text : List Char} {s final : Slots} {rule : Rule}
  {found later : FoundMarker} {uses : List FoundMarker} {handles : List Handle} {handle : Handle}
  {e : Expression} {c : Char}

/-- A text holds no value. -/
theorem filterMap_handle?_textTerm (text : List Char) (terms : Rule) :
    (textTerm text ++ terms).filterMap Term.handle? = terms.filterMap Term.handle? := by
  cases text <;> rfl

/-- A text holds no marker. -/
theorem filterMap_found?_textPiece (text : List Char) (pieces : List Piece) :
    (textPiece text ++ pieces).filterMap Piece.found? = pieces.filterMap Piece.found? := by
  cases text <;> rfl

/-- A pass over a block visits its markers. -/
theorem TermRun.visits (h : TermRun m cursor run s text rule final) :
    ∃ pieces, piecesFrom m cursor run text = .ok pieces ∧
      Visits m s (pieces.filterMap Piece.found?) (rule.filterMap Term.handle?) final := by
  induction h with
  | done cursor run s =>
    refine ⟨textPiece run.reverse, rfl, ?_⟩
    rw [← List.append_nil (textPiece _), filterMap_found?_textPiece, ← List.append_nil (textTerm _),
      filterMap_handle?_textTerm]
    exact .nil s
  | text hstep hc _ ih =>
    obtain ⟨pieces, hpieces, hvisits⟩ := ih
    exact ⟨pieces, by rw [piecesFrom_cons_text hstep hc, hpieces], hvisits⟩
  | @className cursor next run rest s final c rule hstep hc _ ih =>
    obtain ⟨pieces, hpieces, hvisits⟩ := ih
    refine ⟨_, by rw [piecesFrom_cons_marker hstep (Markers.contains_of_isClass hc), hpieces,
      Except.map_ok], ?_⟩
    rw [filterMap_found?_textPiece, filterMap_handle?_textTerm]
    exact .className hc hvisits
  | @expression cursor next run rest s final c e role rule hstep he hrole _ ih =>
    obtain ⟨pieces, hpieces, hvisits⟩ := ih
    refine ⟨_, by rw [piecesFrom_cons_marker hstep (Markers.contains_of_occurrence he).1, hpieces,
      Except.map_ok], ?_⟩
    rw [filterMap_found?_textPiece, filterMap_handle?_textTerm]
    subst hrole
    exact .expression he hvisits

/-- Each visit gives one value. -/
theorem Visits.length_eq (h : Visits m s uses handles final) : handles.length = uses.length := by
  induction h with
  | nil => rfl
  | className _ _ ih => exact congrArg (· + 1) ih
  | expression _ _ ih => exact congrArg (· + 1) ih

/-- Visits add slots at the end of the table. -/
theorem Visits.prefix_slots (h : Visits m s uses handles final) : s.entries <+: final.entries := by
  induction h with
  | nil => exact List.prefix_refl _
  | className _ _ ih => exact ih
  | expression _ _ ih => exact (Slots.prefix_handle _ _ _ _).trans ih

/-- The class name needs no slot. -/
theorem takesSlot_of_isClass (h : m.isClass found.char = true) :
    (found.role m).takesSlot = false := by
  rw [FoundMarker.role_of_isClass h]
  rfl

/-- The first use needs a slot if its role takes one. -/
theorem neededMarkers_cons (m : Markers) (found : FoundMarker) (uses : List FoundMarker) :
    neededMarkers m (found :: uses) =
      if (found.role m).takesSlot then found.char :: neededMarkers m uses
      else neededMarkers m uses := by
  rw [neededMarkers, List.filter_cons]
  split <;> rfl

/-- After a slot is bound, the markers without one are those before, less its own. -/
theorem filter_unbound_push (hget : s.get? [c] = none) (cs : List Char) :
    cs.filter (fun d => ((s.push [c] e).get? [d]).isNone) =
      (cs.filter fun d => (s.get? [d]).isNone).filter fun d => !d == c := by
  rw [List.filter_filter]
  refine List.filter_congr fun d _ => ?_
  rw [Slots.get?_push]
  by_cases hd : d = c
  · simp [hd, hget]
  · simp [hd]

/-- A block adds slots for the markers without one that need one, in the order of their first use
that does. -/
theorem Visits.keys_eq (h : Visits m s uses handles final) :
    final.keys = s.keys ++
      ((neededMarkers m uses).filter fun c => (s.get? [c]).isNone).eraseDups.map ([·]) := by
  induction h with
  | nil s => exact (List.append_nil _).symm
  | className hc _ ih =>
    rw [neededMarkers_cons, takesSlot_of_isClass hc]
    exact ih
  | @expression s final found more handles e he _ ih =>
    rw [ih, neededMarkers_cons]
    rcases s.handle_cases [found.char] e (found.role m).takesSlot with
      ⟨slot, hget, heq⟩ | ⟨hget, hparameter, heq⟩ | ⟨-, hparameter, heq⟩ <;> rw [heq]
    · split
      · rw [List.filter_cons_of_neg (by simp [hget])]
      · rfl
    · -- the later uses of a marker that is bound here drop out on both sides
      rw [hparameter, if_pos rfl, List.filter_cons_of_pos (by simp [hget]), List.eraseDups_cons,
        Slots.keys_push, filter_unbound_push hget, List.append_assoc]
      rfl
    · rw [hparameter]
      rfl

/-- The slots that a block adds hold the occurrences of their markers. -/
theorem Visits.mem_entries (h : Visits m s uses handles final) {marker : List Char} {slot : Slot}
    (hmem : (marker, slot) ∈ final.entries) :
    (marker, slot) ∈ s.entries ∨
      ∃ c, marker = [c] ∧ m.occurrence? c = some slot.occurrence := by
  induction h with
  | nil => exact .inl hmem
  | className _ _ ih => exact ih hmem
  | @expression s final found more handles e he _ ih =>
    rcases ih hmem with hmem | hadded
    · rcases s.handle_cases [found.char] e (found.role m).takesSlot with
        ⟨_, -, heq⟩ | ⟨-, -, heq⟩ | ⟨-, -, heq⟩ <;> rw [heq] at hmem
      · exact .inl hmem
      · rcases List.mem_append.1 hmem with hmem | hmem
        · exact .inl hmem
        · cases List.mem_singleton.1 hmem
          exact .inr ⟨found.char, rfl, he⟩
      · exact .inl hmem
    · exact .inr hadded

/-- A marker is a parameter with one more use in front exactly if it is one after that use. -/
theorem isParameter_cons_iff :
    s.IsParameter m (found :: uses) c ↔
      (s.handle [found.char] e (found.role m).takesSlot).2.IsParameter m uses c := by
  simp only [Slots.IsParameter, Slots.get?_handle_ne_none_iff, List.mem_cons, exists_eq_or_imp,
    List.cons.injEq, and_true, or_assoc]

/-- What a value refers to behind a visit, it refers to before the visit. -/
theorem Refers.cons (h : Refers m (s.handle [found.char] e (found.role m).takesSlot).2 final uses
    later handle) : Refers m s final (found :: uses) later handle := by
  cases h with
  | className hc => exact .className hc
  | slot he hparameter hslot => exact .slot he (isParameter_cons_iff.2 hparameter) hslot
  | expression he hparameter =>
    exact .expression he fun h => hparameter (isParameter_cons_iff.1 h)

/-- The class name leaves the table and the uses as they are. -/
theorem Refers.cons_className (hc : m.isClass found.char = true)
    (h : Refers m s final uses later handle) : Refers m s final (found :: uses) later handle := by
  have hiff : ∀ c, s.IsParameter m (found :: uses) c ↔ s.IsParameter m uses c := by
    intro c
    simp [Slots.IsParameter, takesSlot_of_isClass hc]
  cases h with
  | className hc => exact .className hc
  | slot he hparameter hslot => exact .slot he ((hiff _).2 hparameter) hslot
  | expression he hparameter => exact .expression he fun h => hparameter ((hiff _).1 h)

/-- What the value at the marker of an expression refers to when it is visited. -/
theorem refers_handle (he : m.occurrence? found.char = some e)
    (hbegins : (s.handle [found.char] e (found.role m).takesSlot).2.entries <+: final.entries) :
    Refers m s final [found] found (s.handle [found.char] e (found.role m).takesSlot).1 := by
  have hsome : (m.occurrence? found.char).isSome = true := by
    rw [he]
    rfl
  rcases s.handle_cases [found.char] e (found.role m).takesSlot with
    ⟨slot, hget, heq⟩ | ⟨hget, hparameter, heq⟩ | ⟨hget, hparameter, heq⟩ <;> rw [heq] at hbegins ⊢
  · refine .slot hsome (.inl ?_) (Slots.get?_of_prefix hbegins hget)
    rw [hget]
    exact Option.some_ne_none slot
  · refine .slot hsome (.inr ⟨found, .head _, rfl, hparameter⟩) (Slots.get?_of_prefix hbegins ?_)
    rw [Slots.get?_push, hget, if_pos rfl]
    rfl
  · -- neither the table nor this use, the only one so far, makes it a parameter
    refine .expression he ?_
    rintro (hbound | ⟨use, huse, -, hneeds⟩)
    · exact hbound hget
    · rw [List.mem_singleton.1 huse, hparameter] at hneeds
      cases hneeds

/-- What the values of a block refer to. -/
theorem Visits.refers (h : Visits m s uses handles final) (i : Nat)
    (hfound : uses[i]? = some found) (hhandle : handles[i]? = some handle) :
    Refers m s final (uses.take (i + 1)) found handle := by
  induction h generalizing i with
  | nil => cases hfound
  | className hc _ ih =>
    cases i with
    | zero =>
      cases hfound
      cases hhandle
      exact .className hc
    | succ i => exact (ih i hfound hhandle).cons_className hc
  | expression he hvisits ih =>
    cases i with
    | zero =>
      cases hfound
      cases hhandle
      exact refers_handle he hvisits.prefix_slots
    | succ i => exact (ih i hfound hhandle).cons

end

/-! ## Runs -/

/-- What a block has done to a table: the slots that it has added (`keys_eq`, `mem_entries`), and
what the values in its terms refer to, one for each of its markers. -/
structure Built (m : Markers) (before : Slots) (uses : List FoundMarker) (rule : Rule)
    (after : Slots) : Prop where
  keys_eq : after.keys = before.keys ++
    ((neededMarkers m uses).filter fun c => (before.get? [c]).isNone).eraseDups.map ([·])
  mem_entries : ∀ marker slot, (marker, slot) ∈ after.entries → (marker, slot) ∈ before.entries ∨
    ∃ c, marker = [c] ∧ m.occurrence? c = some slot.occurrence
  length_eq : (rule.filterMap Term.handle?).length = uses.length
  refers : ∀ i found handle, uses[i]? = some found →
    (rule.filterMap Term.handle?)[i]? = some handle →
    Refers m before after (uses.take (i + 1)) found handle

/-- The run over a block builds its rule and adds the slots that it needs. -/
theorem TermRun.built {m : Markers} {block : List Char} {pieces : List Piece} {s final : Slots}
    {rule : Rule} (h : TermRun m {} [] s block rule final)
    (hpieces : blockPieces m block = .ok pieces) :
    Built m s (pieces.filterMap Piece.found?) rule final := by
  obtain ⟨own, hown, hvisits⟩ := h.visits
  cases hown.symm.trans hpieces
  exact {
    keys_eq := hvisits.keys_eq
    mem_entries := fun _ _ => hvisits.mem_entries
    length_eq := hvisits.length_eq
    refers := fun i _ _ => hvisits.refers i }

/-- The run over a block keeps a table ordered. -/
theorem TermRun.ordered {m : Markers} {cursor : Cursor} {run text : List Char} {s final : Slots}
    {rule : Rule} (h : TermRun m cursor run s text rule final) (hs : s.Ordered) :
    final.Ordered := by
  induction h with
  | done => exact hs
  | text _ _ _ ih => exact ih hs
  | className _ _ _ ih => exact ih hs
  | expression _ _ _ _ ih => exact ih hs.handle

/-- A table has become another one: it has kept its stem and its slots, in their order, and it is
still ordered if it was. -/
structure Slots.Grows (s final : Slots) : Prop where
  stem_eq : final.stem = s.stem
  keeps : s.entries <+: final.entries
  ordered : s.Ordered → final.Ordered

/-- A table grows from itself. -/
theorem Slots.Grows.refl (s : Slots) : s.Grows s :=
  ⟨rfl, List.prefix_refl _, id⟩

/-- What grows from a grown table grows from the first one. -/
theorem Slots.Grows.trans {s next final : Slots} (h : s.Grows next) (h' : next.Grows final) :
    s.Grows final :=
  ⟨h'.stem_eq.trans h.stem_eq, h.keeps.trans h'.keeps, h'.ordered ∘ h.ordered⟩

/-- A table grows in every step. -/
theorem SlotStep.grows (m : Markers) (s : Slots) (step : SlotStep) : s.Grows (step.next m s) := by
  cases step with
  | build block =>
    rw [SlotStep.next]
    rcases s.build_cases m block with ⟨fault, -, hbuild⟩ | ⟨rule, final, -, -, hbuild, -, hrun⟩ <;>
      rw [hbuild]
    · exact .refl s
    · exact ⟨hrun.stem_slots, hrun.prefix_slots, hrun.ordered⟩
  | bind marker e =>
    rw [SlotStep.next]
    cases hget : s.get? marker with
    | some slot =>
      rw [Slots.bind_of_some hget]
      exact .refl s
    | none =>
      rw [Slots.bind_of_none hget]
      exact ⟨rfl, List.prefix_append _ _, fun h => h.push hget⟩
  | get marker => exact .refl s

/-- A table grows in every run. -/
theorem Slots.grows_run (m : Markers) (s : Slots) (steps : List SlotStep) :
    s.Grows (s.run m steps) := by
  induction steps generalizing s with
  | nil => exact .refl s
  | cons step steps ih => exact (step.grows m s).trans (ih (step.next m s))

/-- Steps are run one after the other. -/
theorem Slots.run_append (m : Markers) (s : Slots) (steps more : List SlotStep) :
    s.run m (steps ++ more) = (s.run m steps).run m more :=
  List.foldl_append

/-- **One table of slots over a run.** Whatever is done with a table that starts without slots: its
slots keep their names, expressions and places from then on; the slot at place `k` has the number
`k`; no marker has two slots, and binding one that has a slot gives this slot and changes nothing. A
block that fails leaves the table as it was. A block that has terms adds a slot for every marker of
an expression that had none and that it uses as a class or as the name of an animation, in the order
of the first such uses; and in its terms the value at a marker is the slot of that marker if it was
bound before or has such a use up to there, and the expression otherwise. -/
theorem slots_of_run (m : Markers) (stem : List Char) (steps : List SlotStep) :
    let s : Slots := Slots.run m { stem := stem } steps
    (∀ more, s.entries <+: (Slots.run m { stem := stem } (steps ++ more)).entries) ∧
    (∀ k slot, s.toList[k]? = some slot → slot.name = stem ++ decimal k) ∧
    s.keys.Nodup ∧
    (∀ marker e slot, s.get? marker = some slot → s.bind marker e = (slot, s)) ∧
    (∀ marker e, s.get? marker = none →
      (s.bind marker e).1.occurrence = e ∧
      (s.bind marker e).2.entries = s.entries ++ [(marker, (s.bind marker e).1)]) ∧
    (∀ block fault, (s.build m block).1 = .error fault →
      ruleTerms m block s = .error fault ∧ (s.build m block).2 = s) ∧
    (∀ block rule, (s.build m block).1 = .ok rule →
      ruleTerms m block s = .ok (rule, (s.build m block).2) ∧
      ∃ pieces, blockPieces m block = .ok pieces ∧
        Built m s (pieces.filterMap Piece.found?) rule (s.build m block).2) := by
  intro s
  have hgrows : Slots.Grows { stem := stem } s := Slots.grows_run m _ steps
  have hordered : s.Ordered := hgrows.ordered (.empty stem)
  refine ⟨fun more => ?_, fun k slot hk => ?_, hordered.nodup, fun _ _ _ => Slots.bind_of_some,
    fun marker e hget => ?_, fun block fault herror => ?_, fun block rule hok => ?_⟩
  · rw [Slots.run_append]
    exact (Slots.grows_run m s more).keeps
  · rw [hordered.named k slot hk, hgrows.stem_eq]
  · rw [Slots.bind_of_none hget]
    exact ⟨rfl, rfl⟩
  · rcases s.build_cases m block with
      ⟨own, hterms, hbuild⟩ | ⟨rule, final, pieces, -, hbuild, -, -⟩
    · rw [hbuild] at herror ⊢
      cases herror
      exact ⟨hterms, rfl⟩
    · rw [hbuild] at herror
      cases herror
  · rcases s.build_cases m block with
      ⟨fault, -, hbuild⟩ | ⟨own, final, pieces, hterms, hbuild, hpieces, hrun⟩
    · rw [hbuild] at hok
      cases hok
    · rw [hbuild] at hok ⊢
      cases hok
      exact ⟨hterms, pieces, hpieces, hrun.built hpieces⟩

/-- A slot that a caller has bound, a block that fails, and a block that uses the first expression
as a value, as a class and as a value again. -/
theorem slots_of_run_value_class_value :
    let m : Markers := ⟨230, [⟨['x'], rfl⟩, ⟨['y'], rfl⟩]⟩
    let s : Slots := Slots.run m { stem := ['p'] }
      [.bind ['è'] ⟨['z'], rfl⟩, .build ['@', 'a', '{', '@'], .get ['ç']]
    let block := ['a', '{', 'b', ':', 'ç', '}', 'ç', '{', 'b', ':', 'ç', '}']
    s.toList = [⟨['p', '0'], ⟨['z'], rfl⟩⟩] ∧
    s.bind ['è'] ⟨['y'], rfl⟩ = (⟨['p', '0'], ⟨['z'], rfl⟩⟩, s) ∧
    (s.build m ['@', 'a', '{', '@']).2 = s ∧
    ∃ pieces, blockPieces m block = .ok pieces ∧
      Built m s (pieces.filterMap Piece.found?)
        [.text ['a', '{', 'b', ':'], .value (.expression ⟨['x'], rfl⟩), .text ['}', '.'],
          .value (.slot ⟨['p', '1'], ⟨['x'], rfl⟩⟩), .text ['{', 'b', ':'],
          .value (.slot ⟨['p', '1'], ⟨['x'], rfl⟩⟩), .text ['}']]
        (s.push ['ç'] ⟨['x'], rfl⟩) := by
  obtain ⟨-, -, -, hbind, -, herror, hok⟩ := slots_of_run ⟨230, [⟨['x'], rfl⟩, ⟨['y'], rfl⟩]⟩ ['p']
    [.bind ['è'] ⟨['z'], rfl⟩, .build ['@', 'a', '{', '@'], .get ['ç']]
  exact ⟨rfl, hbind _ _ _ rfl, (herror _ _ rfl).2, (hok _ _ rfl).2⟩

end CssTemplate
