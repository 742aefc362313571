import CssTemplate.Proofs.Block.Place

/-!
# Refused blocks

Following a block fails at one kind of character: an at-sign in a selector, where a statement may
begin (`Cursor.step_eq_error_iff`). `Cursor.Ends` says of a text under which condition it is refused,
and where it leads otherwise; texts in a row are refused if one of them is (`Cursor.Ends.append`). The
head of an at-rule is refused right behind the brace of another one, where a selector is expected
(`Cursor.Ready.ends_atRule`). Outside of all rules it is not, and other heads are refused for what is
written in them alone (`Cursor.Ready.ends_head`).
-/

namespace CssTemplate

section
variable {cursor next : Cursor} {c : Char} {a b text head : List Char} {P Q : Prop}
  {post post' : Cursor → Prop}

/-- A step fails exactly at an at-sign inside an at-rule that opens a statement. -/
theorem Place.step_eq_error_iff {place : Place} {before : Option Char} :
    place.step c before = .error .nestedAtRule ↔
      place = .selector ∧ c = '@' ∧ opensStatement before = true := by
  cases place with
  | outside =>
    -- An at-sign leaves this place for the condition of an at-rule.
    by_cases hat : c = '@'
    · simp [Place.step, Place.enter, hat]
    · simp only [Place.step, Place.enter, hat]
      split <;> grind
  | selector =>
    simp only [Place.step, Place.enter]
    grind
  | condition => simp [Place.step, Place.enter]
  | declarations => simp [Place.step, Place.enter]

/-- A character is refused exactly if it is an at-sign that opens a statement in a selector. -/
theorem Cursor.step_eq_error_iff :
    cursor.step c = .error .nestedAtRule ↔
      cursor.place = .selector ∧ c = '@' ∧ opensStatement cursor.before = true := by
  rw [Cursor.step, Except.map_eq_error_iff, Place.step_eq_error_iff]

/-- A text has no places exactly when it cannot be followed, and for the same reason. -/
theorem placesFrom_eq_error_iff {fault : PlaceFault} :
    placesFrom cursor text = .error fault ↔ cursor.run text = .error fault := by
  induction text generalizing cursor with
  | nil => simp [placesFrom, Cursor.run]
  | cons c text ih =>
    rw [placesFrom, Cursor.run]
    cases hstep : cursor.step c with
    | error what => simp
    | ok next =>
      rw [Except.bind_ok, Except.bind_ok, ← ih]
      cases placesFrom next text <;> simp

/-! ## What becomes of a text -/

/-- From the cursor on, the text is refused exactly under the condition, and otherwise leads to a cursor
as described. -/
structure Cursor.Ends (cursor : Cursor) (text : List Char) (refused : Prop)
    (post : Cursor → Prop) : Prop where
  error_iff : cursor.run text = .error .nestedAtRule ↔ refused
  post : ∀ final, cursor.run text = .ok final → post final

/-- No characters are never refused. -/
theorem Cursor.ends_nil (h : post cursor) : cursor.Ends [] False post where
  error_iff := by simp [Cursor.run]
  post final hfinal := by
    cases hfinal
    exact h

/-- Texts in a row are refused if one of them is. -/
theorem Cursor.Ends.append (ha : cursor.Ends a P post)
    (hb : ∀ next, post next → next.Ends b Q post') : cursor.Ends (a ++ b) (P ∨ Q) post' := by
  constructor
  · rw [Cursor.run_append]
    cases hrun : cursor.run a with
    | error fault =>
      cases fault
      simp [ha.error_iff.1 hrun, Except.bind_error]
    | ok next =>
      have hP : ¬P := fun h => by
        rw [ha.error_iff.2 h] at hrun
        cases hrun
      rw [Except.bind_ok, (hb next (ha.post next hrun)).error_iff]
      simp [hP]
  · intro final hfinal
    rw [Cursor.run_append] at hfinal
    obtain ⟨next, hnext, hfinal⟩ := Except.bind_eq_ok_iff.1 hfinal
    exact (hb next (ha.post next hnext)).post final hfinal

/-- A condition may be replaced by an equivalent one. -/
theorem Cursor.Ends.congr (h : cursor.Ends text P post) (hPQ : P ↔ Q) : cursor.Ends text Q post :=
  ⟨h.error_iff.trans hPQ, h.post⟩

/-! ## Texts without braces -/

/-- An at-sign stands where a statement may begin: behind a semicolon, or at the start of the text if
one may begin there. -/
def opensAtRule (start : Bool) : List Char → Bool
  | [] => false
  | c :: rest =>
    (start && c == '@') || opensAtRule (if isBlank c then start else opensStatement (some c)) rest

/-- Whether a statement opens depends on the last character that is not blank. -/
theorem Cursor.opensStatement_of_step (h : cursor.step c = .ok next) :
    opensStatement next.before =
      if isBlank c then opensStatement cursor.before else opensStatement (some c) := by
  rw [(Cursor.step_eq_ok_iff.1 h).2]
  exact apply_ite opensStatement _ _ _

/-- Conditions and declarations are never refused. -/
theorem Cursor.run_ne_error (houtside : cursor.place ≠ .outside) (hselector : cursor.place ≠ .selector)
    (htext : Braceless text) : cursor.run text ≠ .error .nestedAtRule := by
  induction text generalizing cursor with
  | nil => simp [Cursor.run]
  | cons c text ih =>
    obtain ⟨hopen, hclose, htext⟩ := braceless_cons.1 htext
    rw [Cursor.run]
    cases hstep : cursor.step c with
    | error fault =>
      cases fault
      exact absurd (Cursor.step_eq_error_iff.1 hstep).1 hselector
    | ok next =>
      have hplace := Place.step_inside houtside hopen hclose (Cursor.step_eq_ok_iff.1 hstep).1
      exact ih (by rwa [hplace]) (by rwa [hplace]) htext

/-- A selector is refused exactly if an at-rule opens in it. -/
theorem Cursor.run_eq_error_iff (hplace : cursor.place = .selector) (htext : Braceless text) :
    cursor.run text = .error .nestedAtRule ↔
      opensAtRule (opensStatement cursor.before) text = true := by
  induction text generalizing cursor with
  | nil => simp [Cursor.run, opensAtRule]
  | cons c text ih =>
    obtain ⟨hopen, hclose, htext⟩ := braceless_cons.1 htext
    rw [Cursor.run, opensAtRule]
    cases hstep : cursor.step c with
    | error fault =>
      cases fault
      obtain ⟨-, hat, hstart⟩ := Cursor.step_eq_error_iff.1 hstep
      simp [hat, hstart]
    | ok next =>
      have hnext := Place.step_inside (by rw [hplace]; decide) hopen hclose
        (Cursor.step_eq_ok_iff.1 hstep).1
      have hsound : (opensStatement cursor.before && c == '@') = false := by
        rw [Bool.eq_false_iff, Ne, Bool.and_eq_true, beq_iff_eq]
        rintro ⟨hstart, hat⟩
        rw [Cursor.step_eq_error_iff.2 ⟨hplace, hat, hstart⟩] at hstep
        cases hstep
      rw [Except.bind_ok, ih (hnext.trans hplace) htext, Cursor.opensStatement_of_step hstep, hsound,
        Bool.false_or]

/-! ## Heads -/

/-- Only an at-sign at the end can change whether a text is refused. -/
theorem Cursor.run_concat_eq_error_iff (hc : c ≠ '@') :
    cursor.run (text ++ [c]) = .error .nestedAtRule ↔ cursor.run text = .error .nestedAtRule := by
  rw [Cursor.run_append]
  cases cursor.run text with
  | error fault => rfl
  | ok next =>
    rw [Except.bind_ok, Cursor.run_singleton, Cursor.step_eq_error_iff]
    simp [hc]

/-- Where a rule can start, the head of an at-rule is refused exactly if the place is a selector, and
another head exactly if an at-rule opens in it. -/
theorem Cursor.Ready.run_head_eq_error_iff (hready : cursor.Ready) (hhead : Braceless head) :
    cursor.run head = .error .nestedAtRule ↔
      if StartsAt head then cursor.place = .selector else opensAtRule true head = true := by
  induction head generalizing cursor with
  | nil => simp [Cursor.run, opensAtRule, StartsAt]
  | cons c head ih =>
    obtain ⟨hopen, hclose, htail⟩ := braceless_cons.1 hhead
    by_cases hat : c = '@'
    · subst hat
      rw [if_pos ((startsAt_cons (by decide) head).2 rfl), Cursor.run]
      cases hstep : cursor.step '@' with
      | error fault =>
        cases fault
        simpa using (Cursor.step_eq_error_iff.1 hstep).1
      | ok next =>
        have hnext := hready.atSign hstep
        have hplace : cursor.place ≠ .selector := fun h => by
          rw [Cursor.step_eq_error_iff.2 ⟨h, rfl, hready.start⟩] at hstep
          cases hstep
        have hrest := Cursor.run_ne_error (by rw [hnext]; decide) (by rw [hnext]; decide) htail
        simpa [hplace] using hrest
    · rw [Cursor.run]
      cases hstep : cursor.step c with
      | error fault =>
        cases fault
        exact absurd (Cursor.step_eq_error_iff.1 hstep).2.1 hat
      | ok next =>
        have hopens : opensAtRule true (c :: head) =
            opensAtRule (if isBlank c then true else opensStatement (some c)) head := by
          simp [opensAtRule, hat]
        rw [Except.bind_ok, hopens]
        -- Spaces do not enter the selector yet, other blanks do.
        by_cases hspace : c = ' '
        · subst hspace
          rw [ih (hready.space hstep) htail, hready.place_of_space hstep]
          rfl
        · have hnext := hready.other hspace hat hopen hclose hstep
          rw [if_neg fun hstarts => hat ((startsAt_cons hspace head).1 hstarts),
            Cursor.run_eq_error_iff hnext htail, Cursor.opensStatement_of_step hstep, hready.start]

/-- The head of an at-rule, with its brace. -/
theorem Cursor.Ready.ends_atRule (hready : cursor.Ready) (hhead : Braceless head)
    (hat : StartsAt head) :
    cursor.Ends (head ++ ['{']) (cursor.place = .selector) fun opened =>
      opened.place = .selector ∧ opened.Ready where
  error_iff := by
    rw [Cursor.run_concat_eq_error_iff (by decide), hready.run_head_eq_error_iff hhead, if_pos hat]
  post opened hopened := by
    have hplace := hready.head hhead hopened
    rw [if_pos hat] at hplace
    exact ⟨hplace, .inr hplace, Cursor.start_of_brace (.inl rfl) hopened⟩

/-- Any other head, with its brace. -/
theorem Cursor.Ready.ends_head (hready : cursor.Ready) (hhead : Braceless head)
    (hat : ¬StartsAt head) :
    cursor.Ends (head ++ ['{']) (opensAtRule true head = true) fun opened =>
      opened.place = .declarations where
  error_iff := by
    rw [Cursor.run_concat_eq_error_iff (by decide), hready.run_head_eq_error_iff hhead, if_neg hat]
  post opened hopened := by
    have hplace := hready.head hhead hopened
    rwa [if_neg hat] at hplace

/-! ## Bodies -/

/-- A body that is read as a selector. -/
theorem Cursor.Ready.ends_selector (hready : cursor.Ready) (hplace : cursor.place = .selector)
    (htext : Braceless text) :
    cursor.Ends text (opensAtRule true text = true) fun closed => closed.place = .selector where
  error_iff := by rw [Cursor.run_eq_error_iff hplace htext, hready.start]
  post closed hclosed := by
    rw [Cursor.place_of_run (by rw [hplace]; decide) htext hclosed, hplace]

/-- A body that is read as declarations. -/
theorem Cursor.ends_declarations (hplace : cursor.place = .declarations) (htext : Braceless text) :
    cursor.Ends text False fun closed => closed.place = .declarations where
  error_iff := by
    simpa using Cursor.run_ne_error (by rw [hplace]; decide) (by rw [hplace]; decide) htext
  post closed hclosed := by
    rw [Cursor.place_of_run (by rw [hplace]; decide) htext hclosed, hplace]

/-- A closing brace keeps the place of a selector, and leads to no other. -/
theorem Cursor.selector_iff_of_close (h : cursor.step '}' = .ok next) :
    next.place = .selector ↔ cursor.place = .selector := by
  have hstep := (Cursor.step_eq_ok_iff.1 h).1
  cases hplace : cursor.place <;> rw [hplace] at hstep <;> rw [← Except.ok.inj hstep] <;> decide

/-- A rule can start here, and the last head that was opened is the given one. Behind an at-rule the
place is a selector, whether a closing brace stands between or not. -/
structure Cursor.After (cursor : Cursor) (head : List Char) : Prop extends cursor.Ready where
  selector_iff : cursor.place = .selector ↔ StartsAt head

/-- A cursor that is ready stands behind some head. -/
theorem Cursor.Ready.exists_after (hready : cursor.Ready) : ∃ head, cursor.After head := by
  by_cases hplace : cursor.place = .selector
  · exact ⟨['@'], hready, iff_of_true hplace rfl⟩
  · exact ⟨[], hready, iff_of_false hplace (by decide)⟩

/-- The start of a block is behind the empty head. -/
theorem Cursor.after_start : ({} : Cursor).After [] where
  place := .inl rfl
  start := rfl
  selector_iff := by decide

/-- A closing brace is never refused. -/
theorem Cursor.ends_close (hplace : cursor.place ≠ .condition)
    (hselector : cursor.place = .selector ↔ StartsAt head) :
    cursor.Ends ['}'] False fun final => final.After head where
  error_iff := by
    rw [Cursor.run_singleton, Cursor.step_eq_error_iff]
    simp
  post final hfinal := by
    rw [Cursor.run_singleton] at hfinal
    exact ⟨Cursor.ready_of_close hplace hfinal, (Cursor.selector_iff_of_close hfinal).trans hselector⟩

end

end CssTemplate
