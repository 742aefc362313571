import CssTemplate.Block.Piece
import CssTemplate.Proofs.Block.Braces

/-!
# Following a block

`Cursor.run` follows a text from a cursor on. Where a rule can start, the cursor is outside of all
rules or in a selector, and nothing but blanks stands between it and the start of a statement
(`Cursor.Ready`). From there a head without braces leads into declarations, unless it starts with an
at-sign: then the text after its brace is read as a selector (`Cursor.Ready.head`). Text without
braces stays in the place that it starts in (`Cursor.place_of_run`).
-/

namespace CssTemplate

/-- The cursor after a text. -/
def Cursor.run (cursor : Cursor) : List Char → Except PlaceFault Cursor
  | [] => .ok cursor
  | c :: rest => do
    let cursor ← cursor.step c
    cursor.run rest

/-- The text of pieces. -/
def piecesText (pieces : List Piece) : List Char :=
  pieces.flatMap fun
    | .text text => text
    | .marker found => [found.char]

section
variable {cursor next final : Cursor} {c : Char}

/-- Texts are gone through one after the other. -/
theorem Cursor.run_append (cursor : Cursor) (a b : List Char) :
    cursor.run (a ++ b) = cursor.run a >>= (·.run b) := by
  induction a generalizing cursor with
  | nil => rfl
  | cons c a ih =>
    rw [List.cons_append, Cursor.run, Cursor.run]
    cases cursor.step c with
    | error what => rfl
    | ok next => exact ih next

/-- A run over one character is a step. -/
theorem Cursor.run_singleton (cursor : Cursor) (c : Char) : cursor.run [c] = cursor.step c := by
  rw [Cursor.run]
  cases cursor.step c <;> rfl

/-- The text of a piece stands before that of the others. -/
theorem piecesText_textPiece (text : List Char) (pieces : List Piece) :
    piecesText (textPiece text ++ pieces) = text ++ piecesText pieces := by
  unfold textPiece
  split
  · next h => rw [List.isEmpty_iff.1 h]; rfl
  · rfl

/-- The run of text that is not cut off yet after one more text, last character first. -/
def Markers.runAfter (m : Markers) (run text : List Char) : List Char :=
  text.foldl (fun run c => if m.contains c then [] else c :: run) run

/-- The text since the last marker. -/
def Markers.sinceMarker (m : Markers) (text : List Char) : List Char :=
  (text.reverse.takeWhile fun c => !m.contains c).reverse

/-- The run that the loop keeps is the text since the last marker, reversed. -/
theorem Markers.reverse_runAfter (m : Markers) (text : List Char) :
    (m.runAfter [] text).reverse = m.sinceMarker text := by
  rw [Markers.runAfter, Markers.sinceMarker, List.foldl_eq_foldr_reverse]
  congr 1
  induction text.reverse with
  | nil => rfl
  | cons c text ih =>
    rw [List.foldr_cons, ih, List.takeWhile_cons]
    cases m.contains c <;> rfl

/-- A marker in a block is among the pieces, in the place to which the text up to it leads, and after
the run of text up to it. -/
theorem exists_found_of_piecesFrom {m : Markers} {run front back : List Char} {pieces : List Piece}
    (h : piecesFrom m cursor run (front ++ c :: back) = .ok pieces) (hc : m.contains c = true) :
    ∃ final before after, cursor.run (front ++ [c]) = .ok final ∧
      pieces = before ++ .marker ⟨c, final.place, (m.runAfter run front).reverse⟩ :: after ∧
      piecesText before = run.reverse ++ front := by
  induction front generalizing cursor run pieces with
  | nil =>
    obtain ⟨next, hnext, h⟩ := Except.bind_eq_ok_iff.1 h
    rw [if_pos hc] at h
    obtain ⟨rest, -, h⟩ := Except.bind_eq_ok_iff.1 h
    cases h
    refine ⟨next, textPiece run.reverse, rest, ?_, rfl, ?_⟩
    · rw [List.nil_append, Cursor.run_singleton, hnext]
    · have htext := piecesText_textPiece run.reverse []
      rwa [List.append_nil] at htext
  | cons d front ih =>
    obtain ⟨next, hnext, h⟩ := Except.bind_eq_ok_iff.1 h
    split at h
    · next hd =>
      obtain ⟨rest, hrest, h⟩ := Except.bind_eq_ok_iff.1 h
      cases h
      obtain ⟨final, before, after, hfinal, rfl, hbefore⟩ := ih hrest
      refine ⟨final, textPiece run.reverse ++ .marker ⟨d, next.place, run.reverse⟩ :: before, after,
        ?_, ?_, ?_⟩
      · rw [List.cons_append, Cursor.run, hnext]
        exact hfinal
      · rw [Markers.runAfter, Markers.runAfter, List.foldl_cons, if_pos hd]
        simp
      · rw [piecesText_textPiece]
        exact congrArg (fun text => run.reverse ++ d :: text) hbefore
    · next hd =>
      obtain ⟨final, before, after, hfinal, rfl, hbefore⟩ := ih h
      refine ⟨final, before, after, ?_, ?_, ?_⟩
      · rw [List.cons_append, Cursor.run, hnext]
        exact hfinal
      · rw [Markers.runAfter, Markers.runAfter, List.foldl_cons, if_neg hd]
      · rw [hbefore, List.reverse_cons, List.append_assoc]
        rfl

/-- The same without a word about the text before the marker. -/
theorem exists_of_piecesFrom {m : Markers} {run front back : List Char} {pieces : List Piece}
    (h : piecesFrom m cursor run (front ++ c :: back) = .ok pieces) (hc : m.contains c = true) :
    ∃ final before preceding after, cursor.run (front ++ [c]) = .ok final ∧
      pieces = before ++ .marker ⟨c, final.place, preceding⟩ :: after ∧
      piecesText before = run.reverse ++ front := by
  obtain ⟨final, before, after, hfinal, hpieces, hbefore⟩ := exists_found_of_piecesFrom h hc
  exact ⟨final, before, _, after, hfinal, hpieces, hbefore⟩

/-! ## Steps -/

/-- A step goes where its place goes and remembers the last character that is not blank. -/
theorem Cursor.step_eq_ok_iff :
    cursor.step c = .ok next ↔ cursor.place.step c cursor.before = .ok next.place ∧
      next.before = if isBlank c then cursor.before else some c := by
  rw [Cursor.step, Except.map_eq_ok_iff]
  constructor
  · rintro ⟨place, hplace, rfl⟩
    exact ⟨hplace, rfl⟩
  · rintro ⟨hplace, hbefore⟩
    exact ⟨next.place, hplace, by rw [← hbefore]⟩

/-- Only braces lead out of a place inside a block. -/
theorem Place.step_inside {place place' : Place} {before : Option Char} (hplace : place ≠ .outside)
    (hopen : c ≠ '{') (hclose : c ≠ '}') (h : place.step c before = .ok place') : place' = place := by
  cases place with
  | outside => exact absurd rfl hplace
  | condition =>
    simp only [Place.step, Place.enter, if_neg hopen] at h
    cases h
    rfl
  | declarations =>
    simp only [Place.step, Place.enter, if_neg hclose] at h
    cases h
    rfl
  | selector =>
    simp only [Place.step, Place.enter, if_neg hopen] at h
    split at h
    · cases h
    · cases h
      rfl

/-- Text without braces stays in its place. -/
theorem Cursor.place_of_run {text : List Char} (hplace : cursor.place ≠ .outside)
    (htext : Braceless text) (h : cursor.run text = .ok final) : final.place = cursor.place := by
  induction text generalizing cursor with
  | nil =>
    cases h
    rfl
  | cons c text ih =>
    obtain ⟨hopen, hclose, htext⟩ := braceless_cons.1 htext
    obtain ⟨next, hnext, h⟩ := Except.bind_eq_ok_iff.1 h
    have hstay := Place.step_inside hplace hopen hclose (Cursor.step_eq_ok_iff.1 hnext).1
    rw [ih (by rwa [hstay]) htext h, hstay]

/-! ## Rules -/

/-- A rule can start here. -/
structure Cursor.Ready (cursor : Cursor) : Prop where
  place : cursor.place = .outside ∨ cursor.place = .selector
  start : opensStatement cursor.before = true

/-- A head that starts with an at-sign, apart from spaces. -/
def StartsAt (head : List Char) : Prop :=
  (head.dropWhile (· == ' ')).head? = some '@'

instance (head : List Char) : Decidable (StartsAt head) :=
  inferInstanceAs (Decidable (_ = _))

/-- A head that starts with no space starts with its first character. -/
theorem startsAt_cons (hc : c ≠ ' ') (head : List Char) : StartsAt (c :: head) ↔ c = '@' := by
  unfold StartsAt
  rw [List.dropWhile_cons_of_neg (by simpa using hc), List.head?_cons, Option.some.injEq]

/-- The place after the brace of a head. -/
theorem Cursor.place_of_head {head : List Char} (hplace : cursor.place ≠ .outside)
    (hdeclarations : cursor.place ≠ .declarations) (hhead : Braceless head)
    (h : cursor.run (head ++ ['{']) = .ok final) :
    final.place = if cursor.place = .condition then .selector else .declarations := by
  rw [Cursor.run_append] at h
  obtain ⟨next, hnext, h⟩ := Except.bind_eq_ok_iff.1 h
  rw [Cursor.run_singleton] at h
  have hstep := (Cursor.step_eq_ok_iff.1 h).1
  rw [Cursor.place_of_run hplace hhead hnext] at hstep
  cases hcursor : cursor.place with
  | outside => exact absurd hcursor hplace
  | declarations => exact absurd hcursor hdeclarations
  | condition =>
    rw [hcursor] at hstep
    exact (Except.ok.inj hstep).symm
  | selector =>
    rw [hcursor] at hstep
    exact (Except.ok.inj hstep).symm

/-- A space changes nothing where a rule can start. -/
theorem Cursor.Ready.place_of_space (hready : cursor.Ready) (h : cursor.step ' ' = .ok next) :
    next.place = cursor.place := by
  have hstep := (Cursor.step_eq_ok_iff.1 h).1
  rcases hready.place with hplace | hplace
  · rw [hplace] at hstep ⊢
    exact (Except.ok.inj hstep).symm
  · rw [hplace] at hstep ⊢
    exact (Except.ok.inj hstep).symm

/-- A space leaves a cursor ready. -/
theorem Cursor.Ready.space (hready : cursor.Ready) (h : cursor.step ' ' = .ok next) :
    next.Ready := by
  refine ⟨by rw [hready.place_of_space h]; exact hready.place, ?_⟩
  rw [(Cursor.step_eq_ok_iff.1 h).2]
  exact hready.start

/-- Where a rule can start, an at-sign opens an at-rule or is refused. -/
theorem Cursor.Ready.atSign (hready : cursor.Ready) (h : cursor.step '@' = .ok next) :
    next.place = .condition := by
  have hstep := (Cursor.step_eq_ok_iff.1 h).1
  rcases hready.place with hplace | hplace
  · rw [hplace] at hstep
    exact (Except.ok.inj hstep).symm
  · rw [hplace] at hstep
    simp [Place.step, Place.enter, hready.start] at hstep

/-- Where a rule can start, any other character starts a selector. -/
theorem Cursor.Ready.other (hready : cursor.Ready) (hspace : c ≠ ' ') (hat : c ≠ '@') (hopen : c ≠ '{')
    (hclose : c ≠ '}') (h : cursor.step c = .ok next) : next.place = .selector := by
  have hstep := (Cursor.step_eq_ok_iff.1 h).1
  rcases hready.place with hplace | hplace
  · simp only [hplace, Place.step, Place.enter, hat, hclose, hspace, hopen, if_false, decide_false,
      Bool.or_false, Bool.false_and, Bool.false_eq_true] at hstep
    exact (Except.ok.inj hstep).symm
  · rw [hplace] at hstep
    exact Place.step_inside (by decide) hopen hclose hstep

/-- **Where a head leads.** -/
theorem Cursor.Ready.head (hready : cursor.Ready) {head : List Char} (hhead : Braceless head)
    (h : cursor.run (head ++ ['{']) = .ok final) :
    final.place = if StartsAt head then .selector else .declarations := by
  induction head generalizing cursor with
  | nil =>
    have hstep := (Cursor.step_eq_ok_iff.1 ((Cursor.run_singleton cursor '{').symm.trans h)).1
    rcases hready.place with hplace | hplace
    · rw [hplace] at hstep
      exact (Except.ok.inj hstep).symm
    · rw [hplace] at hstep
      exact (Except.ok.inj hstep).symm
  | cons c head ih =>
    obtain ⟨hopen, hclose, htail⟩ := braceless_cons.1 hhead
    obtain ⟨next, hnext, hrest⟩ := Except.bind_eq_ok_iff.1 h
    by_cases hspace : c = ' '
    · subst hspace
      exact ih (hready.space hnext) htail hrest
    · by_cases hat : c = '@'
      · subst hat
        have hplace := hready.atSign hnext
        rw [Cursor.place_of_head (by rw [hplace]; decide) (by rw [hplace]; decide) htail hrest, hplace,
          if_pos rfl, if_pos ((startsAt_cons hspace head).2 rfl)]
      · have hplace := hready.other hspace hat hopen hclose hnext
        rw [Cursor.place_of_head (by rw [hplace]; decide) (by rw [hplace]; decide) htail hrest, hplace,
          if_neg (by decide), if_neg fun hstarts => hat ((startsAt_cons hspace head).1 hstarts)]

/-- The brace before the cursor is where a statement can start. -/
theorem Cursor.start_of_brace {text : List Char} {brace : Char} (hbrace : brace = '{' ∨ brace = '}')
    (h : cursor.run (text ++ [brace]) = .ok final) : opensStatement final.before = true := by
  rw [Cursor.run_append] at h
  obtain ⟨next, -, h⟩ := Except.bind_eq_ok_iff.1 h
  rw [Cursor.run_singleton] at h
  rw [(Cursor.step_eq_ok_iff.1 h).2]
  rcases hbrace with rfl | rfl <;> rfl

/-- A rule can start after a closing brace. -/
theorem Cursor.ready_of_close (hplace : cursor.place ≠ .condition)
    (h : cursor.step '}' = .ok final) : final.Ready := by
  obtain ⟨hstep, hbefore⟩ := Cursor.step_eq_ok_iff.1 h
  refine ⟨?_, by rw [hbefore]; rfl⟩
  cases hcursor : cursor.place with
  | condition => exact absurd hcursor hplace
  | outside =>
    rw [hcursor] at hstep
    exact .inl (Except.ok.inj hstep).symm
  | declarations =>
    rw [hcursor] at hstep
    exact .inl (Except.ok.inj hstep).symm
  | selector =>
    rw [hcursor] at hstep
    exact .inr (Except.ok.inj hstep).symm

end

end CssTemplate
