import CssTemplate.Proofs.Block.Place
import CssTemplate.Proofs.Output.SlotRuns
import Mathlib.Data.List.Chain

/-!
# Pieces and places of a block

`places` and `blockPieces` both follow a block character by character, each with a cursor of its own,
and the pieces also keep the run of text that is not cut off yet. `PieceRun` is the one pass that both
make: it has a rule per kind of character and carries the places beside the pieces
(`exists_pieceRun`). What the pieces of a block are, and where its markers stand, are inductions over
it; `blockPieces_places` puts them together.
-/

namespace CssTemplate

/-- Whether a piece is a run of text. -/
def Piece.isText : Piece → Bool
  | .text _ => true
  | .marker _ => false

/-- The run of text that pieces end with, or the empty text. -/
def lastText (pieces : List Piece) : List Char :=
  match pieces.getLast? with
  | some (.text text) => text
  | _ => []

/-! ## The pass over a block -/

/-- One pass over the rest of a block, from a cursor and a run of text that is not cut off yet (last
character first), to the places of its characters and the pieces. -/
inductive PieceRun (m : Markers) :
    Cursor → List Char → List Char → List Place → List Piece → Prop where
  /-- The block ends: the run is cut off. -/
  | done (cursor : Cursor) (run : List Char) : PieceRun m cursor run [] [] (textPiece run.reverse)
  /-- A character of text joins the run. -/
  | text {cursor next : Cursor} {run rest : List Char} {c : Char} {stops : List Place}
      {pieces : List Piece} (hstep : cursor.step c = .ok next) (hc : m.contains c = false)
      (h : PieceRun m next (c :: run) rest stops pieces) :
      PieceRun m cursor run (c :: rest) (next.place :: stops) pieces
  /-- A marker ends the run before it. -/
  | marker {cursor next : Cursor} {run rest : List Char} {c : Char} {stops : List Place}
      {pieces : List Piece} (hstep : cursor.step c = .ok next) (hc : m.contains c = true)
      (h : PieceRun m next [] rest stops pieces) :
      PieceRun m cursor run (c :: rest) (next.place :: stops)
        (textPiece run.reverse ++ .marker ⟨c, next.place, run.reverse⟩ :: pieces)

section
variable {m : Markers} {cursor : Cursor} {run text : List Char} {stops : List Place}
  {pieces before after : List Piece} {found : FoundMarker}

/-- A text with places is cut into pieces in the same pass. -/
theorem exists_pieceRun (m : Markers) (run : List Char) (h : placesFrom cursor text = .ok stops) :
    ∃ pieces, piecesFrom m cursor run text = .ok pieces ∧
      PieceRun m cursor run text stops pieces := by
  induction text generalizing cursor run stops with
  | nil =>
    cases h
    exact ⟨_, rfl, .done cursor run⟩
  | cons c rest ih =>
    obtain ⟨next, hstep, hrest⟩ := Except.bind_eq_ok_iff.1 h
    obtain ⟨later, hlater, hstops⟩ := Except.bind_eq_ok_iff.1 hrest
    cases hstops
    cases hc : m.contains c with
    | false =>
      obtain ⟨pieces, hpieces, hrun⟩ := ih (c :: run) hlater
      exact ⟨pieces, by rw [piecesFrom_cons_text hstep hc, hpieces], .text hstep hc hrun⟩
    | true =>
      obtain ⟨pieces, hpieces, hrun⟩ := ih [] hlater
      refine ⟨_, ?_, .marker hstep hc hrun⟩
      rw [piecesFrom_cons_marker hstep hc, hpieces, Except.map_ok]

/-! ## The pieces -/

/-- A text gives one piece, unless it is empty. -/
theorem mem_textPiece {piece : Piece} : piece ∈ textPiece text ↔ text ≠ [] ∧ piece = .text text := by
  cases text with
  | nil => simp [textPiece]
  | cons c text => simp [textPiece]

/-- The text of the piece of a text is the text. -/
theorem piecesText_textPiece_self (text : List Char) : piecesText (textPiece text) = text := by
  rw [← List.append_nil (textPiece text), piecesText_textPiece]
  exact List.append_nil text

/-- The pieces join to the run and the rest of the block. -/
theorem PieceRun.text_eq (h : PieceRun m cursor run text stops pieces) :
    piecesText pieces = run.reverse ++ text := by
  induction h with
  | done cursor run => rw [piecesText_textPiece_self, List.append_nil]
  | text _ _ _ ih => rw [ih, List.reverse_cons, List.append_assoc, List.singleton_append]
  | @marker cursor next run rest c stops pieces _ _ _ ih =>
    rw [piecesText_textPiece]
    exact congrArg (fun text => run.reverse ++ c :: text) ih

/-- A run that is cut off is not empty, and holds no marker if it held none before. -/
theorem of_mem_textPiece_reverse {piece : List Char} (hrun : ∀ c ∈ run, m.contains c = false)
    (hmem : .text piece ∈ textPiece run.reverse) :
    piece ≠ [] ∧ ∀ c ∈ piece, m.contains c = false := by
  obtain ⟨hne, heq⟩ := mem_textPiece.1 hmem
  cases heq
  exact ⟨hne, fun c hc => hrun c (List.mem_reverse.1 hc)⟩

/-- The texts among the pieces are not empty and hold no marker. -/
theorem PieceRun.texts (h : PieceRun m cursor run text stops pieces)
    (hrun : ∀ c ∈ run, m.contains c = false) {piece : List Char} (hmem : .text piece ∈ pieces) :
    piece ≠ [] ∧ ∀ c ∈ piece, m.contains c = false := by
  induction h with
  | done cursor run => exact of_mem_textPiece_reverse hrun hmem
  | text _ hc _ ih => exact ih (List.forall_mem_cons.2 ⟨hc, hrun⟩) hmem
  | marker _ _ _ ih =>
    rcases List.mem_append.1 hmem with hmem | hmem
    · exact of_mem_textPiece_reverse hrun hmem
    · rcases List.mem_cons.1 hmem with heq | hmem
      · cases heq
      · exact ih (List.forall_mem_nil _) hmem

/-- A marker separates the text before it from what follows it. -/
theorem isChain_textPiece_marker
    (h : pieces.IsChain fun a b => ¬(a.isText = true ∧ b.isText = true)) (text : List Char)
    (found : FoundMarker) :
    (textPiece text ++ .marker found :: pieces).IsChain
      fun a b => ¬(a.isText = true ∧ b.isText = true) := by
  have hmarker : (Piece.marker found :: pieces).IsChain
      fun a b => ¬(a.isText = true ∧ b.isText = true) :=
    List.isChain_cons.2 ⟨fun b _ hboth => Bool.false_ne_true hboth.1, h⟩
  cases text with
  | nil => exact hmarker
  | cons c text =>
    refine List.isChain_cons.2 ⟨fun b hb hboth => ?_, hmarker⟩
    cases hb
    exact Bool.false_ne_true hboth.2

/-- No two texts are neighbours. -/
theorem PieceRun.apart (h : PieceRun m cursor run text stops pieces) :
    pieces.IsChain fun a b => ¬(a.isText = true ∧ b.isText = true) := by
  induction h with
  | done cursor run =>
    cases run.reverse with
    | nil => exact .nil
    | cons c run => exact .singleton _
  | text _ _ _ ih => exact ih
  | marker _ _ _ ih => exact isChain_textPiece_marker ih _ _

/-- The markers among the pieces are those of the block. -/
theorem PieceRun.chars_eq (h : PieceRun m cursor run text stops pieces) :
    (pieces.filterMap Piece.found?).map FoundMarker.char = text.filter m.contains := by
  induction h with
  | done cursor run =>
    rw [← List.append_nil (textPiece _), filterMap_found?_textPiece]
    rfl
  | text _ hc _ ih => rw [ih, List.filter_cons_of_neg (by rw [hc]; exact Bool.false_ne_true)]
  | marker _ hc _ ih =>
    rw [filterMap_found?_textPiece, List.filter_cons_of_pos hc, ← ih]
    rfl

/-! ## The markers -/

/-- The last text of the piece of a text is the text. -/
theorem lastText_textPiece (text : List Char) : lastText (textPiece text) = text := by
  cases text <;> rfl

/-- What stands before a marker is not in the last text. -/
theorem lastText_append_marker (front : List Piece) (found : FoundMarker) (pieces : List Piece) :
    lastText (front ++ .marker found :: pieces) = lastText pieces := by
  rw [lastText, lastText, List.getLast?_append]
  cases pieces with
  | nil => rfl
  | cons piece pieces =>
    rw [List.getLast?_cons_cons, List.getLast?_cons]
    rfl

/-- A marker after a run and a marker is that marker, or stands behind it. -/
theorem cut_at_marker {first : FoundMarker}
    (h : textPiece text ++ .marker first :: pieces = before ++ .marker found :: after) :
    before = textPiece text ∧ found = first ∨
    ∃ more, before = textPiece text ++ .marker first :: more ∧
      pieces = more ++ .marker found :: after := by
  rcases List.append_eq_append_iff.1 h with ⟨more, rfl, hmore⟩ | ⟨more, htext, hmore⟩
  · cases more with
    | nil =>
      cases hmore
      exact .inl ⟨List.append_nil _, rfl⟩
    | cons piece more =>
      obtain ⟨rfl, hpieces⟩ := List.cons.inj hmore
      exact .inr ⟨more, rfl, hpieces⟩
  · cases more with
    | nil =>
      cases hmore
      exact .inl ⟨by rw [htext, List.append_nil], rfl⟩
    | cons piece more =>
      obtain ⟨rfl, -⟩ := List.cons.inj hmore
      have hmem : Piece.marker found ∈ textPiece text := by
        rw [htext]
        exact List.mem_append_right _ (.head _)
      cases (mem_textPiece.1 hmem).2

/-- A marker stands in the place of its character, and after the text that is just before it. -/
theorem PieceRun.place_eq (h : PieceRun m cursor run text stops pieces)
    (hsplit : pieces = before ++ .marker found :: after) :
    ∃ k, (piecesText before).length = run.length + k ∧ stops[k]? = some found.place ∧
      found.preceding = lastText before := by
  induction h generalizing before with
  | done cursor run =>
    have hmem : Piece.marker found ∈ textPiece run.reverse := by
      rw [hsplit]
      exact List.mem_append_right _ (.head _)
    cases (mem_textPiece.1 hmem).2
  | @text cursor next run rest c stops pieces _ _ _ ih =>
    obtain ⟨k, hlength, hplace, hpreceding⟩ := ih hsplit
    refine ⟨k + 1, ?_, hplace, hpreceding⟩
    rw [hlength, List.length_cons]
    omega
  | @marker cursor next run rest c stops pieces _ _ _ ih =>
    rcases cut_at_marker hsplit with ⟨rfl, rfl⟩ | ⟨more, rfl, hpieces⟩
    · refine ⟨0, ?_, rfl, (lastText_textPiece _).symm⟩
      rw [piecesText_textPiece_self, List.length_reverse, Nat.add_zero]
    · obtain ⟨k, hlength, hplace, hpreceding⟩ := ih hpieces
      refine ⟨k + 1, ?_, hplace, ?_⟩
      · rw [piecesText_textPiece, List.length_append, List.length_reverse]
        have hcons : (piecesText (.marker ⟨c, next.place, run.reverse⟩ :: more)).length =
            (piecesText more).length + 1 := rfl
        rw [hcons, hlength, List.length_nil, Nat.zero_add]
      · rw [lastText_append_marker, hpreceding]

end

/-! ## Blocks -/

/-- Pieces are those of a block with given places: they join to the block; their texts are not empty,
hold no marker and are no neighbours; their markers are the ones of the block, in order, each in the
place of its character and after the text piece just before it. -/
structure PiecesOf (m : Markers) (block : List Char) (stops : List Place) (pieces : List Piece) :
    Prop where
  text_eq : piecesText pieces = block
  texts : ∀ text, .text text ∈ pieces → text ≠ [] ∧ ∀ c ∈ text, m.contains c = false
  apart : pieces.IsChain fun a b => ¬(a.isText = true ∧ b.isText = true)
  chars_eq : (pieces.filterMap Piece.found?).map FoundMarker.char = block.filter m.contains
  place_eq : ∀ before found after, pieces = before ++ .marker found :: after →
    stops[(piecesText before).length]? = some found.place
  preceding_eq : ∀ before found after, pieces = before ++ .marker found :: after →
    found.preceding = lastText before

/-- A run over a block from its start gives the pieces of the block. -/
theorem PieceRun.piecesOf {m : Markers} {block : List Char} {stops : List Place} {pieces : List Piece}
    (h : PieceRun m {} [] block stops pieces) : PiecesOf m block stops pieces where
  text_eq := h.text_eq
  texts _ := h.texts (List.forall_mem_nil _)
  apart := h.apart
  chars_eq := h.chars_eq
  place_eq before found after hsplit := by
    obtain ⟨k, hlength, hplace, -⟩ := h.place_eq hsplit
    rw [hlength, List.length_nil, Nat.zero_add, hplace]
  preceding_eq before found after hsplit := by
    obtain ⟨-, -, -, hpreceding⟩ := h.place_eq hsplit
    exact hpreceding

/-- **Pieces and places agree.** A block is refused by the one pass exactly if it is by the other, and
for the same reason; otherwise its pieces are those of the block with its places. -/
theorem blockPieces_places (m : Markers) (block : List Char) :
    (∀ fault, blockPieces m block = .error fault ↔ places block = .error fault) ∧
    ∀ stops, places block = .ok stops →
      ∃ pieces, blockPieces m block = .ok pieces ∧ PiecesOf m block stops pieces := by
  refine ⟨fun fault => piecesFrom_eq_error_iff m {} [] block fault, fun stops hstops => ?_⟩
  obtain ⟨pieces, hpieces, hrun⟩ := exists_pieceRun m [] hstops
  exact ⟨pieces, hpieces, hrun.piecesOf⟩

/-- Two markers that are blanks, at the ends of a block. -/
theorem blockPieces_places_blank :
    let m : Markers := ⟨0x2000, [⟨['x'], rfl⟩]⟩
    let block : List Char := ['\u2000', '{', 'a', ':', '\u2001']
    let stops : List Place := [.selector, .declarations, .declarations, .declarations, .declarations]
    let pieces : List Piece := [.marker ⟨'\u2000', .selector, []⟩, .text ['{', 'a', ':'],
      .marker ⟨'\u2001', .declarations, ['{', 'a', ':']⟩]
    places block = .ok stops ∧ blockPieces m block = .ok pieces ∧ PiecesOf m block stops pieces := by
  intro m block stops pieces
  obtain ⟨own, hown, hpieces⟩ := (blockPieces_places m block).2 stops rfl
  cases hown
  exact ⟨rfl, rfl, hpieces⟩

end CssTemplate
