import CssTemplate.Proofs.Marker.RoundTrip
import Mathlib.Order.Bounds.Basic

/-!
# The first reserved character

The second pass of the encoding looks for a marker among the characters of the literals and counts
its own offset on the way. `literalChars` lists these characters with the offsets that the pass gives
them, in ascending order (`pairwise_literalChars`), and the pass finds the first marker of the list
(`Markers.firstReserved?_eq_find?`). The offsets are those of the encoded text (`FromLiteral` and
`mem_literalChars_iff`): the two passes stay in step over empty and adjacent segments, and no marker
that the first one has written is in the list. `encode_reserved_iff` is the outcome.
-/

namespace CssTemplate

/-! ## Places in the encoded text -/

/-- The number of characters that a segment takes in the encoded text. -/
def Segment.width : Segment → Nat
  | .literal text => text.length
  | _ => 1

/-- The character at an offset of the encoded text of segments comes from a literal. -/
inductive FromLiteral : List Segment → Nat → Prop
  | here {text : List Char} {rest : List Segment} {i : Nat} (h : i < text.length) :
      FromLiteral (.literal text :: rest) i
  | after (segment : Segment) {rest : List Segment} {i : Nat} (h : FromLiteral rest i) :
      FromLiteral (segment :: rest) (i + segment.width)

/-- The characters of the literals, with their offsets from a given one on; a marker takes one
place. -/
def literalChars (offset : Nat) : List Segment → List (Char × Nat)
  | [] => []
  | .literal text :: rest => text.zipIdx offset ++ literalChars (offset + text.length) rest
  | _ :: rest => literalChars (offset + 1) rest

section
variable {segment : Segment} {segments : List Segment} {offset code i : Nat} {c : Char}
  {found : Char × Nat}

/-- What follows the first segment is proper. -/
theorem Proper.tail (h : Proper (segment :: segments)) : Proper segments :=
  fun value hmem => h value (.tail _ hmem)

/-- Characters are found at the offset or behind it. -/
theorem le_of_mem_literalChars (h : found ∈ literalChars offset segments) : offset ≤ found.2 := by
  induction segments generalizing offset with
  | nil => cases h
  | cons segment segments ih =>
    cases segment with
    | literal text =>
      rcases List.mem_append.1 h with h | h
      · exact List.le_snd_of_mem_zipIdx h
      · exact Nat.le_trans (Nat.le_add_right _ _) (ih h)
    | expression e => exact Nat.le_of_succ_le (ih h)
    | foreign value => exact Nat.le_of_succ_le (ih h)

/-- The offsets ascend. -/
theorem pairwise_literalChars (offset : Nat) (segments : List Segment) :
    (literalChars offset segments).Pairwise (·.2 < ·.2) := by
  induction segments generalizing offset with
  | nil => exact .nil
  | cons segment segments ih =>
    cases segment with
    | literal text =>
      refine List.pairwise_append.2 ⟨?_, ih _, ?_⟩
      · have hascends : ((text.zipIdx offset).map Prod.snd).Pairwise (· < ·) := by
          rw [List.zipIdx_map_snd]
          exact List.pairwise_lt_range'
        exact List.pairwise_map.1 hascends
      · intro here hhere later hlater
        have hlt := List.snd_lt_of_mem_zipIdx hhere
        have hle := le_of_mem_literalChars hlater
        omega
    | expression e => exact ih _
    | foreign value => exact ih _

/-- A listed character comes from a literal and stands at its offset in the encoded text. -/
theorem of_mem_literalChars (hproper : Proper segments) (code : Nat)
    (h : (c, i) ∈ literalChars offset segments) :
    ∃ k, i = offset + k ∧ FromLiteral segments k ∧ (spelled code segments)[k]? = some c := by
  induction segments generalizing offset code with
  | nil => cases h
  | cons segment segments ih =>
    have hrest := hproper.tail
    cases segment with
    | literal text =>
      rcases List.mem_append.1 h with h | h
      · obtain ⟨hle, hget⟩ := List.mk_mem_zipIdx_iff_le_and_getElem?_sub.1 h
        have hlt : i - offset < text.length := (List.getElem?_eq_some_iff.1 hget).1
        refine ⟨i - offset, by omega, .here hlt, ?_⟩
        rw [spelled, List.getElem?_append_left hlt, hget]
      · obtain ⟨k, rfl, hfrom, hget⟩ := ih hrest code h
        refine ⟨k + text.length, by omega, .after (.literal text) hfrom, ?_⟩
        rw [spelled, List.getElem?_append_right (Nat.le_add_left _ _), Nat.add_sub_cancel, hget]
    | expression e =>
      obtain ⟨k, rfl, hfrom, hget⟩ := ih hrest (code + 1) h
      refine ⟨k + 1, by omega, .after (.expression e) hfrom, ?_⟩
      rw [spelled, List.getElem?_cons_succ, hget]
    | foreign value => exact absurd (.head _) (hproper value)

/-- A character of the encoded text that comes from a literal is listed. -/
theorem FromLiteral.mem_literalChars (h : FromLiteral segments i) (hproper : Proper segments)
    (hget : (spelled code segments)[i]? = some c) (offset : Nat) :
    (c, offset + i) ∈ literalChars offset segments := by
  induction h generalizing offset code with
  | @here text rest i hlt =>
    rw [spelled, List.getElem?_append_left hlt] at hget
    refine List.mem_append_left _ (List.mk_mem_zipIdx_iff_le_and_getElem?_sub.2 ?_)
    exact ⟨Nat.le_add_right _ _, by rwa [Nat.add_sub_cancel_left]⟩
  | @after segment rest i _ ih =>
    have hrest := hproper.tail
    cases segment with
    | literal text =>
      rw [spelled, Segment.width, List.getElem?_append_right (Nat.le_add_left _ _),
        Nat.add_sub_cancel] at hget
      rw [Segment.width, Nat.add_comm i, ← Nat.add_assoc]
      exact List.mem_append_right _ (ih hrest hget _)
    | expression e =>
      have hnext : (Char.ofNat code :: spelled (code + 1) rest)[i + 1]? = some c := hget
      rw [List.getElem?_cons_succ] at hnext
      have hmem := ih hrest hnext (offset + 1)
      rwa [Nat.add_right_comm] at hmem
    | foreign value => exact absurd (.head _) (hproper value)

/-- The listed characters are those of the encoded text that come from a literal. -/
theorem mem_literalChars_iff (hproper : Proper segments) (code : Nat) :
    (c, i) ∈ literalChars 0 segments ↔
      FromLiteral segments i ∧ (spelled code segments)[i]? = some c := by
  constructor
  · intro h
    obtain ⟨k, rfl, hfrom, hget⟩ := of_mem_literalChars hproper code h
    rw [Nat.zero_add]
    exact ⟨hfrom, hget⟩
  · rintro ⟨hfrom, hget⟩
    have hmem := hfrom.mem_literalChars hproper hget 0
    rwa [Nat.zero_add] at hmem

end

/-! ## The pass over the literals -/

namespace Markers

variable {m : Markers} {segments : List Segment} {offset code : Nat} {c : Char}

/-- The search in a literal is the search among its characters with their offsets. -/
theorem reservedIn?_eq_find? (m : Markers) (offset : Nat) (text : List Char) :
    m.reservedIn? offset text = (text.zipIdx offset).find? fun found => m.contains found.1 := by
  induction text generalizing offset with
  | nil => rfl
  | cons c text ih =>
    rw [reservedIn?, List.zipIdx_cons, List.find?_cons, ih]
    cases m.contains c <;> rfl

/-- The pass finds the first marker among the characters of the literals. -/
theorem firstReserved?_eq_find? (m : Markers) (offset : Nat) (segments : List Segment) :
    m.firstReserved? offset segments =
      (literalChars offset segments).find? fun found => m.contains found.1 := by
  induction segments generalizing offset with
  | nil => rfl
  | cons segment segments ih =>
    cases segment with
    | literal text =>
      rw [firstReserved?, reservedIn?_eq_find?, literalChars, List.find?_append, ih]
      cases (text.zipIdx offset).find? fun found => m.contains found.1 <;> rfl
    | expression e => exact ih _
    | foreign value => exact ih _

/-- The offsets of the encoded text at which a literal holds a marker. -/
def clashes (m : Markers) (code : Nat) (segments : List Segment) : Set Nat :=
  {i | FromLiteral segments i ∧ ∃ c, (spelled code segments)[i]? = some c ∧ m.contains c = true}

/-- What the pass finds is at the least of these offsets. -/
theorem isLeast_firstReserved? (hproper : Proper segments) (code : Nat)
    (h : m.firstReserved? 0 segments = some (c, offset)) :
    IsLeast (m.clashes code segments) offset ∧ (spelled code segments)[offset]? = some c := by
  rw [firstReserved?_eq_find?, List.find?_eq_some_iff_append] at h
  obtain ⟨hc, before, after, hlist, hbefore⟩ := h
  have hmem : (c, offset) ∈ literalChars 0 segments := by
    rw [hlist]
    exact List.mem_append_right _ (.head _)
  obtain ⟨hfrom, hget⟩ := (mem_literalChars_iff hproper code).1 hmem
  refine ⟨⟨⟨hfrom, c, hget, hc⟩, ?_⟩, hget⟩
  -- any other clash is listed after the one that was found
  rintro i ⟨hifrom, d, hd, hcontains⟩
  have hlisted : (d, i) ∈ literalChars 0 segments := (mem_literalChars_iff hproper code).2 ⟨hifrom, hd⟩
  have hascends := pairwise_literalChars 0 segments
  rw [hlist] at hlisted hascends
  rcases List.mem_append.1 hlisted with hlisted | hlisted
  · have hnot := hbefore _ hlisted
    rw [hcontains] at hnot
    cases hnot
  · rcases List.mem_cons.1 hlisted with heq | hlisted
    · cases heq
      exact Nat.le_refl _
    · exact Nat.le_of_lt ((List.pairwise_cons.1 (List.pairwise_append.1 hascends).2.1).1 _ hlisted)

/-- Where a literal holds a marker the pass finds one. -/
theorem exists_firstReserved? (hproper : Proper segments)
    (h : (m.clashes code segments).Nonempty) :
    ∃ c offset, m.firstReserved? 0 segments = some (c, offset) := by
  obtain ⟨i, hfrom, c, hget, hc⟩ := h
  have hmem : (c, i) ∈ literalChars 0 segments := (mem_literalChars_iff hproper code).2 ⟨hfrom, hget⟩
  have hsome : (m.firstReserved? 0 segments).isSome = true := by
    rw [firstReserved?_eq_find?, List.find?_isSome]
    exact ⟨_, hmem, hc⟩
  obtain ⟨⟨c, offset⟩, hfound⟩ := Option.isSome_iff_exists.1 hsome
  exact ⟨c, offset, hfound⟩

/-! ## Encoding -/

/-- Segments are joined where there is room for their markers, and also without room if they need
none. -/
theorem join_of_room (hproper : Proper segments)
    (hroom : segmentExpressions segments = [] ∨
      m.base + m.size + (segmentExpressions segments).length < firstSurrogate) :
    m.join segments = .ok ⟨spelled (m.base + m.size + 1) segments,
      m.extend (segmentExpressions segments)⟩ := by
  rcases hroom with hnone | hroom
  · induction segments with
    | nil => simp [join, spelled, segmentExpressions, extend]
    | cons segment segments ih =>
      cases segment with
      | literal text =>
        rw [join, ih hproper.tail hnone]
        rfl
      | expression e => cases hnone
      | foreign value => exact absurd (.head _) (hproper value)
  · exact join_eq hproper hroom

/-- The encoding reports what the pass finds. -/
theorem encode_eq_reserved_iff {joined : Encoded} (hjoin : m.join segments = .ok joined) :
    m.encode segments = .error (.reserved c offset) ↔
      joined.markers.firstReserved? 0 segments = some (c, offset) := by
  rw [encode, hjoin, Except.bind_ok]
  cases joined.markers.firstReserved? 0 segments with
  | none => simp
  | some found => simp [Prod.ext_iff]

/-- The encoding reports a character exactly if a literal holds a marker. -/
theorem exists_encode_reserved_iff {joined : Encoded} (hjoin : m.join segments = .ok joined) :
    (∃ c offset, m.encode segments = .error (.reserved c offset)) ↔
      ¬joined.markers.Unreserved segments := by
  rw [← @firstReserved?_eq_none_iff joined.markers segments 0, ← ne_eq, Option.ne_none_iff_exists']
  simp only [encode_eq_reserved_iff hjoin, Prod.exists]

/-- The encoding reports the first clash. -/
theorem encode_eq_reserved_iff_isLeast {joined : Encoded} (hproper : Proper segments)
    (hjoin : m.join segments = .ok joined) (code : Nat) :
    m.encode segments = .error (.reserved c offset) ↔
      IsLeast (joined.markers.clashes code segments) offset ∧
        (spelled code segments)[offset]? = some c := by
  rw [encode_eq_reserved_iff hjoin]
  refine ⟨isLeast_firstReserved? hproper code, ?_⟩
  rintro ⟨hleast, hget⟩
  obtain ⟨d, k, hfound⟩ := exists_firstReserved? hproper ⟨offset, hleast.1⟩
  obtain ⟨hleast', hget'⟩ := isLeast_firstReserved? hproper code hfound
  cases hleast.unique hleast'
  cases hget.symm.trans hget'
  exact hfound

end Markers

/-- **The first reserved character.** Segments without foreign values, with a base that leaves room for
a marker for each of their expressions, are joined to the literals and markers in a row. The encoding
reports a reserved character exactly if a literal holds a code point in the range of the markers; its
offset is then the least one in the joined text of a character that comes from a literal and lies in
this range, and it is the character at this offset. -/
theorem encode_reserved_iff (base : Nat) (segments : List Segment) (hproper : Proper segments)
    (hroom : segmentExpressions segments = [] ∨
      base + (segmentExpressions segments).length < firstSurrogate) :
    let m : Markers := { base := base }
    let last : Nat := base + (segmentExpressions segments).length
    let text : List Char := spelled (base + 1) segments
    m.join segments = .ok ⟨text, ⟨base, segmentExpressions segments⟩⟩ ∧
    ((∃ c offset, m.encode segments = .error (.reserved c offset)) ↔
      ∃ literal, Segment.literal literal ∈ segments ∧
        ∃ c ∈ literal, base ≤ c.toNat ∧ c.toNat ≤ last) ∧
    ∀ c offset, m.encode segments = .error (.reserved c offset) ↔
      IsLeast {i | FromLiteral segments i ∧
        ∃ d, text[i]? = some d ∧ base ≤ d.toNat ∧ d.toNat ≤ last} offset ∧
      text[offset]? = some c := by
  intro m last text
  have hjoin : m.join segments = .ok ⟨text, ⟨base, segmentExpressions segments⟩⟩ :=
    Markers.join_of_room hproper hroom
  have hrange : ∀ c, (Markers.mk base (segmentExpressions segments)).contains c = true ↔
      base ≤ c.toNat ∧ c.toNat ≤ last := fun c => Markers.contains_iff
  refine ⟨hjoin, ?_, fun c offset => ?_⟩
  · rw [Markers.exists_encode_reserved_iff hjoin]
    simp only [Markers.Unreserved, ← Bool.not_eq_true, hrange, not_forall, not_not, exists_prop]
  · rw [Markers.encode_eq_reserved_iff_isLeast hproper hjoin (base + 1)]
    simp only [Markers.clashes, hrange]
    rfl

/-- Two markers with an empty literal between them, and a literal with two characters of their range,
of which the greater one is first. -/
theorem encode_reserved_iff_adjacent :
    let segments : List Segment := [.expression ⟨['x'], rfl⟩, .literal [], .expression ⟨['y'], rfl⟩,
      .literal ['a', 'è', 'ç']]
    Proper segments ∧ 230 + (segmentExpressions segments).length < firstSurrogate ∧
    ({ base := 230 } : Markers).encode segments = .error (.reserved 'è' 3) ∧
    IsLeast {i | FromLiteral segments i ∧
      ∃ d, ['ç', 'è', 'a', 'è', 'ç'][i]? = some d ∧ 230 ≤ d.toNat ∧ d.toNat ≤ 232} 3 := by
  intro segments
  have hproper : Proper segments := by
    intro value hmem
    simp [segments] at hmem
  have hroom : 230 + (segmentExpressions segments).length < firstSurrogate := by decide
  have hencode : ({ base := 230 } : Markers).encode segments = .error (.reserved 'è' 3) := rfl
  obtain ⟨-, -, hleast⟩ := encode_reserved_iff 230 segments hproper (.inr hroom)
  exact ⟨hproper, hroom, hencode, ((hleast 'è' 3).1 hencode).1⟩

end CssTemplate
