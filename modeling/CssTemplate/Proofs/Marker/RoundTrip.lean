import CssTemplate.Marker.Encoding
import CssTemplate.Proofs.Except
import CssTemplate.Proofs.Marker.Meaning

/-!
# Encoding and back

Joining segments gives a text that is known in advance (`spelled`): the literals, and markers with
ascending code points between them. `Markers.encode_eq_ok_iff` says when the encoding succeeds:
there is room below the surrogates, and no literal holds one of the markers that are in use in the
end. Then `Markers.cut` finds the segments of a template again in the text (`cut_spelled`), and
`refill` the template in the segments (`refill_segments`); `encode_roundTrip` puts these together.
-/

namespace CssTemplate

/-! ## Segments of a template -/

/-- The segments of a span. -/
def Span.segments (s : Span) : List Segment :=
  [.expression s.expression, .literal s.literal]

/-- The segments of a template: its literals, also empty ones, with the expressions between. -/
def Template.segments (t : Template) : List Segment :=
  .literal t.head :: t.spans.flatMap Span.segments

/-- The segments of spans in a row. -/
theorem segmentsOf_spans (spans : List Span) :
    segmentsOf (spans.map Span.toNode) = .ok (spans.flatMap Span.segments) := by
  induction spans with
  | nil => rfl
  | cons span spans ih =>
    rw [List.map_cons, segmentsOf, ih]
    rfl

/-- A well-formed template has segments. -/
theorem segments_toNode (t : Template) : t.toNode.segments = .ok t.segments := by
  rw [Template.toNode, Node.segments, segmentsOf_spans]
  rfl

/-- Spans are filled from their own segments. -/
theorem fillSpans_segments (spans : List Span) (rest : List Segment) :
    fillSpans (spans.map Span.toNode) (spans.flatMap Span.segments ++ rest) =
      .ok (spans, rest) := by
  induction spans with
  | nil => rfl
  | cons span spans ih =>
    have hspan : fillSpan span.toNode
        (.expression span.expression :: .literal span.literal ::
          (spans.flatMap Span.segments ++ rest)) =
        .ok (span, spans.flatMap Span.segments ++ rest) := by
      rw [fillSpan, popExpression, Except.bind_ok, Span.toNode]
      simp only [if_pos]
      rfl
    rw [List.map_cons, fillSpans, List.flatMap_cons]
    show (fillSpan span.toNode (.expression span.expression :: .literal span.literal ::
      (spans.flatMap Span.segments ++ rest)) >>= _) = _
    rw [hspan, Except.bind_ok]
    simp only
    rw [ih]
    rfl

/-- A template is filled from its own segments. -/
theorem refill_segments (t : Template) : refill t.toNode t.segments = .ok t := by
  have hspans := fillSpans_segments t.spans []
  rw [List.append_nil] at hspans
  rw [Template.toNode, refill, Template.segments, popLiteral, Except.bind_ok]
  simp only
  rw [hspans]
  rfl

/-- Spans are determined by their segments. -/
theorem spans_of_segments : ∀ {spans spans' : List Span},
    spans.flatMap Span.segments = spans'.flatMap Span.segments → spans = spans'
  | [], [], _ => rfl
  | [], _ :: _, h => nomatch h
  | _ :: _, [], h => nomatch h
  | ⟨_, _⟩ :: _, ⟨_, _⟩ :: _, h => by
      simp only [List.flatMap_cons, Span.segments, List.cons_append, List.nil_append,
        List.cons.injEq, Segment.expression.injEq, Segment.literal.injEq] at h
      obtain ⟨rfl, rfl, h⟩ := h
      rw [spans_of_segments h]

/-- A template is determined by its segments. -/
theorem Template.segments_injective : Function.Injective Template.segments := by
  rintro ⟨head, spans⟩ ⟨head', spans'⟩ h
  obtain ⟨hhead, hspans⟩ := List.cons.inj h
  cases hhead
  exact congrArg _ (spans_of_segments hspans)

/-! ## Joining -/

/-- The expressions among segments. -/
def segmentExpressions (segments : List Segment) : List Expression :=
  segments.filterMap fun
    | .expression e => some e
    | _ => none

/-- Segments without foreign values. -/
def Proper (segments : List Segment) : Prop :=
  ∀ value, Segment.foreign value ∉ segments

/-- The text of segments when the next marker has the given code point. -/
def spelled (code : Nat) : List Segment → List Char
  | [] => []
  | .literal text :: rest => text ++ spelled code rest
  | .expression _ :: rest => Char.ofNat code :: spelled (code + 1) rest
  | .foreign _ :: rest => spelled code rest

namespace Markers

variable {m : Markers} {segments rest : List Segment} {encoded : Encoded}

/-- The table after giving markers to more occurrences. -/
def extend (m : Markers) (es : List Expression) : Markers :=
  { m with occurrences := m.occurrences ++ es }

/-- Giving markers in two steps. -/
theorem extend_extend (m : Markers) (es fs : List Expression) :
    (m.extend es).extend fs = m.extend (es ++ fs) := by
  simp [extend]

/-- The last marker moves up by one with one more occurrence. -/
theorem last_extend (m : Markers) (e : Expression) :
    (m.extend [e]).base + (m.extend [e]).size = m.base + m.size + 1 := by
  simp [extend, size, Nat.add_assoc]

/-- A marker is given where there is room for it. -/
theorem add_eq (m : Markers) (e : Expression) (h : m.base + m.size + 1 < firstSurrogate) :
    m.add e = .ok (Char.ofNat (m.base + m.size + 1), m.extend [e]) := by
  rw [add, if_neg (Nat.not_le.2 h), extend]

/-- Segments are joined where there is room for their markers. -/
theorem join_eq (hproper : Proper segments)
    (hroom : m.base + m.size + (segmentExpressions segments).length < firstSurrogate) :
    m.join segments = .ok ⟨spelled (m.base + m.size + 1) segments,
      m.extend (segmentExpressions segments)⟩ := by
  induction segments generalizing m with
  | nil => simp [join, spelled, segmentExpressions, extend]
  | cons segment segments ih =>
    have hrest : Proper segments := fun value hmem => hproper value (.tail _ hmem)
    cases segment with
    | literal text =>
      rw [join, ih hrest hroom]
      rfl
    | expression e =>
      have hcount : (segmentExpressions (.expression e :: segments)).length =
          (segmentExpressions segments).length + 1 := by
        simp [segmentExpressions]
      rw [hcount] at hroom
      have hlast := m.last_extend e
      rw [join, add_eq m e (by omega), Except.bind_ok]
      simp only
      rw [ih hrest (by omega), extend_extend, hlast]
      rfl
    | foreign value => exact absurd (.head _) (hproper value)

/-- Segments are joined only where there is room for their markers. -/
theorem room_of_join (hbase : m.base + m.size < firstSurrogate)
    (h : m.join segments = .ok encoded) :
    m.base + m.size + (segmentExpressions segments).length < firstSurrogate := by
  induction segments generalizing m encoded with
  | nil => simpa [segmentExpressions] using hbase
  | cons segment segments ih =>
    cases segment with
    | literal text =>
      rw [join, Except.bind_eq_ok_iff] at h
      obtain ⟨_, h, -⟩ := h
      exact ih hbase h
    | expression e =>
      rw [join, Except.bind_eq_ok_iff] at h
      obtain ⟨⟨c, next⟩, hadd, h⟩ := h
      have hroom : m.base + m.size + 1 < firstSurrogate := by
        rw [add] at hadd
        split at hadd
        · cases hadd
        · omega
      rw [add_eq m e hroom] at hadd
      cases hadd
      obtain ⟨_, h, -⟩ := Except.bind_eq_ok_iff.1 h
      have hlast := m.last_extend e
      have := ih (by omega) h
      simp only [segmentExpressions, List.filterMap_cons, List.length_cons] at this ⊢
      omega
    | foreign value => cases h

/-! ## Reserved characters -/

/-- No literal of the segments holds a marker. -/
def Unreserved (m : Markers) (segments : List Segment) : Prop :=
  ∀ text, Segment.literal text ∈ segments → ∀ c ∈ text, m.contains c = false

/-- Nothing is reserved in a text without markers. -/
theorem reservedIn?_eq_none_iff (offset : Nat) {text : List Char} :
    m.reservedIn? offset text = none ↔ ∀ c ∈ text, m.contains c = false := by
  induction text generalizing offset with
  | nil => simp [reservedIn?]
  | cons c text ih =>
    rw [reservedIn?, List.forall_mem_cons]
    cases m.contains c with
    | true => simp
    | false => simp [ih]

/-- Nothing is reserved in segments whose literals hold no marker. -/
theorem firstReserved?_eq_none_iff {offset : Nat} :
    m.firstReserved? offset segments = none ↔ m.Unreserved segments := by
  induction segments generalizing offset with
  | nil => simp [firstReserved?, Unreserved]
  | cons segment segments ih =>
    cases segment with
    | literal text =>
      rw [firstReserved?]
      have hcons : m.Unreserved (.literal text :: segments) ↔
          (∀ c ∈ text, m.contains c = false) ∧ m.Unreserved segments := by
        simp [Unreserved]
      rw [hcons, ← reservedIn?_eq_none_iff offset]
      cases m.reservedIn? offset text with
      | some found => simp
      | none => simp [ih]
    | expression e => simp [firstReserved?, ih, Unreserved]
    | foreign value => simp [firstReserved?, ih, Unreserved]

/-- No literal of encoded segments holds one of the markers that are in use in the end. -/
theorem unreserved_of_encode (h : m.encode segments = .ok encoded) :
    encoded.markers.Unreserved segments := by
  rw [encode, Except.bind_eq_ok_iff] at h
  obtain ⟨joined, -, h⟩ := h
  split at h
  · cases h
  · next hnone =>
    cases h
    exact firstReserved?_eq_none_iff.1 hnone

/-- Segments are encoded exactly where there is room for their markers and no literal holds one of
the markers in use then; the encoding is known in advance. -/
theorem encode_eq_ok_iff (hbase : m.base + m.size < firstSurrogate) (hproper : Proper segments) :
    m.encode segments = .ok encoded ↔
      m.base + m.size + (segmentExpressions segments).length < firstSurrogate ∧
      (m.extend (segmentExpressions segments)).Unreserved segments ∧
      encoded = ⟨spelled (m.base + m.size + 1) segments,
        m.extend (segmentExpressions segments)⟩ := by
  constructor
  · intro h
    rw [encode, Except.bind_eq_ok_iff] at h
    obtain ⟨joined, hjoin, h⟩ := h
    have hroom := room_of_join hbase hjoin
    rw [join_eq hproper hroom] at hjoin
    cases hjoin
    split at h
    · cases h
    · next hnone =>
      cases h
      exact ⟨hroom, firstReserved?_eq_none_iff.1 hnone, rfl⟩
  · rintro ⟨hroom, hfree, rfl⟩
    rw [encode, join_eq hproper hroom, Except.bind_ok]
    simp only [firstReserved?_eq_none_iff.2 hfree]

/-! ## Cutting -/

/-- A code point below the surrogates is that of its character. -/
theorem toNat_ofNat {code : Nat} (h : code < firstSurrogate) : (Char.ofNat code).toNat = code := by
  have hvalid : code.isValidChar := .inl h
  rw [Char.ofNat, dif_pos hvalid]
  rfl

/-- The marker of an occurrence. -/
theorem occurrence?_ofNat {k : Nat} {e : Expression} (hroom : m.base + m.size < firstSurrogate)
    (hk : m.occurrences[k]? = some e) :
    m.occurrence? (Char.ofNat (m.base + k + 1)) = some e := by
  have hlt : k < m.size := (List.getElem?_eq_some_iff.1 hk).1
  rw [occurrence?, toNat_ofNat (by omega), if_pos (by omega), ← hk]
  congr 1
  omega

/-- A text without markers joins the literal that follows it. -/
theorem cut_append {literal text first : List Char} {more : List Segment}
    (hliteral : ∀ c ∈ literal, m.contains c = false)
    (h : m.cut text = .ok (.literal first :: more)) :
    m.cut (literal ++ text) = .ok (.literal (literal ++ first) :: more) := by
  induction literal with
  | nil => exact h
  | cons c literal ih =>
    obtain ⟨hc, hliteral⟩ := List.forall_mem_cons.1 hliteral
    rw [List.cons_append, cut, ih hliteral, Except.bind_ok, hc]
    rfl

/-- The marker of an occurrence ends a literal. -/
theorem cut_cons {c : Char} {e : Expression} {text : List Char} (he : m.occurrence? c = some e)
    (h : m.cut text = .ok segments) :
    m.cut (c :: text) = .ok (.literal [] :: .expression e :: segments) := by
  rw [cut, h, Except.bind_ok, if_pos (contains_of_occurrence he).1, meaning_of_occurrence he]
  rfl

/-- The segments of a literal and spans are found again in their text, by the markers of the spans'
occurrences after those before. -/
theorem cut_spelled {head : List Char} {spans : List Span} {before : List Expression}
    (hroom : m.base + m.size < firstSurrogate)
    (hocc : m.occurrences = before ++ spans.map Span.expression)
    (hfree : m.Unreserved (.literal head :: spans.flatMap Span.segments)) :
    m.cut (spelled (m.base + before.length + 1) (.literal head :: spans.flatMap Span.segments)) =
      .ok (.literal head :: spans.flatMap Span.segments) := by
  induction spans generalizing head before with
  | nil =>
    have hnil : m.cut [] = .ok [.literal []] := rfl
    show m.cut (head ++ []) = .ok [.literal head]
    rw [cut_append (hfree head (.head _)) hnil, List.append_nil]
  | cons span spans ih =>
    have hmarker :
        m.occurrence? (Char.ofNat (m.base + before.length + 1)) = some span.expression := by
      refine occurrence?_ofNat hroom ?_
      rw [hocc, List.getElem?_append_right (Nat.le_refl _), Nat.sub_self]
      rfl
    have hrest := @ih span.literal (before ++ [span.expression])
      (by rw [hocc, List.map_cons, List.append_assoc]; rfl)
      (fun text hmem => hfree text (.tail _ (.tail _ hmem)))
    rw [List.length_append, List.length_singleton] at hrest
    have := cut_append (hfree head (.head _)) (cut_cons hmarker hrest)
    rwa [List.append_nil] at this

end Markers

/-! ## Templates -/

/-- The segments of a template hold no foreign value. -/
theorem Template.proper_segments (t : Template) : Proper t.segments := by
  intro value hmem
  simp [Template.segments, Span.segments] at hmem

/-- The expressions among the segments of a template. -/
theorem Template.segmentExpressions_segments (t : Template) :
    segmentExpressions t.segments = t.expressions := by
  have hspans : ∀ spans : List Span,
      segmentExpressions (spans.flatMap Span.segments) = spans.map Span.expression := by
    intro spans
    induction spans with
    | nil => rfl
    | cons span spans ih =>
      rw [List.map_cons, ← ih]
      rfl
  exact hspans t.spans

/-- The literals among the segments of a template. -/
theorem Template.literal_mem_segments {t : Template} {text : List Char} :
    Segment.literal text ∈ t.segments ↔ text ∈ t.literals := by
  simp [Template.segments, Template.literals, Span.segments, eq_comm]

/-- When a template is encoded, and its encoding. -/
theorem Template.encode_segments_iff {t : Template} {base : Nat} (hbase : base < firstSurrogate)
    {encoded : Encoded} :
    ({ base := base } : Markers).encode t.segments = .ok encoded ↔
      base + t.expressions.length < firstSurrogate ∧
      (Markers.mk base t.expressions).Unreserved t.segments ∧
      encoded = ⟨spelled (base + 1) t.segments, ⟨base, t.expressions⟩⟩ := by
  have hroom : (Markers.mk base []).base + (Markers.mk base []).size < firstSurrogate := hbase
  rw [Markers.encode_eq_ok_iff hroom t.proper_segments, t.segmentExpressions_segments]
  rfl

/-- An encoded template is cut into its segments again. -/
theorem Template.cut_of_encode {t : Template} {base : Nat} (hbase : base < firstSurrogate)
    {encoded : Encoded} (h : ({ base := base } : Markers).encode t.segments = .ok encoded) :
    encoded.markers = ⟨base, t.expressions⟩ ∧
      encoded.markers.cut encoded.text = .ok t.segments := by
  obtain ⟨hroom, hfree, rfl⟩ := (Template.encode_segments_iff hbase).1 h
  refine ⟨rfl, ?_⟩
  have hocc : (Markers.mk base t.expressions).occurrences = [] ++ t.spans.map Span.expression := rfl
  exact Markers.cut_spelled hroom hocc hfree

/-- **Templates survive the encoding.** With a base below the surrogates, a template is encoded
exactly when its last marker is below them too and no literal holds a code point in the range of
its markers. Then cutting the encoded text at the markers gives the segments of the template, these
fill its shape to the template itself, and no other template has the same text with the same
occurrences. -/
theorem encode_roundTrip (t : Template) (base : Nat) (hbase : base < firstSurrogate) :
    ∃ segments, t.toNode.segments = .ok segments ∧
      ((∃ encoded, ({ base := base } : Markers).encode segments = .ok encoded) ↔
        base + t.expressions.length < firstSurrogate ∧
        ∀ literal ∈ t.literals, ∀ c ∈ literal,
          ¬ (base ≤ c.toNat ∧ c.toNat ≤ base + t.expressions.length)) ∧
      ∀ encoded, ({ base := base } : Markers).encode segments = .ok encoded →
        encoded.markers.cut encoded.text = .ok segments ∧ refill t.toNode segments = .ok t ∧
        ∀ (t' : Template) (segments' : List Segment) (encoded' : Encoded),
          t'.toNode.segments = .ok segments' →
          ({ base := base } : Markers).encode segments' = .ok encoded' →
          encoded'.text = encoded.text →
          encoded'.markers.occurrences = encoded.markers.occurrences → t' = t := by
  refine ⟨t.segments, segments_toNode t, ?_, ?_⟩
  · simp only [Template.encode_segments_iff hbase, exists_and_left, exists_eq, and_true,
      Markers.Unreserved, Template.literal_mem_segments, ← Bool.not_eq_true, Markers.contains_iff]
    rfl
  · intro encoded hencoded
    obtain ⟨hmarkers, hcut⟩ := Template.cut_of_encode hbase hencoded
    refine ⟨hcut, refill_segments t, ?_⟩
    intro t' segments' encoded' hsegments' hencoded' htext hocc
    rw [segments_toNode] at hsegments'
    cases hsegments'
    obtain ⟨hmarkers', hcut'⟩ := Template.cut_of_encode hbase hencoded'
    have hsame : encoded'.markers = encoded.markers := by
      rw [hmarkers, hmarkers'] at hocc ⊢
      exact congrArg (Markers.mk base) hocc
    rw [hsame, htext, hcut] at hcut'
    exact Template.segments_injective (Except.ok.inj hcut').symm

/-- A template with an empty literal between two expressions, and a literal just above the range of
its markers. -/
theorem encode_roundTrip_adjacent :
    ∃ encoded, ({ base := 230 } : Markers).encode
        (Template.segments ⟨[], [⟨⟨['x'], rfl⟩, []⟩, ⟨⟨['y'], rfl⟩, ['é']⟩]⟩) = .ok encoded ∧
      encoded.text = ['ç', 'è', 'é'] ∧
      encoded.markers.cut encoded.text =
        .ok [.literal [], .expression ⟨['x'], rfl⟩, .literal [], .expression ⟨['y'], rfl⟩,
          .literal ['é']] := by
  obtain ⟨segments, hsegments, hiff, hcut⟩ :=
    encode_roundTrip ⟨[], [⟨⟨['x'], rfl⟩, []⟩, ⟨⟨['y'], rfl⟩, ['é']⟩]⟩ 230 (by decide)
  cases hsegments
  exact ⟨_, rfl, rfl, (hcut _ rfl).1⟩

end CssTemplate
