import CssTemplate.Fault
import CssTemplate.Proofs.Marker.RoundTrip

/-!
# Filling a shape

`refill` takes literals and expressions from the front of the segments in turn. Each of its steps
takes exactly the segments of what it gives (`fillSpan_eq_ok_iff`, `fillSpans_eq_ok_iff`), and fails
in one class of faults only. So filling a shape is the inverse of flattening a template: it gives
the template with the expressions of the shape that has these segments (`refill_iff_segments`),
whatever the literals of the shape are, and a mismatch when there is none.
-/

namespace CssTemplate

/-- The fault is reported as a mismatch of segments. -/
def TemplateFault.IsMismatch (f : TemplateFault) : Prop :=
  (CompileFault.template f).name = "SegmentMismatchError".toList

/-- A shape with the given expressions; where its literals should stand there may be any nodes. -/
def Node.ofParts (head : Node) (parts : List (Expression × Node)) : Node :=
  .template head (parts.map fun part => .span part.1 part.2)

/-! ## Steps -/

section
variable {segments rest : List Segment} {text : List Char} {e : Expression} {span : Span}
  {spans : List Span} {t : Template} {literal : Node}

/-- A literal is taken exactly when it comes first. -/
theorem popLiteral_eq_ok_iff :
    popLiteral segments = .ok (text, rest) ↔ segments = .literal text :: rest := by
  constructor
  · fun_cases popLiteral segments with
    | case2 =>
      intro h
      cases h
      rfl
    | case1 | case3 =>
      intro h
      cases h
  · rintro rfl
    rfl

/-- An expression is taken exactly when it comes first. -/
theorem popExpression_eq_ok_iff :
    popExpression segments = .ok (e, rest) ↔ segments = .expression e :: rest := by
  constructor
  · fun_cases popExpression segments with
    | case2 =>
      intro h
      cases h
      rfl
    | case1 | case3 =>
      intro h
      cases h
  · rintro rfl
    rfl

/-- Taking a literal fails with a mismatch only. -/
theorem popLiteral_failsOnly (segments : List Segment) :
    FailsOnly TemplateFault.IsMismatch (popLiteral segments) := by
  fun_cases popLiteral segments with
  | case2 => exact .ok _
  | case1 | case3 => exact .error rfl

/-- Taking an expression fails with a mismatch only. -/
theorem popExpression_failsOnly (segments : List Segment) :
    FailsOnly TemplateFault.IsMismatch (popExpression segments) := by
  fun_cases popExpression segments with
  | case2 => exact .ok _
  | case1 | case3 => exact .error rfl

/-- A span is filled by its own two segments. -/
theorem fillSpan_eq_ok_iff :
    fillSpan (.span e literal) segments = .ok (span, rest) ↔
      span.expression = e ∧ segments = span.segments ++ rest := by
  rw [fillSpan, Except.bind_eq_ok_iff]
  constructor
  · rintro ⟨⟨found, after⟩, hfound, h⟩
    obtain rfl := popExpression_eq_ok_iff.1 hfound
    simp only at h
    split at h
    · next heq =>
      obtain ⟨⟨text, left⟩, htext, h⟩ := Except.bind_eq_ok_iff.1 h
      obtain rfl := popLiteral_eq_ok_iff.1 htext
      cases h
      rw [heq]
      exact ⟨rfl, rfl⟩
    · cases h
  · rintro ⟨rfl, rfl⟩
    refine ⟨(span.expression, .literal span.literal :: rest), popExpression_eq_ok_iff.2 rfl, ?_⟩
    simp only [if_true]
    rfl

/-- Filling a span fails with a mismatch only. -/
theorem fillSpan_failsOnly (e : Expression) (literal : Node) (segments : List Segment) :
    FailsOnly TemplateFault.IsMismatch (fillSpan (.span e literal) segments) := by
  refine (popExpression_failsOnly segments).bind fun found _ => ?_
  simp only
  split
  · exact (popLiteral_failsOnly found.2).bind fun _ _ => .ok _
  · exact .error rfl

/-- Spans are filled by their own segments. -/
theorem fillSpans_eq_ok_iff {parts : List (Expression × Node)} :
    fillSpans (parts.map fun part => .span part.1 part.2) segments = .ok (spans, rest) ↔
      spans.map Span.expression = parts.map Prod.fst ∧
        segments = spans.flatMap Span.segments ++ rest := by
  induction parts generalizing segments spans rest with
  | nil =>
    rw [List.map_nil, List.map_nil, fillSpans, List.map_eq_nil_iff]
    constructor
    · intro h
      cases h
      exact ⟨rfl, rfl⟩
    · rintro ⟨rfl, rfl⟩
      rfl
  | cons part parts ih =>
    rw [List.map_cons, List.map_cons, fillSpans, Except.bind_eq_ok_iff]
    constructor
    · rintro ⟨⟨span, left⟩, hspan, hfilled⟩
      obtain ⟨⟨more, left'⟩, hmore, hspans⟩ := Except.bind_eq_ok_iff.1 hfilled
      obtain ⟨he, rfl⟩ := fillSpan_eq_ok_iff.1 hspan
      obtain ⟨hes, rfl⟩ := ih.1 hmore
      cases hspans
      rw [List.map_cons, he, hes, List.flatMap_cons, List.append_assoc]
      exact ⟨rfl, rfl⟩
    · rintro ⟨hes, rfl⟩
      cases spans with
      | nil => cases hes
      | cons span spans =>
        obtain ⟨he, hes⟩ := List.cons.inj hes
        rw [List.flatMap_cons, List.append_assoc]
        refine ⟨(span, spans.flatMap Span.segments ++ rest), fillSpan_eq_ok_iff.2 ⟨he, rfl⟩, ?_⟩
        simp only
        rw [ih.2 ⟨hes, rfl⟩]
        rfl

/-- Filling spans fails with a mismatch only. -/
theorem fillSpans_failsOnly (parts : List (Expression × Node)) (segments : List Segment) :
    FailsOnly TemplateFault.IsMismatch
      (fillSpans (parts.map fun part => .span part.1 part.2) segments) := by
  induction parts generalizing segments with
  | nil => exact .ok _
  | cons part parts ih =>
    rw [List.map_cons, fillSpans]
    exact (fillSpan_failsOnly part.1 part.2 segments).bind fun filled _ =>
      (ih filled.2).bind fun _ _ => .ok _

/-! ## Shapes -/

/-- A shape is filled by the segments of a template with the expressions of the shape. -/
theorem refill_eq_ok_iff {head : Node} {parts : List (Expression × Node)} :
    refill (.ofParts head parts) segments = .ok t ↔
      t.expressions = parts.map Prod.fst ∧ segments = t.segments := by
  rw [Node.ofParts, refill, Except.bind_eq_ok_iff]
  constructor
  · rintro ⟨⟨text, left⟩, htext, hfilled⟩
    obtain ⟨⟨spans, left'⟩, hspans, hleft⟩ := Except.bind_eq_ok_iff.1 hfilled
    obtain rfl := popLiteral_eq_ok_iff.1 htext
    obtain ⟨hes, rfl⟩ := fillSpans_eq_ok_iff.1 hspans
    cases left' with
    | nil =>
      cases hleft
      rw [Template.segments, List.append_nil]
      exact ⟨hes, rfl⟩
    | cons segment left' => cases hleft
  · rintro ⟨hes, rfl⟩
    refine ⟨(t.head, t.spans.flatMap Span.segments), popLiteral_eq_ok_iff.2 rfl, ?_⟩
    have hspans := fillSpans_eq_ok_iff.2
      ⟨hes, (List.append_nil (t.spans.flatMap Span.segments)).symm⟩
    simp only
    rw [hspans]
    rfl

/-- Refilling a template fails with a mismatch only. -/
theorem refill_failsOnly (head : Node) (parts : List (Expression × Node))
    (segments : List Segment) :
    FailsOnly TemplateFault.IsMismatch (refill (.ofParts head parts) segments) := by
  refine (popLiteral_failsOnly segments).bind fun first _ => ?_
  refine (fillSpans_failsOnly parts first.2).bind fun filled _ => ?_
  simp only
  split
  · exact .ok _
  · exact .error rfl

end

/-- **Filling is the inverse of flattening.** From any values in a row, a shape is filled to exactly
the template that has the expressions of the shape and these values as its segments. If there is
none, the segments are reported as a mismatch. In particular a template is filled from its own
segments. -/
theorem refill_iff_segments (head : Node) (parts : List (Expression × Node))
    (segments : List Segment) :
    (∀ t : Template, refill (.ofParts head parts) segments = .ok t ↔
      t.expressions = parts.map Prod.fst ∧ t.toNode.segments = .ok segments) ∧
    ((¬∃ t : Template, t.expressions = parts.map Prod.fst ∧ t.toNode.segments = .ok segments) →
      ∃ fault, refill (.ofParts head parts) segments = .error fault ∧
        (CompileFault.template fault).name = "SegmentMismatchError".toList) ∧
    (∀ t : Template, ∃ own, t.toNode.segments = .ok own ∧ refill t.toNode own = .ok t) := by
  have hfilled : ∀ t : Template, refill (.ofParts head parts) segments = .ok t ↔
      t.expressions = parts.map Prod.fst ∧ t.toNode.segments = .ok segments := by
    intro t
    rw [refill_eq_ok_iff, segments_toNode, Except.ok.injEq, eq_comm (a := segments)]
  refine ⟨hfilled, fun hnone => ?_, fun t => ⟨t.segments, segments_toNode t, refill_segments t⟩⟩
  cases h : refill (.ofParts head parts) segments with
  | ok t => exact absurd ⟨t, (hfilled t).1 h⟩ hnone
  | error fault => exact ⟨fault, rfl, refill_failsOnly head parts segments fault h⟩

/-- A shape without literals is filled from segments with its expression, and not from segments with
another one. -/
theorem refill_iff_segments_other :
    refill (.ofParts (.foreign .null) [(⟨['x'], rfl⟩, .foreign .null)])
        [.literal ['a'], .expression ⟨['x'], rfl⟩, .literal []] =
      .ok ⟨['a'], [⟨⟨['x'], rfl⟩, []⟩]⟩ ∧
    (¬∃ t : Template, t.expressions = [⟨['x'], rfl⟩] ∧
      t.toNode.segments = .ok [.literal ['a'], .expression ⟨['y'], rfl⟩, .literal []]) ∧
    ∃ fault, refill (.ofParts (.foreign .null) [(⟨['x'], rfl⟩, .foreign .null)])
        [.literal ['a'], .expression ⟨['y'], rfl⟩, .literal []] = .error fault ∧
      (CompileFault.template fault).name = "SegmentMismatchError".toList := by
  obtain ⟨hown, -⟩ := refill_iff_segments (.foreign .null) [(⟨['x'], rfl⟩, .foreign .null)]
    [.literal ['a'], .expression ⟨['x'], rfl⟩, .literal []]
  obtain ⟨hother, hfault, -⟩ := refill_iff_segments (.foreign .null)
    [(⟨['x'], rfl⟩, .foreign .null)] [.literal ['a'], .expression ⟨['y'], rfl⟩, .literal []]
  have hnone : ¬∃ t : Template, t.expressions = [⟨['x'], rfl⟩] ∧
      t.toNode.segments = .ok [.literal ['a'], .expression ⟨['y'], rfl⟩, .literal []] := by
    rintro ⟨t, ht⟩
    cases (hother t).2 ht
  exact ⟨(hown _).2 ⟨rfl, rfl⟩, hnone, hfault hnone⟩

end CssTemplate
