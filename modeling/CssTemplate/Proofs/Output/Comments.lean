import CssTemplate.Proofs.Output.Layout
import CssTemplate.Proofs.Source.Settled

/-!
# Comments in a call

A line comment of the host program goes from two slashes to the end of the line. An expression of a
template may hold one. Its text is taken over without the blanks at its ends, and the line end after a
comment is such a blank, so the comment may be open where the expression ends. What is written after the
expression is then commented out, first of all the bracket that closes it.

`swallowed_call_iff` says that this is the only way to lose anything. Nothing else in a call starts a
comment, and the expressions close all strings and templates that they open, so none of them changes what
a slash means in another. A written character is commented out exactly by an expression before it that
leaves a comment open, with no line end in between. Nothing keeps a template from having such an
expression (`call_swallows_bracket`).
-/

namespace CssTemplate

/-- A character that ends a line of the host program. -/
def isLineEnd (c : Char) : Bool :=
  c == '\n' || c == '\r' || c == '\u2028' || c == '\u2029'

/-- Whether a line comment starts in a text and is still open at the end of it. It starts with two
slashes outside of strings and templates. The text itself starts at the given place. -/
def opensComment : HostPlace → List Char → Bool
  | _, [] => false
  | place, c :: rest =>
    place.isOutside && c == '/' && rest.head? == some '/' && !rest.any isLineEnd ||
      opensComment (place.step c) rest

/-- Whether an expression leaves a comment open. -/
def Expression.opensComment (e : Expression) : Bool :=
  CssTemplate.opensComment .start (trim e.text)

/-! ## Comments in texts -/

section
variable {place : HostPlace} {text more before rest : List Char}

/-- A comment opens at the first character or behind it. -/
theorem opensComment_cons (place : HostPlace) (c : Char) (rest : List Char) :
    opensComment place (c :: rest) = true ↔
      (place.isOutside = true ∧ c = '/' ∧ rest.head? = some '/' ∧ rest.any isLineEnd = false) ∨
        opensComment (place.step c) rest = true := by
  simp [opensComment, and_assoc]

/-- Where no slash is open, no comment starts. -/
theorem opensComment_of_hidden
    (h : ∀ before rest, text = before ++ '/' :: rest → (place.after before).isOutside = false) :
    opensComment place text = false := by
  induction text generalizing place with
  | nil => rfl
  | cons c text ih =>
    have hfirst : (place.isOutside && c == '/') = false := by
      rw [Bool.and_eq_false_iff]
      by_cases hc : c = '/'
      · exact .inl (h [] text (congrArg (· :: text) hc))
      · exact .inr (beq_eq_false_iff_ne.2 hc)
    rw [opensComment, hfirst, Bool.false_and, Bool.false_and, Bool.false_or]
    refine ih ?_
    rintro before rest rfl
    exact h (c :: before) rest rfl

/-- A comment that is open after two texts starts in the first one and goes on through the second, or it
starts in the second. A slash must not stand on both sides of the border. -/
theorem opensComment_append (h : text.getLast? = some '/' → more.head? ≠ some '/') :
    opensComment place (text ++ more) = true ↔
      opensComment place text = true ∧ more.any isLineEnd = false ∨
        opensComment (place.after text) more = true := by
  induction text generalizing place with
  | nil => simp [opensComment]
  | cons c text ih =>
    cases text with
    | nil =>
      have hfirst : ¬(c = '/' ∧ more.head? = some '/') := fun hboth =>
        h (congrArg some hboth.1) hboth.2
      have hlone : opensComment place [c] = false := by simp [opensComment]
      rw [List.singleton_append, opensComment_cons, hlone, HostPlace.after_cons, HostPlace.after_nil]
      tauto
    | cons d text =>
      rw [List.cons_append, opensComment_cons place c, opensComment_cons place c, ih h,
        List.cons_append, List.head?_cons, List.head?_cons, ← List.cons_append, List.any_append,
        Bool.or_eq_false_iff, HostPlace.after_cons]
      tauto

/-- A text that hides its slashes does not end with one. -/
theorem Hides.getLast?_ne (h : Hides '/' text) : text.getLast? ≠ some '/' := by
  intro hlast
  obtain ⟨before, rfl⟩ := List.getLast?_eq_some_iff.1 hlast
  have houtside := h.hidden before [] rfl
  have hsettled := h.settled
  rw [HostPlace.after_append, HostPlace.after_cons, HostPlace.after_nil] at hsettled
  rw [HostPlace.eq_code_of_step rfl hsettled] at houtside
  cases houtside

/-- A text that hides its slashes starts no comment and hides no other one. -/
theorem Hides.opensComment_append (h : Hides '/' text) (more : List Char) :
    opensComment .start (text ++ more) = opensComment .start more := by
  rw [Bool.eq_iff_iff, CssTemplate.opensComment_append fun hlast => absurd hlast h.getLast?_ne,
    opensComment_of_hidden h.hidden, h.settled]
  simp

/-- No comment starts in the front of a text that hides its slashes. -/
theorem Hides.opensComment_front (h : Hides '/' (before ++ rest)) :
    opensComment .start before = false := by
  refine opensComment_of_hidden ?_
  rintro front back rfl
  exact h.hidden front (back ++ rest) (by rw [List.append_assoc, List.cons_append])

end

/-! ## Comments in layouts -/

/-- A character is written in a layout after the given parts and the given front of its own part. -/
def WrittenAfter (parts front : List ScriptPart) (before : List Char) : Prop :=
  ∃ c rest back, parts = front ++ .written (before ++ c :: rest) :: back

/-- One of the parts is an expression that leaves a comment open, and there is no line end after it. -/
def CommentReaches (front : List ScriptPart) (before : List Char) : Prop :=
  ∃ front' e back, front = front' ++ .expression e :: back ∧ e.opensComment = true ∧
    (layoutText back ++ before).any isLineEnd = false

/-- The comments over what is written are those of the expressions before it. -/
def CommentsFound (parts : List ScriptPart) : Prop :=
  ∀ front before, WrittenAfter parts front before →
    (opensComment .start (layoutText front ++ before) = true ↔ CommentReaches front before)

/-- Something that is written is commented out. -/
def Swallowed (parts : List ScriptPart) : Prop :=
  ∃ front before, WrittenAfter parts front before ∧
    opensComment .start (layoutText front ++ before) = true

section
variable {allowed : Expression → Prop} {parts front : List ScriptPart} {text before : List Char}
  {e : Expression}

/-- No expression, no comment. -/
theorem not_commentReaches_nil (before : List Char) : ¬CommentReaches [] before := by
  rintro ⟨front, e, back, heq, -⟩
  cases (List.append_eq_nil_iff.1 heq.symm).2

/-- A comment comes from the first part or from a later one. -/
theorem commentReaches_cons (part : ScriptPart) (front : List ScriptPart) (before : List Char) :
    CommentReaches (part :: front) before ↔
      (∃ e, part = .expression e ∧ e.opensComment = true ∧
        (layoutText front ++ before).any isLineEnd = false) ∨ CommentReaches front before := by
  constructor
  · rintro ⟨front', e, back, heq, he, hline⟩
    cases front' with
    | nil =>
      obtain ⟨rfl, rfl⟩ := List.cons.inj heq
      exact .inl ⟨e, rfl, he, hline⟩
    | cons first front' =>
      obtain ⟨rfl, rfl⟩ := List.cons.inj heq
      exact .inr ⟨front', e, back, rfl, he, hline⟩
  · rintro (⟨e, rfl, he, hline⟩ | ⟨front', e, back, rfl, he, hline⟩)
    · exact ⟨[], e, front, rfl, he, hline⟩
    · exact ⟨part :: front', e, back, rfl, he, hline⟩

/-- A text that hides slashes adds no comment. -/
theorem CommentsFound.written (htext : Hides '/' text) (h : CommentsFound parts) :
    CommentsFound (.written text :: parts) := by
  rintro front before ⟨c, rest, back, heq⟩
  cases front with
  | nil =>
    obtain ⟨hpart, -⟩ := List.cons.inj heq
    cases hpart
    rw [layoutText_nil, List.nil_append, htext.opensComment_front]
    exact iff_of_false Bool.false_ne_true (not_commentReaches_nil before)
  | cons part front =>
    obtain ⟨rfl, hparts⟩ := List.cons.inj heq
    have hno : ¬∃ e, ScriptPart.written text = .expression e ∧ e.opensComment = true ∧
        (layoutText front ++ before).any isLineEnd = false := by
      rintro ⟨e, hpart, -⟩
      cases hpart
    rw [layoutText_cons, List.append_assoc, ScriptPart.text, htext.opensComment_append,
      commentReaches_cons, or_iff_right hno]
    exact h front before ⟨c, rest, back, hparts⟩

/-- An expression may start a comment, if no slash of it is joined with one that follows. -/
theorem CommentsFound.expression (he : Settled e.text)
    (hjoin : (trim e.text).getLast? = some '/' → ∀ front before, WrittenAfter parts front before →
      (layoutText front ++ before).head? ≠ some '/')
    (h : CommentsFound parts) : CommentsFound (.expression e :: parts) := by
  rintro front before ⟨c, rest, back, heq⟩
  cases front with
  | nil => cases (List.cons.inj heq).1
  | cons part front =>
    obtain ⟨rfl, hparts⟩ := List.cons.inj heq
    have hwritten : WrittenAfter parts front before := ⟨c, rest, back, hparts⟩
    have hown : (∃ e', ScriptPart.expression e = .expression e' ∧ e'.opensComment = true ∧
        (layoutText front ++ before).any isLineEnd = false) ↔
        e.opensComment = true ∧ (layoutText front ++ before).any isLineEnd = false := by
      simp only [ScriptPart.expression.injEq, exists_eq_left']
    have hsettled : HostPlace.start.after (trim e.text) = .start := he.trim []
    rw [layoutText_cons, List.append_assoc, ScriptPart.text,
      opensComment_append fun hlast => hjoin hlast front before hwritten, hsettled,
      h front before hwritten, commentReaches_cons, hown]
    rfl

/-- In arranged parts whose expressions are settled all comments are those of expressions. -/
theorem Arranged.commentsFound (h : Arranged allowed parts)
    (hallowed : ∀ e, allowed e → Settled e.text) : CommentsFound parts := by
  induction h with
  | nil =>
    rintro front before ⟨c, rest, back, heq⟩
    cases (List.append_eq_nil_iff.1 heq.symm).2
  | written htext _ ih => exact ih.written htext
  | @path e _ he hpath _ ih =>
    have hlast := (hides_slash_of_path hpath).getLast?_ne
    exact ih.expression (hallowed e he) fun hslash => absurd hslash hlast
  | @bracketed e parts he _ ih =>
    have hopening : Hides '/' ['('] := hides_of_all rfl
    have hclosing : Hides '/' [')'] := hides_of_all rfl
    refine ((ih.written hclosing).expression (hallowed e he) fun _ => ?_).written hopening
    -- the bracket stands between the expression and whatever follows it
    rintro front before ⟨c, rest, back, heq⟩ hhead
    cases front with
    | nil =>
      obtain ⟨hpart, -⟩ := List.cons.inj heq
      have hbracket := ScriptPart.written.inj hpart
      cases before with
      | nil => cases hhead
      | cons d before =>
        cases hhead
        cases (List.cons.inj hbracket).1
    | cons part front =>
      obtain ⟨rfl, -⟩ := List.cons.inj heq
      cases hhead

/-- A bracket follows an expression that leaves a comment open. -/
theorem Arranged.exists_closing (h : Arranged allowed parts) (hmem : .expression e ∈ parts)
    (he : e.opensComment = true) :
    ∃ front back, parts = front ++ .expression e :: .written [')'] :: back := by
  induction h with
  | nil => cases hmem
  | @written text parts _ _ ih =>
    cases hmem with
    | tail _ hmem =>
      obtain ⟨front, back, rfl⟩ := ih hmem
      exact ⟨.written text :: front, back, rfl⟩
  | @path other parts _ hpath _ ih =>
    cases hmem with
    | head =>
      have hnone := opensComment_of_hidden (hides_slash_of_path hpath).hidden
      cases hnone.symm.trans he
    | tail _ hmem =>
      obtain ⟨front, back, rfl⟩ := ih hmem
      exact ⟨.expression other :: front, back, rfl⟩
  | @bracketed other parts _ _ ih =>
    simp only [List.mem_cons, ScriptPart.expression.injEq, reduceCtorEq, false_or] at hmem
    rcases hmem with rfl | hmem
    · exact ⟨[.written ['(']], parts, rfl⟩
    · obtain ⟨front, back, rfl⟩ := ih hmem
      exact ⟨.written ['('] :: .expression other :: .written [')'] :: front, back, rfl⟩

/-- Something that is written is commented out exactly if an expression leaves a comment open. -/
theorem Arranged.swallowed_iff (h : Arranged allowed parts)
    (hallowed : ∀ e, allowed e → Settled e.text) :
    Swallowed parts ↔ ∃ e, .expression e ∈ parts ∧ e.opensComment = true := by
  have hfound := h.commentsFound hallowed
  constructor
  · rintro ⟨front, before, hwritten, hopen⟩
    obtain ⟨front', e, back', rfl, he, -⟩ := (hfound front before hwritten).1 hopen
    obtain ⟨c, rest, back, rfl⟩ := hwritten
    exact ⟨e, by simp, he⟩
  · rintro ⟨e, hmem, he⟩
    obtain ⟨front, back, rfl⟩ := h.exists_closing hmem he
    have hwritten : WrittenAfter (front ++ .expression e :: .written [')'] :: back)
        (front ++ [.expression e]) [] := ⟨')', [], back, by simp⟩
    exact ⟨_, _, hwritten, (hfound _ _ hwritten).2 ⟨front, e, [], rfl, he, rfl⟩⟩

end

/-! ## Calls -/

/-- The layout of an expression holds that expression only. -/
theorem Expression.mem_layout {e other : Expression} : .expression other ∈ e.layout ↔ other = e := by
  unfold Expression.layout
  split <;> simp

section
variable {compiler : Compiler} {t : Template} {asKeyframes : Bool} {compilation : Compilation}

/-- The markers of a compilation stand for the expressions of a well-formed template. -/
theorem Compiler.expressions_of_compile (h : compiler.compile t.toNode asKeyframes = .ok compilation) :
    compilation.encoded.markers.occurrences = t.expressions := by
  have hsegments := (Compiler.of_encode (Compiler.encode_of_compile h)).1
  rw [segments_toNode] at hsegments
  rw [Compiler.occurrences_of_compile h, ← Except.ok.inj hsegments, t.segmentExpressions_segments]

/-- A call that succeeds compiles its template. -/
theorem Compiler.exists_compile_of_call {tag : Option (List Char)} {keyframes : Bool} {call : Call}
    (h : compiler.call tag t.toNode keyframes = .ok call) :
    ∃ asKeyframes, compiler.compile t.toNode asKeyframes = .ok call.compilation := by
  obtain ⟨kind, -, h⟩ := Except.bind_eq_ok_iff.1 h
  split at h
  · next hcompile =>
    cases h
    exact ⟨_, hcompile⟩
  · cases h

/-- A call succeeds if its kind is known and its template compiles. -/
theorem Compiler.call_of_compile {tag : Option (List Char)} {kind : CallKind} {keyframes : Bool}
    {template : Node} (hkind : callKind tag keyframes = .ok kind)
    (h : compiler.compile template (kind = .keyframes) = .ok compilation) :
    compiler.call tag template keyframes = .ok ⟨tag.getD kind.label, compilation⟩ := by
  rw [Compiler.call, hkind, Except.bind_ok, h]

end

/-- **What comments take away.** The expressions of a template that is read may leave a comment open, and
what is written around such an expression is then commented out; nothing is otherwise. A call for the
template has no other expressions. A written character in it is commented out exactly if an expression
before it leaves a comment open and no line ends in between. So nothing that is written in a call is
commented out if and only if none of its expressions leaves a comment open. -/
theorem swallowed_call_iff {source : List Char} {tagged : Tagged}
    (hread : Tagged.read source = .ok tagged) :
    (∀ e ∈ tagged.template.expressions, expressionScript e = layoutText e.layout ∧
      (Swallowed e.layout ↔ e.opensComment = true)) ∧
    ∀ {compiler : Compiler} {keyframes : Bool} {call : Call},
      compiler.call tagged.tag tagged.template.toNode keyframes = .ok call →
        call.script compiler.config = .ok (call.tag ++ layoutText (call.layout compiler.config)) ∧
        (∀ e, .expression e ∈ call.layout compiler.config → e ∈ tagged.template.expressions) ∧
        (∀ front before, WrittenAfter (call.layout compiler.config) front before →
          (opensComment .start (layoutText front ++ before) = true ↔ CommentReaches front before)) ∧
        (Swallowed (call.layout compiler.config) ↔
          ∃ e, .expression e ∈ call.layout compiler.config ∧ e.opensComment = true) := by
  have hsettled := settled_of_read hread
  constructor
  · intro e he
    have harranged : Arranged (· ∈ tagged.template.expressions) e.layout := Expression.arranged he
    refine ⟨expressionScript_eq_layoutText e, ?_⟩
    rw [harranged.swallowed_iff hsettled]
    simp only [Expression.mem_layout, exists_eq_left]
  · intro compiler keyframes call hcall
    obtain ⟨asKeyframes, hcompile⟩ := Compiler.exists_compile_of_call hcall
    have hbuild := Compiler.buildOutput_of_compile hcompile
    have hbuilt := builtFrom_of_buildOutput hbuild
    rw [Compiler.expressions_of_compile hcompile] at hbuilt
    have harranged := Call.arranged hbuilt
    exact ⟨Call.script_eq_layoutText (native_of_buildOutput hbuild),
      fun e he => harranged.allowed_of_mem he, harranged.commentsFound hsettled,
      harranged.swallowed_iff hsettled⟩

/-- The call for a declaration with any expression as its value. -/
theorem exists_call_color (e : Expression) :
    ∃ call, (Compiler.ofConfig .default).call none
        (Template.mk "color:".toList [⟨e, []⟩]).toNode false = .ok call ∧
      call.tag = "styled".toList ∧
      call.output = ⟨.functional, [[.value .className, .text "\x7bcolor:".toList,
        .value (.expression e), .text ";\x7d".toList]], ["cls".toList], [],
        fun h => absurd h Bool.false_ne_true, fun h => absurd rfl h⟩ := by
  have hencode : (Compiler.ofConfig Config.default).encode
      (Template.mk "color:".toList [⟨e, []⟩]).toNode =
      .ok ([.literal "color:".toList, .expression e, .literal []],
        ⟨"color:ç".toList, ⟨230, [e]⟩⟩) := by cbv
  have hprocess : (Compiler.ofConfig Config.default).process ⟨"color:ç".toList, ⟨230, [e]⟩⟩ false =
        .ok "æ\x7bcolor:ç;\x7d".toList := by cbv
  have hsplit : splitBlocks "æ\x7bcolor:ç;\x7d".toList false =
      .ok ["æ\x7bcolor:ç;\x7d".toList] := by cbv
  have hkind : callKind none false = .ok .styled := rfl
  obtain ⟨output, hbuild, houtput⟩ : ∃ output,
      buildOutput .default ⟨230, [e]⟩ false ["æ\x7bcolor:ç;\x7d".toList] = .ok output ∧
      output = ⟨.functional, [[.value .className, .text "\x7bcolor:".toList,
        .value (.expression e), .text ";\x7d".toList]], ["cls".toList], [],
        fun h => absurd h Bool.false_ne_true, fun h => absurd rfl h⟩ :=
    ⟨_, rfl, rfl⟩
  have hcompile := Compiler.compile_of_stages hencode hprocess
    (Compiler.assemble_of_buildOutput hsplit hbuild)
  exact ⟨_, Compiler.call_of_compile hkind hcompile, rfl, houtput⟩

/-- A comment that ends inside of its expression. -/
theorem swallowed_call_iff_closed :
    ∃ tagged call, Tagged.read "\x60color:$\x7ba // b\n/ c\x7d\x60".toList = .ok tagged ∧
      (Compiler.ofConfig .default).call tagged.tag tagged.template.toNode false = .ok call ∧
      (∀ e ∈ tagged.template.expressions, ¬Swallowed e.layout) ∧
      ¬Swallowed (call.layout .default) ∧
      call.script .default =
        .ok "styled((cls) => [cls + \"\x7bcolor:\" + (a // b\n/ c) + \";\x7d\"])".toList := by
  have hread : Tagged.read "\x60color:$\x7ba // b\n/ c\x7d\x60".toList =
      .ok ⟨none, "color:".toList, [⟨⟨"a // b\n/ c".toList, by decide⟩, []⟩]⟩ := by cbv
  obtain ⟨call, hcall, htag, houtput⟩ := exists_call_color ⟨"a // b\n/ c".toList, by decide⟩
  obtain ⟨hexpressions, hcalls⟩ := swallowed_call_iff hread
  obtain ⟨-, hmem, -, hswallowed⟩ := hcalls hcall
  have hclosed : ∀ e ∈ [(⟨"a // b\n/ c".toList, by decide⟩ : Expression)], e.opensComment = false :=
    List.forall_mem_singleton.2 rfl
  refine ⟨_, call, hread, hcall, fun e he hlost => ?_, fun hlost => ?_, ?_⟩
  · have hopen := (hexpressions e he).2.1 hlost
    rw [hclosed e he] at hopen
    cases hopen
  · obtain ⟨e, he, hopen⟩ := hswallowed.1 hlost
    rw [hclosed e (hmem e he)] at hopen
    cases hopen
  · rw [Call.script, htag, houtput]
    rfl

/-- An expression that ends in a comment: the line end after it is trimmed away, and the comment takes
in the bracket and the rest of the call. -/
theorem call_swallows_bracket :
    ∃ tagged call, Tagged.read "\x60color:$\x7bx // note\n\x7d\x60".toList = .ok tagged ∧
      (∃ e ∈ tagged.template.expressions, expressionScript e = "(x // note".toList ++ [')'] ∧
        opensComment .start "(x // note".toList = true) ∧
      (Compiler.ofConfig .default).call tagged.tag tagged.template.toNode false = .ok call ∧
      call.script .default = .ok ("styled".toList ++
        "((cls) => [cls + \"\x7bcolor:\" + (x // note".toList ++ ") + \";\x7d\"])".toList) ∧
      opensComment .start "((cls) => [cls + \"\x7bcolor:\" + (x // note".toList = true ∧
      ") + \";\x7d\"])".toList.any isLineEnd = false := by
  have hread : Tagged.read "\x60color:$\x7bx // note\n\x7d\x60".toList =
      .ok ⟨none, "color:".toList, [⟨⟨"x // note".toList, by decide⟩, []⟩]⟩ := by cbv
  obtain ⟨call, hcall, htag, houtput⟩ := exists_call_color ⟨"x // note".toList, by decide⟩
  refine ⟨_, call, hread, ⟨_, .head _, rfl, rfl⟩, hcall, ?_, rfl, rfl⟩
  rw [Call.script, htag, houtput]
  rfl

end CssTemplate
