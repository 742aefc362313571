import CssTemplate.Source.Tree

/-!
# Reading the source of a template

The reader keeps what is around the place that it has reached as a pair of nested holes: a
template stands at the top or inside an expression, an expression stands in a substitution or in
braces. `readParts` takes one lexeme at a time. It fails at a character that cannot stand where
it is, or at the end of the source; both failures carry the rest of the source from which their
place is computed, in the second case from the last lexeme on.
-/

namespace CssTemplate

/-! ## Lexemes -/

/-- The longest chunk of raw text: it ends before a backquote, before a dollar sign with an
opening brace, and before a backslash that is the last character. -/
def spanChunk : List Char → List Char × List Char
  | [] => ([], [])
  | ['\\'] => ([], ['\\'])
  | '\\' :: c :: rest =>
    let more := spanChunk rest
    ('\\' :: c :: more.1, more.2)
  | '$' :: '{' :: rest => ([], '$' :: '{' :: rest)
  | c :: rest =>
    if c = backquote then ([], c :: rest)
    else
      let more := spanChunk rest
      (c :: more.1, more.2)

/-- Whether a character stands for itself in an expression. -/
def isExpressionText (c : Char) : Bool :=
  c != '{' && c != '}' && c != '\'' && c != '"' && c != backquote

/-- The content of a string up to its quote, and the rest after the quote. A line end cannot
stand in a string, not even after a backslash. -/
def spanQuoted? (quote : Char) : List Char → Option (List Char × List Char)
  | [] => none
  | '\\' :: c :: rest =>
    if c = '\n' then none
    else (spanQuoted? quote rest).map fun (content, after) => ('\\' :: c :: content, after)
  | c :: rest =>
    if c = quote then some ([], rest)
    else if c = '\n' || c = '\\' then none
    else (spanQuoted? quote rest).map fun (content, after) => (c :: content, after)

/-- A chunk leaves no more than there was. -/
theorem length_spanChunk_le (text : List Char) : (spanChunk text).2.length ≤ text.length := by
  fun_induction spanChunk text with
  | case1 => exact Nat.le_refl _
  | case2 => exact Nat.le_refl _
  | case3 c rest _ ih => exact Nat.le_succ_of_le (Nat.le_succ_of_le ih)
  | case4 => exact Nat.le_refl _
  | case5 => exact Nat.le_refl _
  | case6 c rest _ _ _ _ _ ih => exact Nat.le_succ_of_le ih

/-- A chunk that is not empty leaves less than there was. -/
theorem length_spanChunk_lt {text : List Char} (h : (spanChunk text).1.isEmpty = false) :
    (spanChunk text).2.length < text.length := by
  fun_cases spanChunk text with
  | case1 => simp [spanChunk] at h
  | case2 => simp [spanChunk] at h
  | case3 c rest more =>
    have := length_spanChunk_le rest
    simp only [List.length_cons, more]
    omega
  | case4 => simp [spanChunk] at h
  | case5 => simp_all [spanChunk]
  | case6 c rest _ _ _ _ more => exact Nat.lt_succ_of_le (length_spanChunk_le rest)

/-- A string leaves less than there was. -/
theorem length_of_spanQuoted? {quote : Char} {text content rest : List Char}
    (h : spanQuoted? quote text = some (content, rest)) : rest.length < text.length := by
  fun_induction spanQuoted? quote text generalizing content with
  | case1 => cases h
  | case2 => cases h
  | case3 c after _ ih =>
    obtain ⟨⟨content', rest'⟩, hs, heq⟩ := Option.map_eq_some_iff.1 h
    cases heq
    have := ih hs
    simp only [List.length_cons]
    omega
  | case4 => cases h; simp
  | case5 => cases h
  | case6 c after _ _ _ ih =>
    obtain ⟨⟨content', rest'⟩, hs, heq⟩ := Option.map_eq_some_iff.1 h
    cases heq
    exact Nat.lt_succ_of_lt (ih hs)

/-! ## The machine -/

mutual

/-- What is around a template: nothing, or an expression. -/
inductive TemplateHole where
  | top
  /-- The items before the template, last one first. -/
  | inside (before : List SourceItem) (around : ExpressionHole)

/-- What is around an expression: a substitution or a pair of braces. -/
inductive ExpressionHole where
  /-- The parts of the template before the substitution, last one first. -/
  | substitution (before : List SourcePart) (around : TemplateHole)
  /-- The items before the braces, last one first. -/
  | braces (before : List SourceItem) (around : ExpressionHole)

end

/-- The place that the reader has reached, with the parts or items before it in the innermost
sequence, last one first. -/
inductive ReaderState where
  | inTemplate (before : List SourcePart) (around : TemplateHole)
  | inExpression (before : List SourceItem) (around : ExpressionHole)

/-- Why a source cannot be read, with the rest of the source at the place of the failure. -/
inductive ReaderFault where
  /-- A character that cannot stand where it is. -/
  | unexpected (rest : List Char)
  /-- The source ends; the last lexeme starts at the given rest. -/
  | endOfSource (last : List Char)
  deriving DecidableEq, Repr

/-- The outcome of one lexeme. -/
inductive ReaderStep where
  /-- The reader goes on with the rest. -/
  | next (state : ReaderState) (rest : List Char)
  /-- The outermost template is closed. -/
  | done (parts : List SourcePart) (rest : List Char)
  | stuck

/-- One lexeme inside a template. -/
def stepTemplate (before : List SourcePart) (around : TemplateHole) (text : List Char) :
    ReaderStep :=
  match text with
  | '$' :: '{' :: rest => .next (.inExpression [] (.substitution before around)) rest
  | c :: rest =>
    if c = backquote then
      match around with
      | .top => .done before.reverse rest
      | .inside items hole => .next (.inExpression (.template before.reverse :: items) hole) rest
    else
      let chunk := spanChunk text
      if chunk.1.isEmpty then .stuck
      else .next (.inTemplate (.chunk chunk.1 :: before) around) chunk.2
  | [] => .stuck

/-- The closing brace of an expression. A substitution cannot be empty. -/
def closeExpression (before : List SourceItem) (around : ExpressionHole) (rest : List Char) :
    ReaderStep :=
  match around with
  | .substitution parts hole =>
    if before.isEmpty then .stuck
    else .next (.inTemplate (.substitution before.reverse :: parts) hole) rest
  | .braces items hole => .next (.inExpression (.braces before.reverse :: items) hole) rest

/-- One lexeme inside an expression. -/
def stepExpression (before : List SourceItem) (around : ExpressionHole) (text : List Char) :
    ReaderStep :=
  match text with
  | [] => .stuck
  | c :: rest =>
    if c = '{' then .next (.inExpression [] (.braces before around)) rest
    else if c = '}' then closeExpression before around rest
    else if c = backquote then .next (.inTemplate [] (.inside before around)) rest
    else if c = '"' || c = '\'' then
      match spanQuoted? c rest with
      | some (content, after) => .next (.inExpression (.quoted c content :: before) around) after
      | none => .stuck
    else
      .next (.inExpression (.text (c :: rest.takeWhile isExpressionText) :: before) around)
        (rest.dropWhile isExpressionText)

/-- One lexeme. -/
def ReaderState.step : ReaderState → List Char → ReaderStep
  | .inTemplate before around, text => stepTemplate before around text
  | .inExpression before around, text => stepExpression before around text

/-- Every step inside a template takes something off the text. -/
theorem length_stepTemplate {before : List SourcePart} {around : TemplateHole}
    {text rest : List Char} {state : ReaderState}
    (h : stepTemplate before around text = .next state rest) : rest.length < text.length := by
  unfold stepTemplate at h
  split at h
  · cases h; simp only [List.length_cons]; omega
  · split at h
    · split at h
      · cases h
      · cases h; simp
    · simp only at h
      split at h
      · cases h
      · next he => cases h; exact length_spanChunk_lt (by simpa using he)
  · cases h

/-- Every step inside an expression takes something off the text. -/
theorem length_stepExpression {before : List SourceItem} {around : ExpressionHole}
    {text rest : List Char} {state : ReaderState}
    (h : stepExpression before around text = .next state rest) : rest.length < text.length := by
  unfold stepExpression at h
  split at h
  · cases h
  · next c tail =>
    split at h
    · cases h; simp
    · split at h
      · unfold closeExpression at h
        split at h
        · split at h
          · cases h
          · cases h; simp
        · cases h; simp
      · split at h
        · cases h; simp
        · split at h
          · split at h
            · next hq => cases h; exact Nat.lt_succ_of_lt (length_of_spanQuoted? hq)
            · cases h
          · cases h
            exact Nat.lt_succ_of_le (length_dropWhile_le _ _)

/-- A lexeme takes at least one character. -/
theorem ReaderState.length_step {state next : ReaderState} {text rest : List Char}
    (h : state.step text = .next next rest) : rest.length < text.length := by
  cases state with
  | inTemplate => exact length_stepTemplate h
  | inExpression => exact length_stepExpression h

/-- Reads on from a state; `last` is the source from the last lexeme on. The result is the
outermost template, and the source after its closing backquote. -/
def readParts (state : ReaderState) (last text : List Char) :
    Except ReaderFault (List SourcePart × List Char) :=
  match _h : state.step text with
  | .next next rest => readParts next text rest
  | .done parts rest => .ok (parts, rest)
  | .stuck => if text.isEmpty then .error (.endOfSource last) else .error (.unexpected text)
termination_by text.length
decreasing_by exact ReaderState.length_step (by assumption)

end CssTemplate
