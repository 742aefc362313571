import CssTemplate.Proofs.Text.Identifier
import CssTemplate.Proofs.Text.StringLiteral
import CssTemplate.Source.Reader

/-!
# Strings and templates in the host program

What a character means in the text of a program depends on where it stands. `HostPlace` follows a text
one character at a time and knows whether a place is in code, in a string or in a template; a template
holds code again in its substitutions. A character is hidden in a text where it stands in a string or in
a template only (`Hides`). A string literal hides every character but the quotes around it
(`hides_stringLiteral`), so the rest of a program can be cut or searched without a look into literals.
-/

namespace CssTemplate

/-- The quotes of a string. -/
inductive HostQuote where
  | single
  | double
  deriving DecidableEq, Repr

/-- The character of a quote. -/
def HostQuote.char : HostQuote → Char
  | .single => '\''
  | .double => '"'

/-- What is open around a place in code. -/
inductive HostFrame where
  | braces
  /-- The substitution of a template. -/
  | substitution
  deriving DecidableEq, Repr

/-- A place in the text of a host program, with what is open around the code there, the innermost
first. -/
inductive HostPlace where
  | code (around : List HostFrame)
  | quoted (quote : HostQuote) (around : List HostFrame)
  /-- After a backslash in a string. -/
  | escaped (quote : HostQuote) (around : List HostFrame)
  | template (around : List HostFrame)
  /-- After a backslash in a template. -/
  | templateEscape (around : List HostFrame)
  /-- After a dollar sign in a template. -/
  | templateDollar (around : List HostFrame)
  deriving DecidableEq, Repr

namespace HostPlace

/-- After a closing brace in code. -/
def afterBrace : List HostFrame → HostPlace
  | [] => .code []
  | .braces :: around => .code around
  | .substitution :: around => .template around

/-- After a character of a template that no dollar sign makes an opening. -/
def inTemplate (around : List HostFrame) (c : Char) : HostPlace :=
  if c = backquote then .code around
  else if c = '\\' then .templateEscape around
  else if c = '$' then .templateDollar around
  else .template around

/-- The place after one more character. -/
def step : HostPlace → Char → HostPlace
  | .code around, c =>
    if c = '\'' then .quoted .single around
    else if c = '"' then .quoted .double around
    else if c = backquote then .template around
    else if c = '{' then .code (.braces :: around)
    else if c = '}' then afterBrace around
    else .code around
  | .quoted quote around, c =>
    if c = quote.char then .code around
    else if c = '\\' then .escaped quote around
    else .quoted quote around
  | .escaped quote around, _ => .quoted quote around
  | .template around, c => inTemplate around c
  | .templateEscape around, _ => .template around
  | .templateDollar around, c =>
    if c = '{' then .code (.substitution :: around) else inTemplate around c

/-- The place after a text. -/
def after (place : HostPlace) (text : List Char) : HostPlace :=
  text.foldl step place

/-- Whether a place is in code and not in a template. -/
def isOutside : HostPlace → Bool
  | .code around => around.all (· == .braces)
  | _ => false

/-- The place at the start of a program. -/
def start : HostPlace :=
  .code []

section
variable {place : HostPlace} {around : List HostFrame} {quote : HostQuote} {text : List Char}
  {c : Char}

/-- No text leaves the place as it is. -/
@[simp] theorem after_nil (place : HostPlace) : place.after [] = place :=
  rfl

/-- The place after a text is the place after its rest from the next place. -/
@[simp] theorem after_cons (place : HostPlace) (c : Char) (text : List Char) :
    place.after (c :: text) = (place.step c).after text :=
  rfl

/-- Texts are gone through one after the other. -/
theorem after_append (place : HostPlace) (text more : List Char) :
    place.after (text ++ more) = (place.after text).after more :=
  List.foldl_append

/-! ## Code -/

/-- Most characters leave code as it is. -/
theorem step_code (h : isExpressionText c = true) : (code around).step c = code around := by
  simp only [isExpressionText, Bool.and_eq_true, bne_iff_ne] at h
  obtain ⟨⟨⟨⟨hopen, hclose⟩, hsingle⟩, hdouble⟩, hbackquote⟩ := h
  simp only [step, hopen, hclose, hsingle, hdouble, hbackquote, if_false]

/-- A text without quotes and braces stays in code. -/
theorem after_code (h : ∀ c ∈ text, isExpressionText c = true) :
    (code around).after text = code around := by
  induction text with
  | nil => rfl
  | cons c text ih =>
    rw [after_cons, step_code (h c (.head _))]
    exact ih fun d hd => h d (.tail _ hd)

/-! ## Strings -/

/-- Characters that need no escape leave a string open. -/
theorem after_quoted (h : ∀ c ∈ text, c ≠ quote.char ∧ c ≠ '\\') :
    (quoted quote around).after text = quoted quote around := by
  induction text with
  | nil => rfl
  | cons c text ih =>
    obtain ⟨hquote, hbackslash⟩ := h c (.head _)
    rw [after_cons, step, if_neg hquote, if_neg hbackslash]
    exact ih fun d hd => h d (.tail _ hd)

/-- A string goes on as long as every quote of its kind is escaped. -/
theorem after_quoted_cases
    (h : ∀ front rest, text = front ++ quote.char :: rest →
      (quoted quote around).after front = escaped quote around) :
    (quoted quote around).after text = quoted quote around ∨
      (quoted quote around).after text = escaped quote around := by
  induction text using List.reverseRecOn with
  | nil => exact .inl rfl
  | append_singleton front c ih =>
    have hfront := ih fun front' rest heq => h front' (rest ++ [c]) (by rw [heq]; simp)
    rw [after_append, after_cons, after_nil]
    rcases hfront with hplace | hplace
    · have hquote : c ≠ quote.char := by
        rintro rfl
        cases hplace.symm.trans (h front [] rfl)
      rw [hplace, step, if_neg hquote]
      split
      · exact .inr rfl
      · exact .inl rfl
    · exact .inl (by rw [hplace, step])

/-! ## Literals -/

/-- What is written for a character of a string stays in it. -/
theorem after_literalChar (c : Char) :
    (quoted .double around).after (literalChar c) = quoted .double around := by
  rcases literalChar_cases c with ⟨e, heq, -⟩ | ⟨hcode, heq⟩ | ⟨-, hquote, hbackslash, heq⟩ <;>
    rw [heq]
  · rfl
  · have hdigits : ∀ d ∈ hexLower 4 c.toNat, d ≠ HostQuote.double.char ∧ d ≠ '\\' := by
      intro d hd
      have hdigit := List.all_eq_true.1 (hexLower_control c.toNat hcode).2.1 d hd
      constructor <;> rintro rfl <;> cases hdigit
    show (quoted .double around).after (hexLower 4 c.toNat) = _
    exact after_quoted hdigits
  · exact after_quoted (List.forall_mem_singleton.2 ⟨hquote, hbackslash⟩)

/-- A literal text leaves its string open. -/
theorem after_literal (text : List Char) :
    (quoted .double around).after (text.flatMap literalChar) = quoted .double around := by
  induction text with
  | nil => rfl
  | cons c text ih => rw [List.flatMap_cons, after_append, after_literalChar, ih]

/-- A quote that is written for a character of a string is escaped. -/
theorem escaped_of_literalChar {front rest : List Char} (h : literalChar c = front ++ '"' :: rest) :
    (quoted .double around).after front = escaped .double around := by
  rcases literalChar_cases c with ⟨e, heq, -⟩ | ⟨hcode, heq⟩ | ⟨-, hquote, -, heq⟩ <;> rw [heq] at h
  · cases front with
    | nil => cases (List.cons.inj h).1
    | cons a front =>
      obtain ⟨rfl, htail⟩ := List.cons.inj h
      cases front with
      | nil => rfl
      | cons b front => cases (List.append_eq_nil_iff.1 (List.cons.inj htail).2.symm).2
  · have hmem : '"' ∈ '\\' :: 'u' :: hexLower 4 c.toNat := by
      rw [h]
      exact List.mem_append_right _ (.head _)
    simp only [List.mem_cons, Char.reduceEq, false_or] at hmem
    cases List.all_eq_true.1 (hexLower_control c.toNat hcode).2.1 _ hmem
  · cases front with
    | nil => exact absurd (List.cons.inj h).1 hquote
    | cons a front => cases (List.append_eq_nil_iff.1 (List.cons.inj h).2.symm).2

/-- Every quote in a literal text is escaped. -/
theorem escaped_of_literal {front rest : List Char}
    (h : text.flatMap literalChar = front ++ '"' :: rest) :
    (quoted .double around).after front = escaped .double around := by
  induction text generalizing front with
  | nil => cases (List.append_eq_nil_iff.1 h.symm).2
  | cons c text ih =>
    rw [List.flatMap_cons] at h
    rcases List.append_eq_append_iff.1 h with ⟨middle, rfl, hmore⟩ | ⟨middle, hchar, hmore⟩
    · rw [after_append, after_literalChar]
      exact ih hmore
    · cases middle with
      | nil =>
        rw [List.append_nil] at hchar
        rw [← hchar, after_literalChar]
        exact @ih [] hmore.symm
      | cons d middle =>
        obtain ⟨rfl, -⟩ := List.cons.inj hmore
        exact escaped_of_literalChar hchar

end

end HostPlace

/-! ## Hidden characters -/

/-- From code a text leads back to code, and the character stands in it only inside of strings and
templates. -/
structure Hides (c : Char) (text : List Char) : Prop where
  settled : HostPlace.start.after text = .start
  hidden : ∀ before rest, text = before ++ c :: rest →
    (HostPlace.start.after before).isOutside = false

section
variable {c : Char} {text more : List Char}

/-- Texts that hide a character hide it together. -/
theorem Hides.append (h : Hides c text) (h' : Hides c more) : Hides c (text ++ more) where
  settled := by rw [HostPlace.after_append, h.settled, h'.settled]
  hidden := by
    intro before rest heq
    rcases List.append_eq_append_iff.1 heq with ⟨middle, rfl, hmore⟩ | ⟨middle, htext, hmore⟩
    · rw [HostPlace.after_append, h.settled]
      exact h'.hidden middle rest hmore
    · cases middle with
      | nil =>
        rw [List.append_nil] at htext
        rw [← htext, h.settled]
        exact h'.hidden [] rest hmore.symm
      | cons d middle =>
        obtain ⟨rfl, -⟩ := List.cons.inj hmore
        exact h.hidden before middle htext

/-- A text of code without the character. -/
theorem hides_of_forall (h : ∀ d ∈ text, isExpressionText d = true ∧ d ≠ c) : Hides c text where
  settled := HostPlace.after_code fun d hd => (h d hd).1
  hidden := by
    rintro before rest rfl
    exact absurd rfl (h c (List.mem_append_right _ (.head _))).2

/-- A text without quotes, braces and the character hides it. -/
theorem hides_of_all (h : (text.all fun d => isExpressionText d && d != c) = true) : Hides c text :=
  hides_of_forall fun d hd => by simpa using List.all_eq_true.1 h d hd

/-- Names and paths are code. -/
theorem isExpressionText_of_name {d : Char}
    (h : continuesIdentifier d = true ∨ d = '.' ∨ d = '\n') : isExpressionText d = true := by
  simp only [isExpressionText, Bool.and_eq_true, bne_iff_ne]
  refine ⟨⟨⟨⟨?_, ?_⟩, ?_⟩, ?_⟩, ?_⟩ <;> rintro rfl <;> revert h <;> decide

/-- A name or a path hides every character that cannot stand in it. -/
theorem hides_of_name (hc : ¬(continuesIdentifier c = true ∨ c = '.' ∨ c = '\n'))
    (h : ∀ d ∈ text, continuesIdentifier d = true ∨ d = '.' ∨ d = '\n') : Hides c text := by
  refine hides_of_forall fun d hd => ⟨isExpressionText_of_name (h d hd), ?_⟩
  rintro rfl
  exact hc (h d hd)

/-- A string literal hides everything but its quotes. -/
theorem hides_stringLiteral (hc : c ≠ '"') (text : List Char) : Hides c (stringLiteral text) where
  settled := by
    have hopen : HostPlace.start.step '"' = .quoted .double [] := rfl
    rw [stringLiteral, HostPlace.after_cons, hopen, HostPlace.after_append, HostPlace.after_literal]
    rfl
  hidden := by
    intro before rest h
    cases before with
    | nil => exact absurd (List.cons.inj h).1.symm hc
    | cons quote before =>
      obtain ⟨rfl, hbody⟩ := List.cons.inj h
      -- the character is not the closing quote, so it stands before it
      have hbefore : ∃ middle, text.flatMap literalChar = before ++ middle := by
        rcases List.append_eq_append_iff.1 hbody with ⟨middle, hmiddle, hlast⟩ | ⟨middle, hmiddle, -⟩
        · cases middle with
          | nil => exact ⟨[], by rw [hmiddle, List.append_nil, List.append_nil]⟩
          | cons d middle => cases (List.append_eq_nil_iff.1 (List.cons.inj hlast).2.symm).2
        · exact ⟨middle, hmiddle⟩
      obtain ⟨middle, hmiddle⟩ := hbefore
      have hquotes : ∀ front rest, before = front ++ HostQuote.double.char :: rest →
          (HostPlace.quoted .double []).after front = .escaped .double [] := by
        rintro front rest rfl
        have hliteral : text.flatMap literalChar = front ++ '"' :: (rest ++ middle) := by
          rw [hmiddle, List.append_assoc]
          rfl
        exact HostPlace.escaped_of_literal hliteral
      have hopen : HostPlace.start.step '"' = .quoted .double [] := rfl
      rw [HostPlace.after_cons, hopen]
      rcases HostPlace.after_quoted_cases hquotes with hplace | hplace <;> rw [hplace] <;> rfl

end

end CssTemplate
