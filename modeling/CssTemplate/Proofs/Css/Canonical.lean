import CssTemplate.Proofs.Css.Heads
import CssTemplate.Proofs.Css.Reading
import CssTemplate.Proofs.Css.Spelling

/-!
# Canonical texts

A text is canonical if each of its tokens is written as the printers write it: nothing in it is a
comment, a fault, or an escape that is not needed. Tokens may run together in other ways than they did
before they were written, and still the same text comes out: what matters of a token that starts with
something else than white space, a quote or a bracket is that it is a run of characters and escapes, or
such a run before a bracket (`isWord_readToken`).
-/

namespace CssTemplate.Css

/-! ## Tokens and their texts -/

/-- A token as it is written. -/
def Token.text : Token → List Char
  | .atom a => a.text
  | .opening (.bracket b) => [b.openChar]
  | .opening (.function name) => identifierText name ++ ['(']
  | .closing b => [b.closeChar]

/-- No fault, and none of the comment marks of old style sheets. -/
def Token.isSound : Token → Bool
  | .atom (.fault _) => false
  | .atom (.literal text) => text != ['<', '!', '-', '-'] && text != ['-', '-', '>']
  | _ => true

/-- Whether each token of a text is sound and written as the printers write it. -/
def isCanonical : List Char → Bool
  | [] => true
  | c :: rest =>
    let lexed := readToken c rest
    lexed.1.length == 1 && lexed.1.all Token.isSound &&
      lexed.1.flatMap Token.text ++ lexed.2 == c :: rest && isCanonical lexed.2
termination_by text => text.length
decreasing_by exact Nat.lt_succ_of_le (length_readToken_le c rest)

/-- The first token of a canonical text. -/
theorem isCanonical_cons {c : Char} {rest : List Char} (h : isCanonical (c :: rest) = true) :
    ∃ t after, readToken c rest = ([t], after) ∧ t.isSound = true ∧ t.text ++ after = c :: rest ∧
      isCanonical after = true := by
  rw [isCanonical] at h
  simp only [Bool.and_eq_true, beq_iff_eq] at h
  obtain ⟨⟨⟨hone, hsound⟩, htext⟩, hafter⟩ := h
  obtain ⟨t, ht⟩ := List.length_eq_one_iff.1 hone
  rw [ht] at hsound htext
  exact ⟨t, (readToken c rest).2, Prod.ext ht rfl, by simpa using hsound, by simpa using htext, hafter⟩

/-- What follows a token of a canonical text is canonical. -/
theorem isCanonical_of_readToken {c : Char} {rest after : List Char} {ts : List Token}
    (h : isCanonical (c :: rest) = true) (hread : readToken c rest = (ts, after)) :
    isCanonical after = true := by
  obtain ⟨t, after', hread', -, -, hafter⟩ := isCanonical_cons h
  rw [hread] at hread'
  cases hread'
  exact hafter

/-! ## What tokens are made of -/

/-- The characters that a token other than a string or a URL never runs over. -/
def tokenStops : List Char :=
  [' ', '"', '\\', '(', ')', '[', ']', '{', '}', ';', '!']

/-- The characters that are never written in a URL. -/
def urlStops : List Char :=
  [' ', '"', '\\', '(', ')']

/-- A run of characters that holds none of the stops, except after a backslash and as the end of an
escape with digits. -/
inductive Run (stops : List Char) : List Char → Prop where
  | nil : Run stops []
  | char {c : Char} {rest : List Char} (hc : c ∉ stops) (hrest : Run stops rest) :
    Run stops (c :: rest)
  | escape {c : Char} {rest : List Char} (hc : isHexDigit c = false) (hrest : Run stops rest) :
    Run stops ('\\' :: c :: rest)
  | code {digits rest : List Char} (hdigits : AreHexDigits digits) (hrest : Run stops rest) :
    Run stops ('\\' :: (digits ++ ' ' :: rest))

/-- Runs one after the other are a run. -/
theorem Run.append {stops a b : List Char} (ha : Run stops a) (hb : Run stops b) :
    Run stops (a ++ b) := by
  induction ha with
  | nil => exact hb
  | char hc _ ih => exact .char hc ih
  | escape hc _ ih => exact .escape hc ih
  | code hdigits _ ih =>
    rw [List.cons_append, List.append_assoc, List.cons_append]
    exact .code hdigits ih

/-- A spelling of a name is a run where no name character is a stop. -/
theorem Run.of_spells {stops text name : List Char} (hstops : (stops.all fun c => !isNameChar c) = true)
    (h : Spells false text name) : Run stops text := by
  generalize hshort : false = short at h
  induction h with
  | nil => exact .nil
  | char hc _ ih => exact .char (not_mem_of_refused hstops hc) (ih hshort)
  | escape hc _ _ ih => exact .escape hc (ih hshort)
  | code hdigits _ ih => exact .code ⟨hdigits.ne_nil, hdigits.hex⟩ (ih hshort)
  | lastCode _ => cases hshort

/-- An escape with one digit is a run. -/
theorem Run.digitCode {stops rest : List Char} {d : Char} (hd : isHexDigit d = true)
    (hrest : Run stops rest) : Run stops ('\\' :: d :: ' ' :: rest) := by
  have hdigits : AreHexDigits [d] := ⟨List.cons_ne_nil _ _, List.forall_mem_singleton.2 hd⟩
  exact .code hdigits hrest

/-- What is written for the characters of a URL. -/
theorem Run.url (value : List Char) : Run urlStops (value.flatMap urlCharText) := by
  induction value with
  | nil => exact .nil
  | cons c value ih =>
    rw [List.flatMap_cons]
    refine Run.append ?_ ih
    unfold urlCharText
    split
    · exact .digitCode rfl .nil
    · split
      · next hescaped =>
        refine .of_spells (by decide) (spells_escapeText (c := c) ?_)
        simp only [Bool.or_eq_true, decide_eq_true_eq, or_assoc] at hescaped
        rcases hescaped with rfl | rfl | rfl | rfl | rfl | rfl | rfl | rfl | rfl <;> rfl
      · next hplain =>
        refine .char (fun hmem => hplain ?_) .nil
        simp only [urlStops, List.mem_cons, List.not_mem_nil, or_false] at hmem
        rcases hmem with rfl | rfl | rfl | rfl | rfl <;> rfl

/-- A run of characters inside a token. -/
abbrev TokenRun : List Char → Prop :=
  Run tokenStops

namespace TokenRun

/-- A text without stops is a run. -/
theorem of_forall {text : List Char} (h : ∀ c ∈ text, c ∉ tokenStops) : TokenRun text := by
  induction text with
  | nil => exact .nil
  | cons c text ih =>
    obtain ⟨hc, htext⟩ := List.forall_mem_cons.1 h
    exact .char hc (ih htext)

/-- The text that is written for an identifier is a run. -/
theorem identifierText (name : List Char) : TokenRun (identifierText name) :=
  .of_spells (by decide) (spells_identifierText name)

/-- The text that is written for the characters of a name is a run. -/
theorem nameText (name : List Char) : TokenRun (nameText name) :=
  .of_spells (by decide) (spells_nameText name)

/-- The text that is written for a unit is a run. -/
theorem unitText (unit : List Char) : TokenRun (unitText unit) := by
  unfold Css.unitText
  split
  · have hdigits : AreHexDigits ['6', '5'] := ⟨List.cons_ne_nil _ _, List.all_eq_true.1 rfl⟩
    exact .code hdigits (nameText _)
  · exact identifierText unit

/-- Digits are a run. -/
theorem digits (text : List Char) : TokenRun (digits text) := by
  refine of_forall fun c hc => ?_
  have hdigit : c.isDigit = true := List.all_eq_true.1 List.all_takeWhile c hc
  have hname : isNameChar c = true := by simp [isNameChar, hdigit]
  exact not_mem_of_refused (by decide) hname

/-- A sign is a run. -/
theorem sign (text : List Char) : TokenRun (readSign text).1 := by
  unfold readSign
  split
  · exact .char (by decide) .nil
  · exact .char (by decide) .nil
  · exact .nil

/-- A mantissa is a run. -/
theorem mantissa {text mantissa rest : List Char} (h : readMantissa? text = some (mantissa, rest)) :
    TokenRun mantissa := by
  have hplain : ∀ {whole rest : List Char}, (if (Css.digits text).isEmpty then none
      else some (Css.digits text, afterDigits text)) = some (whole, rest) → TokenRun whole := by
    intro whole rest h
    split at h
    · cases h
    · cases h
      exact digits text
  by_cases hpoint : ∃ after, afterDigits text = '.' :: after
  · obtain ⟨after, hafter⟩ := hpoint
    rw [readMantissa?_of_point hafter] at h
    split at h
    · exact hplain h
    · cases h
      exact (digits text).append (.char (by decide) (digits after))
  · rw [readMantissa?_of_no_point fun hhead => hpoint ?_] at h
    · exact hplain h
    · obtain ⟨after, hafter⟩ := List.head?_eq_some_iff.1 hhead
      exact ⟨after, hafter⟩

/-- An exponent is a run. -/
theorem exponent (text : List Char) : TokenRun (readExponent text).1 := by
  unfold readExponent
  split
  · exact .nil
  · next e rest =>
    simp only
    split
    · next he =>
      split
      · exact .nil
      · have hletter : e ∉ tokenStops := by
          rw [Bool.or_eq_true, beq_iff_eq, beq_iff_eq] at he
          rcases he with rfl | rfl <;> decide
        exact .char hletter ((sign rest).append (digits _))
    · exact .nil

/-- A numeral is a run. -/
theorem numeral {text numeral rest : List Char} (h : readNumber? text = some (numeral, rest)) :
    TokenRun numeral := by
  unfold readNumber? at h
  split at h
  · cases h
  · next hmantissa =>
    cases h
    exact ((sign text).append (mantissa hmantissa)).append (exponent _)

/-- The hexadecimal digits of a number are a run. -/
theorem hexUpper (n : Nat) : TokenRun (hexUpper 1 n) := by
  exact of_forall fun c hc => not_mem_of_refused (by decide) (isHexDigit_of_mem_hexUpper hc)

/-- A Unicode range is written as a run. -/
theorem unicodeRange (first last : Nat) : TokenRun (Atom.text (.unicodeRange first last)) := by
  rw [Atom.text]
  refine .char (by decide) (.char (by decide) ((hexUpper first).append ?_))
  split
  · exact .nil
  · exact .char (by decide) (hexUpper last)

end TokenRun

/-- What is read of a Unicode range is one. -/
theorem exists_unicodeRange (text : List Char) :
    ∃ first last, (readUnicodeRange text).1 = .unicodeRange first last := by
  unfold readUnicodeRange
  simp only
  split
  · exact ⟨_, _, rfl⟩
  · split
    · split
      · exact ⟨_, _, rfl⟩
      · exact ⟨_, _, rfl⟩
    · exact ⟨_, _, rfl⟩

/-- The sorts of tokens that start with something else than white space, a quote or a bracket. -/
inductive Token.IsWord : Token → Prop where
  | run {a : Atom} (hspace : (Component.atom a).isSpace = false) (htext : TokenRun a.text) :
    Token.IsWord (.atom a)
  | function (name : List Char) : Token.IsWord (.opening (.function name))
  | url (value : List Char) : Token.IsWord (.atom (.url value true))

section

variable {c : Char} {rest after : List Char} {t : Token}

/-- An identifier starts a name, a function or a URL. -/
theorem isWord_lexIdent {text : List Char} (h : lexIdent text = ([t], after)) (hsound : t.isSound = true) :
    t.IsWord := by
  by_cases hopen : ∃ more, (readName text).2 = '(' :: more
  · obtain ⟨more, hmore⟩ := hopen
    rw [lexIdent_of_open hmore] at h
    split at h
    · unfold lexUrl at h
      simp only at h
      split at h
      · cases h
        exact .url _
      · cases h
      · cases h
        cases hsound
    · cases h
      exact .function _
  · rw [lexIdent_of_no_open fun hhead => hopen (by
      obtain ⟨more, hmore⟩ := List.head?_eq_some_iff.1 hhead
      exact ⟨more, hmore⟩)] at h
    cases h
    exact .run rfl (TokenRun.identifierText _)

/-- A numeral is read as a run. -/
theorem isWord_lexNumeric {text numeral more : List Char}
    (hnumeral : readNumber? text = some (numeral, more)) (h : lexNumeric numeral more = ([t], after)) :
    t.IsWord := by
  have hrun := TokenRun.numeral hnumeral
  unfold lexNumeric at h
  split at h
  · cases h
    exact .run rfl (hrun.append (TokenRun.unitText _))
  · split at h
    · cases h
      exact .run rfl (hrun.append (.char (by decide) .nil))
    · cases h
      exact .run rfl hrun

/-- An operator is a mark or a run. -/
theorem isWord_lexOperator (hc : c ∉ tokenStops) (h : lexOperator c rest = ([t], after)) :
    t = .atom (.literal [c]) ∨ t.IsWord := by
  unfold lexOperator at h
  split at h
  · cases h
    exact .inr (.run rfl (.char hc (.char (by decide) .nil)))
  · cases h
    exact .inl rfl

/-- Any other character that is no quote and no bracket is a mark or starts a run. -/
theorem isWord_lexSymbol (hc : c ∉ ['"', '\'', '(', ')', '[', ']', '{', '}'])
    (h : lexSymbol c rest = ([t], after)) (hsound : t.isSound = true) :
    t = .atom (.literal [c]) ∨ t.IsWord := by
  unfold lexSymbol at h
  split at h
  · split at h
    · cases h
      exact .inr (.run rfl (.char (by decide) (TokenRun.identifierText _)))
    · cases h
      exact .inl rfl
  · split at h
    · cases h
      refine .inr (.run rfl (.char (by decide) ?_))
      split
      · exact TokenRun.identifierText _
      · exact TokenRun.nameText _
    · cases h
      exact .inl rfl
  · exact absurd (by decide) hc
  · exact absurd (by decide) hc
  · exact absurd (by decide) hc
  · exact absurd (by decide) hc
  · exact absurd (by decide) hc
  · exact absurd (by decide) hc
  · exact absurd (by decide) hc
  · exact absurd (by decide) hc
  · split at h
    · cases h
    · cases h
      exact .inl rfl
  · split at h
    · cases h
      cases hsound
    · cases h
      exact .inl rfl
  · split at h
    · cases h
      exact .inr (.run rfl (.char (by decide) (.char (by decide) .nil)))
    · exact isWord_lexOperator (by decide) h
  · exact isWord_lexOperator (by decide) h
  · exact isWord_lexOperator (by decide) h
  · exact isWord_lexOperator (by decide) h
  · exact isWord_lexOperator (by decide) h
  · cases h
    exact .inl rfl

/-- A token that starts with something else than white space, a quote or a bracket is a mark or a word. -/
theorem isWord_readToken (hspace : isSpace c = false)
    (hc : c ∉ ['"', '\'', '(', ')', '[', ']', '{', '}']) (h : readToken c rest = ([t], after))
    (hsound : t.isSound = true) : t = .atom (.literal [c]) ∨ t.IsWord := by
  rcases readToken_cases c rest with hs | ⟨-, hrange⟩ | ⟨rfl, more, rfl⟩ | hword
  · rw [hspace] at hs
    cases hs
  · obtain ⟨first, last, hatom⟩ := exists_unicodeRange (rest.drop 1)
    rw [readToken_range hspace hrange, hatom] at h
    cases h
    exact .inr (.run rfl (TokenRun.unicodeRange first last))
  · rw [readToken_mark] at h
    cases h
    cases hsound
  · rw [readToken_word hword] at h
    split at h
    · exact .inr (isWord_lexIdent h hsound)
    · split at h
      · next hnumber => exact .inr (isWord_lexNumeric hnumber h)
      · exact isWord_lexSymbol hc h hsound

/-- An escape starts a name. -/
theorem isWord_readToken_escape (hescape : startsEscape ('\\' :: rest) = true)
    (h : readToken '\\' rest = ([t], after)) (hsound : t.isSound = true) : t.IsWord := by
  have hword : StartsWord '\\' rest :=
    ⟨rfl, startsUnicodeRange_of_ne (by decide) (by decide), fun _ h => absurd h (by decide)⟩
  have hstarts : startsIdent ('\\' :: rest) = true := by
    rw [startsIdent_cons, if_neg (by decide), hescape, Bool.or_true]
  rw [readToken_word hword, if_pos hstarts] at h
  exact isWord_lexIdent h hsound

end

end CssTemplate.Css
