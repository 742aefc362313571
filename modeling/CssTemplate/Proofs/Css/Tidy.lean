import CssTemplate.Css.Minified
import Mathlib

/-!
# Tidy texts

A tidy text is made of ordinary characters, escapes, closed strings and closed groups, with single
spaces between them and none at its ends. These are the texts that minifying leaves alone. An escape with
digits has a space at its end, so something must follow it: at the end of a text the space is trimmed. The
place of a text bars a few characters outside of its groups: those that would end it, or make something
else of it, where it stands.

Components with tidy texts have a tidy minified text, also with a tidy text in the place of the nesting
selector (`tidy_minifiedText`).
-/

namespace CssTemplate.Css

/-! ## Characters -/

/-- Where a text stands. -/
inductive Site where
  /-- Inside a group. -/
  | group
  | selectors
  /-- After the keyword of an at-rule. -/
  | prelude
  | value
  deriving DecidableEq, Repr

/-- The characters that may not stand in a place: an at-sign starts an at-rule, a semicolon ends an
at-rule or a declaration, an exclamation mark starts the mark of a declaration. -/
def Site.bars : Site → Char → Bool
  | .group, _ => false
  | .selectors, c => c == '@'
  | .prelude, c => c == ';'
  | .value, c => c == ';' || c == '!'

/-- A character that is no blank, quote, bracket or backslash. -/
def isOrdinary (c : Char) : Bool :=
  !isBlank c && decide (c ∉ ['\x00', '"', '\'', '\\', '(', ')', '[', ']', '{', '}'])

/-- A character that a backslash before it makes part of a name, without any digits. -/
def isEscapable (c : Char) : Bool :=
  !isBlank c && c != '\x00' && !isHexDigit c

/-- Hexadecimal digits, one at least. -/
structure AreHexDigits (digits : List Char) : Prop where
  filled : digits ≠ []
  hex : ∀ d ∈ digits, isHexDigit d = true

/-- What it takes to be an ordinary character. -/
theorem isOrdinary_iff {c : Char} :
    isOrdinary c = true ↔
      isBlank c = false ∧ c ∉ ['\x00', '"', '\'', '\\', '(', ')', '[', ']', '{', '}'] := by
  rw [isOrdinary, Bool.and_eq_true, Bool.not_eq_true', decide_eq_true_iff]

/-- A character that a test accepts is none of those that it refuses. -/
theorem not_mem_of_refused {refused : List Char} {test : Char → Bool}
    (h : (refused.all fun c => !test c) = true) {c : Char} (hc : test c = true) : c ∉ refused := by
  intro hmem
  have hnot := List.all_eq_true.1 h c hmem
  rw [hc] at hnot
  cases hnot

/-! ## Strings -/

/-- The characters of a string that are written as escapes. -/
def stringEscapes : List Char :=
  ['"', '\\', '\n', '\r', '\x0c']

/-- A character that a string cannot hold is escaped. -/
theorem stringCharText_of_mem {c : Char} (h : c ∈ stringEscapes) : stringCharText c = escapeText c :=
  if_pos (by simpa [stringEscapes, or_assoc] using h)

/-- Any other character of a string is written as it is. -/
theorem stringCharText_of_not_mem {c : Char} (h : c ∉ stringEscapes) : stringCharText c = [c] :=
  if_neg (by simpa [stringEscapes, or_assoc] using h)

/-- No line end is left in a written string. -/
theorem not_mem_changed_stringCharText {d : Char} (hnull : d ≠ '\x00') :
    ∀ c ∈ stringCharText d, c ∉ ['\r', '\x0c', '\x00'] := by
  by_cases hescape : d ∈ stringEscapes
  · have hall : (stringEscapes.all fun d => (escapeText d).all
        fun c => decide (c ∉ ['\r', '\x0c', '\x00'])) = true := by decide
    intro c hc
    rw [stringCharText_of_mem hescape] at hc
    exact of_decide_eq_true (List.all_eq_true.1 (List.all_eq_true.1 hall d hescape) c hc)
  · rw [stringCharText_of_not_mem hescape]
    simp only [stringEscapes, List.mem_cons, List.not_mem_nil, or_false, not_or] at hescape
    simpa using ⟨hescape.2.2.2.1, hescape.2.2.2.2, hnull⟩

/-! ## Texts -/

/-- A tidy text in a place. The flag says that no space may come first, because the text starts here or
a space stands before it. -/
inductive Tidy : Site → Bool → List Char → Prop where
  | nil {p : Site} {start : Bool} : Tidy p start []
  | char {p : Site} {start : Bool} {c : Char} {rest : List Char} (hc : isOrdinary c = true)
    (hbar : p.bars c = false) (hrest : Tidy p false rest) : Tidy p start (c :: rest)
  | escape {p : Site} {start : Bool} {c : Char} {rest : List Char} (hc : isEscapable c = true)
    (hrest : Tidy p false rest) : Tidy p start ('\\' :: c :: rest)
  | code {p : Site} {start : Bool} {digits rest : List Char} (hdigits : AreHexDigits digits)
    (hfilled : rest ≠ []) (hrest : Tidy p false rest) : Tidy p start ('\\' :: (digits ++ ' ' :: rest))
  | space {p : Site} {rest : List Char} (hfilled : rest ≠ []) (hrest : Tidy p true rest) :
    Tidy p false (' ' :: rest)
  | string {p : Site} {start : Bool} {value rest : List Char} (hvalue : '\x00' ∉ value)
    (hrest : Tidy p false rest) : Tidy p start (stringText value true ++ rest)
  | group {p : Site} {start : Bool} {b : Bracket} {content rest : List Char} (hb : b ≠ .curly)
    (hcontent : Tidy .group true content) (hrest : Tidy p false rest) :
    Tidy p start (b.openChar :: (content ++ b.closeChar :: rest))

namespace Tidy

variable {p : Site} {start : Bool} {text rest : List Char}

/-- A text without a space at its start is tidy in the middle too. -/
theorem inside (h : Tidy p start text) : Tidy p false text := by
  cases h with
  | nil => exact .nil
  | char hc hbar hrest => exact .char hc hbar hrest
  | escape hc hrest => exact .escape hc hrest
  | code hdigits hfilled hrest => exact .code hdigits hfilled hrest
  | space hfilled hrest => exact .space hfilled hrest
  | string hvalue hrest => exact .string hvalue hrest
  | group hb hcontent hrest => exact .group hb hcontent hrest

/-- A tidy text is tidy inside a group. -/
theorem grouped (h : Tidy p start text) : Tidy .group start text := by
  induction h with
  | nil => exact .nil
  | char hc _ _ ih => exact .char hc rfl ih
  | escape hc _ ih => exact .escape hc ih
  | code hdigits hfilled _ ih => exact .code hdigits hfilled ih
  | space hfilled _ ih => exact .space hfilled ih
  | string hvalue _ ih => exact .string hvalue ih
  | group hb hcontent _ _ ih => exact .group hb hcontent ih

/-- Tidy texts one after the other are tidy. -/
theorem append (h : Tidy p start text) (hrest : Tidy p false rest)
    (hempty : text = [] → Tidy p start rest) : Tidy p start (text ++ rest) := by
  induction h with
  | nil => exact hempty rfl
  | char hc hbar _ ih => exact .char hc hbar (ih hrest fun _ => hrest)
  | escape hc _ ih => exact .escape hc (ih hrest fun _ => hrest)
  | code hdigits hfilled _ ih =>
    rw [List.cons_append, List.append_assoc, List.cons_append]
    exact .code hdigits (List.append_ne_nil_of_left_ne_nil hfilled _)
      (ih hrest fun h => absurd h hfilled)
  | space hfilled _ ih =>
    exact .space (by simp [hfilled]) (ih hrest fun h => absurd h hfilled)
  | string hvalue _ ih =>
    rw [List.append_assoc]
    exact .string hvalue (ih hrest fun _ => hrest)
  | group hb hcontent _ _ ih =>
    rw [List.cons_append, List.append_assoc, List.cons_append]
    exact .group hb hcontent (ih hrest fun _ => hrest)

/-- What follows some tidy text may start with a space. -/
theorem append_of_ne_nil (h : Tidy p start text) (hfilled : text ≠ []) (hrest : Tidy p false rest) :
    Tidy p start (text ++ rest) :=
  h.append hrest fun hempty => absurd hempty hfilled

/-- A character that starts nothing else is ordinary. -/
theorem of_cons {c : Char} (h : Tidy p start (c :: rest)) (hc : c ∉ [' ', '"', '\\', '(', '[']) :
    isOrdinary c = true ∧ p.bars c = false ∧ Tidy p false rest := by
  generalize htext : c :: rest = text at h
  cases h with
  | nil => cases htext
  | char hordinary hbar hrest =>
    cases htext
    exact ⟨hordinary, hbar, hrest⟩
  | escape _ _ =>
    cases htext
    exact absurd (by decide) hc
  | code _ _ _ =>
    cases htext
    exact absurd (by decide) hc
  | space _ _ =>
    cases htext
    exact absurd (by decide) hc
  | string _ _ =>
    cases htext
    exact absurd (by decide) hc
  | @group _ _ b _ _ hb _ _ =>
    cases htext
    exact absurd (by cases b <;> first | exact absurd rfl hb | decide) hc

/-- A backslash escapes a character, or hexadecimal digits up to a space. -/
theorem of_backslash (h : Tidy p start ('\\' :: rest)) :
    (∃ c more, rest = c :: more ∧ isEscapable c = true ∧ Tidy p false more) ∨
      ∃ digits more, rest = digits ++ ' ' :: more ∧ AreHexDigits digits ∧ Tidy p false more := by
  generalize htext : '\\' :: rest = text at h
  cases h with
  | nil => cases htext
  | char hordinary _ _ =>
    cases htext
    cases hordinary
  | escape hc hrest =>
    cases htext
    exact .inl ⟨_, _, rfl, hc, hrest⟩
  | code hdigits _ hrest =>
    cases htext
    exact .inr ⟨_, _, rfl, hdigits, hrest⟩
  | space _ _ => cases htext
  | string _ _ => cases htext
  | @group _ _ b _ _ _ _ _ => cases b <;> cases htext

/-- An opening bracket has a closing one. -/
theorem of_open (h : Tidy p start ('(' :: rest)) :
    ∃ content more, rest = content ++ ')' :: more ∧ Tidy .group true content ∧ Tidy p false more := by
  generalize htext : '(' :: rest = text at h
  cases h with
  | nil => cases htext
  | char hordinary _ _ =>
    cases htext
    cases hordinary
  | escape _ _ => cases htext
  | code _ _ _ => cases htext
  | space _ _ => cases htext
  | string _ _ => cases htext
  | @group _ _ b content more hb hcontent hrest =>
    cases b with
    | round =>
      cases htext
      exact ⟨content, more, rfl, hcontent, hrest⟩
    | square => cases htext
    | curly => exact absurd rfl hb

/-- A tidy text does not start with a blank. -/
theorem isBlank_head (h : Tidy p true text) : ∀ c ∈ text.head?, isBlank c = false := by
  cases h with
  | nil => simp
  | char hc _ _ => simpa using (isOrdinary_iff.1 hc).1
  | escape _ _ => simp [isBlank]
  | code _ _ _ => simp [isBlank]
  | string _ _ => simp [stringText, isBlank]
  | @group _ _ b _ _ _ _ _ => cases b <;> simp [Bracket.openChar, isBlank]

/-- A tidy text does not end in a blank. -/
theorem isBlank_getLast (h : Tidy p start text) : ∀ c ∈ text.getLast?, isBlank c = false := by
  induction h with
  | nil => simp
  | @char p start c rest hc hbar _ ih =>
    cases rest with
    | nil => simpa using (isOrdinary_iff.1 hc).1
    | cons d rest => simpa [List.getLast?_cons_cons] using ih
  | @escape p start c rest hc _ ih =>
    cases rest with
    | nil =>
      have hblank : isBlank c = false := by simp [isEscapable] at hc; exact hc.1.1
      simpa using hblank
    | cons d rest => simpa [List.getLast?_cons_cons] using ih
  | @code p start digits rest _ hfilled _ ih =>
    cases rest with
    | nil => exact absurd rfl hfilled
    | cons d rest =>
      rw [← List.cons_append, List.getLast?_append]
      simpa [List.getLast?_cons_cons] using ih
  | @space p rest hfilled _ ih =>
    cases rest with
    | nil => exact absurd rfl hfilled
    | cons d rest => simpa [List.getLast?_cons_cons] using ih
  | @string p start value rest _ _ ih =>
    cases rest with
    | nil =>
      rw [List.append_nil, stringText, if_pos rfl, ← List.cons_append, List.getLast?_concat]
      simp [isBlank]
    | cons d rest => simpa [List.getLast?_append] using ih
  | @group p start b content rest _ _ _ _ ih =>
    cases rest with
    | nil =>
      rw [← List.cons_append, List.getLast?_concat]
      cases b <;> simp [Bracket.closeChar, isBlank]
    | cons d rest =>
      rw [← List.cons_append, List.getLast?_append]
      simpa [List.getLast?_cons_cons] using ih

/-- No character of a tidy text changes when line ends are normalized. -/
theorem not_mem_changed (h : Tidy p start text) : ∀ c ∈ text, c ∉ ['\r', '\x0c', '\x00'] := by
  have hvisible : ∀ {c : Char}, isBlank c = false → c ≠ '\x00' → c ∉ ['\r', '\x0c', '\x00'] := by
    rintro c hblank hnull hc
    rcases List.mem_cons.1 hc with rfl | hc
    · cases hblank
    · rcases List.mem_cons.1 hc with rfl | hc
      · cases hblank
      · exact hnull (List.mem_singleton.1 hc)
  induction h with
  | nil => exact List.forall_mem_nil _
  | char hc _ _ ih =>
    obtain ⟨hblank, hspecial⟩ := isOrdinary_iff.1 hc
    exact List.forall_mem_cons.2 ⟨hvisible hblank fun h => hspecial (h ▸ .head _), ih⟩
  | escape hc _ ih =>
    simp only [isEscapable, Bool.and_eq_true, Bool.not_eq_true', bne_iff_ne] at hc
    exact List.forall_mem_cons.2 ⟨by decide, List.forall_mem_cons.2 ⟨hvisible hc.1.1 hc.1.2, ih⟩⟩
  | code hdigits _ _ ih =>
    exact List.forall_mem_cons.2 ⟨by decide, List.forall_mem_append.2
      ⟨fun d hd => not_mem_of_refused (by decide) (hdigits.hex d hd),
        List.forall_mem_cons.2 ⟨by decide, ih⟩⟩⟩
  | space _ _ ih => exact List.forall_mem_cons.2 ⟨by decide, ih⟩
  | @string _ _ value _ hvalue _ ih =>
    refine List.forall_mem_append.2 ⟨List.forall_mem_cons.2 ⟨by decide, ?_⟩, ih⟩
    refine List.forall_mem_append.2 ⟨fun c hc => ?_, List.forall_mem_singleton.2 (by decide)⟩
    obtain ⟨d, hd, hc⟩ := List.mem_flatMap.1 hc
    exact not_mem_changed_stringCharText (fun h => hvalue (h ▸ hd)) c hc
  | @group _ _ b _ _ _ _ _ ihcontent ih =>
    refine List.forall_mem_cons.2 ⟨by cases b <;> decide, ?_⟩
    exact List.forall_mem_append.2 ⟨ihcontent, List.forall_mem_cons.2 ⟨by cases b <;> decide, ih⟩⟩

end Tidy

/-! ## Trimming -/

/-- Trimming the end goes on from the rest to the first character only if nothing is left of the rest. -/
theorem trimEnd_cons (drop : Char → Bool) (c : Char) (text : List Char) :
    trimEnd drop (c :: text) =
      if trimEnd drop text = [] then if drop c then [] else [c] else c :: trimEnd drop text := by
  simp only [trimEnd, List.reverse_cons, List.dropWhile_append, List.isEmpty_iff,
    List.reverse_eq_nil_iff]
  split
  · cases hc : drop c <;> simp [hc]
  · simp

/-- Something is left of a text that starts with a character that stays. -/
theorem trimEnd_cons_ne_nil {drop : Char → Bool} {c : Char} (hc : drop c = false) (text : List Char) :
    trimEnd drop (c :: text) ≠ [] := by
  rw [trimEnd_cons, hc]
  split
  · exact List.cons_ne_nil _ _
  · exact List.cons_ne_nil _ _

/-- Trimming the end of two texts trims the second one, and the first one only if nothing is left of
it. -/
theorem trimEnd_append_eq (drop : Char → Bool) (a b : List Char) :
    trimEnd drop (a ++ b) = if trimEnd drop b = [] then trimEnd drop a else a ++ trimEnd drop b := by
  simp only [trimEnd, List.reverse_append, List.dropWhile_append, List.isEmpty_iff,
    List.reverse_eq_nil_iff]
  split
  · rfl
  · rw [List.reverse_append, List.reverse_reverse]

/-- What follows a character that stays is trimmed by itself. -/
theorem trimEnd_append_of_last {drop : Char → Bool} {text : List Char} (hfilled : text ≠ [])
    (hlast : ∀ c ∈ text.getLast?, drop c = false) (rest : List Char) :
    trimEnd drop (text ++ rest) = text ++ trimEnd drop rest := by
  induction text with
  | nil => exact absurd rfl hfilled
  | cons c text ih =>
    rw [List.cons_append, trimEnd_cons]
    cases text with
    | nil =>
      have hc : drop c = false := hlast c (by simp)
      by_cases hrest : trimEnd drop rest = []
      · simp [hrest, hc]
      · simp [hrest]
    | cons d text =>
      have ih := ih (by simp) (by simpa [List.getLast?_cons_cons] using hlast)
      rw [ih, if_neg (by simp)]
      rfl

/-- The two ends of a text may be trimmed in any order. -/
theorem dropWhile_trimEnd (drop : Char → Bool) (text : List Char) :
    (trimEnd drop text).dropWhile drop = trimEnd drop (text.dropWhile drop) := by
  induction text with
  | nil => rfl
  | cons c text ih =>
    rw [trimEnd_cons]
    cases hc : drop c with
    | true =>
      rw [List.dropWhile_cons_of_pos hc, ← ih]
      by_cases hempty : trimEnd drop text = []
      · simp [hempty]
      · simp [hempty, hc]
    | false =>
      rw [List.dropWhile_cons_of_neg (by simp [hc]), trimEnd_cons]
      by_cases hempty : trimEnd drop text = []
      · simp [hempty, hc]
      · simp [hempty, hc]

/-- Trimming the end leaves a tidy text alone. -/
theorem Tidy.trimEnd {p : Site} {start : Bool} {text : List Char} (h : Tidy p start text) :
    trimEnd isBlank text = text := by
  by_cases hfilled : text = []
  · rw [hfilled]
    rfl
  · simpa [CssTemplate.trimEnd] using trimEnd_append_of_last hfilled h.isBlank_getLast []

/-- Trimming the front leaves a tidy text alone. -/
theorem Tidy.dropWhile {p : Site} {text : List Char} (h : Tidy p true text) :
    text.dropWhile isBlank = text := by
  have hhead := h.isBlank_head
  cases text with
  | nil => rfl
  | cons c text => rw [List.dropWhile_cons_of_neg (by simpa using hhead c (by simp))]

/-- Trimming leaves a tidy text alone. -/
theorem Tidy.trim {p : Site} {text : List Char} (h : Tidy p true text) : trim text = text := by
  rw [CssTemplate.trim, trimBy, h.dropWhile, h.trimEnd]

/-! ## Components -/

mutual

/-- A row of ordinary characters that a place does not bar, and escapes. -/
def isTidyRow (p : Site) : List Char → Bool
  | [] => true
  | '\\' :: c :: rest =>
    if isHexDigit c then isTidyCode p rest else isEscapable c && isTidyRow p rest
  | c :: rest => isOrdinary c && !p.bars c && isTidyRow p rest

/-- The digits of an escape that go on, up to its space, and a row after them. -/
def isTidyCode (p : Site) : List Char → Bool
  | [] => false
  | c :: rest => if c == ' ' then isTidyRow p rest else isHexDigit c && isTidyCode p rest

end

/-- Whether an atom has a tidy text. White space has none of its own. -/
def Atom.isTidy (p : Site) : Atom → Bool
  | .space _ => true
  | .string value closed => closed && decide ('\x00' ∉ value)
  | .url value closed =>
    closed && isTidyRow .group (value.flatMap urlCharText) &&
      (value.flatMap urlCharText).getLast? != some ' '
  | a => !a.text.isEmpty && isTidyRow p a.text

/-- Whether the text of a component ends in the space of an escape. -/
def Component.endsInCode : Component → Bool
  | .atom a => a.text.getLast? == some ' '
  | .group _ _ => false

mutual

/-- Whether a component has a tidy text. -/
def Component.isTidy (p : Site) : Component → Bool
  | .atom a => a.isTidy p
  | .group (.bracket .round) content => areTidy .group content
  | .group (.bracket .square) content => areTidy .group content
  | .group (.bracket .curly) _ => false
  | .group (.function name) arguments =>
    isTidyRow p (identifierText name) && areTidy .group arguments

/-- Whether all components of a list have tidy texts, and an escape with a space at its end is followed by
something else than white space. -/
def areTidy (p : Site) : List Component → Bool
  | [] => true
  | c :: cs =>
    c.isTidy p && (c.isSpace || !c.endsInCode || cs.any fun d => !d.isSpace) && areTidy p cs

end

/-! ## Rows -/

/-- The digits of an escape that go on, taken apart. -/
theorem exists_of_isTidyCode {p : Site} {row : List Char} (h : isTidyCode p row = true) :
    ∃ digits more, row = digits ++ ' ' :: more ∧ (∀ d ∈ digits, isHexDigit d = true) ∧
      isTidyRow p more = true := by
  induction row with
  | nil =>
    rw [isTidyCode] at h
    cases h
  | cons c row ih =>
    rw [isTidyCode] at h
    split at h
    · next hc => exact ⟨[], row, by rw [beq_iff_eq.1 hc]; rfl, List.forall_mem_nil _, h⟩
    · rw [Bool.and_eq_true] at h
      obtain ⟨digits, more, rfl, hdigits, hmore⟩ := ih h.2
      exact ⟨c :: digits, more, rfl, List.forall_mem_cons.2 ⟨h.1, hdigits⟩, hmore⟩

/-- The first piece of a row: an escape, an escape with digits, or an ordinary character. -/
theorem of_isTidyRow_cons {p : Site} {c : Char} {row : List Char} (h : isTidyRow p (c :: row) = true) :
    (c = '\\' ∧ ∃ d more, row = d :: more ∧ isEscapable d = true ∧ isTidyRow p more = true) ∨
      (c = '\\' ∧ ∃ digits more, row = digits ++ ' ' :: more ∧ AreHexDigits digits ∧
        isTidyRow p more = true) ∨
      isOrdinary c = true ∧ p.bars c = false ∧ isTidyRow p row = true := by
  unfold isTidyRow at h
  split at h
  · next heq => cases heq
  · next d more heq =>
    obtain ⟨rfl, rfl⟩ := List.cons.inj heq
    split at h
    · next hd =>
      obtain ⟨digits, more, rfl, hdigits, hmore⟩ := exists_of_isTidyCode h
      exact .inr (.inl ⟨rfl, d :: digits, more, rfl,
        ⟨List.cons_ne_nil _ _, List.forall_mem_cons.2 ⟨hd, hdigits⟩⟩, hmore⟩)
    · rw [Bool.and_eq_true] at h
      exact .inl ⟨rfl, d, more, rfl, h.1, h.2⟩
  · next heq =>
    obtain ⟨rfl, rfl⟩ := List.cons.inj heq
    simp only [Bool.and_eq_true, Bool.not_eq_true'] at h
    exact .inr (.inr ⟨h.1.1, h.1.2, h.2⟩)

/-- A row does not start with a blank. -/
theorem isBlank_head_of_row {p : Site} {row : List Char} (h : isTidyRow p row = true) :
    ∀ c ∈ row.head?, isBlank c = false := by
  cases row with
  | nil => simp
  | cons c row =>
    rintro d ⟨⟩
    rcases of_isTidyRow_cons h with ⟨rfl, -⟩ | ⟨rfl, -⟩ | ⟨hc, -⟩
    · rfl
    · rfl
    · exact (isOrdinary_iff.1 hc).1

/-- A row in front of a tidy text is tidy, unless it ends in an escape with digits and nothing follows. -/
theorem tidy_of_row {p : Site} {start : Bool} {row rest : List Char} (h : isTidyRow p row = true)
    (hrest : Tidy p false rest) (hempty : row = [] → Tidy p start rest)
    (hcode : ∀ front, row = front ++ [' '] → rest ≠ []) : Tidy p start (row ++ rest) := by
  induction hlength : row.length using Nat.strong_induction_on generalizing row start with
  | _ n ih =>
    cases row with
    | nil => exact hempty rfl
    | cons c row =>
      rcases of_isTidyRow_cons h with ⟨rfl, d, more, rfl, hd, hmore⟩ |
        ⟨rfl, digits, more, rfl, hdigits, hmore⟩ | ⟨hc, hbar, hrow⟩
      · refine .escape hd (ih more.length ?_ hmore (fun _ => hrest) (fun front heq => ?_) rfl)
        · simp only [List.length_cons] at hlength
          omega
        · exact hcode ('\\' :: d :: front) (by rw [heq]; rfl)
      · rw [List.cons_append, List.append_assoc, List.cons_append]
        refine .code hdigits (fun hnil => ?_)
          (ih more.length ?_ hmore (fun _ => hrest) (fun front heq => ?_) rfl)
        · obtain ⟨rfl, hnil⟩ := List.append_eq_nil_iff.1 hnil
          exact hcode ('\\' :: digits) rfl hnil
        · simp only [List.length_cons, List.length_append] at hlength
          omega
        · exact hcode ('\\' :: (digits ++ ' ' :: front)) (by rw [heq]; simp)
      · refine .char hc hbar (ih row.length ?_ hrow (fun _ => hrest) (fun front heq => ?_) rfl)
        · simp only [List.length_cons] at hlength
          omega
        · exact hcode (c :: front) (by rw [heq]; rfl)

/-- An atom with a tidy text does not start with a blank. -/
theorem Atom.exists_head {p : Site} {a : Atom} (h : a.isTidy p = true)
    (hspace : (Component.atom a).isSpace = false) : ∃ c more, a.text = c :: more ∧ isBlank c = false := by
  have hrow : ∀ text : List Char, (!text.isEmpty && isTidyRow p text) = true →
      ∃ c more, text = c :: more ∧ isBlank c = false := by
    intro text h
    rw [Bool.and_eq_true, Bool.not_eq_true', List.isEmpty_eq_false_iff] at h
    obtain ⟨c, more, rfl⟩ := List.exists_cons_of_ne_nil h.1
    exact ⟨c, more, rfl, isBlank_head_of_row h.2 c rfl⟩
  cases a with
  | space text => cases hspace
  | string value closed => exact ⟨_, _, rfl, rfl⟩
  | url value closed => exact ⟨_, _, rfl, rfl⟩
  | _ => exact hrow _ h

/-- An atom in front of a tidy text is tidy, unless it ends in an escape with digits and nothing
follows. -/
theorem Atom.tidy_append {p : Site} {a : Atom} (h : a.isTidy p = true)
    (hspace : (Component.atom a).isSpace = false) {rest : List Char} (hrest : Tidy p false rest)
    (hcode : (Component.atom a).endsInCode = true → rest ≠ []) : Tidy p true (a.text ++ rest) := by
  have hrow : ∀ {text : List Char}, text = a.text → (!text.isEmpty && isTidyRow p text) = true →
      Tidy p true (text ++ rest) := by
    rintro text htext h
    rw [Bool.and_eq_true, Bool.not_eq_true', List.isEmpty_eq_false_iff] at h
    refine tidy_of_row h.2 hrest (fun hempty => absurd hempty h.1) fun front heq => hcode ?_
    rw [Component.endsInCode, ← htext, heq, List.getLast?_concat]
    rfl
  cases a with
  | space text => cases hspace
  | string value closed =>
    rw [Atom.isTidy, Bool.and_eq_true, decide_eq_true_iff] at h
    obtain ⟨rfl, hvalue⟩ := h
    exact .string hvalue hrest
  | url value closed =>
    rw [Atom.isTidy, Bool.and_eq_true, Bool.and_eq_true, bne_iff_ne] at h
    obtain ⟨⟨rfl, hvalue⟩, hlast⟩ := h
    have hcontent : Tidy .group true (value.flatMap urlCharText ++ []) :=
      tidy_of_row hvalue .nil (fun _ => .nil) fun front heq =>
        absurd (by rw [heq, List.getLast?_concat]) hlast
    rw [List.append_nil] at hcontent
    have hgroup : Tidy p false ('(' :: (value.flatMap urlCharText ++ ')' :: rest)) :=
      .group (b := .round) (by decide) hcontent hrest
    have hchar : ∀ {c : Char} {rest : List Char}, c ∈ ['u', 'r', 'l'] → Tidy p false rest →
        Tidy p false (c :: rest) := by
      intro c rest hc hrest
      refine .char ?_ ?_ hrest
      · fin_cases hc <;> decide
      · fin_cases hc <;> cases p <;> decide
    have htext : Atom.text (.url value true) ++ rest =
        'u' :: 'r' :: 'l' :: '(' :: (value.flatMap urlCharText ++ ')' :: rest) := by
      simp [Atom.text, urlText]
    rw [htext]
    exact .char (by decide) (by cases p <;> decide) (hchar (by decide) (hchar (by decide) hgroup))
  | _ => exact hrow rfl h

section

variable {p : Site} {start : Bool} {outer : Option (List Char)}

/-- A text that is tidy at the start of a text is tidy in the middle. -/
theorem Tidy.anywhere {text : List Char} (h : Tidy p true text) : Tidy p start text := by
  cases start with
  | true => exact h
  | false => exact h.inside

/-- What takes the place of the nesting selector: a tidy text, and not nothing. -/
def FillsIn (p : Site) (outer : Option (List Char)) : Prop :=
  ∀ text, outer = some text → Tidy p true text ∧ text ≠ []

/-- Nothing takes the place of the nesting selector where there is none. -/
theorem fillsIn_none : FillsIn p none := by
  intro text h
  cases h

/-- What takes the place of the nesting selector may do so inside of a group. -/
theorem FillsIn.grouped (h : FillsIn p outer) : FillsIn .group outer :=
  fun text htext => ⟨(h text htext).1.grouped, (h text htext).2⟩

/-- With a tidy text in its place, the nesting selector is no space. -/
theorem FillsIn.ne_space (h : FillsIn p outer) : outer ≠ some [' '] := by
  intro hspace
  obtain ⟨htidy, -⟩ := h _ hspace
  cases htidy.isBlank_head ' ' rfl

/-- With a tidy text in its place, the nesting selector keeps the white space after it. -/
theorem FillsIn.keeps_space (h : FillsIn p outer) (c : Component) :
    (c.isNestingSelector && outer == some [' ']) = false := by
  rw [beq_eq_false_iff_ne.2 h.ne_space, Bool.and_false]

/-- A text that is tidy once its end has been trimmed needs no trimming at its front. -/
theorem tidy_trim {text : List Char} (h : Tidy p true (trimEnd isBlank text)) :
    trim text = trimEnd isBlank text := by
  rw [trim, trimBy, ← dropWhile_trimEnd, h.dropWhile]

/-- A component with a tidy text does not start with a blank, whatever the nesting selector is. -/
theorem Component.exists_head (houter : FillsIn p outer) {c : Component} (h : c.isTidy p = true)
    (hspace : c.isSpace = false) : ∃ d more, c.minifiedText outer = d :: more ∧ isBlank d = false := by
  cases c with
  | atom a =>
    rw [Component.isTidy] at h
    have htext := Atom.exists_head h hspace
    cases a with
    | literal text =>
      rw [Component.minifiedText]
      split
      · cases outer with
        | none => exact htext
        | some replacement =>
          obtain ⟨htidy, hfilled⟩ := houter replacement rfl
          obtain ⟨d, more, rfl⟩ := List.exists_cons_of_ne_nil hfilled
          exact ⟨d, more, rfl, htidy.isBlank_head d rfl⟩
      · exact htext
    | _ => exact htext
  | group o content =>
    cases o with
    | bracket b =>
      cases b with
      | round => exact ⟨_, _, rfl, rfl⟩
      | square => exact ⟨_, _, rfl, rfl⟩
      | curly =>
        rw [Component.isTidy] at h
        cases h
    | function name =>
      rw [Component.isTidy, Bool.and_eq_true] at h
      have hhead := isBlank_head_of_row h.1
      rw [Component.minifiedText]
      cases hname : identifierText name with
      | nil => exact ⟨_, _, rfl, rfl⟩
      | cons d more => exact ⟨d, _, rfl, hhead d (by rw [hname]; rfl)⟩

/-- Something is left of components with tidy texts that are not all white space. -/
theorem trimEnd_minifiedParts_ne_nil (houter : FillsIn p outer) {cs : List Component}
    (h : areTidy p cs = true) (hfilled : (cs.any fun d => !d.isSpace) = true) :
    trimEnd isBlank (minifiedParts outer start cs) ≠ [] := by
  induction cs generalizing start with
  | nil => cases hfilled
  | cons c cs ih =>
    simp only [areTidy, Bool.and_eq_true] at h
    rw [minifiedParts]
    split
    · next hspace =>
      have ih : trimEnd isBlank (minifiedParts outer true cs) ≠ [] :=
        ih h.2 (by simpa [hspace] using hfilled)
      split
      · exact ih
      · rw [trimEnd_cons, if_neg ih]
        exact List.cons_ne_nil _ _
    · next hspace =>
      obtain ⟨d, more, htext, hd⟩ := Component.exists_head houter h.1.1 (by simpa using hspace)
      rw [htext, List.cons_append]
      exact trimEnd_cons_ne_nil hd _

mutual

/-- The minified text of a component in front of a tidy text is tidy, unless it ends in an escape with
digits and nothing follows. -/
theorem Component.tidy_minifiedText {p : Site} {outer : Option (List Char)} (houter : FillsIn p outer)
    {rest : List Char} (hrest : Tidy p false rest) : ∀ c : Component, c.isTidy p = true →
      c.isSpace = false → (c.endsInCode = true → rest ≠ []) → Tidy p true (c.minifiedText outer ++ rest)
  | .atom a, h, hspace, hcode => by
    rw [Component.isTidy] at h
    have htext := Atom.tidy_append h hspace hrest hcode
    cases a with
    | literal text =>
      rw [Component.minifiedText]
      split
      · cases outer with
        | none => exact htext
        | some replacement =>
          obtain ⟨htidy, hfilled⟩ := houter replacement rfl
          exact htidy.append_of_ne_nil hfilled hrest
      · exact htext
    | _ => exact htext
  | .group (.function name) arguments, h, _, _ => by
    rw [Component.isTidy, Bool.and_eq_true] at h
    have harguments := tidy_minifiedParts houter.grouped true arguments h.2
    rw [Component.minifiedText, tidy_trim harguments, List.append_assoc, List.cons_append,
      List.append_assoc]
    have hgroup : ∀ {start : Bool}, Tidy p start
        ('(' :: (trimEnd isBlank (minifiedParts outer true arguments) ++ ')' :: rest)) :=
      .group (b := .round) (by decide) harguments hrest
    exact tidy_of_row h.1 hgroup (fun _ => hgroup) fun _ _ => List.cons_ne_nil _ _
  | .group (.bracket .round) content, h, _, _ => by
    rw [Component.isTidy] at h
    have hcontent := tidy_minifiedParts houter.grouped true content h
    rw [Component.minifiedText, tidy_trim hcontent, List.cons_append, List.append_assoc]
    exact .group (b := .round) (by decide) hcontent hrest
  | .group (.bracket .square) content, h, _, _ => by
    rw [Component.isTidy] at h
    have hcontent := tidy_minifiedParts houter.grouped true content h
    rw [Component.minifiedText, tidy_trim hcontent, List.cons_append, List.append_assoc]
    exact .group (b := .square) (by decide) hcontent hrest
  | .group (.bracket .curly) content, h, _, _ => by
    rw [Component.isTidy] at h
    cases h

/-- Components with tidy texts have a tidy text once its end has been trimmed. -/
theorem tidy_minifiedParts {p : Site} {outer : Option (List Char)} (houter : FillsIn p outer)
    (start : Bool) : ∀ cs : List Component, areTidy p cs = true →
      Tidy p start (trimEnd isBlank (minifiedParts outer start cs))
  | [], _ => by
    rw [minifiedParts]
    exact .nil
  | c :: cs, h => by
    simp only [areTidy, Bool.and_eq_true, Bool.or_eq_true, Bool.not_eq_true'] at h
    obtain ⟨⟨hc, hcode⟩, hcs⟩ := h
    rw [minifiedParts]
    split
    · have hrest := tidy_minifiedParts houter true cs hcs
      split
      · next hstart => rwa [hstart]
      · next hstart =>
        rw [Bool.not_eq_true] at hstart
        rw [hstart, trimEnd_cons]
        split
        · exact .nil
        · next hfilled => exact .space hfilled hrest
    · next hspace =>
      have hspace : c.isSpace = false := by simpa using hspace
      have hrest := tidy_minifiedParts houter false cs hcs
      have hcode : c.endsInCode = true → trimEnd isBlank (minifiedParts outer false cs) ≠ [] := by
        intro hends
        rw [hspace, hends] at hcode
        exact trimEnd_minifiedParts_ne_nil houter hcs (by simpa using hcode)
      have htext := Component.tidy_minifiedText houter hrest c hc hspace hcode
      rw [houter.keeps_space, trimEnd_append_eq]
      split
      · next hempty =>
        -- Nothing follows the component, so it ends in no escape with digits.
        rw [hempty, List.append_nil] at htext
        rw [htext.trimEnd]
        exact htext.anywhere
      · exact htext.anywhere

end

/-- Components with tidy texts have a tidy minified text. -/
theorem tidy_minifiedText (houter : FillsIn p outer) {cs : List Component} (h : areTidy p cs = true) :
    Tidy p true (minifiedText outer cs) := by
  have hparts := tidy_minifiedParts houter true cs h
  rwa [minifiedText, tidy_trim hparts]

/-- Components with tidy texts that are not all white space have some minified text. -/
theorem minifiedText_ne_nil (houter : FillsIn p outer) {cs : List Component} (h : areTidy p cs = true)
    {c : Component} (hc : c ∈ cs) (hspace : c.isSpace = false) : minifiedText outer cs ≠ [] := by
  rw [minifiedText, tidy_trim (tidy_minifiedParts houter true cs h)]
  exact trimEnd_minifiedParts_ne_nil houter h (List.any_eq_true.2 ⟨c, hc, by rw [hspace]; rfl⟩)

end

end CssTemplate.Css
