import CssTemplate.Css.Flatten
import CssTemplate.Proofs.Css.Grouping
import CssTemplate.Proofs.Css.Recoloring

/-!
# Names in front of a block

A name that is written without escapes and that a curly block follows is read as it stands, whatever
is inside the block and after it. Hence a template has the same body under every such name, with or
without a point in front of it (`templateBody_name`, `templateBody_class`).
-/

namespace CssTemplate.Css

/-! ## Plain names -/

/-- A text that is read as one identifier and needs no escape. -/
structure PlainName (name : List Char) : Prop where
  starts : name.head?.any startsName = true
  chars : ∀ c ∈ name, isNameChar c = true

/-- A name character is none of the characters that no name holds. -/
theorem ne_of_isNameChar {c a : Char} (h : isNameChar c = true)
    (ha : isNameChar a = false) : c ≠ a := by
  rintro rfl
  rw [h] at ha
  cases ha

/-- A character that starts a name is no digit. -/
theorem isDigit_of_startsName {c : Char} (h : startsName c = true) : c.isDigit = false := by
  have hunderscore : '_'.toNat = 95 := rfl
  rw [← Bool.not_eq_true, isDigit_iff]
  simp only [startsName, Bool.or_eq_true, isAlpha_iff, beq_iff_eq, decide_eq_true_eq] at h
  rcases h with (h | rfl) | h <;> omega

/-- Preprocessing leaves name characters as they are. -/
theorem normalize_append {front : List Char} (h : ∀ c ∈ front, isNameChar c = true)
    (rest : List Char) : normalize (front ++ rest) = front ++ normalize rest := by
  induction front with
  | nil => rfl
  | cons c front ih =>
    have hc := h c (.head _)
    have hreturn : c ≠ '\r' := ne_of_isNameChar hc rfl
    have hfeed : c ≠ '\x0c' := ne_of_isNameChar hc rfl
    have hnull : c ≠ '\x00' := ne_of_isNameChar hc rfl
    have hkept : c ∉ ['\r', '\x0c', '\x00'] := by simp [hreturn, hfeed, hnull]
    rw [List.cons_append, normalize_cons hkept, ih fun d hd => h d (.tail _ hd), List.cons_append]

/-- A name ends before a character that is no part of it and starts no escape. -/
theorem readName_append {name : List Char} (h : ∀ c ∈ name, isNameChar c = true) {stop : Char}
    (hstop : isNameChar stop = false) (hbackslash : stop ≠ '\\') (rest : List Char) :
    readName (name ++ stop :: rest) = (name, stop :: rest) := by
  induction name with
  | nil =>
    have hescape : startsEscape (stop :: rest) = false := by
      rw [startsEscape_cons, beq_eq_false_iff_ne.2 hbackslash, Bool.false_and]
    rw [List.nil_append, readName, hstop, hescape]
    rfl
  | cons c name ih =>
    rw [List.cons_append, readName, if_pos (h c (.head _)), ih fun d hd => h d (.tail _ hd)]

/-- A Unicode range starts with its letter. -/
theorem startsUnicodeRange_of_ne {c : Char} {rest : List Char} (hupper : c ≠ 'U') (hlower : c ≠ 'u') :
    startsUnicodeRange (c :: rest) = false := by
  unfold startsUnicodeRange
  split
  · next heq =>
    cases heq
    simp [hupper, hlower]
  · rfl

/-- An opening curly bracket. -/
theorem readToken_curly (rest : List Char) :
    readToken '{' rest = ([.opening (.bracket .curly)], rest) := by
  have hword : StartsWord '{' rest :=
    ⟨rfl, startsUnicodeRange_of_ne (by decide) (by decide), fun _ h => absurd h (by decide)⟩
  rw [readToken_word hword]
  rfl

/-- A point before a name. -/
theorem readToken_point {c : Char} (rest : List Char) (hc : c.isDigit = false) :
    readToken '.' (c :: rest) = lexLiteral ['.'] (c :: rest) := by
  have hword : StartsWord '.' (c :: rest) :=
    ⟨rfl, startsUnicodeRange_of_ne (by decide) (by decide), fun _ h => absurd h (by decide)⟩
  have hnumber : readNumber? ('.' :: c :: rest) = none := by
    have hmantissa : readMantissa? ('.' :: c :: rest) = none := by
      have hpoint : afterDigits ('.' :: c :: rest) = '.' :: c :: rest := rfl
      rw [readMantissa?_of_point hpoint]
      simp [digits, hc]
    simp [readNumber?, readSign, hmantissa]
  rw [readToken_word hword, hnumber]
  rfl

/-- At a plain name before a block neither a range nor a mark starts. -/
theorem PlainName.startsWord {c : Char} {name : List Char} (h : PlainName (c :: name))
    (rest : List Char) : StartsWord c (name ++ '{' :: rest) := by
  have hc := h.chars c (.head _)
  refine ⟨?_, ?_, ?_⟩
  · have hspace : c ≠ ' ' := ne_of_isNameChar hc rfl
    have hline : c ≠ '\n' := ne_of_isNameChar hc rfl
    have htab : c ≠ '\t' := ne_of_isNameChar hc rfl
    simp [isSpace, hspace, hline, htab]
  · cases name with
    | nil => rfl
    | cons d name =>
      have hd : d ≠ '+' := ne_of_isNameChar (h.chars d (.tail _ (.head _))) rfl
      unfold startsUnicodeRange
      split
      · next heq =>
        rw [List.cons_append] at heq
        injection heq with _ heq
        injection heq with heq
        exact absurd heq hd
      · rfl
  · intro after hhyphen _
    have hstarts : startsName c = true := h.starts
    rw [hhyphen] at hstarts
    revert hstarts
    decide

/-- A plain name before a block is scanned as an identifier. -/
theorem scan_plainName {name : List Char} (h : PlainName name) (rest : List Char) :
    scan (name ++ '{' :: rest) =
      .atom (.ident name) :: .opening (.bracket .curly) :: scan rest := by
  cases name with
  | nil => cases h.starts
  | cons c name =>
    have hname := @readName_append _ h.chars '{' rfl (by decide) rest
    have hstarts : startsName c = true := h.starts
    have hyphen : c ≠ '-' := by
      rintro rfl
      revert hstarts
      decide
    have hident : startsIdent (c :: (name ++ '{' :: rest)) = true := by
      rw [startsIdent_cons, if_neg hyphen, hstarts, Bool.true_or]
    rw [List.cons_append, scan, readToken_word (h.startsWord rest), if_pos hident,
      ← List.cons_append, lexIdent_of_no_open (by rw [hname]; simp), hname]
    simp only [lexAtom]
    rw [scan, readToken_curly]
    rfl

/-- A class before a block is scanned as a point and an identifier. -/
theorem scan_point_plainName {name : List Char} (h : PlainName name) (rest : List Char) :
    scan ('.' :: name ++ '{' :: rest) =
      .atom (.literal ['.']) :: .atom (.ident name) :: .opening (.bracket .curly) :: scan rest := by
  cases name with
  | nil => cases h.starts
  | cons c name =>
    have hc : c.isDigit = false := isDigit_of_startsName h.starts
    rw [← scan_plainName h, List.cons_append, scan, List.cons_append, readToken_point _ hc]
    rfl

/-! ## The body of a template -/

/-- What the tokens of a block give as a template body: the components inside the block, if it is
the only rule and nothing around it is malformed. -/
def soleBody (css : List Char) (ts : List Token) : Except Fault (List Component) :=
  let others := styleSheet (Component.ofTokens (splitGroup .curly [] ts).2)
  match firstMalformed others with
  | some f => .error (.rule f)
  | none =>
    if others.isEmpty then .ok (Component.ofTokens (splitGroup .curly [] ts).1)
    else .error (.unbalanced css)

/-- Atoms before a block are its head. -/
theorem readBlock?_atoms (head : List Atom) (content rest : List Component) :
    readBlock? (head.map .atom ++ .group (.bracket .curly) content :: rest) =
      some (head.map .atom, content, rest) := by
  induction head with
  | nil => rfl
  | cons a head ih =>
    rw [List.map_cons, List.cons_append, readBlock?, ih]
    rfl

/-- The body of a template depends on its selector only in so far as this is read as a row of
atoms. -/
theorem templateBody_of_head {context css : List Char} (first : Atom) (head : List Atom)
    {ts : List Token}
    (hscan : scan (normalize (blockText context css)) =
      (first :: head).map .atom ++ .opening (.bracket .curly) :: ts)
    (hpadding : isSheetPadding (.atom first) = false)
    (hkeyword : (Component.atom first).atKeyword? = none) :
    templateBody context css = soleBody css ts := by
  have hparse : Component.parse (blockText context css) =
      (first :: head).map .atom ++
        .group (.bracket .curly) (Component.ofTokens (splitGroup .curly [] ts).1) ::
          Component.ofTokens (splitGroup .curly [] ts).2 := by
    rw [Component.parse, hscan, Component.ofTokens_atoms, Component.ofTokens_opening]
    rfl
  have hblock := readBlock?_atoms (first :: head)
    (Component.ofTokens (splitGroup .curly [] ts).1) (Component.ofTokens (splitGroup .curly [] ts).2)
  have hsheet : styleSheet (Component.parse (blockText context css)) =
      .style ((first :: head).map .atom) (Component.ofTokens (splitGroup .curly [] ts).1) ::
        styleSheet (Component.ofTokens (splitGroup .curly [] ts).2) := by
    rw [List.map_cons, List.cons_append] at hparse hblock
    rw [hparse, styleSheet, rules, hpadding, if_neg Bool.false_ne_true, readRule, hkeyword]
    simp only [readStyleRule, hblock]
    rfl
  rw [templateBody, hsheet, firstMalformed]
  · unfold soleBody
    simp only
    cases firstMalformed (styleSheet (Component.ofTokens (splitGroup .curly [] ts).2)) with
    | some what => rfl
    | none =>
      cases styleSheet (Component.ofTokens (splitGroup .curly [] ts).2) with
      | nil => rfl
      | cons rule rules => rfl
  · rintro _ ⟨⟩

/-- The tokens of a template that stands in curly brackets, after the opening one. -/
def blockTokens (css : List Char) : List Token :=
  scan (normalize (css ++ ['}']))

/-- The body of a template under an element name. -/
theorem templateBody_name {name : List Char} (h : PlainName name) (css : List Char) :
    templateBody name css = soleBody css (blockTokens css) := by
  have hblock : blockText name css = name ++ '{' :: (css ++ ['}']) := by simp [blockText]
  refine templateBody_of_head (.ident name) [] ?_ rfl rfl
  rw [hblock, normalize_append h.chars, normalize_cons (by decide), scan_plainName h]
  rfl

/-- The body of a template under a class name. -/
theorem templateBody_class {name : List Char} (h : PlainName name) (css : List Char) :
    templateBody ('.' :: name) css = soleBody css (blockTokens css) := by
  have hblock : blockText ('.' :: name) css = '.' :: (name ++ '{' :: (css ++ ['}'])) := by
    simp [blockText]
  refine templateBody_of_head (.literal ['.']) [.ident name] ?_ rfl rfl
  rw [hblock, normalize_cons (by decide), normalize_append h.chars, normalize_cons (by decide),
    ← List.cons_append, scan_point_plainName h]
  rfl

end CssTemplate.Css
