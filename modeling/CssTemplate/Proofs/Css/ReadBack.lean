import CssTemplate.Proofs.Css.TokenText
import Mathlib

/-!
# Numbers, ranges, strings and URLs, read back from their texts

The tokens that are not names. With the names of `CssTemplate.Proofs.Css.TokenText` they give
`Token.Spelled.readBack`: a token that has the form of one that was read, whose text spells it and that
does not go on in the text after it comes back alone, also from its trimmed text.
-/

namespace CssTemplate.Css

section
variable {c : Char} {text name rest : List Char} {short : Bool}

/-! ## Numbers -/

/-- Where no exponent letter follows, there is no exponent. -/
theorem readExponent_of_ne (hlower : rest.head? ≠ some 'e') (hupper : rest.head? ≠ some 'E') :
    readExponent rest = ([], rest) := by
  cases rest with
  | nil => rfl
  | cons c rest =>
    have hlower : c ≠ 'e' := fun h => hlower (congrArg some h)
    have hupper : c ≠ 'E' := fun h => hupper (congrArg some h)
    rw [readExponent, if_neg (by simp [hlower, hupper])]

/-- The first character of a number, after its sign. -/
theorem IsNumeral.exists_head {sign whole fraction exponent : List Char}
    (h : IsNumeral sign whole fraction exponent) :
    ∃ c more, whole ++ fraction = c :: more ∧ (c.isDigit = true ∨ c = '.') := by
  cases whole with
  | cons c whole => exact ⟨c, _, rfl, .inl (h.isWhole c (.head _))⟩
  | nil =>
    rcases h.isFraction with rfl | ⟨ds, -, rfl⟩
    · exact absurd (h.filled.resolve_left fun h => h rfl) fun h => h rfl
    · exact ⟨'.', ds, rfl, .inr rfl⟩

/-- A number is read as one, and then its unit. -/
theorem IsNumeral.readToken {sign whole fraction exponent : List Char}
    (h : IsNumeral sign whole fraction exponent) (hends : EndsDigits fraction exponent rest) :
    ∃ c more, sign ++ (whole ++ fraction) ++ exponent = c :: more ∧
      Css.readToken c (more ++ rest) = lexNumeric (sign ++ (whole ++ fraction) ++ exponent) rest := by
  obtain ⟨d, tail, hhead, hd⟩ := h.exists_head
  have hread := h.readNumber? hends
  rw [hhead] at hread ⊢
  have hplain : isSpace d = false ∧ startsName d = false ∧ d ∉ ['-', '\\', 'U', 'u'] := by
    rcases hd with hd | rfl
    · have hspace : d ≠ ' ' := ne_of_isDigit hd rfl
      have hline : d ≠ '\n' := ne_of_isDigit hd rfl
      have htab : d ≠ '\t' := ne_of_isDigit hd rfl
      refine ⟨by simp [isSpace, hspace, hline, htab], startsName_of_isDigit hd, fun hmem => ?_⟩
      have hnone : (['-', '\\', 'U', 'u'].all fun a => !a.isDigit) = true := by decide
      exact ne_of_isDigit hd (by simpa using List.all_eq_true.1 hnone d hmem) rfl
    · decide
  simp only [List.mem_cons, List.not_mem_nil, or_false, not_or] at hplain
  obtain ⟨hspace, hname, hhyphen, hslash, hupper, hlower⟩ := hplain
  have hescape : ∀ more, startsEscape (d :: more) = false := fun more => by
    rw [startsEscape_cons, beq_eq_false_iff_ne.2 hslash, Bool.false_and]
  -- Whatever its sign, a number starts no identifier, no range and no comment mark.
  have hword : ∀ {c : Char} {more : List Char}, StartsWord c more →
      startsIdent (c :: more) = false → Css.readNumber? (c :: more) =
        some (sign ++ d :: tail ++ exponent, rest) →
      Css.readToken c more = lexNumeric (sign ++ d :: tail ++ exponent) rest := by
    intro c more hword hident hnumber
    rw [readToken_word hword, if_neg (by simp [hident]), hnumber]
  rcases h.isSign with rfl | rfl | rfl
  · refine ⟨d, tail ++ exponent, rfl, hword ⟨hspace, ?_, ?_⟩ ?_ (by simpa using hread)⟩
    · exact startsUnicodeRange_of_ne hupper hlower
    · exact fun _ h => absurd h hhyphen
    · rw [startsIdent_cons, if_neg hhyphen, hname, hescape, Bool.or_false]
  · refine ⟨'+', d :: tail ++ exponent, rfl, hword ⟨rfl, ?_, ?_⟩ rfl (by simpa using hread)⟩
    · exact startsUnicodeRange_of_ne (by decide) (by decide)
    · exact fun _ h => absurd h (by decide)
  · refine ⟨'-', d :: tail ++ exponent, rfl, hword ⟨rfl, ?_, ?_⟩ ?_ (by simpa using hread)⟩
    · exact startsUnicodeRange_of_ne (by decide) (by decide)
    · rintro after - heq
      exact hhyphen (List.cons.inj heq).1
    · rw [List.cons_append, List.cons_append, startsIdent_cons, if_pos rfl, hescape]
      simp [hname, hhyphen]

/-- A digit is not blank. -/
theorem isBlank_of_isDigit (h : c.isDigit = true) : isBlank c = false :=
  isBlank_of_isHexDigit (by simp [isHexDigit, h])

/-- A number holds nothing but digits, signs, points and letters. -/
theorem IsNumeral.forall_mem {sign whole fraction exponent : List Char}
    (h : IsNumeral sign whole fraction exponent) {P : Char → Prop}
    (hdigit : ∀ c, c.isDigit = true → P c) (hother : ∀ c ∈ ['+', '-', '.', 'e', 'E'], P c) :
    ∀ c ∈ sign ++ (whole ++ fraction) ++ exponent, P c := by
  have hsign : ∀ {text : List Char}, IsSign text → ∀ c ∈ text, P c := by
    rintro text (rfl | rfl | rfl)
    · exact List.forall_mem_nil _
    · exact List.forall_mem_singleton.2 (hother _ (by decide))
    · exact List.forall_mem_singleton.2 (hother _ (by decide))
  refine List.forall_mem_append.2 ⟨List.forall_mem_append.2 ⟨hsign h.isSign,
    List.forall_mem_append.2 ⟨fun c hc => hdigit c (h.isWhole c hc), ?_⟩⟩, ?_⟩
  · rcases h.isFraction with rfl | ⟨ds, hds, rfl⟩
    · exact List.forall_mem_nil _
    · exact List.forall_mem_cons.2 ⟨hother _ (by decide), fun c hc => hdigit c (hds.digits c hc)⟩
  · rcases h.isExponent with rfl | ⟨e, sign, ds, he, hs, hds, rfl⟩
    · exact List.forall_mem_nil _
    · refine List.forall_mem_cons.2 ⟨?_, List.forall_mem_append.2
        ⟨hsign hs, fun c hc => hdigit c (hds.digits c hc)⟩⟩
      rcases he with rfl | rfl
      · exact hother _ (by decide)
      · exact hother _ (by decide)

/-- A numeral has no blank characters. -/
theorem IsNumber.isBlank {numeral : List Char} (h : IsNumber numeral) :
    ∀ c ∈ numeral, isBlank c = false := by
  obtain ⟨sign, whole, fraction, exponent, hparts, rfl⟩ := h
  refine hparts.forall_mem (fun _ hc => isBlank_of_isDigit hc) fun c hc => ?_
  simp only [List.mem_cons, List.not_mem_nil, or_false] at hc
  rcases hc with rfl | rfl | rfl | rfl | rfl <;> rfl

/-- A numeral is not empty. -/
theorem IsNumber.ne_nil {numeral : List Char} (h : IsNumber numeral) : numeral ≠ [] := by
  obtain ⟨sign, whole, fraction, exponent, hparts, rfl⟩ := h
  obtain ⟨c, more, hhead, -⟩ := hparts.exists_head
  simp [hhead]

/-- A letter or a point is no part of a sign or of digits. -/
theorem any_eq_false {sign digits : List Char} {p : Char → Bool} (hsign : IsSign sign)
    (hdigits : ∀ c ∈ digits, c.isDigit = true) (hplus : p '+' = false) (hhyphen : p '-' = false)
    (hp : ∀ c, p c = true → c.isDigit = false) : sign.any p = false ∧ digits.any p = false := by
  refine ⟨?_, ?_⟩
  · rcases hsign with rfl | rfl | rfl <;> simp [hplus, hhyphen]
  · rw [List.any_eq_false]
    intro c hc hmem
    exact ne_of_isDigit (hdigits c hc) (hp c hmem) rfl

/-- A number that could still have a fraction holds no point and no letter. -/
theorem not_any_of_plain {sign whole : List Char} (hsign : IsSign sign)
    (hwhole : ∀ c ∈ whole, c.isDigit = true) :
    ((sign ++ (whole ++ []) ++ []).any fun c => ['.', 'e', 'E'].contains c) = false := by
  have hmark : ∀ c, ['.', 'e', 'E'].contains c = true → c.isDigit = false := by
    intro c hc
    rcases (by simpa using hc : c = '.' ∨ c = 'e' ∨ c = 'E') with rfl | rfl | rfl <;> rfl
  obtain ⟨hsign, hwhole⟩ := any_eq_false hsign hwhole rfl rfl hmark
  simp only [List.append_nil, List.any_append, hsign, hwhole, Bool.or_false]

/-- A number without an exponent holds no letter. -/
theorem IsNumeral.hasExponent {sign whole fraction exponent : List Char}
    (h : IsNumeral sign whole fraction exponent) (hnone : exponent = []) :
    hasExponent (sign ++ (whole ++ fraction) ++ exponent) = false := by
  have hletter : ∀ c, (c == 'e' || c == 'E') = true → c.isDigit = false := by
    intro c hc
    rcases (by simpa using hc : c = 'e' ∨ c = 'E') with rfl | rfl <;> rfl
  obtain ⟨hsign, hwhole⟩ := any_eq_false h.isSign h.isWhole rfl rfl hletter
  have hfraction : (fraction.any fun c => c == 'e' || c == 'E') = false := by
    rcases h.isFraction with rfl | ⟨ds, hds, rfl⟩
    · rfl
    · rw [List.any_cons, (any_eq_false h.isSign hds.digits rfl rfl hletter).2]
      rfl
  subst hnone
  simp only [Css.hasExponent, List.append_nil, List.any_append, hsign, hwhole, hfraction, Bool.or_false]

/-- Where a number does not go on, its digits end. -/
theorem endsDigits_of_stop {sign whole fraction exponent : List Char}
    (h : IsNumeral sign whole fraction exponent)
    (hstop : numberGoesOn (sign ++ (whole ++ fraction) ++ exponent) rest = false) :
    EndsDigits fraction exponent rest := by
  simp only [numberGoesOn, Bool.or_eq_false_iff] at hstop
  obtain ⟨⟨hident, hhead⟩, hpoint⟩ := hstop
  refine ⟨?_, ?_, fun _ => readExponent_of_ne ?_ ?_⟩
  · intro c hc
    rw [Option.mem_def.1 hc, Option.any_some, Bool.or_eq_false_iff] at hhead
    exact hhead.1
  · rintro rfl rfl more rfl
    rw [not_any_of_plain h.isSign h.isWhole, Bool.not_false, Bool.and_true] at hpoint
    cases more with
    | nil => rfl
    | cons c more =>
      have hc : c.isDigit = false := by simpa [startsDigits] using hpoint
      simp [digits, hc]
  · intro hc
    obtain ⟨more, rfl⟩ := List.head?_eq_some_iff.1 hc
    cases hident
  · intro hc
    obtain ⟨more, rfl⟩ := List.head?_eq_some_iff.1 hc
    cases hident

/-- A number is read back where it does not go on. -/
theorem readBack_number {numeral : List Char} (h : IsNumber numeral)
    (hstop : numberGoesOn numeral rest = false) : ReadBack numeral (.atom (.number numeral)) rest := by
  obtain ⟨sign, whole, fraction, exponent, hparts, rfl⟩ := h
  obtain ⟨c, more, htext, hread⟩ := hparts.readToken (endsDigits_of_stop hparts hstop)
  refine ⟨c, more, htext, ?_⟩
  simp only [numberGoesOn, Bool.or_eq_false_iff] at hstop
  rw [hread, lexNumeric_of_plain hstop.1.1]
  · rfl
  · intro hc
    rw [hc] at hstop
    simp at hstop

/-- A percentage is read back whatever follows it. -/
theorem readBack_percentage {numeral : List Char} (h : IsNumber numeral) :
    ReadBack (numeral ++ ['%']) (.atom (.percentage numeral)) rest := by
  obtain ⟨sign, whole, fraction, exponent, hparts, rfl⟩ := h
  have hends : EndsDigits fraction exponent ('%' :: rest) :=
    ⟨by rintro c ⟨⟩; rfl, fun _ _ _ h => (by cases h), fun _ => rfl⟩
  obtain ⟨c, more, htext, hread⟩ := hparts.readToken hends
  refine ⟨c, more ++ ['%'], by rw [htext]; rfl, ?_⟩
  rw [List.append_assoc, List.singleton_append, hread, lexNumeric_percent]
  rfl

/-! ## Units -/

/-- A unit that is not respelled is written as a spelling of it that starts an identifier. -/
theorem spells_unitText {unit : List Char} (hunit : unit ≠ []) (h : isRespelled unit = false) :
    Spells false (unitText unit) unit ∧ ∀ rest, startsIdent (unitText unit ++ rest) = true := by
  have hhex : (['6', '5'].all isHexDigit) = true := by decide
  have hcode : IsCode ['6', '5'] 'e' := ⟨by decide, by decide, List.all_eq_true.1 hhex, rfl⟩
  have hescaped : ∀ name : List Char,
      Spells false ('\\' :: '6' :: '5' :: ' ' :: nameText name) ('e' :: name) :=
    fun name => .code hcode (spells_nameText name)
  unfold unitText looksLikeExponent
  split
  · exact ⟨hescaped [], fun _ => rfl⟩
  · cases h
  · exact ⟨hescaped _, fun _ => rfl⟩
  · cases h
  · exact ⟨spells_identifierText unit, startsIdent_identifierText hunit⟩

/-- A letter and a name that is no exponent. -/
theorem Spells.readExponent {d : Char} {more : List Char} (h : Spells short text (d :: more))
    (hhyphen : d ≠ '-') (hdigit : d.isDigit = false) (e : Char) :
    Css.readExponent (e :: (text ++ rest)) = ([], e :: (text ++ rest)) := by
  obtain ⟨c, tail, htail, hplus, hc, hc'⟩ : ∃ c tail, text ++ rest = c :: tail ∧ c ≠ '+' ∧ c ≠ '-' ∧
      c.isDigit = false := by
    cases h with
    | char hc _ => exact ⟨_, _, rfl, ne_of_isNameChar hc rfl, hhyphen, hdigit⟩
    | escape _ _ _ => exact ⟨_, _, rfl, by decide, by decide, by decide⟩
    | code _ _ => exact ⟨_, _, rfl, by decide, by decide, by decide⟩
    | lastCode _ => exact ⟨_, _, rfl, by decide, by decide, by decide⟩
  rw [htail, Css.readExponent, readSign_of_ne hplus hc]
  simp [digits, hc']

/-- A unit that is written with its letter first goes on with something else than an exponent does. -/
theorem exists_of_letter {unit more : List Char} (hspelled : isRespelled unit = false)
    (hlike : startsExponent unit = false) (hletter : c = 'e' ∨ c = 'E')
    (htext : shortened short (unitText unit) = c :: more)
    (h : Spells short (c :: more) unit) :
    ∃ d tail, unit = c :: d :: tail ∧ d ≠ '-' ∧ d.isDigit = false := by
  have hescaped : ∀ {name : List Char}, unitText unit ≠ '\\' :: name := by
    intro name heq
    rw [heq, shortened_cons (by decide)] at htext
    obtain ⟨rfl, -⟩ := List.cons.inj htext
    simp at hletter
  cases h with
  | escape _ _ _ => simp at hletter
  | code _ _ => simp at hletter
  | lastCode _ => simp at hletter
  | @char _ _ _ name _ _ =>
    rcases name with _ | ⟨d, tail⟩
    · rcases hletter with rfl | rfl
      · exact absurd rfl hescaped
      · cases hspelled
    · refine ⟨d, tail, rfl, ?_, ?_⟩
      · rintro rfl
        rcases hletter with rfl | rfl
        · exact absurd rfl hescaped
        · cases hspelled
      · rcases hletter with rfl | rfl
        · exact hlike
        · exact hlike

/-- The digits of a numeral end before its unit. -/
theorem endsDigits_unitText {unit fraction exponent : List Char} (hunit : unit ≠ [])
    (hspelled : isRespelled unit = false) (hlike : exponent = [] → startsExponent unit = false)
    (hfirm : short = true → isFirmName unit = true) :
    EndsDigits fraction exponent (shortened short (unitText unit) ++ rest) := by
  obtain ⟨hspells, hstarts⟩ := spells_unitText hunit hspelled
  obtain ⟨hshort, hsame⟩ := hspells.shortened hunit hfirm
  have hident : startsIdent (shortened short (unitText unit) ++ rest) = true := by rw [hsame, hstarts]
  obtain ⟨c, more, htext, -⟩ := hshort.head hunit
  rw [htext] at hshort hident ⊢
  rw [List.cons_append] at hident ⊢
  refine ⟨?_, ?_, fun hnone => ?_⟩
  · rintro d ⟨⟩
    by_contra hdigit
    rw [Bool.not_eq_false] at hdigit
    rw [startsIdent_cons, if_neg (ne_of_isDigit hdigit rfl), startsName_of_isDigit hdigit,
      startsEscape_cons, beq_eq_false_iff_ne.2 (ne_of_isDigit hdigit rfl)] at hident
    cases hident
  · rintro - - tail heq
    obtain ⟨rfl, -⟩ := List.cons.inj heq
    cases hident
  · by_cases hletter : c = 'e' ∨ c = 'E'
    · obtain ⟨d, tail, rfl, hhyphen, hdigit⟩ :=
        exists_of_letter hspelled (hlike hnone) hletter htext hshort
      cases hshort with
      | char _ hmore => exact hmore.readExponent hhyphen hdigit c
      | escape _ _ _ => simp at hletter
      | code _ _ => simp at hletter
    · rw [not_or] at hletter
      exact readExponent_of_ne (by simpa using hletter.1) (by simpa using hletter.2)

/-- A dimension is read back where its unit does not go on, shortened or not. -/
theorem readBack_dimension {numeral unit : List Char} (h : IsNumber numeral) (hunit : unit ≠ [])
    (hspelled : isRespelled unit = false)
    (hlike : hasExponent numeral = false → startsExponent unit = false)
    (hfirm : short = true → isFirmName unit = true)
    (hstop : continuesName rest = false)
    (hspace : short = true → ∀ d ∈ rest.head?, isSpace d = false) :
    ReadBack (shortened short (numeral ++ unitText unit)) (.atom (.dimension numeral unit)) rest := by
  obtain ⟨hspells, hstarts⟩ := spells_unitText hunit hspelled
  obtain ⟨hshort, hsame⟩ := hspells.shortened hunit hfirm
  have hlast : ∀ d ∈ numeral.getLast?, isBlank d = false :=
    fun d hd => h.isBlank d (List.mem_of_getLast? hd)
  rw [shortened_append h.ne_nil hlast]
  obtain ⟨sign, whole, fraction, exponent, hparts, rfl⟩ := h
  have hends : EndsDigits fraction exponent (shortened short (unitText unit) ++ rest) :=
    endsDigits_unitText hunit hspelled (fun h => hlike (hparts.hasExponent h)) hfirm
  obtain ⟨c, more, htext, hread⟩ := hparts.readToken hends
  refine ⟨c, more ++ shortened short (unitText unit), by rw [htext]; rfl, ?_⟩
  rw [List.append_assoc, hread, lexNumeric_of_unit (by rw [hsame, hstarts]),
    hshort.readName hstop hspace]
  rfl

/-! ## Ranges -/

/-- A Unicode range is read back where it does not go on. -/
theorem readBack_unicodeRange {first last : Nat} (hfirst : first < 0x1000000)
    (hlast : last < 0x1000000)
    (hstop : (Token.atom (.unicodeRange first last)).goesOn rest = false) :
    ReadBack (Atom.unicodeRange first last).text (.atom (.unicodeRange first last)) rest := by
  refine ⟨'U', _, rfl, ?_⟩
  obtain ⟨d, more, hd⟩ := List.exists_cons_of_ne_nil (hexUpper_ne_nil first)
  have hhex : isHexDigit d = true := isHexDigit_of_mem_hexUpper (hd ▸ List.mem_cons_self)
  rw [readToken_range rfl (by rw [hd]; simp [startsUnicodeRange, hhex]), List.cons_append,
    List.drop_one, List.tail_cons]
  by_cases heq : first = last
  · subst heq
    rw [Token.goesOn, if_pos rfl] at hstop
    rw [if_pos rfl, List.append_nil, readUnicodeRange_single hfirst hstop]
    rfl
  · rw [Token.goesOn, if_neg heq] at hstop
    have hrest : ∀ c ∈ rest.head?, isHexDigit c = false := by
      intro c hc
      rwa [Option.mem_def.1 hc] at hstop
    rw [if_neg heq, List.append_assoc, List.cons_append, readUnicodeRange_pair hfirst hlast hrest]
    rfl

/-! ## URLs -/

/-- The characters of a URL that are written after a backslash. -/
def urlEscapes : List Char :=
  ['\n', '\r', '\x0c', '\'', '"', '\\', ' ', '(', ')']

/-- The characters that a URL cannot hold are escaped. -/
theorem urlCharText_of_mem (h : c ∈ urlEscapes) : urlCharText c = escapeText c := by
  simp only [urlEscapes, List.mem_cons, List.not_mem_nil, or_false] at h
  rcases h with rfl | rfl | rfl | rfl | rfl | rfl | rfl | rfl | rfl <;> rfl

/-- Any other character of a URL but a tab is written as it is. -/
theorem urlCharText_of_not_mem (htab : c ≠ '\t') (h : c ∉ urlEscapes) : urlCharText c = [c] := by
  rw [urlCharText, if_neg htab, if_neg]
  simpa [urlEscapes, not_or, and_assoc] using h

/-- An escape in a URL gives the character that it names. -/
theorem readUrlBody_escape (hc : c ≠ '\n') :
    readUrlBody ('\\' :: c :: rest) =
      (readUrlBody (readEscape (c :: rest)).2).cons (readEscape (c :: rest)).1 := by
  rw [readUrlBody, if_neg (by decide), if_neg (by decide), if_pos]
  rw [startsEscape_cons]
  simpa using hc

/-- A written character of a URL is read back. -/
theorem readUrlBody_urlCharText (h : (!isUrlForbidden c || ['"', '\'', '('].contains c) = true)
    (rest : List Char) : readUrlBody (urlCharText c ++ rest) = (readUrlBody rest).cons c := by
  by_cases htab : c = '\t'
  · subst htab
    exact readUrlBody_escape (by decide)
  · by_cases hescape : c ∈ urlEscapes
    · rw [urlCharText_of_mem hescape]
      simp only [urlEscapes, List.mem_cons, List.not_mem_nil, or_false] at hescape
      rcases hescape with rfl | rfl | rfl | rfl | rfl | rfl | rfl | rfl | rfl <;>
        exact readUrlBody_escape (by decide)
    · rw [urlCharText_of_not_mem htab hescape, List.singleton_append]
      simp only [urlEscapes, List.mem_cons, List.not_mem_nil, or_false, not_or] at hescape
      obtain ⟨hline, -, -, hquote, hdouble, hslash, hspace, hopen, hclose⟩ := hescape
      have hallowed : isUrlForbidden c = false := by simpa [hquote, hdouble, hopen] using h
      rw [readUrlBody, if_neg hclose, if_neg (by simp [isSpace, hline, htab, hspace]),
        if_neg (by rw [startsEscape_cons]; simp [hslash]), if_neg (by simp [hallowed])]

/-- The characters of a URL are read back up to its bracket. -/
theorem readUrlBody_written {value : List Char}
    (h : (value.all fun c => !isUrlForbidden c || ['"', '\'', '('].contains c) = true)
    (rest : List Char) :
    readUrlBody (value.flatMap urlCharText ++ ')' :: rest) = ⟨value, .closed, rest⟩ := by
  induction value with
  | nil => rw [List.flatMap_nil, List.nil_append, readUrlBody, if_pos rfl]
  | cons c value ih =>
    rw [List.all_cons, Bool.and_eq_true] at h
    rw [List.flatMap_cons, List.append_assoc, readUrlBody_urlCharText h.1, ih h.2]
    rfl

/-- A written URL starts with neither white space nor a quote. -/
theorem head_urlText (value rest : List Char) :
    ∃ c more, value.flatMap urlCharText ++ ')' :: rest = c :: more ∧ isSpace c = false ∧
      c ≠ '"' ∧ c ≠ '\'' := by
  cases value with
  | nil => exact ⟨')', rest, rfl, by decide⟩
  | cons c value =>
    rw [List.flatMap_cons, List.append_assoc]
    by_cases htab : c = '\t'
    · subst htab
      exact ⟨_, _, rfl, by decide⟩
    · by_cases hescape : c ∈ urlEscapes
      · rw [urlCharText_of_mem hescape]
        obtain ⟨more, hmore⟩ : ∃ more, escapeText c = '\\' :: more := by
          unfold escapeText
          split
          · exact ⟨_, rfl⟩
          · split
            · exact ⟨_, rfl⟩
            · split
              · exact ⟨_, rfl⟩
              · exact ⟨_, rfl⟩
        rw [hmore]
        exact ⟨_, _, rfl, by decide⟩
      · rw [urlCharText_of_not_mem htab hescape]
        simp only [urlEscapes, List.mem_cons, List.not_mem_nil, or_false, not_or] at hescape
        obtain ⟨hline, -, -, hquote, hdouble, hslash, hspace, hopen, hclose⟩ := hescape
        exact ⟨c, _, rfl, by simp [isSpace, hline, htab, hspace], hdouble, hquote⟩

/-- A URL is read back whatever follows it. -/
theorem readBack_url {value : List Char}
    (h : (value.all fun c => !isUrlForbidden c || ['"', '\'', '('].contains c) = true) :
    ReadBack (urlText value true) (.atom (.url value true)) rest := by
  refine ⟨'u', _, rfl, ?_⟩
  have hword : ∀ more, StartsWord 'u' ('r' :: more) :=
    fun _ => ⟨rfl, rfl, fun _ h => absurd h (by decide)⟩
  have hname : ∀ more, readName ('u' :: 'r' :: 'l' :: '(' :: more) =
      (['u', 'r', 'l'], '(' :: more) := by
    intro more
    have hspells : Spells false ['u', 'r', 'l'] ['u', 'r', 'l'] :=
      .char rfl (.char rfl (.char rfl .nil))
    exact @Spells.readName _ _ _ ('(' :: more) hspells rfl fun h => by cases h
  obtain ⟨c, more, htext, hspace, hdouble, hquote⟩ := head_urlText value rest
  have hdrop : (c :: more).dropWhile isSpace = c :: more := by simp [hspace]
  have hquoted : startsQuoted (c :: more) = false := by
    rw [startsQuoted, hdrop]
    simp [hdouble, hquote]
  have hread := readUrlBody_written h rest
  rw [htext] at hread
  simp only [List.cons_append, List.append_assoc, if_true, List.nil_append, htext]
  have hident : startsIdent ('u' :: 'r' :: 'l' :: '(' :: c :: more) = true := rfl
  rw [readToken_word (hword _), if_pos hident, lexIdent_of_open (congrArg Prod.snd (hname _)), hname]
  rw [if_pos (by simp [hquoted]; decide), lexUrl, readUrl, hdrop, hread]
  rfl

/-! ## All tokens -/

/-- A token whose text does not end in a blank is read back shortened as well. -/
theorem ReadBack.shortened {t : Token} (h : ReadBack text t rest)
    (hlast : ∀ d ∈ text.getLast?, isBlank d = false) (short : Bool) :
    ReadBack (Css.shortened short text) t rest := by
  rwa [shortened_of_last hlast]

/-- A Unicode range has no blank characters. -/
theorem isBlank_of_mem_range {first last : Nat} :
    ∀ c ∈ (Atom.unicodeRange first last).text, isBlank c = false := by
  have hhex : ∀ n, ∀ c ∈ hexUpper 1 n, isBlank c = false :=
    fun n c hc => isBlank_of_isHexDigit (isHexDigit_of_mem_hexUpper hc)
  refine List.forall_mem_cons.2 ⟨rfl, List.forall_mem_cons.2 ⟨rfl,
    List.forall_mem_append.2 ⟨hhex first, ?_⟩⟩⟩
  split
  · exact List.forall_mem_nil _
  · exact List.forall_mem_cons.2 ⟨rfl, hhex last⟩

/-- Brackets are read back whatever follows them. -/
theorem readBack_bracket {b : Bracket} :
    ReadBack [b.openChar] (.opening (.bracket b)) rest ∧ ReadBack [b.closeChar] (.closing b) rest :=
  ⟨⟨_, [], rfl, readToken_open rest⟩, ⟨_, [], rfl, readToken_close rest⟩⟩

/-- The characters that close something are not blank. -/
theorem isBlank_closing : ∀ c ∈ ['"', '%', '(', ')', '[', ']', '{', '}'], isBlank c = false := by
  intro c hc
  simp only [List.mem_cons, List.not_mem_nil, or_false] at hc
  rcases hc with rfl | rfl | rfl | rfl | rfl | rfl | rfl | rfl <;> rfl

/-- A quote, a percent sign or a bracket at the end is not blank. -/
theorem getLast_concat_closing {c : Char} (hc : c ∈ ['"', '%', '(', ')', '[', ']', '{', '}']) :
    ∀ d ∈ (text ++ [c]).getLast?, isBlank d = false := by
  simpa using isBlank_closing c hc

/-- A token of the right form comes back from its text, and from its trimmed text if that does not lose
anything. -/
theorem Token.Spelled.readBack {t : Token} (h : t.Spelled) (hstop : t.goesOn rest = false)
    (hfirm : short = true → t.endsFirm = true)
    (hspace : short = true → ∀ d ∈ rest.head?, isSpace d = false) :
    ReadBack (Css.shortened short t.text) t rest := by
  obtain ⟨hformed, hsteady⟩ := h
  cases t with
  | opening o =>
    cases o with
    | bracket b =>
      exact readBack_bracket.1.shortened (@getLast_concat_closing [] _ (by cases b <;> decide)) short
    | function name =>
      exact (readBack_function hformed.ne_nil hstop).shortened
        (getLast_concat_closing (by decide)) short
  | closing b =>
    exact readBack_bracket.2.shortened (@getLast_concat_closing [] _ (by cases b <;> decide)) short
  | atom a =>
    cases a with
    | space white =>
      obtain ⟨hne, hall⟩ := hformed
      cases short with
      | true => cases hfirm rfl
      | false => exact readBack_space hne hall hstop
    | literal text =>
      have hread : ReadBack text (.atom (.literal text)) rest := by
        rcases hformed with hslash | hlong | ⟨c, rfl, hmark, -⟩
        · exact absurd hslash (bne_iff_ne.1 hsteady)
        · exact readBack_longMark hlong
        · exact readBack_mark hmark hstop
      cases short with
      | true =>
        refine hread.shortened (fun d hd => ?_) true
        simpa using (Option.all_eq_true _ _).1 (hfirm rfl) d hd
      | false => exact hread
    | ident name => exact readBack_ident hformed.ne_nil hfirm hstop hspace
    | atKeyword name => exact readBack_atKeyword hformed.ne_nil hfirm hstop hspace
    | hash name isIdent => exact readBack_hash hformed.1.ne_nil hformed.2 hfirm hstop hspace
    | string value closed =>
      obtain rfl : closed = true := hsteady
      refine ReadBack.shortened ⟨'"', _, rfl, ?_⟩
        (@getLast_concat_closing ('"' :: value.flatMap stringCharText) _ (by decide)) short
      simpa using readToken_stringText value rest
    | url value closed =>
      obtain ⟨rfl, hvalue⟩ := Bool.and_eq_true_iff.1 hsteady
      exact (readBack_url hvalue).shortened
        (@getLast_concat_closing ('u' :: 'r' :: 'l' :: '(' :: value.flatMap urlCharText) _
          (by decide)) short
    | unicodeRange first last =>
      exact (readBack_unicodeRange hformed.1 hformed.2 hstop).shortened
        (fun d hd => isBlank_of_mem_range d (List.mem_of_getLast? hd)) short
    | number numeral =>
      exact (readBack_number hformed hstop).shortened
        (fun d hd => IsNumber.isBlank hformed d (List.mem_of_getLast? hd)) short
    | percentage numeral =>
      exact (readBack_percentage hformed).shortened (getLast_concat_closing (by decide)) short
    | dimension numeral unit =>
      simp only [Token.isSteady, Bool.and_eq_true, Bool.not_eq_true', Bool.or_eq_true] at hsteady
      refine readBack_dimension hformed.1 hformed.2.ne_nil hsteady.1 (fun hnone => ?_) hfirm hstop
        hspace
      exact hsteady.2.resolve_left (by simp [hnone])
    | fault f => cases hsteady

/-- A token of the right form comes back from its whole text. -/
theorem Token.Spelled.readBack_text {t : Token} (h : t.Spelled) (hstop : t.goesOn rest = false) :
    ReadBack t.text t rest := by
  have hread := @Token.Spelled.readBack rest false t h hstop
  exact hread (fun h => by cases h) fun h => by cases h

/-- Nothing but the name of a URL goes on at a closing bracket. -/
theorem Token.goesOn_close {t : Token} (hname : ∀ name, t ≠ .opening (.function name)) :
    t.goesOn [')'] = false := by
  cases t with
  | closing b => rfl
  | opening o =>
    cases o with
    | bracket b => rfl
    | function name => exact absurd rfl (hname name)
  | atom a =>
    cases a with
    | literal text =>
      rw [Token.goesOn]
      unfold literalGoesOn
      split <;> first | rfl | exact Bool.and_false _
    | ident name =>
      have hrange : (name.length == 1 && startsUnicodeRange (name ++ [')'])) = false := by
        rcases name with _ | ⟨c, _ | ⟨d, name⟩⟩ <;> rfl
      rw [Token.goesOn, hrange]
      exact Bool.and_false _
    | unicodeRange first last => rw [Token.goesOn]; split <;> rfl
    | _ => rfl

/-- Something is written for every token, also where it is trimmed. -/
theorem Token.Spelled.shortened_ne_nil {t : Token} (h : t.Spelled)
    (hfirm : short = true → t.endsFirm = true) : Css.shortened short t.text ≠ [] := by
  by_cases hname : ∃ name, t = .opening (.function name)
  · obtain ⟨name, rfl⟩ := hname
    rw [Token.text, shortened_of_last (getLast_concat_closing (by decide))]
    simp
  · have hgoes := Token.goesOn_close fun name h => hname ⟨name, h⟩
    obtain ⟨c, more, htext, -⟩ := h.readBack hgoes hfirm fun _ => by rintro d ⟨⟩; rfl
    rw [htext]
    exact List.cons_ne_nil c more

end

end CssTemplate.Css
