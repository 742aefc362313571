import CssTemplate.Proofs.Css.ReadBack
import Mathlib

/-!
# The form of the tokens that reading gives

A token of a normalized text is of the form that `Token.Formed` describes (`formed_scan`): names are not
empty and hold no null character, a literal is a mark, and a number has the parts of one. The text of a
token of this form has nothing left to normalize (`Token.Formed.isNormal`).
-/

namespace CssTemplate.Css

section
variable {c : Char} {text rest : List Char}

/-! ## Names -/

/-- No numeric escape names the null character. -/
theorem escapedChar_ne_null (code : Nat) : escapedChar code ≠ '\x00' := by
  unfold escapedChar
  split
  · next h =>
    intro heq
    have hnat : (Char.ofNat code).toNat = 0 := by rw [heq]; rfl
    rw [Char.toNat_ofNat, if_pos h.2] at hnat
    exact h.1 hnat
  · decide

/-- An escape of a text without null characters gives none. -/
theorem readEscape_ne_null (h : '\x00' ∉ text) : (readEscape text).1 ≠ '\x00' := by
  unfold readEscape
  split
  · split
    · decide
    · next c rest => exact fun hc => h (hc ▸ .head _)
  · exact escapedChar_ne_null _

/-- A name read off a text without null characters holds none. -/
theorem null_not_mem_readName (h : '\x00' ∉ text) : '\x00' ∉ (readName text).1 := by
  fun_induction readName text with
  | case1 => exact List.not_mem_nil
  | case2 c rest _ more ih =>
    exact List.not_mem_cons_of_ne_of_not_mem (fun hc => h (hc ▸ .head _)) (ih fun hc => h (.tail _ hc))
  | case3 c rest _ _ escape more ih =>
    have hrest : '\x00' ∉ rest := fun hc => h (.tail _ hc)
    exact List.not_mem_cons_of_ne_of_not_mem (readEscape_ne_null hrest).symm
      (ih fun hc => hrest ((readEscape_suffix rest).subset hc))
  | case4 => exact List.not_mem_nil

/-- Where a name goes on, something is read of it. -/
theorem readName_ne_nil (h : continuesName text = true) : (readName text).1 ≠ [] := by
  cases text with
  | nil => cases h
  | cons c rest =>
    have hc : (isNameChar c || startsEscape (c :: rest)) = true := h
    rw [readName]
    split
    · exact List.cons_ne_nil _ _
    · next hname =>
      rw [Bool.not_eq_true] at hname
      rw [hname, Bool.false_or] at hc
      rw [if_pos hc]
      exact List.cons_ne_nil _ _

/-- Where an identifier starts, a name goes on. -/
theorem continuesName_of_startsIdent (h : startsIdent text = true) : continuesName text = true := by
  cases text with
  | nil => cases h
  | cons c rest =>
    rw [startsIdent_cons] at h
    split at h
    · next hc =>
      subst hc
      rfl
    · rw [continuesName, List.head?_cons, Option.any_some]
      rcases Bool.or_eq_true_iff.1 h with h | h
      · rw [isNameChar_of_startsName h, Bool.true_or]
      · rw [h, Bool.or_true]

/-- What is read where a name goes on is a name. -/
theorem isName_readName (h : '\x00' ∉ text) (hgoes : continuesName text = true) :
    IsName (readName text).1 :=
  ⟨readName_ne_nil hgoes, null_not_mem_readName h⟩

/-- A name that does not start like an identifier starts like a number. -/
theorem startsNumeric_readName (hgoes : continuesName text = true) (hident : startsIdent text = false) :
    StartsNumeric (readName text).1 := by
  have hdigit : ∀ {d : Char}, isNameChar d = true → startsName d = false → d ≠ '-' →
      d.isDigit = true := by
    intro d hd hname hhyphen
    simpa [isNameChar, hname, hhyphen] using hd
  cases text with
  | nil => cases hgoes
  | cons c rest =>
    rw [startsIdent_cons] at hident
    split at hident
    · next hc =>
      subst hc
      obtain ⟨hhead, hescape⟩ := Bool.or_eq_false_iff.1 hident
      have hread : readName ('-' :: rest) = ('-' :: (readName rest).1, (readName rest).2) := by
        rw [readName, if_pos (by decide)]
      refine ⟨'-', (readName rest).1, congrArg Prod.fst hread, .inr ⟨rfl, fun e he => ?_⟩⟩
      cases rest with
      | nil => simp [readName] at he
      | cons d rest =>
        obtain ⟨hname, hhyphen⟩ : startsName d = false ∧ d ≠ '-' := by simpa using hhead
        rw [readName] at he
        split at he
        · next hd =>
          obtain rfl : d = e := by simpa using he
          exact hdigit hd hname hhyphen
        · rw [hescape] at he
          cases he
    · next hc =>
      obtain ⟨hname, hescape⟩ := Bool.or_eq_false_iff.1 hident
      have hchar : isNameChar c = true := by
        rwa [continuesName, hescape, Bool.or_false] at hgoes
      refine ⟨c, (readName rest).1, ?_, .inl (hdigit hchar hname hc)⟩
      rw [readName, if_pos hchar]

/-! ## Strings and URLs -/

/-- A string read off a text without null characters holds none. -/
theorem null_not_mem_readString {quote : Char} (h : '\x00' ∉ text) :
    '\x00' ∉ (readString quote text).value := by
  fun_induction readString quote text with
  | case1 => exact List.not_mem_nil
  | case2 => exact List.not_mem_nil
  | case3 => exact List.not_mem_nil
  | case4 after _ ih => exact ih fun hc => h (.tail _ (.tail _ hc))
  | case5 d after _ _ escape ih =>
    have hrest : '\x00' ∉ d :: after := fun hc => h (.tail _ hc)
    exact List.not_mem_cons_of_ne_of_not_mem (readEscape_ne_null hrest).symm
      (ih fun hc => hrest ((readEscape_suffix _).subset hc))
  | case6 => exact List.not_mem_nil
  | case7 c rest _ _ _ ih =>
    exact List.not_mem_cons_of_ne_of_not_mem (fun hc => h (hc ▸ .head _)) (ih fun hc => h (.tail _ hc))

/-- A URL read off a text without null characters holds none. -/
theorem null_not_mem_readUrl (h : '\x00' ∉ text) : '\x00' ∉ (readUrl text).value := by
  have hbody : ∀ {text : List Char}, '\x00' ∉ text → '\x00' ∉ (readUrlBody text).value := by
    intro text h
    fun_induction readUrlBody text with
    | case1 => exact List.not_mem_nil
    | case2 => exact List.not_mem_nil
    | case3 c rest =>
      unfold finishUrl
      split <;> exact List.not_mem_nil
    | case4 c rest _ _ _ escape ih =>
      have hrest : '\x00' ∉ rest := fun hc => h (.tail _ hc)
      exact List.not_mem_cons_of_ne_of_not_mem (readEscape_ne_null hrest).symm
        (ih fun hc => hrest ((readEscape_suffix rest).subset hc))
    | case5 => exact List.not_mem_nil
    | case6 c rest _ _ _ _ ih =>
      exact List.not_mem_cons_of_ne_of_not_mem (fun hc => h (hc ▸ .head _))
        (ih fun hc => h (.tail _ hc))
  exact hbody fun hc => h ((List.dropWhile_suffix isSpace).subset hc)

/-! ## Ranges -/

/-- No more question marks are read than the limit allows. -/
theorem spanQuestionMarks_le (limit : Nat) (text : List Char) :
    (spanQuestionMarks limit text).1 ≤ limit := by
  fun_induction spanQuestionMarks limit text with
  | case1 limit rest more ih => exact Nat.succ_le_succ ih
  | case2 => exact Nat.zero_le _

/-- A Unicode range comes out well-formed. -/
theorem formed_readUnicodeRange (text : List Char) : (readUnicodeRange text).1.Formed := by
  have hlength := length_spanHex_fst_le 6 text
  have hmarks := spanQuestionMarks_le (6 - (spanHex 6 text).1.length) (spanHex 6 text).2
  unfold readUnicodeRange
  simp only
  split
  · exact ⟨hexNumber_lt (by simp; omega), hexNumber_lt (by simp; omega)⟩
  · split
    · next d more _ =>
      split
      · exact ⟨hexNumber_lt hlength, hexNumber_lt (length_spanHex_fst_le 6 _)⟩
      · exact ⟨hexNumber_lt hlength, hexNumber_lt hlength⟩
    · exact ⟨hexNumber_lt hlength, hexNumber_lt hlength⟩

/-! ## Tokens -/

/-- The tokens of a URL come out well-formed. -/
theorem formed_lexUrl (h : '\x00' ∉ text) : ∀ t ∈ (lexUrl text).1, t.Formed := by
  have hvalue := null_not_mem_readUrl h
  unfold lexUrl
  simp only
  split
  · exact List.forall_mem_singleton.2 hvalue
  · exact List.forall_mem_cons.2 ⟨hvalue, List.forall_mem_singleton.2 trivial⟩
  · exact List.forall_mem_singleton.2 trivial

/-- The tokens of a string come out well-formed. -/
theorem formed_lexString {quote : Char} (h : '\x00' ∉ text) :
    ∀ t ∈ (lexString quote text).1, t.Formed := by
  have hvalue := @null_not_mem_readString text quote h
  unfold lexString
  simp only
  split
  · exact List.forall_mem_singleton.2 hvalue
  · exact List.forall_mem_cons.2 ⟨hvalue, List.forall_mem_singleton.2 trivial⟩
  · exact List.forall_mem_singleton.2 trivial

/-- The tokens that an identifier starts come out well-formed. -/
theorem formed_lexIdent (h : '\x00' ∉ text) (hstarts : startsIdent text = true) :
    ∀ t ∈ (lexIdent text).1, t.Formed := by
  have hname := isName_readName h (continuesName_of_startsIdent hstarts)
  unfold lexIdent
  simp only
  split
  · next rest hrest =>
    split
    · refine formed_lexUrl fun hc => h ((readName_suffix text).subset ?_)
      rw [hrest]
      exact .tail _ hc
    · exact List.forall_mem_singleton.2 hname
  · exact List.forall_mem_singleton.2 hname

/-- The tokens of a numeral come out well-formed. -/
theorem formed_lexNumeric {numeral : List Char} (hnumeral : IsNumber numeral) (h : '\x00' ∉ rest) :
    ∀ t ∈ (lexNumeric numeral rest).1, t.Formed := by
  unfold lexNumeric
  split
  · next hstarts =>
    exact List.forall_mem_singleton.2
      ⟨hnumeral, isName_readName h (continuesName_of_startsIdent hstarts)⟩
  · split <;> exact List.forall_mem_singleton.2 hnumeral

/-- A literal of one character comes out well-formed. -/
theorem formed_mark (hmark : isMark c = true) (hnormal : c ∉ ['\r', '\x0c', '\x00'])
    (rest : List Char) :
    ∀ t ∈ (lexLiteral [c] rest).1, t.Formed :=
  List.forall_mem_singleton.2 (.inr (.inr ⟨c, rfl, hmark, List.forall_mem_singleton.2 hnormal⟩))

/-- A literal of several characters comes out well-formed. -/
theorem formed_longMark (h : text ∈ longMarks) (rest : List Char) :
    ∀ t ∈ (lexLiteral text rest).1, t.Formed :=
  List.forall_mem_singleton.2 (.inr (.inl h))

/-- An operator comes out well-formed, with an equals sign behind it or without. -/
theorem formed_lexOperator (hmark : isMark c = true) (hnormal : c ∉ ['\r', '\x0c', '\x00'])
    (hlong : [c, '='] ∈ longMarks) (rest : List Char) : ∀ t ∈ (lexOperator c rest).1, t.Formed := by
  unfold lexOperator
  split
  · exact formed_longMark hlong _
  · exact formed_mark hmark hnormal rest

/-- A symbol that starts neither white space, an identifier nor a number. -/
theorem formed_lexSymbol (hspace : isSpace c = false) (hname : startsName c = false)
    (hdigit : c.isDigit = false) (h : IsNormal (c :: rest)) : ∀ t ∈ (lexSymbol c rest).1, t.Formed := by
  obtain ⟨hnormal, hrest⟩ := List.forall_mem_cons.1 h
  have hnull : '\x00' ∉ rest := fun hc => hrest _ hc (by decide)
  have hopen : ∀ b : Bracket, ∀ t ∈ [Token.opening (.bracket b)], t.Formed :=
    fun _ => List.forall_mem_singleton.2 trivial
  have hclose : ∀ b : Bracket, ∀ t ∈ [Token.closing b], t.Formed :=
    fun _ => List.forall_mem_singleton.2 trivial
  fun_cases lexSymbol c rest with
  | case1 rest hstarts name =>
    exact List.forall_mem_singleton.2 (isName_readName hnull (continuesName_of_startsIdent hstarts))
  | case2 rest => exact formed_mark (by decide) hnormal rest
  | case3 rest hgoes name =>
    exact List.forall_mem_singleton.2 ⟨isName_readName hnull hgoes, startsNumeric_readName hgoes⟩
  | case4 rest => exact formed_mark (by decide) hnormal rest
  | case5 => exact hopen .curly
  | case6 => exact hopen .square
  | case7 => exact hopen .round
  | case8 => exact hclose .curly
  | case9 => exact hclose .square
  | case10 => exact hclose .round
  | case11 => exact formed_lexString hnull
  | case12 => exact formed_lexString hnull
  | case13 => exact List.forall_mem_nil _
  | case14 rest => exact formed_mark (by decide) hnormal rest
  | case15 after => exact formed_longMark (by decide) after
  | case16 rest => exact formed_mark (by decide) hnormal rest
  | case17 after => exact formed_longMark (by decide) after
  | case18 rest => exact formed_lexOperator (by decide) hnormal (by decide) rest
  | case19 rest => exact formed_lexOperator (by decide) hnormal (by decide) rest
  | case20 rest => exact formed_lexOperator (by decide) hnormal (by decide) rest
  | case21 rest => exact formed_lexOperator (by decide) hnormal (by decide) rest
  | case22 rest => exact formed_lexOperator (by decide) hnormal (by decide) rest
  | case23 _ _ _ _ hopenCurly hopenSquare hopenRound hcurly hsquare hround hdouble hquote =>
    by_cases hslash : c = '\\'
    · subst hslash
      exact List.forall_mem_singleton.2 (.inl rfl)
    · refine formed_mark (isMark_iff.2 ⟨hspace, hname, hdigit, ?_⟩) hnormal _
      simp only [delimiters, List.mem_cons, List.not_mem_nil, or_false, not_or]
      exact ⟨hslash, hdouble, hquote, hopenRound, hround, hopenSquare, hsquare, hopenCurly, hcurly⟩

/-- The tokens of a whole lexeme come out well-formed. -/
theorem formed_readToken (h : IsNormal (c :: rest)) : ∀ t ∈ (readToken c rest).1, t.Formed := by
  have hnull : '\x00' ∉ c :: rest := fun hc => h _ hc (by decide)
  rcases readToken_cases c rest with hspace | ⟨hspace, hrange⟩ | ⟨rfl, after, rfl⟩ | hword
  · rw [readToken_space hspace]
    exact List.forall_mem_singleton.2 ⟨List.cons_ne_nil _ _,
      List.forall_mem_cons.2 ⟨hspace, List.all_eq_true.1 List.all_takeWhile⟩⟩
  · rw [readToken_range hspace hrange]
    exact List.forall_mem_singleton.2 (formed_readUnicodeRange _)
  · rw [readToken_mark]
    exact List.forall_mem_singleton.2 (.inr (.inl (by decide)))
  · rw [readToken_word hword]
    split
    · next hstarts => exact formed_lexIdent hnull hstarts
    · next hident =>
      split
      · next numeral after hnumber =>
        refine formed_lexNumeric ?_ fun hc => hnull ?_
        · exact exists_of_readNumber? hnumber
        · rw [← readNumber?_append hnumber]
          exact List.mem_append_right _ hc
      · next hnumber =>
        refine formed_lexSymbol hword.1 ?_ ?_ h
        · by_contra hname
          rw [Bool.not_eq_false] at hname
          have hhyphen : c ≠ '-' := by
            rintro rfl
            cases hname
          exact hident (by rw [startsIdent_cons, if_neg hhyphen, hname, Bool.true_or])
        · by_contra hdigit
          rw [Bool.not_eq_false] at hdigit
          exact readNumber?_of_isDigit hdigit rest hnumber

/-- All tokens of a preprocessed text come out well-formed. -/
theorem formed_scan (h : IsNormal text) : ∀ t ∈ scan text, t.Formed := by
  fun_induction scan text with
  | case1 => exact List.forall_mem_nil _
  | case2 c rest lexed ih =>
    have hsubset := (readToken_suffix c rest).subset
    exact List.forall_mem_append.2 ⟨formed_readToken h, ih fun d hd => h d (.tail _ (hsubset hd))⟩

/-! ## Texts with nothing to normalize -/

/-- Preprocessing gives a preprocessed text. -/
theorem isNormal_normalize (text : List Char) : IsNormal (normalize text) := by
  fun_induction normalize text with
  | case1 => exact isNormal_nil
  | case2 rest ih => exact .cons (by decide) ih
  | case3 c rest _ ih =>
    refine .cons ?_ ih
    split
    · decide
    · next hline =>
      split
      · decide
      · next hnull =>
        simp only [Bool.or_eq_true, decide_eq_true_eq, not_or] at hline
        simpa using ⟨hline.1, hline.2, fun h => hnull (h ▸ rfl)⟩

/-- A text of characters that the test accepts is preprocessed if the test refuses the others. -/
theorem isNormal_of_forall {p : Char → Bool} (hp : (['\r', '\x0c', '\x00'].all fun c => !p c) = true)
    (h : ∀ c ∈ text, p c = true) : IsNormal text :=
  fun c hc => not_mem_of_refused hp (h c hc)

/-- A text is preprocessed if none of its characters would be rewritten. -/
theorem isNormal_of_all (h : (text.all fun c => decide (c ∉ ['\r', '\x0c', '\x00'])) = true) :
    IsNormal text :=
  fun c hc => of_decide_eq_true (List.all_eq_true.1 h c hc)

/-- A spelling of a name without null characters is preprocessed. -/
theorem Spells.isNormal {short : Bool} {name : List Char} (h : Spells short text name)
    (hnull : '\x00' ∉ name) : IsNormal text := by
  have hhex : ∀ {digits : List Char} {c : Char}, IsCode digits c → IsNormal digits :=
    fun hdigits => isNormal_of_forall (by decide) hdigits.hex
  induction h with
  | nil => exact isNormal_nil
  | @char _ c _ _ hc _ ih =>
    have hchar : IsNormal [c] := isNormal_of_forall (by decide) (List.forall_mem_singleton.2 hc)
    exact hchar.append (ih fun hmem => hnull (.tail _ hmem))
  | @escape _ c _ _ _ hcode _ ih =>
    refine .cons (by decide) (.cons ?_ (ih fun hmem => hnull (.tail _ hmem)))
    simp only [codedChars, List.mem_cons, List.not_mem_nil, or_false, not_or] at hcode hnull ⊢
    exact ⟨hcode.2.1, hcode.2.2, Ne.symm hnull.1⟩
  | code hdigits _ ih =>
    exact .cons (by decide) ((hhex hdigits).append
      (.cons (by decide) (ih fun hmem => hnull (.tail _ hmem))))
  | lastCode hdigits => exact .cons (by decide) (hhex hdigits)

/-- A unit without null characters is written as a preprocessed text. -/
theorem isNormal_unitText {unit : List Char} (hnull : '\x00' ∉ unit) : IsNormal (unitText unit) := by
  unfold unitText
  split
  · refine .cons (by decide) (.cons (by decide) (.cons (by decide) (.cons (by decide) ?_)))
    exact (spells_nameText _).isNormal fun hmem => hnull (List.mem_of_mem_drop hmem)
  · exact (spells_identifierText unit).isNormal hnull

/-- A character of a URL is written as a preprocessed text. -/
theorem isNormal_urlCharText (hc : c ≠ '\x00') : IsNormal (urlCharText c) := by
  by_cases htab : c = '\t'
  · subst htab
    exact isNormal_of_all (by decide)
  · by_cases hescape : c ∈ urlEscapes
    · have hall : (urlEscapes.all fun d => (escapeText d).all
          fun c => decide (c ∉ ['\r', '\x0c', '\x00'])) = true := by decide
      rw [urlCharText_of_mem hescape]
      exact isNormal_of_all (List.all_eq_true.1 hall c hescape)
    · rw [urlCharText_of_not_mem htab hescape]
      simp only [urlEscapes, List.mem_cons, List.not_mem_nil, or_false, not_or] at hescape
      exact .cons (by simpa using ⟨hescape.2.1, hescape.2.2.1, hc⟩) isNormal_nil

/-- What is written character by character is preprocessed if each piece of it is. -/
theorem isNormal_flatMap {f : Char → List Char} (h : ∀ c ∈ text, IsNormal (f c)) :
    IsNormal (text.flatMap f) := by
  intro d hd
  obtain ⟨c, hc, hd⟩ := List.mem_flatMap.1 hd
  exact h c hc d hd

/-- A numeral is preprocessed. -/
theorem IsNumber.isNormal {numeral : List Char} (h : IsNumber numeral) : IsNormal numeral := by
  obtain ⟨sign, whole, fraction, exponent, hparts, rfl⟩ := h
  have hall : (['+', '-', '.', 'e', 'E'].all fun c => decide (c ∉ ['\r', '\x0c', '\x00'])) =
      true := by decide
  refine hparts.forall_mem (fun c hc => ?_) fun c hc => of_decide_eq_true (List.all_eq_true.1 hall c hc)
  exact isNormal_of_forall (by decide) (List.forall_mem_singleton.2 hc) c List.mem_cons_self

/-- A well-formed token is written as a preprocessed text. -/
theorem Token.Formed.isNormal {t : Token} (h : t.Formed) : IsNormal t.text := by
  have hidentifier : ∀ {name : List Char}, IsName name → IsNormal (identifierText name) :=
    fun hname => (spells_identifierText _).isNormal hname.null
  cases t with
  | opening o =>
    cases o with
    | bracket b => cases b <;> exact isNormal_of_all (by decide)
    | function name => exact (hidentifier h).append (.cons (by decide) isNormal_nil)
  | closing b => cases b <;> exact isNormal_of_all (by decide)
  | atom a =>
    cases a with
    | space white => exact isNormal_of_forall (by decide) h.2
    | literal text =>
      rcases h with rfl | hlong | ⟨c, rfl, -, hnormal⟩
      · exact isNormal_of_all (by decide)
      · have hall : (longMarks.all fun text => text.all
            fun c => decide (c ∉ ['\r', '\x0c', '\x00'])) = true := by decide
        exact isNormal_of_all (List.all_eq_true.1 hall text hlong)
      · exact hnormal
    | ident name => exact hidentifier h
    | atKeyword name => exact .cons (by decide) (hidentifier h)
    | hash name isIdent =>
      refine .cons (by decide) ?_
      split
      · exact hidentifier h.1
      · exact (spells_nameText _).isNormal h.1.null
    | string value closed =>
      refine .cons (by decide) (.append (isNormal_flatMap fun c hc => ?_) ?_)
      · exact not_mem_changed_stringCharText fun hnull => h (hnull ▸ hc)
      · split <;> exact isNormal_of_all (by decide)
    | url value closed =>
      refine .append (a := ['u', 'r', 'l', '(']) (isNormal_of_all (by decide))
        (.append (isNormal_flatMap fun c hc => ?_) ?_)
      · exact isNormal_urlCharText fun hnull => h (hnull ▸ hc)
      · split <;> exact isNormal_of_all (by decide)
    | unicodeRange first last =>
      have hhex : ∀ n, IsNormal (hexUpper 1 n) :=
        fun n => isNormal_of_forall (by decide) fun c hc => isHexDigit_of_mem_hexUpper hc
      refine .cons (by decide) (.cons (by decide) (.append (hhex first) ?_))
      split
      · exact isNormal_nil
      · exact .cons (by decide) (hhex last)
    | number numeral => exact IsNumber.isNormal h
    | percentage numeral => exact (IsNumber.isNormal h).append (.cons (by decide) isNormal_nil)
    | dimension numeral unit => exact h.1.isNormal.append (isNormal_unitText h.2.null)
    | fault f =>
      cases f with
      | unmatched b => cases b <;> exact isNormal_of_all (by decide)
      | badString => exact isNormal_of_all (by decide)
      | badUrl => exact isNormal_of_all (by decide)
      | openString => exact isNormal_nil
      | openUrl => exact isNormal_nil

end

end CssTemplate.Css
