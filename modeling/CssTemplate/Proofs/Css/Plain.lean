import CssTemplate.Proofs.Css.Grouping
import CssTemplate.Proofs.Css.RecoloredTokens

/-!
# Texts without escapes

In a text without backslashes a name is what it is written as. So the names, strings and URLs of its
components hold only characters that need no escape when they are written again, with one exception:
a double quote in a string that was written in single quotes. `plain_parse` says so for all components
of such a text.
-/

namespace CssTemplate.Css

/-- A text without backslashes whose line ends are normalized. -/
structure Unescaped (text : List Char) : Prop where
  backslash : '\\' ∉ text
  lineEnd : '\r' ∉ text
  formFeed : '\x0c' ∉ text

/-- A part of an unescaped text is unescaped. -/
theorem Unescaped.of_subset {text part : List Char} (h : Unescaped text) (hpart : part ⊆ text) :
    Unescaped part :=
  ⟨fun hc => h.backslash (hpart hc), fun hc => h.lineEnd (hpart hc),
    fun hc => h.formFeed (hpart hc)⟩

/-- Preprocessing a text without backslashes gives an unescaped text. -/
theorem unescaped_normalize {text : List Char} (h : '\\' ∉ text) : Unescaped (normalize text) := by
  have hchars : ∀ c ∈ normalize text, c ≠ '\\' ∧ c ≠ '\r' ∧ c ≠ '\x0c' := by
    intro c hc
    rcases mem_of_mem_normalize hc with ⟨hmem, hreturn, hfeed⟩ | rfl | rfl
    · exact ⟨fun hc => h (hc ▸ hmem), hreturn, hfeed⟩
    · decide
    · decide
  exact ⟨fun hc => (hchars _ hc).1 rfl, fun hc => (hchars _ hc).2.1 rfl,
    fun hc => (hchars _ hc).2.2 rfl⟩

/-! ## Names -/

/-- A name that is an identifier without escapes. -/
structure PlainIdent (name : List Char) : Prop where
  starts : startsIdent name = true
  chars : ∀ c ∈ name, isNameChar c = true

/-- No escape starts in a text without backslashes. -/
theorem startsEscape_of_not_mem {text : List Char} (h : '\\' ∉ text) : startsEscape text = false := by
  cases text with
  | nil => rfl
  | cons c rest =>
    have hc : c ≠ '\\' := fun hc => h (hc ▸ .head _)
    rw [startsEscape_cons, beq_eq_false_iff_ne.2 hc, Bool.false_and]

/-- Without backslashes a name is the longest run of name characters. -/
theorem readName_of_not_mem {text : List Char} (h : '\\' ∉ text) :
    readName text = (text.takeWhile isNameChar, text.dropWhile isNameChar) := by
  induction text with
  | nil => simp [readName]
  | cons c rest ih =>
    rw [readName, startsEscape_of_not_mem h, ih fun hc => h (.tail _ hc)]
    cases hc : isNameChar c with
    | true => simp [hc]
    | false => simp [hc]

/-- Without backslashes a name holds name characters only. -/
theorem isNameChar_of_mem_readName {text : List Char} (h : '\\' ∉ text) {c : Char}
    (hc : c ∈ (readName text).1) : isNameChar c = true := by
  rw [readName_of_not_mem h] at hc
  exact List.all_eq_true.1 List.all_takeWhile c hc

/-- A character that starts a name is a name character. -/
theorem isNameChar_of_startsName {c : Char} (h : startsName c = true) : isNameChar c = true := by
  rw [isNameChar, h, Bool.true_or, Bool.true_or]

/-- Without backslashes an identifier read back starts as one. -/
theorem startsIdent_readName {text : List Char} (h : '\\' ∉ text) (hstarts : startsIdent text = true) :
    startsIdent (readName text).1 = true := by
  rw [readName_of_not_mem h]
  cases text with
  | nil => cases hstarts
  | cons c rest =>
    have hrest : '\\' ∉ rest := fun hc => h (.tail _ hc)
    rw [startsIdent_cons, startsEscape_of_not_mem h, startsEscape_of_not_mem hrest, Bool.or_false,
      Bool.or_false] at hstarts
    by_cases hyphen : c = '-'
    · subst hyphen
      rw [if_pos rfl] at hstarts
      cases rest with
      | nil => cases hstarts
      | cons d rest =>
        have hd : (startsName d || d == '-') = true := hstarts
        have hname : isNameChar d = true := by
          rw [Bool.or_eq_true, beq_iff_eq] at hd
          rcases hd with hd | rfl
          · exact isNameChar_of_startsName hd
          · decide
        rw [List.takeWhile_cons_of_pos (by decide), List.takeWhile_cons_of_pos hname,
          startsIdent_cons, if_pos rfl, List.head?_cons, Option.any_some, hd, Bool.true_or]
    · rw [if_neg hyphen] at hstarts
      rw [List.takeWhile_cons_of_pos (isNameChar_of_startsName hstarts), startsIdent_cons,
        if_neg hyphen, hstarts, Bool.true_or]

/-- Without backslashes an identifier is plain. -/
theorem plainIdent_readName {text : List Char} (h : '\\' ∉ text)
    (hstarts : startsIdent text = true) : PlainIdent (readName text).1 :=
  ⟨startsIdent_readName h hstarts, fun _ hc => isNameChar_of_mem_readName h hc⟩

/-! ## Strings, URLs and numbers -/

/-- Without backslashes a string holds characters of the text only, and no line end. -/
theorem readString_of_not_mem {quote : Char} {text : List Char} (h : '\\' ∉ text) :
    ∀ c ∈ (readString quote text).value, c ∈ text ∧ c ≠ '\n' := by
  fun_induction readString quote text with
  | case1 => exact List.forall_mem_nil _
  | case2 => exact List.forall_mem_nil _
  | case3 => exact List.forall_mem_nil _
  | case4 => exact absurd (.head _) h
  | case5 => exact absurd (.head _) h
  | case6 => exact List.forall_mem_nil _
  | case7 c rest hquote hbackslash hline ih =>
    refine List.forall_mem_cons.2 ⟨⟨.head _, hline⟩, fun d hd => ?_⟩
    obtain ⟨hmem, hd⟩ := ih (fun hc => h (.tail _ hc)) d hd
    exact ⟨.tail _ hmem, hd⟩

/-- A character that an unquoted URL can hold as it is. -/
structure UrlChar (c : Char) : Prop where
  notClose : c ≠ ')'
  notSpace : isSpace c = false
  allowed : isUrlForbidden c = false

/-- Without backslashes a URL holds characters of the text only, all of them allowed in URLs. -/
theorem readUrlBody_of_not_mem {text : List Char} (h : '\\' ∉ text) :
    ∀ c ∈ (readUrlBody text).value, c ∈ text ∧ UrlChar c := by
  have hfinish : ∀ rest, (finishUrl rest).value = [] := by
    intro rest
    unfold finishUrl
    split <;> rfl
  fun_induction readUrlBody text with
  | case1 => exact List.forall_mem_nil _
  | case2 => exact List.forall_mem_nil _
  | case3 c rest =>
    rw [hfinish]
    exact List.forall_mem_nil _
  | case4 c rest _ _ hescape =>
    rw [startsEscape_of_not_mem h] at hescape
    cases hescape
  | case5 => exact List.forall_mem_nil _
  | case6 c rest hclose hspace _ hallowed ih =>
    refine List.forall_mem_cons.2 ⟨⟨.head _, hclose, ?_, ?_⟩, fun d hd => ?_⟩
    · simpa using hspace
    · simpa using hallowed
    · obtain ⟨hmem, hd⟩ := ih (fun hc => h (.tail _ hc)) d hd
      exact ⟨.tail _ hmem, hd⟩

/-- A sign and what follows it are the text. -/
theorem readSign_append (text : List Char) : (readSign text).1 ++ (readSign text).2 = text := by
  unfold readSign
  split <;> rfl

/-- Digits and what follows them are the text. -/
theorem digits_append (text : List Char) : digits text ++ afterDigits text = text :=
  List.takeWhile_append_dropWhile

/-- A mantissa and what follows it are the text. -/
theorem readMantissa?_append {text mantissa rest : List Char}
    (h : readMantissa? text = some (mantissa, rest)) : mantissa ++ rest = text := by
  have hplain : ∀ {m r : List Char},
      (if (digits text).isEmpty then none else some (digits text, afterDigits text)) = some (m, r) →
      m ++ r = text := by
    intro m r hm
    split at hm
    · cases hm
    · cases hm
      exact digits_append text
  unfold readMantissa? at h
  simp only at h
  split at h
  · next after hafter =>
    split at h
    · exact hplain h
    · cases h
      rw [List.append_assoc, List.cons_append, digits_append, ← hafter, digits_append]
  · exact hplain h

/-- An exponent and what follows it are the text. -/
theorem readExponent_append (text : List Char) :
    (readExponent text).1 ++ (readExponent text).2 = text := by
  unfold readExponent
  split
  · rfl
  · simp only
    split
    · split
      · rfl
      · rw [List.cons_append, List.append_assoc, digits_append, readSign_append]
    · rfl

/-- A number is written as it stands in the text. -/
theorem readNumber?_append {text numeral rest : List Char}
    (h : readNumber? text = some (numeral, rest)) : numeral ++ rest = text := by
  unfold readNumber? at h
  split at h
  · cases h
  · next mantissa after hmantissa =>
    cases h
    rw [List.append_assoc, readExponent_append, List.append_assoc, readMantissa?_append hmantissa,
      readSign_append]

/-! ## Tokens -/

/-- An atom as it can come out of a text without escapes. -/
def Atom.Plain : Atom → Prop
  | .space text => '\\' ∉ text
  | .literal text => '\\' ∉ text
  | .ident name => PlainIdent name
  | .atKeyword name => PlainIdent name
  | .hash name isIdent =>
    (∀ c ∈ name, isNameChar c = true) ∧ (isIdent = true → startsIdent name = true)
  | .string value _ => Unescaped value ∧ '\n' ∉ value
  | .url value _ => Unescaped value ∧ ∀ c ∈ value, UrlChar c
  | .number numeral => '\\' ∉ numeral
  | .percentage numeral => '\\' ∉ numeral
  | .dimension numeral unit => '\\' ∉ numeral ∧ PlainIdent unit
  | .unicodeRange _ _ => True
  | .fault _ => True

/-- An opening as it can come out of a text without escapes. -/
def Opening.Plain : Opening → Prop
  | .bracket _ => True
  | .function name => PlainIdent name

/-- A token as it can come out of a text without escapes. -/
def Token.Plain : Token → Prop
  | .atom a => a.Plain
  | .opening o => o.Plain
  | .closing _ => True

/-- The tokens of a URL are plain. -/
theorem plain_lexUrl {text : List Char} (h : Unescaped text) : ∀ t ∈ (lexUrl text).1, t.Plain := by
  have hvalue : (Atom.url (readUrl text).value true).Plain := by
    have hsubset := (List.dropWhile_suffix isSpace (l := text)).subset
    have hbody := readUrlBody_of_not_mem fun hc => h.backslash (hsubset hc)
    exact ⟨h.of_subset fun c hc => hsubset (hbody c hc).1, fun c hc => (hbody c hc).2⟩
  unfold lexUrl
  simp only
  split
  · exact List.forall_mem_singleton.2 hvalue
  · exact List.forall_mem_cons.2 ⟨hvalue, List.forall_mem_singleton.2 trivial⟩
  · exact List.forall_mem_singleton.2 trivial

/-- The tokens of a string are plain. -/
theorem plain_lexString {quote : Char} {text : List Char} (h : Unescaped text) :
    ∀ t ∈ (lexString quote text).1, t.Plain := by
  have hvalue : (Atom.string (readString quote text).value true).Plain := by
    have hread := @readString_of_not_mem quote text h.backslash
    exact ⟨h.of_subset fun c hc => (hread c hc).1, fun hc => (hread _ hc).2 rfl⟩
  unfold lexString
  simp only
  split
  · exact List.forall_mem_singleton.2 hvalue
  · exact List.forall_mem_cons.2 ⟨hvalue, List.forall_mem_singleton.2 trivial⟩
  · exact List.forall_mem_singleton.2 trivial

/-- The tokens that an identifier starts are plain. -/
theorem plain_lexIdent {text : List Char} (h : Unescaped text) (hstarts : startsIdent text = true) :
    ∀ t ∈ (lexIdent text).1, t.Plain := by
  have hname := plainIdent_readName h.backslash hstarts
  unfold lexIdent
  simp only
  split
  · next rest hrest =>
    split
    · refine plain_lexUrl (h.of_subset fun c hc => (readName_suffix text).subset ?_)
      rw [hrest]
      exact .tail _ hc
    · exact List.forall_mem_singleton.2 hname
  · exact List.forall_mem_singleton.2 hname

/-- The tokens of a numeral are plain. -/
theorem plain_lexNumeric {numeral rest : List Char} (hnumeral : '\\' ∉ numeral) (h : Unescaped rest) :
    ∀ t ∈ (lexNumeric numeral rest).1, t.Plain := by
  unfold lexNumeric
  split
  · next hstarts =>
    exact List.forall_mem_singleton.2 ⟨hnumeral, plainIdent_readName h.backslash hstarts⟩
  · split <;> exact List.forall_mem_singleton.2 hnumeral

/-- The tokens of an operator are plain. -/
theorem plain_lexOperator {c : Char} (hc : c ≠ '\\') (rest : List Char) :
    ∀ t ∈ (lexOperator c rest).1, t.Plain := by
  unfold lexOperator
  split
  · refine List.forall_mem_singleton.2 ?_
    simpa [Token.Plain, Atom.Plain] using Ne.symm hc
  · refine List.forall_mem_singleton.2 ?_
    simpa [Token.Plain, Atom.Plain] using Ne.symm hc

/-- The tokens of any other character are plain. -/
theorem plain_lexSymbol {c : Char} {rest : List Char} (hc : c ≠ '\\') (h : Unescaped rest) :
    ∀ t ∈ (lexSymbol c rest).1, t.Plain := by
  have hliteral : ∀ {text : List Char}, '\\' ∉ text → ∀ after, ∀ t ∈ (lexLiteral text after).1,
      t.Plain := fun htext _ => List.forall_mem_singleton.2 htext
  have hopen : ∀ b : Bracket, ∀ t ∈ [Token.opening (.bracket b)], t.Plain :=
    fun _ => List.forall_mem_singleton.2 trivial
  have hclose : ∀ b : Bracket, ∀ t ∈ [Token.closing b], t.Plain :=
    fun _ => List.forall_mem_singleton.2 trivial
  fun_cases lexSymbol c rest with
  | case1 rest hstarts name =>
    exact List.forall_mem_singleton.2 (plainIdent_readName h.backslash hstarts)
  | case2 rest => exact hliteral (by decide) rest
  | case3 rest _ name =>
    exact List.forall_mem_singleton.2 ⟨fun c hc => isNameChar_of_mem_readName h.backslash hc,
      startsIdent_readName h.backslash⟩
  | case4 rest => exact hliteral (by decide) rest
  | case5 => exact hopen .curly
  | case6 => exact hopen .square
  | case7 => exact hopen .round
  | case8 => exact hclose .curly
  | case9 => exact hclose .square
  | case10 => exact hclose .round
  | case11 => exact plain_lexString h
  | case12 => exact plain_lexString h
  | case13 => exact List.forall_mem_nil _
  | case14 rest => exact hliteral (by decide) rest
  | case15 after => exact hliteral (by decide) after
  | case16 rest => exact hliteral (by decide) rest
  | case17 after => exact hliteral (by decide) after
  | case18 rest => exact plain_lexOperator hc rest
  | case19 rest => exact plain_lexOperator hc rest
  | case20 rest => exact plain_lexOperator hc rest
  | case21 rest => exact plain_lexOperator hc rest
  | case22 rest => exact plain_lexOperator hc rest
  | case23 rest => exact hliteral (by simpa using Ne.symm hc) _

/-- The tokens of a whole lexeme are plain. -/
theorem plain_readToken {c : Char} {rest : List Char} (h : Unescaped (c :: rest)) :
    ∀ t ∈ (readToken c rest).1, t.Plain := by
  have hrest : Unescaped rest := h.of_subset (List.subset_cons_self c rest)
  have hc : c ≠ '\\' := fun hc => h.backslash (hc ▸ .head _)
  rcases readToken_cases c rest with hspace | ⟨hspace, hrange⟩ | ⟨rfl, after, rfl⟩ | hword
  · rw [readToken_space hspace]
    refine List.forall_mem_singleton.2 fun hmem => ?_
    rcases List.mem_cons.1 hmem with hmem | hmem
    · exact hc hmem.symm
    · exact hrest.backslash ((List.takeWhile_prefix isSpace).subset hmem)
  · rw [readToken_range hspace hrange]
    refine List.forall_mem_singleton.2 ?_
    unfold readUnicodeRange
    simp only
    split
    · trivial
    · split
      · split <;> trivial
      · trivial
  · rw [readToken_mark]
    exact List.forall_mem_singleton.2 (by simp [Token.Plain, Atom.Plain])
  · rw [readToken_word hword]
    split
    · next hstarts => exact plain_lexIdent h hstarts
    · split
      · next numeral after hnumber =>
        have happend := readNumber?_append hnumber
        refine plain_lexNumeric (fun hmem => h.backslash ?_) (h.of_subset fun d hd => ?_)
        · rw [← happend]
          exact List.mem_append_left _ hmem
        · rw [← happend]
          exact List.mem_append_right _ hd
      · exact plain_lexSymbol hc hrest

/-- All tokens of an unescaped text are plain. -/
theorem plain_scan {text : List Char} (h : Unescaped text) : ∀ t ∈ scan text, t.Plain := by
  fun_induction scan text with
  | case1 => exact List.forall_mem_nil _
  | case2 c rest lexed ih =>
    have hsubset := (readToken_suffix c rest).subset
    exact List.forall_mem_append.2 ⟨plain_readToken h,
      ih (h.of_subset fun d hd => .tail _ (hsubset hd))⟩

/-! ## Components -/

mutual

/-- A component as it can come out of a text without escapes. -/
def Component.Plain : Component → Prop
  | .atom a => a.Plain
  | .group o content => o.Plain ∧ Component.PlainAll content

/-- Components as they can come out of a text without escapes. -/
def Component.PlainAll : List Component → Prop
  | [] => True
  | c :: cs => c.Plain ∧ Component.PlainAll cs

end

/-- A row is plain if each of its components is. -/
theorem Component.plainAll_iff {cs : List Component} :
    Component.PlainAll cs ↔ ∀ c ∈ cs, c.Plain := by
  induction cs with
  | nil => simp [Component.PlainAll]
  | cons c cs ih => simp [Component.PlainAll, ih]

/-- The components of a text without backslashes need no escapes when they are written again. -/
theorem plain_parse {css : List Char} (h : '\\' ∉ css) : ∀ c ∈ Component.parse css, c.Plain := by
  have hscan := plain_scan (unescaped_normalize h)
  refine Component.forall_ofTokens (P := Component.Plain) ?_ ?_ ?_
  · intro a ha
    exact hscan (.atom a) ha
  · intro b
    trivial
  · intro o content ho hcontent
    exact ⟨hscan (.opening o) ho, Component.plainAll_iff.2 hcontent⟩

end CssTemplate.Css
