import CssTemplate.Proofs.Css.Canonical

/-!
# Reading tidy texts

In a canonical text, a tidy part is read up to the character that ends it, as components whose minified
text is the part again (`Tidy.isRead`). The tokens of the part need not be those that it was
written from: characters may have run together. But a token is a run of characters and escapes, and so
it takes in whole pieces of a tidy text (`Tidy.exists_of_run`), up to a bracket at most; a URL takes in
its whole group (`Tidy.eq_of_url`).
-/

namespace CssTemplate.Css

/-! ## Cutting a tidy text -/

/-- The characters that end a tidy text where one stands. -/
def enders : List Char :=
  [')', ']', '{', ';', '!']

/-- Digits do not start with a character that is escapable. -/
theorem AreHexDigits.not_escapable {digits rest more : List Char} {c : Char} (h : AreHexDigits digits)
    (heq : digits ++ rest = c :: more) : isEscapable c = false := by
  obtain ⟨d, digits, rfl⟩ := List.exists_cons_of_ne_nil h.filled
  obtain ⟨rfl, -⟩ := List.cons.inj heq
  simp [isEscapable, h.hex d (.head _)]

/-- Digits up to a space are the same wherever a text is cut. -/
theorem AreHexDigits.eq_of_append_eq {a b rest more : List Char} (ha : AreHexDigits a)
    (hb : AreHexDigits b) (heq : a ++ ' ' :: rest = b ++ ' ' :: more) : a = b ∧ rest = more := by
  have hfront : ∀ {digits rest : List Char}, AreHexDigits digits →
      (digits ++ ' ' :: rest).takeWhile isHexDigit = digits := by
    intro digits rest h
    rw [List.takeWhile_append_of_pos h.hex, List.takeWhile_cons_of_neg (by decide), List.append_nil]
  have hab : a = b := by rw [← hfront ha, heq, hfront hb]
  subst hab
  exact ⟨rfl, (List.cons.inj (List.append_cancel_left heq)).2⟩

section

variable {p : Site} {start : Bool} {text rest after : List Char} {d : Char}

/-- A run at the front of a tidy text ends inside the text. -/
theorem Tidy.exists_of_run {run : List Char} (hrun : TokenRun run) (h : Tidy p start text)
    (hd : d ∈ enders) (heq : text ++ d :: after = run ++ rest) :
    ∃ more, text = run ++ more ∧ Tidy p false more ∧ rest = more ++ d :: after := by
  have henders : enders ⊆ tokenStops := by simp [enders, tokenStops]
  have hstarts : [' ', '"', '\\', '(', '['] ⊆ tokenStops := by simp [tokenStops]
  have hslash : d ≠ '\\' := by
    rintro rfl
    exact absurd hd (by decide)
  induction hrun generalizing start text with
  | nil => exact ⟨text, rfl, h.inside, heq.symm⟩
  | @char c run hc _ ih =>
    cases text with
    | nil =>
      obtain ⟨rfl, -⟩ := List.cons.inj heq
      exact absurd (henders hd) hc
    | cons c' text =>
      obtain ⟨rfl, htail⟩ := List.cons.inj heq
      obtain ⟨-, -, htext⟩ := h.of_cons fun hmem => hc (hstarts hmem)
      obtain ⟨more, rfl, hmore, hafter⟩ := ih htext htail
      exact ⟨more, rfl, hmore, hafter⟩
  | @escape c run hc _ ih =>
    cases text with
    | nil => exact absurd (List.cons.inj heq).1 hslash
    | cons c' text =>
      obtain ⟨rfl, -⟩ := List.cons.inj heq
      simp only [List.cons_append, List.cons.injEq, true_and] at heq
      rcases h.of_backslash with ⟨c', text, rfl, -, htext⟩ | ⟨digits, text, rfl, hdigits, -⟩
      · obtain ⟨rfl, htail⟩ := List.cons.inj heq
        obtain ⟨more, rfl, hmore, hafter⟩ := ih htext htail
        exact ⟨more, rfl, hmore, hafter⟩
      · obtain ⟨e, digits, rfl⟩ := List.exists_cons_of_ne_nil hdigits.filled
        obtain ⟨rfl, -⟩ := List.cons.inj heq
        rw [hdigits.hex e (.head _)] at hc
        cases hc
  | @code digits run hdigits _ ih =>
    cases text with
    | nil => exact absurd (List.cons.inj heq).1 hslash
    | cons c' text =>
      obtain ⟨rfl, -⟩ := List.cons.inj heq
      simp only [List.cons_append, List.append_assoc, List.cons.injEq, true_and] at heq
      rcases h.of_backslash with ⟨c, text, rfl, hescape, -⟩ | ⟨digits', text, rfl, hdigits', htext⟩
      · rw [hdigits.not_escapable heq.symm] at hescape
        cases hescape
      · rw [List.append_assoc, List.cons_append] at heq
        obtain ⟨rfl, htail⟩ := hdigits'.eq_of_append_eq hdigits heq
        obtain ⟨more, rfl, hmore, hafter⟩ := ih htext htail
        exact ⟨more, by simp, hmore, hafter⟩

/-- The first character of a run, if it is no backslash. -/
theorem Run.of_cons {stops run : List Char} (h : Run stops run) {c : Char}
    (heq : c :: rest = run ++ d :: after) (hc : c ≠ '\\') (hcd : c ≠ d) :
    c ∉ stops ∧ ∃ more, run = c :: more ∧ Run stops more ∧ rest = more ++ d :: after := by
  cases h with
  | nil => exact absurd (List.cons.inj heq).1 hcd
  | char hstop hrest =>
    obtain ⟨rfl, htail⟩ := List.cons.inj heq
    exact ⟨hstop, _, rfl, hrest, htail⟩
  | escape _ _ => exact absurd (List.cons.inj heq).1 hc
  | code _ _ => exact absurd (List.cons.inj heq).1 hc

/-- The first escape of a run. -/
theorem Run.of_backslash {stops run : List Char} (h : Run stops run) (hstop : '\\' ∈ stops)
    (heq : '\\' :: rest = run ++ d :: after) (hd : d ≠ '\\') :
    (∃ c more, run = '\\' :: c :: more ∧ isHexDigit c = false ∧ Run stops more ∧
        rest = c :: (more ++ d :: after)) ∨
      ∃ digits more, run = '\\' :: (digits ++ ' ' :: more) ∧ AreHexDigits digits ∧ Run stops more ∧
        rest = digits ++ ' ' :: (more ++ d :: after) := by
  cases h with
  | nil => exact absurd (List.cons.inj heq).1.symm hd
  | char hc _ =>
    obtain ⟨rfl, -⟩ := List.cons.inj heq
    exact absurd hstop hc
  | @escape c more hc hmore =>
    exact .inl ⟨c, more, rfl, hc, hmore, (List.cons.inj heq).2⟩
  | @code digits more hdigits hmore =>
    simp only [List.cons_append, List.append_assoc, List.cons.injEq, true_and] at heq
    exact .inr ⟨digits, more, rfl, hdigits, hmore, heq⟩

/-- A tidy text in front of a run that is written in a URL is part of that run. -/
theorem Tidy.exists_of_url {url : List Char} (h : Tidy p start text) (hurl : Run urlStops url)
    (heq : text ++ rest = url ++ ')' :: after) :
    ∃ more, url = text ++ more ∧ Run urlStops more ∧ rest = more ++ ')' :: after := by
  induction h generalizing url rest with
  | nil => exact ⟨url, rfl, hurl, heq⟩
  | char hc _ _ ih =>
    obtain ⟨-, hspecial⟩ := isOrdinary_iff.1 hc
    obtain ⟨-, url, rfl, hurl, htail⟩ := hurl.of_cons heq
      (fun h => hspecial (by simp [h])) (fun h => hspecial (by simp [h]))
    obtain ⟨more, rfl, hmore, hrest⟩ := ih hurl htail
    exact ⟨more, rfl, hmore, hrest⟩
  | escape hc _ ih =>
    rcases hurl.of_backslash (by decide) (by rwa [List.cons_append] at heq) (by decide) with ⟨c, url, rfl, -, hrun, htail⟩ |
      ⟨digits, url, rfl, hdigits, -, htail⟩
    · rw [List.cons_append] at htail
      obtain ⟨rfl, hbehind⟩ := List.cons.inj htail
      obtain ⟨more, rfl, hmore, hrest⟩ := ih hrun hbehind
      exact ⟨more, rfl, hmore, hrest⟩
    · rw [hdigits.not_escapable htail.symm] at hc
      cases hc
  | code hdigits _ _ ih =>
    rcases hurl.of_backslash (by decide) (by rwa [List.cons_append] at heq) (by decide) with ⟨c, url, rfl, hc, -, htail⟩ |
      ⟨digits, url, rfl, hdigits', hrun, htail⟩
    · obtain ⟨e, digits, rfl⟩ := List.exists_cons_of_ne_nil hdigits.filled
      obtain ⟨rfl, -⟩ := List.cons.inj htail
      rw [hdigits.hex e (.head _)] at hc
      cases hc
    · rw [List.append_assoc, List.cons_append] at htail
      obtain ⟨rfl, hbehind⟩ := hdigits.eq_of_append_eq hdigits' htail
      obtain ⟨more, rfl, hmore, hrest⟩ := ih hrun hbehind
      exact ⟨more, by simp, hmore, hrest⟩
  | space _ _ _ =>
    obtain ⟨hstop, -⟩ := hurl.of_cons heq (by decide) (by decide)
    exact absurd (by decide) hstop
  | string _ _ _ =>
    obtain ⟨hstop, -⟩ := hurl.of_cons heq (by decide) (by decide)
    exact absurd (by decide) hstop
  | @group p start b content text hb _ _ ihcontent ih =>
    cases b with
    | round =>
      obtain ⟨hstop, -⟩ := hurl.of_cons heq (by decide) (by decide)
      exact absurd (by decide) hstop
    | square =>
      obtain ⟨-, url, rfl, hurl, htail⟩ := hurl.of_cons heq (by decide) (by decide)
      obtain ⟨url, rfl, hurl, htail⟩ := ihcontent hurl ((List.append_assoc _ _ _).symm.trans htail)
      obtain ⟨-, url, rfl, hurl, htail⟩ := hurl.of_cons htail (by decide) (by decide)
      obtain ⟨more, rfl, hmore, hrest⟩ := ih hurl htail
      exact ⟨more, by simp [Bracket.openChar, Bracket.closeChar], hmore, hrest⟩
    | curly => exact absurd rfl hb

/-- The content of a group that is read as a URL. -/
theorem Tidy.eq_of_url {value : List Char} (h : Tidy p start text)
    (heq : text ++ ')' :: rest = value.flatMap urlCharText ++ ')' :: after) :
    text = value.flatMap urlCharText ∧ rest = after := by
  obtain ⟨more, hurl, hmore, hrest⟩ := h.exists_of_url (Run.url value) heq
  cases more with
  | nil => exact ⟨by simpa using hurl.symm, (List.cons.inj hrest).2⟩
  | cons c more =>
    obtain ⟨rfl, -⟩ := List.cons.inj hrest
    cases hmore with
    | char hstop _ => exact absurd (by decide) hstop

end

/-! ## Reading components -/

/-- Reading a text as far as a rest adds components to the innermost open group. -/
def ReadsTo (text rest : List Char) (cs : List Component) : Prop :=
  ∀ n : OpenGroups, (scan text).foldl OpenGroups.step n =
    (scan rest).foldl OpenGroups.step { n with current := cs.reverse ++ n.current }

namespace ReadsTo

variable {text rest after : List Char} {c : Char} {cs ds : List Component}

/-- A text is read as far as itself without any components. -/
theorem refl (text : List Char) : ReadsTo text text [] :=
  fun _ => rfl

/-- Reading goes on where it stopped. -/
theorem trans (h : ReadsTo text rest cs) (hrest : ReadsTo rest after ds) :
    ReadsTo text after (cs ++ ds) := by
  intro n
  rw [h, hrest, List.reverse_append, List.append_assoc]

/-- A token that is an atom is read as that atom. -/
theorem atom {a : Atom} (h : readToken c rest = ([.atom a], after)) :
    ReadsTo (c :: rest) after [.atom a] := by
  intro n
  rw [scan, h]
  rfl

/-- An opening and a closing with something read between them are read as a group. -/
theorem group {o : Opening} {inner : List Char} {e : Char}
    (hopen : readToken c rest = ([.opening o], inner)) (hinner : ReadsTo inner (e :: after) cs)
    (hclose : readToken e after = ([.closing o.closedBy], after)) :
    ReadsTo (c :: rest) after [.group o cs] := by
  intro n
  rw [scan, hopen, List.singleton_append, List.foldl_cons, hinner, scan, hclose,
    List.singleton_append, List.foldl_cons]
  simp [OpenGroups.step]

/-- What a text is read as, once it has been read to its end. -/
theorem ofTokens_scan (h : ReadsTo text [] cs) : Component.ofTokens (scan text) = cs := by
  rw [Component.ofTokens, h, scan]
  simp [OpenGroups.finish, OpenGroups.closeAll]

end ReadsTo

/-- Brackets and punctuation are symbols whatever follows. -/
theorem readToken_symbol {c : Char} (hc : c ∈ ['(', ')', '[', ']', '{', '}', '"', ';', ':', '!', '@'])
    (rest : List Char) : readToken c rest = lexSymbol c rest := by
  have hword : ∀ {c : Char}, isSpace c = false → c ≠ 'U' → c ≠ 'u' → c ≠ '-' → StartsWord c rest :=
    fun hspace hupper hlower hhyphen =>
      ⟨hspace, startsUnicodeRange_of_ne hupper hlower, fun _ h => absurd h hhyphen⟩
  simp only [List.mem_cons, List.not_mem_nil, or_false] at hc
  rcases hc with rfl | rfl | rfl | rfl | rfl | rfl | rfl | rfl | rfl | rfl | rfl <;>
    rw [readToken_word (hword rfl (by decide) (by decide) (by decide))] <;> rfl

/-- An opening bracket is a token of its own. -/
theorem readToken_open {b : Bracket} (rest : List Char) :
    readToken b.openChar rest = ([.opening (.bracket b)], rest) := by
  cases b <;> exact readToken_symbol (by decide) rest

/-- A closing bracket is a token of its own. -/
theorem readToken_close {b : Bracket} (rest : List Char) :
    readToken b.closeChar rest = ([.closing b], rest) := by
  cases b <;> exact readToken_symbol (by decide) rest

/-- An escape in a string is read back. -/
theorem readString_escapeText {c : Char} (hc : c ∈ stringEscapes) (rest : List Char) :
    readString '"' (escapeText c ++ rest) = (readString '"' rest).cons c := by
  simp only [stringEscapes, List.mem_cons, List.not_mem_nil, or_false] at hc
  rcases hc with rfl | rfl | rfl | rfl | rfl <;> exact readString_escape (by decide) _ (by decide)

/-- A written string is read back. -/
theorem readString_written (value rest : List Char) :
    readString '"' (value.flatMap stringCharText ++ '"' :: rest) = ⟨value, .closed, rest⟩ := by
  induction value with
  | nil => exact readString_quote rest
  | cons c value ih =>
    rw [List.flatMap_cons, List.append_assoc]
    by_cases hescape : c ∈ stringEscapes
    · rw [stringCharText_of_mem hescape, readString_escapeText hescape, ih]
      rfl
    · rw [stringCharText_of_not_mem hescape, List.singleton_append]
      simp only [stringEscapes, List.mem_cons, List.not_mem_nil, or_false, not_or] at hescape
      rw [ readString_cons _ hescape.1 hescape.2.1 hescape.2.2.1, ih]
      rfl

/-- A written string is one token. -/
theorem readToken_stringText (value rest : List Char) :
    readToken '"' (value.flatMap stringCharText ++ '"' :: rest) =
      ([.atom (.string value true)], rest) := by
  rw [readToken_symbol (by decide)]
  simp only [lexSymbol, lexString, readString_written]
  rfl

/-! ## Components of a tidy text -/

/-- The component can stand in a place: it ends nothing there, and makes no at-rule of a selector. -/
structure Component.Fits (p : Site) (c : Component) : Prop where
  curly : c.curly? = none
  mark : c.isLiteral ['<', '!', '-', '-'] = false ∧ c.isLiteral ['-', '-', '>'] = false
  literal : ∀ d, p.bars d = true → c.isLiteral [d] = false
  keyword : p = .selectors → c.atKeyword? = none

/-- A group without braces can stand anywhere. -/
theorem fits_group {p : Site} {o : Opening} (ho : o ≠ .bracket .curly) (content : List Component) :
    (Component.group o content).Fits p where
  curly := by
    unfold Component.curly?
    split
    · next h =>
      cases h
      exact absurd rfl ho
    · rfl
  mark := ⟨rfl, rfl⟩
  literal := fun _ _ => rfl
  keyword := fun _ => rfl

/-- An atom can stand where its first character is not barred. -/
theorem fits_atom {p : Site} {a : Atom} (hsound : (Token.atom a).isSound = true)
    (hfirst : ∀ d ∈ a.text.head?, p.bars d = false) : (Component.atom a).Fits p where
  curly := rfl
  mark := by
    cases a with
    | literal text => simpa [Token.isSound, Component.isLiteral] using hsound
    | _ => exact ⟨rfl, rfl⟩
  literal := by
    intro d hd
    cases a with
    | literal text =>
      refine beq_eq_false_iff_ne.2 fun htext => ?_
      rw [hfirst d (by rw [Atom.text, htext]; rfl)] at hd
      cases hd
    | _ => rfl
  keyword := by
    rintro rfl
    cases a with
    | atKeyword name => cases hfirst '@' rfl
    | _ => rfl

/-- The components that a tidy text is read as. -/
structure Renders (p : Site) (start : Bool) (text : List Char) (cs : List Component) : Prop where
  text_eq : minifiedParts none start cs = text
  sound : firstFaultOf cs = none
  fits : ∀ c ∈ cs, c.Fits p
  first : start = true → ∀ c ∈ cs.head?, c.isSpace = false

namespace Renders

variable {p : Site} {start : Bool} {text rest : List Char} {cs : List Component}

/-- The empty text is read as no components. -/
theorem nil : Renders p start [] [] where
  text_eq := by rw [minifiedParts]
  sound := rfl
  fits := List.forall_mem_nil _
  first := by simp

/-- A component whose minified text comes first, before what the rest is read as. -/
theorem cons {c : Component} (htext : c.minifiedText none = text) (hspace : c.isSpace = false)
    (hsound : c.firstFault = none) (hfits : c.Fits p) (h : Renders p false rest cs) :
    Renders p start (text ++ rest) (c :: cs) where
  text_eq := by
    rw [minifiedParts, if_neg (by simp [hspace]), htext,
      show (c.isNestingSelector && (none : Option (List Char)) == some [' ']) = false by simp, h.text_eq]
  sound := by rw [firstFaultOf, hsound, h.sound]
  fits := List.forall_mem_cons.2 ⟨hfits, h.fits⟩
  first := by simpa using fun _ => hspace

/-- A single space before what the rest is read as. -/
theorem space (h : Renders p true rest cs) :
    Renders p false (' ' :: rest) (.atom (.space [' ']) :: cs) where
  text_eq := by
    rw [minifiedParts, if_pos (by rfl), if_neg (by decide), h.text_eq]
  sound := by
    rw [firstFaultOf]
    exact h.sound
  fits := List.forall_mem_cons.2 ⟨fits_atom rfl (by rintro _ ⟨⟩; cases p <;> rfl), h.fits⟩
  first := by simp

end Renders

/-- Where nothing takes the place of the nesting selector, an atom keeps its text. -/
theorem Atom.minifiedText_eq (a : Atom) : (Component.atom a).minifiedText none = a.text := by
  cases a with
  | literal text =>
    rw [Component.minifiedText]
    split
    · rfl
    · rfl
  | _ => rfl

/-- A sound atom is no fault. -/
theorem Atom.firstFault_of_sound {a : Atom} (h : (Token.atom a).isSound = true) :
    (Component.atom a).firstFault = none := by
  cases a with
  | fault what => cases h
  | _ => rfl

/-- The minified text of a group without braces: what opens it, the trimmed content, and what closes
it. -/
theorem minifiedText_group {o : Opening} (ho : o ≠ .bracket .curly) (content : List Component) :
    (Component.group o content).minifiedText none =
      (Token.opening o).text ++
        (trim (minifiedParts none true content) ++ [o.closedBy.closeChar]) := by
  cases o with
  | function name => simp [Component.minifiedText, Token.text, Opening.closedBy, Bracket.closeChar]
  | bracket b =>
    cases b with
    | round => rfl
    | square => rfl
    | curly => exact absurd rfl ho

/-- The faults of a group without braces are those of its content. -/
theorem firstFault_group {o : Opening} (ho : o ≠ .bracket .curly) (content : List Component) :
    (Component.group o content).firstFault = firstFaultOf content := by
  cases o with
  | function name => rfl
  | bracket b =>
    cases b with
    | round => rfl
    | square => rfl
    | curly => exact absurd rfl ho

/-- A tidy text that is read as far as the rest after it. -/
def IsRead (p : Site) (start : Bool) (text rest : List Char) : Prop :=
  ∃ cs, ReadsTo (text ++ rest) rest cs ∧ Renders p start text cs ∧ isCanonical rest = true

/-- What is left of the text is canonical. -/
theorem IsRead.canonical {p : Site} {start : Bool} {text rest : List Char} (h : IsRead p start text rest) :
    isCanonical rest = true := by
  obtain ⟨_, _, _, h⟩ := h
  exact h

section

variable {p : Site} {start : Bool} {text more content rest after : List Char} {c d : Char}

/-- An atom before a tidy text. -/
theorem IsRead.atom {a : Atom} (hread : readToken c rest = ([.atom a], more ++ d :: after))
    (hsound : (Token.atom a).isSound = true) (hspace : (Component.atom a).isSpace = false)
    (heq : a.text ++ more ++ d :: after = c :: rest) (hbar : p.bars c = false) (hfilled : a.text ≠ [])
    (h : IsRead p false more (d :: after)) : IsRead p start (a.text ++ more) (d :: after) := by
  obtain ⟨cs, hreads, hrenders, hcanonical⟩ := h
  have hfirst : ∀ e ∈ a.text.head?, p.bars e = false := by
    obtain ⟨e, tail, htext⟩ := List.exists_cons_of_ne_nil hfilled
    rw [htext] at heq ⊢
    obtain ⟨rfl, -⟩ := List.cons.inj heq
    simpa using hbar
  refine ⟨.atom a :: cs, ?_, hrenders.cons a.minifiedText_eq hspace (Atom.firstFault_of_sound hsound)
    (fits_atom hsound hfirst), hcanonical⟩
  rw [heq]
  exact (ReadsTo.atom hread).trans hreads

/-- A group before a tidy text. -/
theorem IsRead.group {o : Opening} (ho : o ≠ .bracket .curly)
    (hread : readToken c rest = ([.opening o], content ++ o.closedBy.closeChar :: (more ++ d :: after)))
    (heq : (Token.opening o).text ++ (content ++ o.closedBy.closeChar :: (more ++ d :: after)) = c :: rest)
    (hcontent : Tidy .group true content)
    (hinner : IsRead .group true content (o.closedBy.closeChar :: (more ++ d :: after)))
    (h : IsRead p false more (d :: after)) :
    IsRead p start ((Token.opening o).text ++ (content ++ o.closedBy.closeChar :: more)) (d :: after) := by
  obtain ⟨inner, hreadsInner, hrendersInner, -⟩ := hinner
  obtain ⟨cs, hreads, hrenders, hcanonical⟩ := h
  have htext : (Component.group o inner).minifiedText none =
      (Token.opening o).text ++ (content ++ [o.closedBy.closeChar]) := by
    rw [minifiedText_group ho, hrendersInner.text_eq, hcontent.trim]
  have hsplit : (Token.opening o).text ++ (content ++ o.closedBy.closeChar :: more) =
      (Token.opening o).text ++ (content ++ [o.closedBy.closeChar]) ++ more := by simp
  refine ⟨.group o inner :: cs, ?_, ?_, hcanonical⟩
  · rw [List.append_assoc, List.append_assoc, List.cons_append, heq]
    exact (ReadsTo.group hread hreadsInner (readToken_close _)).trans hreads
  · rw [hsplit]
    exact hrenders.cons htext rfl ((firstFault_group ho inner).trans hrendersInner.sound)
      (fits_group ho inner)

end

/-- Everything shorter than a text is read as far as what ends it. -/
def ReadsShorter (bound : Nat) : Prop :=
  ∀ {p : Site} {start : Bool} {text after : List Char} {d : Char}, text.length < bound →
    Tidy p start text → d ∈ enders → isCanonical (text ++ d :: after) = true →
      IsRead p start text (d :: after)

section

variable {p : Site} {start : Bool} {text rest after : List Char} {c d : Char}

/-- A run of characters before an opening bracket, in a tidy text. -/
theorem Tidy.exists_group_of_run {run : List Char} (hrun : TokenRun run) (h : Tidy p start text)
    (hd : d ∈ enders) (heq : text ++ d :: after = run ++ '(' :: rest) :
    ∃ content more, text = run ++ '(' :: (content ++ ')' :: more) ∧ Tidy .group true content ∧
      Tidy p false more ∧ rest = content ++ ')' :: (more ++ d :: after) := by
  obtain ⟨tail, rfl, htail, hrest⟩ := h.exists_of_run hrun hd heq
  cases tail with
  | nil =>
    obtain ⟨rfl, -⟩ := List.cons.inj hrest
    exact absurd hd (by decide)
  | cons e tail =>
    obtain ⟨rfl, hrest'⟩ := List.cons.inj hrest
    obtain ⟨content, more, rfl, hcontent, hmore⟩ := htail.of_open
    exact ⟨content, more, rfl, hcontent, hmore, hrest'.trans (List.append_assoc _ _ _)⟩

/-- A name, a number or a URL at the front of a tidy text. -/
theorem isRead_word {t : Token} (hword : t.IsWord) (h : Tidy p start (c :: text)) (hd : d ∈ enders)
    (hbar : p.bars c = false) (hread : readToken c (text ++ d :: after) = ([t], rest))
    (hsound : t.isSound = true) (heq : t.text ++ rest = c :: text ++ d :: after)
    (hrest : isCanonical rest = true) (ih : ReadsShorter (c :: text).length) :
    IsRead p start (c :: text) (d :: after) := by
  cases hword with
  | @run a hspace hrun =>
    obtain ⟨more, hmore, htidy, rfl⟩ := h.exists_of_run hrun hd heq.symm
    have hfilled : a.text ≠ [] := by
      intro hempty
      have hlength := length_readToken_le c (text ++ d :: after)
      rw [hread] at hlength
      rw [hempty, List.nil_append] at hmore
      rw [← hmore] at hlength
      simp at hlength
    have hshorter : more.length < (c :: text).length := by
      rw [hmore, List.length_append]
      have := List.length_pos_iff.2 hfilled
      omega
    rw [hmore] at heq ⊢
    refine IsRead.atom hread hsound hspace ?_ hbar hfilled (ih hshorter htidy hd hrest)
    rw [← List.cons_append, hmore]
  | function name =>
    have hsplit : c :: text ++ d :: after = identifierText name ++ '(' :: rest := by
      rw [← heq]
      simp [Token.text]
    obtain ⟨content, more, hmore, hcontent, htidy, rfl⟩ :=
      h.exists_group_of_run (TokenRun.identifierText name) hd hsplit
    have hlength := congrArg List.length hmore
    simp only [List.length_append, List.length_cons] at hlength
    have hinner := ih (by rw [List.length_cons]; omega) hcontent (by decide) hrest
    have hclosed := isCanonical_of_readToken hinner.canonical (readToken_close (b := .round) _)
    have hafter := ih (by rw [List.length_cons]; omega) htidy hd hclosed
    have htext : c :: text = (Token.opening (.function name)).text ++ (content ++ ')' :: more) := by
      rw [hmore]
      simp [Token.text]
    rw [htext]
    exact IsRead.group (by simp) hread heq hcontent hinner hafter
  | url value =>
    have hsplit : c :: text ++ d :: after =
        ['u', 'r', 'l'] ++ '(' :: (value.flatMap urlCharText ++ ')' :: rest) := by
      rw [← heq]
      simp [Token.text, Atom.text, urlText]
    obtain ⟨content, more, hmore, hcontent, htidy, hurl⟩ := h.exists_group_of_run
      (.char (by decide) (.char (by decide) (.char (by decide) .nil))) hd hsplit
    obtain ⟨rfl, rfl⟩ := hcontent.eq_of_url hurl.symm
    have hlength := congrArg List.length hmore
    simp only [List.length_append, List.length_cons] at hlength
    have hafter := ih (by rw [List.length_cons]; omega) htidy hd hrest
    have htext : c :: text = Atom.text (.url value true) ++ more := by
      rw [hmore]
      simp [Atom.text, urlText]
    rw [htext]
    refine IsRead.atom hread hsound rfl ?_ hbar (by simp [Atom.text, urlText]) hafter
    rw [← htext]
    rfl

/-- An escape at the front of a tidy text, and the name or the number that it starts. -/
theorem isRead_escape (h : Tidy p start ('\\' :: text)) (hd : d ∈ enders)
    (hcanonical : isCanonical ('\\' :: text ++ d :: after) = true)
    (ih : ReadsShorter ('\\' :: text).length) : IsRead p start ('\\' :: text) (d :: after) := by
  obtain ⟨t, rest, hread, hsound, heq, hrest⟩ := isCanonical_cons hcanonical
  have hescape : startsEscape ('\\' :: (text ++ d :: after)) = true := by
    rw [startsEscape_cons]
    rcases h.of_backslash with ⟨c, more, rfl, hc, -⟩ | ⟨digits, more, rfl, hdigits, -⟩
    · have hline : c ≠ '\n' := by
        rintro rfl
        cases hc
      simpa using hline
    · obtain ⟨e, digits, rfl⟩ := List.exists_cons_of_ne_nil hdigits.filled
      have hline : e ≠ '\n' := by
        rintro rfl
        cases hdigits.hex '\n' (.head _)
      simpa using hline
  have hword := isWord_readToken_escape hescape hread hsound
  exact isRead_word hword h hd (by cases p <;> rfl) hread hsound heq hrest ih

/-- What is no blank is no white space either. -/
theorem isSpace_of_not_blank {c : Char} (h : isBlank c = false) : isSpace c = false := by
  cases hspace : isSpace c with
  | false => rfl
  | true =>
    simp only [isSpace, Bool.or_eq_true, beq_iff_eq] at hspace
    rcases hspace with (rfl | rfl) | rfl <;> cases h

/-- **Reading tidy texts.** In a canonical text, a tidy part up to a character that ends it is read as
components whose minified text is the part. -/
theorem Tidy.isRead (h : Tidy p start text) (hd : d ∈ enders)
    (hcanonical : isCanonical (text ++ d :: after) = true) : IsRead p start text (d :: after) := by
  induction hlength : text.length using Nat.strong_induction_on generalizing p start text d after with
  | _ n ih =>
    have ih : ReadsShorter text.length := by
      intro p start more after d hmore htidy hd hcanonical
      exact ih more.length (hlength ▸ hmore) htidy hd hcanonical rfl
    cases h with
    | nil => exact ⟨[], ReadsTo.refl _, Renders.nil, hcanonical⟩
    | @char _ _ c text hc hbar htext =>
      obtain ⟨t, rest, hread, hsound, heq, hrest⟩ := isCanonical_cons hcanonical
      obtain ⟨hblank, hspecial⟩ := isOrdinary_iff.1 hc
      have hsymbols : ['"', '\'', '(', ')', '[', ']', '{', '}'] ⊆
          ['\x00', '"', '\'', '\\', '(', ')', '[', ']', '{', '}'] := by simp
      rcases isWord_readToken (isSpace_of_not_blank hblank) (fun hmem => hspecial (hsymbols hmem)) hread
        hsound with rfl | hword
      · obtain ⟨-, rfl⟩ := List.cons.inj heq
        have hafter := ih (Nat.lt_succ_self _) htext hd hrest
        exact IsRead.atom hread hsound rfl rfl hbar (List.cons_ne_nil _ _) hafter
      · exact isRead_word hword (.char hc hbar htext) hd hbar hread hsound heq hrest ih
    | escape hc htext => exact isRead_escape (.escape hc htext) hd hcanonical ih
    | code hdigits hfilled htext => exact isRead_escape (.code hdigits hfilled htext) hd hcanonical ih
    | @space _ text hfilled htext =>
      have hread : readToken ' ' (text ++ d :: after) =
          ([.atom (.space [' '])], text ++ d :: after) := by
        obtain ⟨e, tail, rfl⟩ := List.exists_cons_of_ne_nil hfilled
        have hspace : isSpace e = false := isSpace_of_not_blank (htext.isBlank_head e rfl)
        rw [readToken_space rfl, List.cons_append, List.takeWhile_cons_of_neg (by simp [hspace]),
          List.dropWhile_cons_of_neg (by simp [hspace])]
        rfl
      obtain ⟨cs, hreads, hrenders, hafter⟩ :=
        ih (Nat.lt_succ_self _) htext hd (isCanonical_of_readToken hcanonical hread)
      exact ⟨_, (ReadsTo.atom hread).trans hreads, hrenders.space, hafter⟩
    | @string _ _ value text hvalue htext =>
      have hsplit : stringText value true ++ text ++ d :: after =
          '"' :: (value.flatMap stringCharText ++ '"' :: (text ++ d :: after)) := by
        simp [stringText]
      have hread := readToken_stringText value (text ++ d :: after)
      rw [hsplit] at hcanonical
      have hafter := ih (by simp [stringText]; omega) htext hd
        (isCanonical_of_readToken hcanonical hread)
      exact IsRead.atom hread rfl rfl hsplit (by cases p <;> rfl) (List.cons_ne_nil _ _) hafter
    | @group _ _ b content text hb hcontent htext =>
      have hsplit : b.openChar :: (content ++ b.closeChar :: text) ++ d :: after =
          b.openChar :: (content ++ b.closeChar :: (text ++ d :: after)) := by
        simp
      have hread := readToken_open (b := b) (content ++ b.closeChar :: (text ++ d :: after))
      have hcloser : b.closeChar ∈ enders := by
        cases b <;> first | exact absurd rfl hb | decide
      rw [hsplit] at hcanonical
      have hinner := ih (by simp) hcontent hcloser (isCanonical_of_readToken hcanonical hread)
      have hafter := ih (by simp; omega) htext hd
        (isCanonical_of_readToken hinner.canonical (readToken_close _))
      exact IsRead.group (o := .bracket b) (by simpa using hb) hread rfl hcontent hinner hafter

end

end CssTemplate.Css
