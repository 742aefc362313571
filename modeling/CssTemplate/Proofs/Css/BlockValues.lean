import CssTemplate.Proofs.Css.Faithful

/-!
# Values that are blocks

A value may be one curly block, as that of a custom property often is. Such a block is written exactly.
A closing brace ends every token, as the end of a text does (`Lexeme.goesOn_brace`), so what is settled
as a text of its own is settled in a block too, whatever follows the block (`scan_lexemesText_brace`). In
a canonical text a settled block is read back as one group, up to neighbours of white space in it, and
its text is that of the group again (`IsSettledBlock.readsTo`).
-/

namespace CssTemplate.Css

/-! ## Tests that stop at a closing brace -/

/-- A test of the text after a token for which a closing brace is like the end of the text. -/
def StopsAtBrace (test : List Char → Bool) : Prop :=
  ∀ text rest, test (text ++ '}' :: rest) = test text

namespace StopsAtBrace

variable {a b : List Char → Bool}

/-- One test or another one. -/
theorem or (ha : StopsAtBrace a) (hb : StopsAtBrace b) : StopsAtBrace fun text => a text || b text :=
  fun text rest => congrArg₂ (· || ·) (ha text rest) (hb text rest)

/-- A condition, and then a test. -/
theorem and_left (condition : Bool) (h : StopsAtBrace a) : StopsAtBrace fun text => condition && a text :=
  fun text rest => congrArg (condition && ·) (h text rest)

/-- A test, and then a condition. -/
theorem and_right (condition : Bool) (h : StopsAtBrace a) : StopsAtBrace fun text => a text && condition :=
  fun text rest => congrArg (· && condition) (h text rest)

/-- A test that always fails. -/
theorem never : StopsAtBrace fun _ => false :=
  fun _ _ => rfl

/-- A test of the first character that a brace fails. -/
theorem head {test : Char → Bool} (h : test '}' = false) :
    StopsAtBrace fun text => text.head?.any test := by
  intro text rest
  cases text with
  | nil => exact h
  | cons c text => rfl

/-- A comparison of the first character with something else than a brace. -/
theorem head_eq {c : Char} (h : '}' ≠ c) : StopsAtBrace fun text => text.head? == some c := by
  intro text rest
  cases text with
  | nil => simpa using h
  | cons d text => rfl

/-- A comparison of the first character with something else than a brace, and a test of the second one
that a brace fails. -/
theorem head_then {c : Char} (hc : '}' ≠ c) {test : Char → Bool} (h : test '}' = false) :
    StopsAtBrace fun text => text.head? == some c && text.tail.head?.any test := by
  intro text rest
  rcases text with _ | ⟨d, _ | ⟨e, text⟩⟩
  · simpa using fun heq => absurd heq hc
  · simp [h]
  · rfl

/-- A comparison of the first characters with others, none of which is a brace. -/
theorem startsWith {front : List Char} (h : '}' ∉ front) :
    StopsAtBrace fun text => front.isPrefixOf text := by
  intro text rest
  induction front generalizing text with
  | nil => simp
  | cons c front ih =>
    rw [List.mem_cons, not_or] at h
    cases text with
    | nil => simpa [List.isPrefixOf] using fun heq => absurd heq.symm h.1
    | cons d text => simp only [List.cons_append, List.isPrefixOf_cons_cons, ih h.2]

end StopsAtBrace

/-- No escape starts with a brace. -/
theorem stopsAtBrace_startsEscape : StopsAtBrace startsEscape := by
  intro text rest
  cases text with
  | nil => rfl
  | cons c text =>
    rw [List.cons_append, startsEscape_cons, startsEscape_cons]
    cases text with
    | nil => rfl
    | cons d text => rfl

/-- No name goes on with a brace. -/
theorem stopsAtBrace_continuesName : StopsAtBrace continuesName :=
  .or (.head rfl) stopsAtBrace_startsEscape

/-- No identifier starts with a brace. -/
theorem stopsAtBrace_startsIdent : StopsAtBrace startsIdent := by
  intro text rest
  cases text with
  | nil => rfl
  | cons c text =>
    have hself := stopsAtBrace_startsEscape (c :: text) rest
    rw [List.cons_append] at hself ⊢
    rw [startsIdent_cons, startsIdent_cons, stopsAtBrace_startsEscape text rest, hself]
    cases text with
    | nil => rfl
    | cons d text => rfl

/-- No identifier starts with a hyphen and a brace. -/
theorem stopsAtBrace_startsIdent_hyphen : StopsAtBrace fun text => startsIdent ('-' :: text) :=
  fun text rest => stopsAtBrace_startsIdent ('-' :: text) rest

/-- No number starts with a brace. -/
theorem stopsAtBrace_startsDigits : StopsAtBrace startsDigits :=
  .or (.head rfl) (.head_then (by decide) rfl)

/-- No range goes on with a brace. -/
theorem stopsAtBrace_continuesRange : StopsAtBrace continuesRange :=
  .or (.head rfl) (.head_then (by decide) rfl)

/-- No Unicode range goes on with a brace. -/
theorem stopsAtBrace_startsUnicodeRange (u : Char) :
    StopsAtBrace fun text => startsUnicodeRange (u :: text) := by
  have hplus : ∀ {c : Char} {more : List Char}, c ≠ '+' → startsUnicodeRange (u :: c :: more) = false := by
    intro c more hc
    unfold startsUnicodeRange
    split
    · next heq =>
      obtain ⟨rfl, -⟩ := List.cons.inj (List.cons.inj heq).2
      exact absurd rfl hc
    · rfl
  intro text rest
  cases text with
  | nil => rfl
  | cons c text =>
    by_cases hc : c = '+'
    · subst hc
      cases text with
      | nil => exact Bool.and_false _
      | cons d text => rfl
    · simp [hplus hc]

/-- A brace is no quote, with white space before it or without. -/
theorem stopsAtBrace_startsQuoted : StopsAtBrace startsQuoted := by
  intro text rest
  induction text with
  | nil => rfl
  | cons c text ih =>
    cases hc : isSpace c with
    | true => simpa [startsQuoted, hc] using ih
    | false => simp [startsQuoted, hc]

/-- No literal goes on with a brace. -/
theorem stopsAtBrace_literalGoesOn (mark : List Char) : StopsAtBrace (literalGoesOn mark) := by
  intro text rest
  unfold literalGoesOn
  split
  · exact stopsAtBrace_startsIdent text rest
  · exact stopsAtBrace_continuesName text rest
  · exact stopsAtBrace_startsIdent_hyphen.or stopsAtBrace_startsDigits text rest
  · exact stopsAtBrace_startsDigits text rest
  · exact StopsAtBrace.head rfl text rest
  · exact StopsAtBrace.head_eq (by decide) text rest
  · exact StopsAtBrace.startsWith (by decide) text rest
  · exact (StopsAtBrace.head_eq (by decide)).or (.head_eq (by decide)) text rest
  · exact StopsAtBrace.and_left _ (.head_eq (by decide)) text rest
  · rfl

/-- No number goes on with a brace. -/
theorem stopsAtBrace_numberGoesOn (numeral : List Char) : StopsAtBrace (numberGoesOn numeral) :=
  (stopsAtBrace_startsIdent.or (.head rfl)).or (stopsAtBrace_startsDigits.and_right _)

/-- A closing brace ends every token. -/
theorem Token.goesOn_brace (t : Token) : StopsAtBrace t.goesOn := by
  cases t with
  | closing b => exact .never
  | opening o =>
    cases o with
    | bracket b => exact .never
    | function name =>
      intro text rest
      simp only [Token.goesOn, stopsAtBrace_startsQuoted text rest]
  | atom a =>
    cases a with
    | space white => exact .head rfl
    | literal mark => exact stopsAtBrace_literalGoesOn mark
    | ident name =>
      have hrange : StopsAtBrace fun text => name.length == 1 && startsUnicodeRange (name ++ text) := by
        rcases name with _ | ⟨u, _ | ⟨d, name⟩⟩
        · exact .never
        · exact (stopsAtBrace_startsUnicodeRange u).and_left true
        · exact .never
      exact ((stopsAtBrace_continuesName.or (.head_eq (by decide))).or hrange).or
        (.and_left _ (.head_eq (by decide)))
    | atKeyword name => exact stopsAtBrace_continuesName
    | hash name isIdent => exact stopsAtBrace_continuesName
    | dimension numeral unit => exact stopsAtBrace_continuesName
    | number numeral => exact stopsAtBrace_numberGoesOn numeral
    | unicodeRange first last =>
      intro text rest
      simp only [Token.goesOn]
      split
      · exact stopsAtBrace_continuesRange text rest
      · exact StopsAtBrace.head rfl text rest
    | _ => exact .never

/-- A closing brace ends every lexeme. -/
theorem Lexeme.goesOn_brace (l : Lexeme) : StopsAtBrace l.goesOn := by
  cases l with
  | comment => exact .never
  | token t first last => exact t.goesOn_brace.or (.and_left last (.head rfl))

/-! ## Values that are one block -/

/-- The content of the block that a value consists of, with nothing but white space before it. -/
def valueBlock? (value : List Component) : Option (List Component) :=
  match value.dropWhile Component.isSpace with
  | [.group (.bracket .curly) content] => some content
  | _ => none

/-- The tokens in the block of a value can be read if those of the value can. -/
theorem formed_valueBlock {value content : List Component} (hformed : ∀ c ∈ value, ∀ t ∈ c.tokens, t.Formed)
    (h : valueBlock? value = some content) : ∀ t ∈ tokensOf content, t.Formed := by
  unfold valueBlock? at h
  split at h
  · next hvalue =>
    cases h
    have hmem : Component.group (.bracket .curly) content ∈ value :=
      (List.dropWhile_suffix Component.isSpace).subset (hvalue ▸ .head _)
    exact fun t ht => hformed _ hmem t (by simp [Component.tokens, ht])
  · cases h

/-- White space at the start of a list is not written. -/
theorem minifiedParts_dropWhile (outer : Option (List Char)) (cs : List Component) :
    minifiedParts outer true (cs.dropWhile Component.isSpace) = minifiedParts outer true cs := by
  induction cs with
  | nil => rfl
  | cons c cs ih =>
    rw [List.dropWhile_cons]
    split
    · next hspace => rw [ih, minifiedParts, if_pos hspace, if_pos rfl]
    · rfl

/-- A value that is one block is written as the block is. -/
theorem minifiedText_of_valueBlock {value content : List Component} (h : valueBlock? value = some content) :
    minifiedText none value = (Component.group (.bracket .curly) content).text := by
  unfold valueBlock? at h
  split at h
  · next hvalue =>
    cases h
    have hlast := @getLast_concat_closing ('{' :: contentText none content) '}' (by decide)
    have htrimmed : Trimmed (Component.group (.bracket .curly) content).text :=
      ⟨by rintro _ ⟨⟩; rfl, hlast⟩
    rw [minifiedText, ← minifiedParts_dropWhile, hvalue, minifiedParts, if_neg (by simp [Component.isSpace]),
      minifiedParts, List.append_nil]
    exact htrimmed.trim_eq
  · cases h

/-! ## Lexemes in a block -/

section
variable {rest : List Char} {ls : List Lexeme}

/-- Settled lexemes are read as their tokens up to a closing brace, which they leave canonical. -/
theorem scan_lexemesText_brace (h : ∀ t ∈ lexemesTokens ls, t.Spelled) (hsettled : settled ls = true) :
    scan (lexemesText ls ++ '}' :: rest) = lexemesTokens ls ++ scan ('}' :: rest) ∧
      (isCanonical (lexemesText ls ++ '}' :: rest) = true → isCanonical ('}' :: rest) = true) := by
  induction ls with
  | nil => exact ⟨rfl, id⟩
  | cons l ls ih =>
    rw [lexemesTokens_cons, List.forall_mem_append] at h
    simp only [settled, Bool.and_eq_true, Bool.not_eq_true'] at hsettled
    obtain ⟨⟨hfirm, hstop⟩, hrest⟩ := hsettled
    obtain ⟨hscan, hcanonical⟩ := ih h.2 hrest
    rw [← l.goesOn_brace _ rest] at hstop
    obtain ⟨c, more, htext, hread⟩ := Lexeme.exists_readToken h.1 hfirm hstop
    rw [lexemesText_cons, List.append_assoc, lexemesTokens_cons, List.append_assoc, ← hscan]
    refine ⟨Lexeme.scan h.1 hfirm hstop, fun hall => hcanonical ?_⟩
    rw [htext] at hall
    exact isCanonical_of_readToken hall hread

/-- The content of a curly block that is settled where it is written exactly. -/
structure IsSettledBlock (content : List Component) : Prop where
  spelled : ∀ t ∈ tokensOf content, t.Spelled
  settled : settled (lexemesOf true none (joinedRow content)) = true

/-- Whether the text of each token in a block spells it, and none goes on in the text after it. -/
def isSettledBlock (content : List Component) : Bool :=
  (tokensOf content).all Token.isSteady && Css.settled (lexemesOf true none (joinedRow content))

namespace IsSettledBlock

variable {content : List Component}

/-- A block of tokens as they can be read is settled if the test says so. -/
theorem of_isSettledBlock (hformed : ∀ t ∈ tokensOf content, t.Formed)
    (h : isSettledBlock content = true) : IsSettledBlock content := by
  rw [isSettledBlock, Bool.and_eq_true, List.all_eq_true] at h
  exact ⟨fun t ht => ⟨hformed t ht, h.1 t ht⟩, h.2⟩

/-- The text of a settled block is that of its lexemes. -/
theorem text_eq (h : IsSettledBlock content) :
    (Component.group (.bracket .curly) content).text =
      '{' :: (lexemesText (lexemesOf true none (joinedRow content)) ++ ['}']) := by
  rw [text_group (endInOpenString_of_spelled content h.spelled), lexemesText_joinedRow,
    lexemesText_exactRow (by simp) content h.spelled]
  rfl

/-- The tokens of the lexemes can be spelled. -/
theorem spelled_lexemes (h : IsSettledBlock content) :
    ∀ t ∈ lexemesTokens (lexemesOf true none (joinedRow content)), t.Spelled := by
  rw [lexemesTokens_lexemesOf]
  exact spelled_joinedRow content h.spelled

/-- A settled block is read back as one group, up to neighbours of white space in it. -/
theorem readsTo (h : IsSettledBlock content)
    (hcanonical : isCanonical ((Component.group (.bracket .curly) content).text ++ rest) = true) :
    ReadsTo ((Component.group (.bracket .curly) content).text ++ rest) rest
        [.group (.bracket .curly) (joinedRow content)] ∧ isCanonical rest = true := by
  have hopen : ∀ more, readToken '{' more = ([.opening (.bracket .curly)], more) :=
    readToken_open (b := .curly)
  have hclose : ∀ more, readToken '}' more = ([.closing .curly], more) :=
    readToken_close (b := .curly)
  obtain ⟨hscan, hend⟩ := @scan_lexemesText_brace rest _ h.spelled_lexemes h.settled
  rw [h.text_eq, List.cons_append, List.append_assoc, List.singleton_append] at hcanonical ⊢
  refine ⟨.group (hopen _) (fun n => ?_) (hclose _),
    isCanonical_of_readToken (hend (isCanonical_of_readToken hcanonical (hopen _))) (hclose _)⟩
  rw [hscan, List.foldl_append, lexemesTokens_lexemesOf, foldl_tokensOf]

/-- The group that a settled block is read as has the text of the block. -/
theorem minify_joined (h : IsSettledBlock content) :
    minify [.group (.bracket .curly) (joinedRow content)] =
      .ok (Component.group (.bracket .curly) content).text := by
  have hspelled : ∀ t ∈ (Component.group (.bracket .curly) content).tokens, t.Spelled :=
    spelled_group.2 ⟨⟨trivial, rfl⟩, h.spelled⟩
  have htext : minifiedText none [.group (.bracket .curly) (joinedRow content)] =
      (Component.group (.bracket .curly) content).joined.text := minifiedText_of_valueBlock rfl
  rw [← Component.text_joined hspelled, ← htext]
  rfl

/-- A settled block has nothing to normalize. -/
theorem isNormal (h : IsSettledBlock content) :
    IsNormal (Component.group (.bracket .curly) content).text := by
  rw [h.text_eq]
  exact .cons (by decide) ((isNormal_lexemesText h.spelled_lexemes).append (.cons (by decide) isNormal_nil))

end IsSettledBlock

end

end CssTemplate.Css
