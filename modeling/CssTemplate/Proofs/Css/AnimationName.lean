import CssTemplate.CssProcessor
import CssTemplate.Proofs.Css.Blocks
import CssTemplate.Proofs.Css.Heads
import CssTemplate.Proofs.Css.Tame
import CssTemplate.Text.Identifier

/-!
# The name of an animation

The body of an animation is flattened inside a keyframes rule that bears a name. The name is read as
the same atoms whatever the rule holds (`exists_readAs`), and is only seen again in the head of the
rule (`flattenCss_keyframes`). So every name that comes back as it was gives the same body, and under
all other names unwrapping fails (`flattenAnimation_cases`).
-/

namespace CssTemplate.Css

/-! ## Reading up to a block -/

/-- A character of a name without hyphens, a dollar sign or white space. -/
def isTitleChar (c : Char) : Bool :=
  startsName c || c.isDigit || c == '$' || isSpace c

/-- A character of a title is none of those that the test refuses. -/
theorem ne_of_isTitleChar {c a : Char} (h : isTitleChar c = true) (ha : isTitleChar a = false) :
    c ≠ a := by
  rintro rfl
  rw [h] at ha
  cases ha

/-- A run that a brace ends does not go on into a block. -/
theorem takeWhile_append_block {p : Char → Bool} (hp : p '{' = false) (text rest : List Char) :
    (text ++ '{' :: rest).takeWhile p = text.takeWhile p := by
  induction text with
  | nil => simp [hp]
  | cons c text ih =>
    rw [List.cons_append, List.takeWhile_cons, List.takeWhile_cons, ih]

/-- What follows a run that a brace ends keeps the block. -/
theorem dropWhile_append_block {p : Char → Bool} (hp : p '{' = false) (text rest : List Char) :
    (text ++ '{' :: rest).dropWhile p = text.dropWhile p ++ '{' :: rest := by
  induction text with
  | nil => simp [hp]
  | cons c text ih =>
    rw [List.cons_append, List.dropWhile_cons, List.dropWhile_cons, ih]
    split <;> rfl

/-- What the first character after a part of a name cannot be. -/
theorem head?_append_block {text : List Char} (h : ∀ c ∈ text, isTitleChar c = true) {a : Char}
    (ha : isTitleChar a = false) (hblock : a ≠ '{') (rest : List Char) :
    (text ++ '{' :: rest).head? ≠ some a := by
  cases text with
  | nil => simpa using Ne.symm hblock
  | cons c text => simpa using ne_of_isTitleChar (h c (.head _)) ha

/-- The name at the front of a title ends before the block. -/
theorem readName_append_block {text : List Char} (h : ∀ c ∈ text, isTitleChar c = true)
    (rest : List Char) :
    readName (text ++ '{' :: rest) =
      (text.takeWhile isNameChar, text.dropWhile isNameChar ++ '{' :: rest) := by
  induction text with
  | nil => exact readName_append (fun _ hc => absurd hc List.not_mem_nil) rfl (by decide) rest
  | cons c text ih =>
    obtain ⟨hc, htext⟩ := List.forall_mem_cons.1 h
    have hescape : startsEscape (c :: (text ++ '{' :: rest)) = false := by
      rw [startsEscape_cons, beq_eq_false_iff_ne.2 (ne_of_isTitleChar hc rfl), Bool.false_and]
    rw [List.cons_append, readName, hescape, ih htext]
    cases hname : isNameChar c with
    | true => simp [hname]
    | false => simp [hname]

/-- A title starts with an identifier if its first character starts a name. -/
theorem startsIdent_append_block {text : List Char} (h : ∀ c ∈ text, isTitleChar c = true)
    (rest : List Char) : startsIdent (text ++ '{' :: rest) = text.head?.any startsName := by
  cases text with
  | nil => rfl
  | cons c text =>
    have hc := h c (.head _)
    rw [List.cons_append, startsIdent_cons, if_neg (ne_of_isTitleChar hc rfl), startsEscape_cons,
      beq_eq_false_iff_ne.2 (ne_of_isTitleChar hc rfl), Bool.false_and, Bool.or_false]
    rfl

/-- A title starts with no sign. -/
theorem readSign_append_block {text : List Char} (h : ∀ c ∈ text, isTitleChar c = true)
    (rest : List Char) : readSign (text ++ '{' :: rest) = ([], text ++ '{' :: rest) := by
  have hplus := head?_append_block h (a := '+') rfl (by decide) rest
  have hminus := head?_append_block h (a := '-') rfl (by decide) rest
  unfold readSign
  split
  · next heq => exact absurd (congrArg List.head? heq) hplus
  · next heq => exact absurd (congrArg List.head? heq) hminus
  · rfl

/-- An exponent in a name, and what is left of the name after it. -/
theorem readExponent_append_block {text : List Char} (h : ∀ c ∈ text, isTitleChar c = true) :
    ∃ exponent after, after <:+ text ∧ Braceless exponent ∧
      ∀ rest, readExponent (text ++ '{' :: rest) = (exponent, after ++ '{' :: rest) := by
  cases text with
  | nil => exact ⟨[], [], List.suffix_rfl, by decide, fun rest => rfl⟩
  | cons e text =>
    have hsign := readSign_append_block (List.forall_mem_cons.1 h).2
    by_cases hexponent : (e == 'e' || e == 'E') = true ∧ digits text ≠ []
    · refine ⟨e :: digits text, afterDigits text, ?_, ?_, fun rest => ?_⟩
      · exact (List.dropWhile_suffix _).trans (List.suffix_cons e text)
      · have he : isTitleChar e = true := h e (.head _)
        exact braceless_cons.2 ⟨ne_of_isTitleChar he rfl, ne_of_isTitleChar he rfl,
          braceless_takeWhile rfl rfl text⟩
      · have hdigits : digits (text ++ '{' :: rest) = digits text := takeWhile_append_block rfl _ _
        have hafter : afterDigits (text ++ '{' :: rest) = afterDigits text ++ '{' :: rest :=
          dropWhile_append_block rfl _ _
        rw [List.cons_append, readExponent, if_pos hexponent.1, hsign]
        simp [hdigits, hafter, hexponent.2]
    · refine ⟨[], e :: text, List.suffix_rfl, by decide, fun rest => ?_⟩
      have hdigits : digits (text ++ '{' :: rest) = digits text := takeWhile_append_block rfl _ _
      rw [List.cons_append, readExponent, hsign]
      simp only [hdigits]
      split
      · next he =>
        have hnone : digits text = [] := Classical.not_not.1 fun hne => hexponent ⟨he, hne⟩
        rw [hnone]
        rfl
      · rfl

/-- A number in a name, and what is left of the name after it. -/
theorem readNumber?_append_block {c : Char} {text : List Char}
    (h : ∀ d ∈ c :: text, isTitleChar d = true) (hc : c.isDigit = true) :
    ∃ numeral after, after <:+ text ∧ Braceless numeral ∧
      ∀ rest, readNumber? (c :: (text ++ '{' :: rest)) = some (numeral, after ++ '{' :: rest) := by
  have htake : ∀ rest, digits (c :: (text ++ '{' :: rest)) = c :: digits text := by
    intro rest
    rw [digits, List.takeWhile_cons_of_pos hc, takeWhile_append_block rfl]
    rfl
  have hdrop : ∀ rest, afterDigits (c :: (text ++ '{' :: rest)) = afterDigits text ++ '{' :: rest := by
    intro rest
    rw [afterDigits, List.dropWhile_cons_of_pos hc, dropWhile_append_block rfl]
    rfl
  have hsuffix : afterDigits text <:+ text := List.dropWhile_suffix _
  have hafter : ∀ d ∈ afterDigits text, isTitleChar d = true :=
    fun d hd => h d (.tail _ (hsuffix.subset hd))
  have hmantissa : ∀ rest, readMantissa? (c :: (text ++ '{' :: rest)) =
      some (c :: digits text, afterDigits text ++ '{' :: rest) := by
    intro rest
    rw [readMantissa?_of_no_point, htake, hdrop]
    · rfl
    · rw [hdrop]
      exact head?_append_block hafter rfl (by decide) rest
  obtain ⟨exponent, after, hrest, hbraceless, hexponent⟩ := readExponent_append_block hafter
  have hnumeral : Braceless (c :: digits text) := by
    refine braceless_of_forall (p := Char.isDigit) rfl rfl fun d hd => ?_
    rcases List.mem_cons.1 hd with rfl | hd
    · exact hc
    · exact List.all_eq_true.1 List.all_takeWhile d hd
  refine ⟨c :: digits text ++ exponent, after, hrest.trans hsuffix, hnumeral.append hbraceless,
    fun rest => ?_⟩
  have hsign := readSign_append_block h rest
  rw [List.cons_append] at hsign
  rw [readNumber?, hsign]
  simp only [hmantissa, hexponent]
  rfl

/-- A plain unit is written without braces. -/
theorem braceless_unitText {unit : List Char} (h : PlainIdent unit) : Braceless (unitText unit) := by
  have hname : ∀ {part : List Char}, part ⊆ unit → Braceless part := fun hpart =>
    braceless_of_forall rfl rfl fun c hc => h.chars c (hpart hc)
  unfold unitText
  split
  · have hrest : unit.drop 1 ⊆ unit := (List.drop_suffix 1 unit).subset
    rw [nameText_of_chars fun c hc => h.chars c (hrest hc)]
    have hescape : Braceless ['\\', '6', '5', ' '] := by decide
    exact hescape.append (hname hrest)
  · rw [h.identifierText]
    exact hname (List.Subset.refl _)

/-- An atom that ends no statement and whose text is written without a fault and without braces. -/
structure Atom.Neutral (a : Atom) : Prop where
  ends : (Component.atom a).endsStatement = false
  sound : (Component.atom a).firstFault = none
  braceless : Braceless a.text

/-- A plain identifier is neutral. -/
theorem neutral_ident {name : List Char} (h : PlainIdent name) : (Atom.ident name).Neutral := by
  refine ⟨rfl, rfl, ?_⟩
  show Braceless (identifierText name)
  rw [h.identifierText]
  exact braceless_of_forall rfl rfl h.chars

/-- A run of name characters is a plain identifier if its first character starts a name and is no
hyphen. -/
theorem plainIdent_takeWhile {c : Char} (hc : startsName c = true) (hyphen : c ≠ '-')
    (text : List Char) : PlainIdent (c :: text.takeWhile isNameChar) := by
  refine ⟨?_, fun d hd => ?_⟩
  · rw [startsIdent_cons, if_neg hyphen, hc, Bool.true_or]
  · rcases List.mem_cons.1 hd with rfl | hd
    · exact isNameChar_of_startsName hc
    · exact List.all_eq_true.1 List.all_takeWhile d hd

/-- A number in a name becomes a number or, with the name that follows it, a dimension. -/
theorem lexNumeric_append_block {numeral text : List Char} (hnumeral : Braceless numeral)
    (h : ∀ c ∈ text, isTitleChar c = true) :
    ∃ a after, after <:+ text ∧ Atom.Neutral a ∧
      ∀ rest, lexNumeric numeral (text ++ '{' :: rest) = lexAtom a (after ++ '{' :: rest) := by
  have hstarts := startsIdent_append_block h
  have hplain : text.head?.any startsName = false → ∃ a after, after <:+ text ∧ Atom.Neutral a ∧
      ∀ rest, lexNumeric numeral (text ++ '{' :: rest) = lexAtom a (after ++ '{' :: rest) := by
    intro hunit
    refine ⟨.number numeral, text, List.suffix_rfl, ⟨rfl, rfl, hnumeral⟩, fun rest => ?_⟩
    exact lexNumeric_of_plain ((hstarts rest).trans hunit) (head?_append_block h rfl (by decide) rest)
  cases text with
  | nil => exact hplain rfl
  | cons c text =>
    cases hunit : startsName c with
    | false => exact hplain hunit
    | true =>
      have hname := plainIdent_takeWhile hunit (ne_of_isTitleChar (h c (.head _)) rfl) text
      have hchar := isNameChar_of_startsName hunit
      refine ⟨.dimension numeral (c :: text.takeWhile isNameChar), text.dropWhile isNameChar,
        (List.dropWhile_suffix _).trans (List.suffix_cons c text),
        ⟨rfl, rfl, hnumeral.append (braceless_unitText hname)⟩, fun rest => ?_⟩
      rw [lexNumeric_of_unit ((hstarts rest).trans hunit), readName_append_block h,
        List.takeWhile_cons_of_pos hchar, List.dropWhile_cons_of_pos hchar]

/-- A lexeme of a name is an atom, whatever block follows the name. -/
theorem readToken_append_block {c : Char} {text : List Char}
    (h : ∀ d ∈ c :: text, isTitleChar d = true) :
    ∃ a after, after <:+ text ∧ Atom.Neutral a ∧
      ∀ rest, readToken c (text ++ '{' :: rest) = lexAtom a (after ++ '{' :: rest) := by
  obtain ⟨hc, htext⟩ := List.forall_mem_cons.1 h
  cases hspace : isSpace c with
  | true =>
    refine ⟨.space (c :: text.takeWhile isSpace), text.dropWhile isSpace, List.dropWhile_suffix _,
      ⟨rfl, rfl, ?_⟩, fun rest => ?_⟩
    · exact braceless_cons.2 ⟨ne_of_isTitleChar hc rfl, ne_of_isTitleChar hc rfl,
        braceless_takeWhile rfl rfl text⟩
    · rw [readToken_space hspace, takeWhile_append_block rfl, dropWhile_append_block rfl]
  | false =>
    have hword : ∀ rest, StartsWord c (text ++ '{' :: rest) := by
      intro rest
      have hrange : startsUnicodeRange (c :: (text ++ '{' :: rest)) = false := by
        unfold startsUnicodeRange
        split
        · next heq =>
          injection heq with _ heq
          exact absurd (congrArg List.head? heq) (head?_append_block htext rfl (by decide) rest)
        · rfl
      exact ⟨hspace, hrange, fun _ hne => absurd hne (ne_of_isTitleChar hc rfl)⟩
    have hident : ∀ rest, startsIdent (c :: (text ++ '{' :: rest)) = startsName c :=
      startsIdent_append_block h
    cases hstarts : startsName c with
    | true =>
      have hchar := isNameChar_of_startsName hstarts
      refine ⟨.ident (c :: text.takeWhile isNameChar), text.dropWhile isNameChar,
        List.dropWhile_suffix _, neutral_ident (plainIdent_takeWhile hstarts
          (ne_of_isTitleChar hc rfl) text), fun rest => ?_⟩
      have hname := readName_append_block h rest
      rw [List.takeWhile_cons_of_pos hchar, List.dropWhile_cons_of_pos hchar, List.cons_append] at hname
      have hopen : (readName (c :: (text ++ '{' :: rest))).2.head? ≠ some '(' := by
        rw [hname]
        exact head?_append_block (fun d hd => htext d ((List.dropWhile_suffix _).subset hd)) rfl
          (by decide) rest
      rw [readToken_word (hword rest), hident, if_pos hstarts, lexIdent_of_no_open hopen, hname]
    | false =>
      cases hdigit : c.isDigit with
      | true =>
        obtain ⟨numeral, after, hafter, hnumeral, hread⟩ := readNumber?_append_block h hdigit
        obtain ⟨a, after', hafter', ha, hlex⟩ := lexNumeric_append_block hnumeral
          fun d hd => htext d (hafter.subset hd)
        refine ⟨a, after', hafter'.trans hafter, ha, fun rest => ?_⟩
        rw [readToken_word (hword rest), hident, hstarts, hread]
        exact hlex rest
      | false =>
        have hdollar : c = '$' := by
          simpa [isTitleChar, hstarts, hdigit, hspace] using hc
        subst hdollar
        refine ⟨.literal ['$'], text, List.suffix_rfl, ⟨rfl, rfl, by decide⟩, fun rest => ?_⟩
        rw [readToken_word (hword rest), hident, hstarts]
        exact lexOperator_of_no_equals (head?_append_block htext rfl (by decide) rest)

/-- The text is read as the given atoms, whatever block follows it. -/
structure ReadAs (text : List Char) (atoms : List Atom) : Prop where
  title : ∀ c ∈ text, isTitleChar c = true
  neutral : ∀ a ∈ atoms, a.Neutral
  scan : ∀ rest, Css.scan (text ++ '{' :: rest) = atoms.map .atom ++ Css.scan ('{' :: rest)

/-- Every title is read as some neutral atoms, whatever block follows it. -/
theorem exists_readAs {text : List Char} (h : ∀ c ∈ text, isTitleChar c = true) :
    ∃ atoms, ReadAs text atoms := by
  induction hlength : text.length using Nat.strongRecOn generalizing text with
  | ind length ih =>
    subst hlength
    cases text with
    | nil => exact ⟨[], h, nofun, fun rest => rfl⟩
    | cons c text =>
      obtain ⟨a, after, hafter, ha, hread⟩ := readToken_append_block h
      have hlt : after.length < (c :: text).length := Nat.lt_succ_of_le hafter.length_le
      obtain ⟨atoms, hatoms⟩ := ih _ hlt (fun d hd => h d (.tail _ (hafter.subset hd))) rfl
      refine ⟨a :: atoms, h, List.forall_mem_cons.2 ⟨ha, hatoms.neutral⟩, fun rest => ?_⟩
      rw [List.cons_append, Css.scan, hread]
      simp only [lexAtom]
      rw [hatoms.scan]
      rfl

/-! ## The body of the wrapper -/

/-- Preprocessing leaves a title as it is. -/
theorem normalize_title {text : List Char} (h : ∀ c ∈ text, isTitleChar c = true)
    (rest : List Char) : normalize (text ++ rest) = text ++ normalize rest := by
  induction text with
  | nil => rfl
  | cons c text ih =>
    obtain ⟨hc, htext⟩ := List.forall_mem_cons.1 h
    have hkept : c ∉ ['\r', '\x0c', '\x00'] := by
      simp only [List.mem_cons, List.not_mem_nil, or_false, not_or]
      exact ⟨ne_of_isTitleChar hc rfl, ne_of_isTitleChar hc rfl, ne_of_isTitleChar hc rfl⟩
    rw [List.cons_append, normalize_cons hkept, ih htext, List.cons_append]

/-- The tokens of a text after the opening of the wrapper. -/
theorem scan_keyframesOpening {name : List Char} {atoms : List Atom}
    (h : ReadAs (' ' :: name) atoms) (text : List Char) :
    scan (normalize (keyframesOpening name ++ text)) =
      (.atKeyword "keyframes".toList :: atoms).map .atom ++ .opening (.bracket .curly) ::
        scan (normalize text) := by
  have hopening : "@keyframes ".toList = '@' :: ("keyframes".toList ++ [' ']) := by decide
  have hkeyword : "keyframes".toList.all isNameChar = true := by decide
  have hinput : keyframesOpening name ++ text =
      '@' :: ("keyframes".toList ++ (' ' :: name ++ '{' :: text)) := by
    unfold keyframesOpening
    rw [hopening]
    simp only [List.append_assoc, List.cons_append, List.nil_append]
  have hread : ∀ rest, readToken '@' ("keyframes".toList ++ ' ' :: rest) =
      lexAtom (.atKeyword "keyframes".toList) (' ' :: rest) := by
    intro rest
    have hname := @readName_append _ (List.all_eq_true.1 hkeyword) ' ' rfl (by decide) rest
    have hword : StartsWord '@' ("keyframes".toList ++ ' ' :: rest) :=
      ⟨rfl, startsUnicodeRange_of_ne (by decide) (by decide), fun _ h => absurd h (by decide)⟩
    rw [readToken_word hword]
    show lexAtom (.atKeyword (readName _).1) (readName _).2 = _
    rw [hname]
  rw [hinput, normalize_cons (by decide), normalize_append (List.all_eq_true.1 hkeyword),
    normalize_title h.title, normalize_cons (by decide), Css.scan, List.cons_append, hread]
  simp only [lexAtom]
  rw [← List.cons_append, h.scan, Css.scan, readToken_curly]
  rfl

/-- The tokens of an animation in its wrapper. -/
theorem blockTokens_keyframes {name text : List Char} {atoms : List Atom}
    (h : ReadAs (' ' :: name) atoms) :
    blockTokens (flattenInput true name text) =
      (.atKeyword "keyframes".toList :: atoms).map .atom ++ .opening (.bracket .curly) ::
        scan (normalize (text ++ ['}', '}'])) := by
  have hinput : flattenInput true name text ++ ['}'] = keyframesOpening name ++ (text ++ ['}', '}']) := by
    unfold flattenInput
    rw [if_pos rfl]
    simp only [List.append_assoc, List.cons_append, List.nil_append]
  rw [blockTokens, hinput, scan_keyframesOpening h]

/-- Atoms belong to the group in which they stand. -/
theorem splitGroup_atoms (closer : Bracket) (inside : List Bracket) (atoms : List Atom)
    (ts : List Token) :
    splitGroup closer inside (atoms.map .atom ++ ts) =
      (atoms.map .atom ++ (splitGroup closer inside ts).1, (splitGroup closer inside ts).2) := by
  induction atoms with
  | nil => rfl
  | cons a atoms ih =>
    rw [List.map_cons, List.cons_append, splitGroup, ih]
    rfl

/-- Whether an animation has a body in its wrapper does not depend on its name, and the name stands
only before the block of the wrapper. -/
theorem templateBody_keyframes {context : List Char} (hcontext : PlainName context)
    (text : List Char) :
    (∀ name atoms, ReadAs (' ' :: name) atoms →
      ∃ what, templateBody context (flattenInput true name text) = .error what) ∨
    ∃ frames after, ∀ name atoms, ReadAs (' ' :: name) atoms →
      templateBody context (flattenInput true name text) =
        .ok ((.atKeyword "keyframes".toList :: atoms).map .atom ++
          .group (.bracket .curly) frames :: after) := by
  let inside := splitGroup .curly [.curly] (scan (normalize (text ++ ['}', '}'])))
  have hsplit : ∀ name atoms, ReadAs (' ' :: name) atoms →
      splitGroup .curly [] (blockTokens (flattenInput true name text)) =
        ((.atKeyword "keyframes".toList :: atoms).map .atom ++
          .opening (.bracket .curly) :: inside.1, inside.2) := by
    intro name atoms h
    rw [blockTokens_keyframes h, splitGroup_atoms]
    rfl
  cases hmalformed : firstMalformed (styleSheet (Component.ofTokens inside.2)) with
  | some f =>
    refine .inl fun name atoms h => ⟨.rule f, ?_⟩
    rw [templateBody_name hcontext]
    simp only [soleBody, hsplit name atoms h, hmalformed]
  | none =>
    cases hempty : (styleSheet (Component.ofTokens inside.2)).isEmpty with
    | false =>
      refine .inl fun name atoms h => ⟨.unbalanced (flattenInput true name text), ?_⟩
      rw [templateBody_name hcontext]
      simp only [soleBody, hsplit name atoms h, hmalformed, hempty, Bool.false_eq_true, if_false]
    | true =>
      refine .inr ⟨Component.ofTokens (splitGroup .curly [] inside.1).1,
        Component.ofTokens (splitGroup .curly [] inside.1).2, fun name atoms h => ?_⟩
      rw [templateBody_name hcontext]
      simp only [soleBody, hsplit name atoms h, hmalformed, hempty, if_true, Component.ofTokens_atoms,
        Component.ofTokens_opening, Opening.closedBy]

/-! ## Its flat rules -/

section

variable {atoms : List Atom} (hatoms : ∀ a ∈ atoms, a.Neutral)

include hatoms

/-- Neutral atoms and the block after them are one statement. -/
theorem statements_neutral (content after : List Component) :
    statements (atoms.map .atom ++ .group (.bracket .curly) content :: after) =
      (atoms.map .atom ++ [.group (.bracket .curly) content]) :: statements after := by
  induction atoms with
  | nil => rfl
  | cons a atoms ih =>
    obtain ⟨ha, hatoms⟩ := List.forall_mem_cons.1 hatoms
    rw [List.map_cons, List.cons_append, statements, ha.ends, ih hatoms]
    rfl

/-- Neutral atoms and the block after them are one construct. -/
theorem readConstruct_neutral (content after : List Component) :
    readConstruct (atoms.map .atom ++ .group (.bracket .curly) content :: after) =
      ⟨atoms.map .atom, .block content, after⟩ := by
  induction atoms with
  | nil => rfl
  | cons a atoms ih =>
    obtain ⟨ha, hatoms⟩ := List.forall_mem_cons.1 hatoms
    have hsemicolon : (Component.atom a).isSemicolon = false := ha.ends
    rw [List.map_cons, List.cons_append, readConstruct, ih hatoms]
    simp [Component.curly?, hsemicolon]

/-- An animation at the front of a body is one entry. -/
theorem bodyEntries_keyframes (frames after : List Component) :
    bodyEntries ((.atKeyword "keyframes".toList :: atoms).map .atom ++
        .group (.bracket .curly) frames :: after) =
      .item (.rule (.atRule "keyframes".toList (atoms.map .atom) (some frames))) ::
        bodyEntries after := by
  have hkeyword : Atom.Neutral (.atKeyword "keyframes".toList) :=
    ⟨rfl, rfl, by decide⟩
  have hall := List.forall_mem_cons.2 ⟨hkeyword, hatoms⟩
  have hstatement : statementEntries ((.atKeyword "keyframes".toList :: atoms).map .atom ++
      [.group (.bracket .curly) frames]) =
        [.item (.rule (.atRule "keyframes".toList (atoms.map .atom) (some frames)))] := by
    have hitems : blockItems ((.atKeyword "keyframes".toList :: atoms).map .atom ++
        [.group (.bracket .curly) frames]) =
          [.rule (.atRule "keyframes".toList (atoms.map .atom) (some frames))] := by
      rw [List.map_cons, List.cons_append, blockItems]
      simp only [Component.isSpace, Component.isSemicolon, Component.isLiteral, readItem,
        Component.atKeyword?, readAtRule, readConstruct_neutral hatoms]
      simp [blockItems]
    rw [statementEntries, hitems]
    rfl
  rw [bodyEntries, statements_neutral hall, List.flatMap_cons, hstatement]
  rfl

/-- The head of an animation whose name is read as the given atoms. -/
def animationHead (atoms : List Atom) : List Char :=
  '@' :: "keyframes".toList ++
    if (minifiedText none (atoms.map .atom)).isEmpty then []
    else ' ' :: minifiedText none (atoms.map .atom)

/-- The head of an animation whose name is neutral is written without a fault. -/
theorem atRuleHead_neutral :
    atRuleHead "keyframes".toList (atoms.map .atom) = .ok (animationHead atoms) := by
  have hsound : firstFaultOf (atoms.map .atom) = none := by
    induction atoms with
    | nil => rw [List.map_nil, firstFaultOf]
    | cons a atoms ih =>
      obtain ⟨ha, hatoms⟩ := List.forall_mem_cons.1 hatoms
      rw [List.map_cons, firstFaultOf, ha.sound, ih hatoms]
  rw [atRuleHead, minify, hsound]
  rfl

/-- The head of an animation whose name is neutral holds no braces. -/
theorem braceless_animationHead : Braceless (animationHead atoms) := by
  have hhead := writable_braceless
  have hwithin : ∀ c ∈ atoms.map Component.atom, c.Within Braceless := by
    intro c hc
    obtain ⟨a, ha, rfl⟩ := List.mem_map.1 hc
    exact (hatoms a ha).braceless
  have hkeyword : Braceless ('@' :: "keyframes".toList) := by decide
  refine hkeyword.append ?_
  split
  · exact hhead.nil
  · exact hhead.cons (by decide) (within_minifiedText hhead none nofun hwithin)

end

/-- The head of an animation is only seen in the fault of a stray node. -/
theorem flattenFrames_head {head : List Char} (head' : List Char) {nodes : List NestedRule}
    {rules : List FlatRule} (h : flattenFrames head nodes = .ok rules) :
    flattenFrames head' nodes = .ok rules := by
  induction nodes generalizing rules with
  | nil => exact h
  | cons node nodes ih =>
    cases node with
    | rule selector body =>
      obtain ⟨own, hown, h⟩ := Except.bind_eq_ok_iff.1 h
      obtain ⟨flat, hflat, h⟩ := Except.bind_eq_ok_iff.1 h
      obtain ⟨rest, hrest, h⟩ := Except.bind_eq_ok_iff.1 h
      rw [flattenFrames, hown, Except.bind_ok, hflat, Except.bind_ok, ih hrest, Except.bind_ok]
      exact h
    | _ => cases h

/-- An animation at the front of a body is one node of the nesting tree. -/
theorem ofBody_keyframes {atoms : List Atom} (hatoms : ∀ a ∈ atoms, a.Neutral)
    (frames after : List Component) :
    NestedRule.ofBody ((.atKeyword "keyframes".toList :: atoms).map .atom ++
        .group (.bracket .curly) frames :: after) =
      .atRule .keyframes "keyframes".toList (atoms.map .atom) (NestedRule.ofFrames frames) ::
        NestedRule.ofBody after := by
  have hkind : AtRuleKind.ofKeyword "keyframes".toList = .keyframes := by decide
  rw [NestedRule.ofBody_eq, bodyEntries_keyframes hatoms, List.map_cons, NestedRule.ofBody_eq,
    NestedRule.ofEntry, NestedRule.ofItem, hkind, if_pos rfl]

/-- A flat rule ends in a brace. -/
theorem getLast?_text (rule : FlatRule) : rule.text.getLast? = some '}' := by
  cases rule <;> rw [FlatRule.text, blockText, List.getLast?_concat]

/-- Flat rules end in a brace. -/
theorem getLast?_rulesText {rules : List FlatRule} (h : rules ≠ []) :
    (rulesText rules).getLast? = some '}' := by
  induction rules with
  | nil => exact absurd rfl h
  | cons rule rules ih =>
    rw [rulesText, List.getLast?_append]
    cases rules with
    | nil =>
      rw [rulesText, List.getLast?_nil, Option.none_or]
      exact getLast?_text rule
    | cons next rules =>
      rw [ih (List.cons_ne_nil _ _)]
      rfl

/-- An animation in its wrapper flattens or fails whatever its name is. In the flat text the name is
only seen in the head of the wrapper; before it stand the declarations outside the animation. -/
theorem flattenCss_keyframes {context : List Char} (hcontext : PlainName context)
    (text : List Char) :
    (∀ name atoms, ReadAs (' ' :: name) atoms →
      ∃ what, flattenCss context (flattenInput true name text) = .error what) ∨
    ∃ front body, (front = [] ∨ context <+: front) ∧ body.getLast? = some '}' ∧
      ∀ name atoms, ReadAs (' ' :: name) atoms →
        flattenCss context (flattenInput true name text) =
          .ok (front ++ (animationHead atoms ++ '{' :: body)) := by
  rcases templateBody_keyframes hcontext text with hfail | ⟨frames, after, hbody⟩
  · refine .inl fun name atoms h => ?_
    obtain ⟨what, hwhat⟩ := hfail name atoms h
    refine ⟨what, ?_⟩
    rw [flattenCss, flattenTemplate, hwhat]
    rfl
  · have hflatten : ∀ name atoms, ReadAs (' ' :: name) atoms →
        flattenCss context (flattenInput true name text) =
          (do
            let rules ← flattenFrames (animationHead atoms) (NestedRule.ofFrames frames)
            let rest ← flattenBody [context] (NestedRule.ofBody after)
            .ok (rulesText (Flattened.rules
              ⟨rest.own, .atRule (animationHead atoms) rules :: rest.inner⟩ [context]))) := by
      intro name atoms h
      rw [flattenCss, flattenTemplate, hbody name atoms h, Except.bind_ok,
        ofBody_keyframes h.neutral, flattenBody, NestedRule.flatten, atRuleHead_neutral h.neutral,
        Except.bind_ok]
      cases flattenFrames (animationHead atoms) (NestedRule.ofFrames frames) with
      | error what => rfl
      | ok rules =>
        cases flattenBody [context] (NestedRule.ofBody after) with
        | error what => rfl
        | ok rest => rfl
    by_cases hok : ∃ rules rest, flattenFrames [] (NestedRule.ofFrames frames) = .ok rules ∧
        flattenBody [context] (NestedRule.ofBody after) = .ok rest
    · obtain ⟨rules, rest, hrules, hrest⟩ := hok
      refine .inr ⟨if rest.own.isEmpty then [] else (FlatRule.style [context] rest.own).text,
        rulesText rules ++ '}' :: rulesText rest.inner, ?_, ?_, fun name atoms h => ?_⟩
      · split
        · exact .inl rfl
        · have hone : joinCommas [context] = context := by simp [joinCommas, List.intercalate]
          rw [FlatRule.text, hone, blockText, List.append_assoc]
          exact .inr (List.prefix_append _ _)
      · rw [List.getLast?_append, List.getLast?_cons]
        cases hinner : rest.inner with
        | nil =>
          rw [rulesText]
          rfl
        | cons rule inner =>
          rw [getLast?_rulesText (List.cons_ne_nil _ _)]
          rfl
      · rw [hflatten name atoms h, flattenFrames_head _ hrules, hrest, Except.bind_ok, Except.bind_ok,
          Flattened.rules]
        split
        · simp [rulesText, FlatRule.text, blockText]
        · simp [rulesText, FlatRule.text, blockText]
    · refine .inl fun name atoms h => ?_
      rw [hflatten name atoms h]
      cases hresult : (do
          let rules ← flattenFrames (animationHead atoms) (NestedRule.ofFrames frames)
          let rest ← flattenBody [context] (NestedRule.ofBody after)
          .ok (rulesText (Flattened.rules
            ⟨rest.own, .atRule (animationHead atoms) rules :: rest.inner⟩ [context])) :
          Except Fault (List Char)) with
      | error what => exact ⟨what, rfl⟩
      | ok flat =>
        obtain ⟨rules, hrules, hresult⟩ := Except.bind_eq_ok_iff.1 hresult
        obtain ⟨rest, hrest, -⟩ := Except.bind_eq_ok_iff.1 hresult
        exact absurd ⟨rules, rest, flattenFrames_head _ hrules, hrest⟩ hok

end CssTemplate.Css

namespace CssTemplate

open Css

/-! ## Unwrapping -/

/-- The body of an animation after the first step. -/
def flattenAnimation (context text name : List Char) : Except CompileFault (List Char) := do
  let flat ← liftCss (flattenCss context (flattenInput true name text))
  unwrapKeyframes name flat

/-- One head and its brace are a prefix of another only if the heads are the same. -/
theorem isPrefixOf_block {a b : List Char} (ha : '{' ∉ a) (hb : '{' ∉ b) (rest : List Char) :
    (a ++ ['{']).isPrefixOf (b ++ '{' :: rest) = true ↔ a = b := by
  induction a generalizing b with
  | nil =>
    cases b with
    | nil => simp
    | cons d b =>
      have hd : '{' ≠ d := fun heq => hb (heq ▸ .head _)
      simp [hd]
  | cons c a ih =>
    have hc : c ≠ '{' := fun heq => ha (heq ▸ .head _)
    cases b with
    | nil => simp [hc]
    | cons d b =>
      have hstep := ih (fun h => ha (.tail _ h)) (fun h => hb (.tail _ h))
      simp only [List.cons_append, List.isPrefixOf_cons_cons, Bool.and_eq_true, beq_iff_eq, hstep,
        List.cons.injEq]

/-- The wrapper comes back unchanged if its head does. -/
theorem unwrapKeyframes_block {name head body : List Char} (hname : '{' ∉ name) (hhead : '{' ∉ head)
    (hlast : body.getLast? = some '}') :
    unwrapKeyframes name (head ++ '{' :: body) =
      if "@keyframes ".toList ++ name = head then .ok body.dropLast
      else .error (.keyframeOutput (head ++ '{' :: body)) := by
  have hopening : '{' ∉ "@keyframes ".toList ++ name := by
    rw [List.mem_append, not_or]
    exact ⟨by decide, hname⟩
  have hend : ((head ++ '{' :: body).getLast? == some '}') = true := by
    rw [List.getLast?_append, List.getLast?_cons, hlast]
    rfl
  unfold unwrapKeyframes keyframesOpening
  simp only [hend, Bool.and_true, isPrefixOf_block hopening hhead]
  split
  · next heq =>
    have hopening : "@keyframes ".toList ++ name ++ ['{'] = head ++ ['{'] := by rw [heq]
    have hoverall : head ++ '{' :: body = (head ++ ['{']) ++ body := by simp
    rw [hopening, hoverall, List.drop_left]
  · rfl

/-- Nothing can stand before the wrapper. -/
theorem unwrapKeyframes_front {context name output : List Char} (hcontext : PlainName context)
    (hfront : context <+: output) :
    unwrapKeyframes name output = .error (.keyframeOutput output) := by
  obtain ⟨rest, rfl⟩ := hfront
  cases context with
  | nil => cases hcontext.starts
  | cons c context =>
    have hc : '@' ≠ c := (ne_of_isNameChar (hcontext.chars c (.head _)) rfl).symm
    have hopening : "@keyframes ".toList = '@' :: "keyframes ".toList := by decide
    unfold unwrapKeyframes keyframesOpening
    rw [hopening]
    simp [hc]

/-- Whether an animation comes out of its wrapper, and with which body, depends on its name only in
so far as the name has to come back as it was. -/
theorem flattenAnimation_cases {context : List Char} (hcontext : PlainName context)
    (text : List Char) :
    (∀ name atoms, ReadAs (' ' :: name) atoms →
      ∃ what, flattenAnimation context text name = .error (.css what)) ∨
    (∀ name atoms, ReadAs (' ' :: name) atoms →
      ∃ flat, flattenAnimation context text name = .error (.keyframeOutput flat)) ∨
    ∃ body, ∀ name atoms, ReadAs (' ' :: name) atoms →
      if "@keyframes ".toList ++ name = animationHead atoms then
        flattenAnimation context text name = .ok body
      else ∃ flat, flattenAnimation context text name = .error (.keyframeOutput flat) := by
  rcases flattenCss_keyframes hcontext text with hfail | ⟨front, body, hfront, hlast, hflat⟩
  · refine .inl fun name atoms h => ?_
    obtain ⟨what, hwhat⟩ := hfail name atoms h
    refine ⟨what, ?_⟩
    rw [flattenAnimation, hwhat]
    rfl
  · have hunwrap : ∀ name atoms, ReadAs (' ' :: name) atoms →
        flattenAnimation context text name =
          unwrapKeyframes name (front ++ (animationHead atoms ++ '{' :: body)) := by
      intro name atoms h
      rw [flattenAnimation, hflat name atoms h]
      rfl
    rcases hfront with rfl | hfront
    · refine .inr (.inr ⟨body.dropLast, fun name atoms h => ?_⟩)
      have hname : '{' ∉ name := fun hmem => absurd (h.title _ (.tail _ hmem)) (by decide)
      have hhead := (braceless_animationHead h.neutral).opening
      rw [hunwrap name atoms h, List.nil_append, unwrapKeyframes_block hname hhead hlast]
      split
      · rfl
      · exact ⟨_, rfl⟩
    · refine .inr (.inl fun name atoms h => ?_)
      have hfront := hfront.trans (List.prefix_append front (animationHead atoms ++ '{' :: body))
      exact ⟨_, (hunwrap name atoms h).trans (unwrapKeyframes_front hcontext hfront)⟩

/-- A word character may stand in a title. -/
theorem isTitleChar_of_isWord {c : Char} (h : isWord c = true) : isTitleChar c = true := by
  have hstarts : startsName c = true ∨ c.isDigit = true := by
    unfold isWord isAlphanumeric at h
    rw [Bool.or_eq_true, beq_iff_eq] at h
    rcases h with rfl | h
    · exact .inl (by decide)
    · split at h
      · rw [Char.isAlphanum, Bool.or_eq_true] at h
        rcases h with h | h
        · exact .inl (by rw [startsName, h, Bool.true_or, Bool.true_or])
        · exact .inr h
      · next hascii => exact .inl (startsName_of_nonAscii (Nat.le_of_not_lt hascii))
  rcases hstarts with h | h <;> simp [isTitleChar, h]

/-- The characters of an identifier may stand in a title. -/
theorem isTitleChar_of_identifier {name : List Char} (h : isIdentifier name = true) :
    ∀ c ∈ name, isTitleChar c = true := by
  cases name with
  | nil => cases h
  | cons first name =>
    rw [isIdentifier, Bool.and_eq_true, List.all_eq_true] at h
    obtain ⟨hfirst, hname⟩ := h
    refine List.forall_mem_cons.2 ⟨?_, fun c hc => ?_⟩
    · simp only [startsIdentifier, Bool.or_eq_true] at hfirst
      rcases hfirst with (hfirst | hfirst) | hfirst <;> simp [isTitleChar, startsName, hfirst]
    · have hc := hname c hc
      rw [continuesIdentifier, Bool.or_eq_true, beq_iff_eq] at hc
      rcases hc with hc | rfl
      · exact isTitleChar_of_isWord hc
      · rfl

/-- The names that a configuration can give to an animation. -/
theorem isTitleChar_of_identifierLine {name : List Char} (h : isIdentifierLine name = true) :
    ∀ c ∈ ' ' :: name, isTitleChar c = true := by
  refine List.forall_mem_cons.2 ⟨rfl, ?_⟩
  rw [isIdentifierLine, Bool.or_eq_true, Bool.and_eq_true, beq_iff_eq] at h
  rcases h with h | ⟨hlast, h⟩
  · exact isTitleChar_of_identifier h
  · obtain ⟨front, rfl⟩ := List.getLast?_eq_some_iff.1 hlast
    rw [List.dropLast_concat] at h
    exact List.forall_mem_append.2 ⟨isTitleChar_of_identifier h, List.forall_mem_singleton.2 rfl⟩

/-! ## One name for all

The name `x` comes back as it was, so it can stand for all names.
-/

/-- A one-letter name is read as a space and an identifier. -/
theorem readAs_x : ReadAs [' ', 'x'] [.space [' '], .ident ['x']] := by
  have hx : PlainName ['x'] := ⟨rfl, List.forall_mem_singleton.2 rfl⟩
  have hspace : Atom.Neutral (.space [' ']) := ⟨rfl, rfl, by decide⟩
  have hident : Atom.Neutral (.ident ['x']) := neutral_ident ⟨rfl, hx.chars⟩
  refine ⟨List.forall_mem_cons.2 ⟨rfl, List.forall_mem_singleton.2 rfl⟩,
    List.forall_mem_cons.2 ⟨hspace, List.forall_mem_singleton.2 hident⟩, fun rest => ?_⟩
  have hread : readToken ' ' (['x'] ++ '{' :: rest) = lexAtom (.space [' ']) (['x'] ++ '{' :: rest) :=
    rfl
  rw [List.cons_append, Css.scan, hread]
  simp only [lexAtom]
  rw [scan_plainName hx, scan.eq_def ('{' :: rest)]
  simp only [readToken_curly]
  rfl

/-- The opening with a one-letter name is the head of its animation. -/
theorem animationHead_x :
    "@keyframes ".toList ++ ['x'] = animationHead [.space [' '], .ident ['x']] := by
  cbv

/-- A name that comes back gives what the name `x` gives, up to the details of faults; any other name
fails where the name `x` does, or else in unwrapping. -/
theorem mapError_flattenAnimation {context : List Char} (hcontext : PlainName context)
    (text : List Char) {name : List Char} {atoms : List Atom} (hname : ReadAs (' ' :: name) atoms) :
    (flattenAnimation context text name).mapError CompileFault.name =
      if "@keyframes ".toList ++ name = animationHead atoms then
        (flattenAnimation context text ['x']).mapError CompileFault.name
      else
        (flattenAnimation context text ['x'] >>= fun _ =>
          .error (.keyframeOutput [])).mapError CompileFault.name := by
  rcases flattenAnimation_cases hcontext text with hcss | hout | ⟨body, hbody⟩
  · obtain ⟨what, hwhat⟩ := hcss _ _ readAs_x
    obtain ⟨what', hwhat'⟩ := hcss name atoms hname
    rw [hwhat, hwhat']
    split <;> rfl
  · obtain ⟨flat, hflat⟩ := hout _ _ readAs_x
    obtain ⟨flat', hflat'⟩ := hout name atoms hname
    rw [hflat, hflat']
    split <;> rfl
  · have hx := hbody _ _ readAs_x
    have hname := hbody name atoms hname
    rw [if_pos animationHead_x] at hx
    rw [hx]
    split at hname
    · next hback => rw [if_pos hback, hname]
    · next hback =>
      obtain ⟨flat, hflat⟩ := hname
      rw [if_neg hback, hflat]
      rfl

/-- An animation that compiles under some name compiles to the same body under a one-letter name. -/
theorem flattenAnimation_x {context text name body : List Char} (hcontext : PlainName context)
    (hname : isIdentifierLine name = true)
    (h : flattenAnimation context text name = .ok body) :
    flattenAnimation context text ['x'] = .ok body := by
  obtain ⟨atoms, hatoms⟩ := exists_readAs (isTitleChar_of_identifierLine hname)
  have heq := mapError_flattenAnimation hcontext text hatoms
  rw [h] at heq
  split at heq
  · cases hx : flattenAnimation context text ['x'] with
    | ok body' =>
      rw [hx] at heq
      cases heq
      rfl
    | error what =>
      rw [hx] at heq
      cases heq
  · cases hx : flattenAnimation context text ['x'] with
    | ok body' =>
      rw [hx] at heq
      cases heq
    | error what =>
      rw [hx] at heq
      cases heq

end CssTemplate
