import CssTemplate.Proofs.Text.Characters
import CssTemplate.Proofs.Text.Trimmed
import CssTemplate.Tag
import Mathlib

/-!
# The grammar of styled tags

A styled tag is a member of `styled`, an extended component or a call of `styled`, and any number of
calls of `.attrs` after it (`StyledTag`). Recognition cuts a tag at the first place where `.attrs(`
opens and takes everything up to the last bracket as one argument. So it accepts styled tags only, and of
these the plain ones and the plain ones with one call, unless `.attrs(` opens inside of the plain tag
already (`isStyled_iff`): a second call is never reached (`isStyled_chained`).
-/

namespace CssTemplate

/-! ## The grammar -/

/-- A styled tag without a call of `.attrs`, with blanks around its dot or before its bracket. -/
inductive PlainTag : List Char → Prop where
  | member {before after name : List Char} (hbefore : isBlankText before = true)
    (hafter : isBlankText after = true) (hname : isIdentifier name = true) :
    PlainTag ("styled".toList ++ (before ++ '.' :: (after ++ name)))
  | extend {name before after : List Char} (hname : isIdentifier name = true)
    (hcapital : ∀ c ∈ name.head?, c.toUpper = c) (hbefore : isBlankText before = true)
    (hafter : isBlankText after = true) :
    PlainTag (name ++ (before ++ '.' :: (after ++ "extend".toList)))
  | call {gap argument : List Char} (hgap : isBlankText gap = true)
    (hargument : isOneArgument argument = true) :
    PlainTag ("styled".toList ++ (gap ++ '(' :: (argument ++ [')'])))

/-- What follows the dot of a call of `.attrs`, up to its opening bracket. -/
def attrsOpening (after gap : List Char) : List Char :=
  after ++ ("attrs".toList ++ gap)

/-- A call of `.attrs` as it stands after a tag. -/
inductive AttrsCall : List Char → Prop where
  | call {before after gap argument : List Char} (hbefore : isBlankText before = true)
    (hafter : isBlankText after = true) (hgap : isBlankText gap = true)
    (hargument : isOneArgument argument = true) :
    AttrsCall (before ++ '.' :: (attrsOpening after gap ++ '(' :: (argument ++ [')'])))

/-- The styled tags. -/
inductive StyledTag : List Char → Prop where
  | plain {tag : List Char} (h : PlainTag tag) : StyledTag tag
  | attrs {tag call : List Char} (h : StyledTag tag) (hcall : AttrsCall call) : StyledTag (tag ++ call)

/-- A call of `.attrs` opens somewhere in the text. -/
def OpensAttrs (text : List Char) : Prop :=
  ∃ front after gap rest : List Char, isBlankText after = true ∧ isBlankText gap = true ∧
    text = front ++ '.' :: (attrsOpening after gap ++ '(' :: rest)

/-! ## Words, dots and brackets -/

section

variable {text rest before after gap argument name : List Char}

/-- A word is taken off a text exactly when the text starts with it. -/
theorem afterWord?_eq_some_iff {word : List Char} :
    afterWord? word text = some rest ↔ text = word ++ rest := by
  unfold afterWord?
  constructor
  · intro h
    split at h
    · next hfront =>
      obtain ⟨more, rfl⟩ := List.isPrefixOf_iff_prefix.1 hfront
      cases h
      simp
    · cases h
  · rintro rfl
    rw [if_pos (List.isPrefixOf_iff_prefix.2 (List.prefix_append _ _)), List.drop_left]

/-- What is skipped at the front of a text is blank. -/
theorem exists_skipBlanks (text : List Char) :
    ∃ blanks, isBlankText blanks = true ∧ text = blanks ++ skipBlanks text :=
  ⟨text.takeWhile isBlank, List.all_takeWhile, List.takeWhile_append_dropWhile.symm⟩

/-- A blank run at the front is skipped. -/
theorem skipBlanks_append (h : isBlankText before = true) (rest : List Char) :
    skipBlanks (before ++ rest) = skipBlanks rest :=
  List.dropWhile_append_of_pos (List.all_eq_true.1 h)

/-- Nothing is skipped before a character that is not blank. -/
theorem skipBlanks_cons {c : Char} (h : isBlank c = false) (rest : List Char) :
    skipBlanks (c :: rest) = c :: rest :=
  List.dropWhile_cons_of_neg (by simp [h])

/-- A dot is read with the blanks around it. -/
theorem afterDot?_append (hbefore : isBlankText before = true) (hafter : isBlankText after = true)
    (hrest : ∀ c ∈ rest.head?, isBlank c = false) :
    afterDot? (before ++ '.' :: (after ++ rest)) = some rest := by
  unfold afterDot?
  rw [skipBlanks_append hbefore, skipBlanks_cons (by decide)]
  simp only
  rw [skipBlanks_append hafter]
  exact congrArg some (dropWhile_eq_self hrest)

/-- Where a dot is read, the text starts with one and blanks around it. -/
theorem exists_of_afterDot? (h : afterDot? text = some rest) :
    ∃ before after, isBlankText before = true ∧ isBlankText after = true ∧
      text = before ++ '.' :: (after ++ rest) := by
  obtain ⟨before, hbefore, htext⟩ := exists_skipBlanks text
  unfold afterDot? at h
  split at h
  · next more hmore =>
    cases h
    obtain ⟨after, hafter, hrest⟩ := exists_skipBlanks more
    exact ⟨before, after, hbefore, hafter, by rw [← hrest, ← hmore, ← htext]⟩
  · cases h

/-- The argument of a call is what stands between the brackets, with blanks before them. -/
theorem bracketed?_eq_some_iff :
    bracketed? text = some argument ↔
      ∃ gap, isBlankText gap = true ∧ text = gap ++ '(' :: (argument ++ [')']) := by
  constructor
  · intro h
    obtain ⟨gap, hgap, htext⟩ := exists_skipBlanks text
    unfold bracketed? at h
    split at h
    · next more hmore =>
      split at h
      · next hlast =>
        obtain ⟨front, rfl⟩ := List.getLast?_eq_some_iff.1 hlast
        cases h
        exact ⟨gap, hgap, by rw [List.dropLast_concat, ← hmore, ← htext]⟩
      · cases h
    · cases h
  · rintro ⟨gap, hgap, rfl⟩
    unfold bracketed?
    rw [skipBlanks_append hgap, skipBlanks_cons (by decide)]
    simp

/-! ## The plain tags -/

/-- A member of the factory is its name, a dot and an identifier, with blanks around the dot. -/
theorem isStyledMember_iff :
    isStyledMember text = true ↔ ∃ before after name, isBlankText before = true ∧
      isBlankText after = true ∧ isIdentifier name = true ∧
      text = "styled".toList ++ (before ++ '.' :: (after ++ name)) := by
  constructor
  · intro h
    unfold isStyledMember at h
    split at h
    · next name hname =>
      obtain ⟨rest, hrest, hdot⟩ := Option.bind_eq_some_iff.1 hname
      obtain ⟨before, after, hbefore, hafter, rfl⟩ := exists_of_afterDot? hdot
      exact ⟨before, after, name, hbefore, hafter, h, afterWord?_eq_some_iff.1 hrest⟩
    · cases h
  · rintro ⟨before, after, name, hbefore, hafter, hname, rfl⟩
    have hhead : ∀ c ∈ name.head?, isBlank c = false := fun c hc =>
      isBlank_of_continuesIdentifier (continuesIdentifier_of_mem hname c (List.mem_of_mem_head? hc))
    unfold isStyledMember
    rw [afterWord?_eq_some_iff.2 rfl, Option.bind_some, afterDot?_append hbefore hafter hhead]
    exact hname

/-- An extended component is an identifier, a dot and the word, with blanks around the dot. -/
theorem extendedComponent?_eq_some_iff :
    extendedComponent? text = some name ↔ isIdentifier name = true ∧ ∃ before after,
      isBlankText before = true ∧ isBlankText after = true ∧
      text = name ++ (before ++ '.' :: (after ++ "extend".toList)) := by
  constructor
  · intro h
    unfold extendedComponent? at h
    simp only at h
    split at h
    · next rest hdot =>
      split at h
      · next hboth =>
        rw [Bool.and_eq_true, beq_iff_eq] at hboth
        cases h
        obtain ⟨before, after, hbefore, hafter, hrest⟩ := exists_of_afterDot? hdot
        refine ⟨hboth.1, before, after, hbefore, hafter, ?_⟩
        rw [← hboth.2, ← hrest, List.takeWhile_append_dropWhile]
      · cases h
    · cases h
  · rintro ⟨hname, before, after, hbefore, hafter, rfl⟩
    have hall := continuesIdentifier_of_mem hname
    -- the name ends at the first blank or at the dot
    have hends : ∀ c ∈ (before ++ '.' :: (after ++ "extend".toList)).head?,
        continuesIdentifier c = false := by
      cases before with
      | nil => rintro _ ⟨⟩; decide +kernel
      | cons d before =>
        rintro _ ⟨⟩
        refine Bool.eq_false_iff.2 fun hd => ?_
        rw [isBlankText, List.all_cons, isBlank_of_continuesIdentifier hd] at hbefore
        cases hbefore
    obtain ⟨htake, hdrop⟩ := takeWhile_dropWhile_append hall hends
    unfold extendedComponent?
    simp only [htake, hdrop]
    rw [afterDot?_append hbefore hafter (by rintro _ ⟨⟩; rfl)]
    simp [hname]

/-- A call of the factory is its name, blanks and a bracketed argument. -/
theorem styledArgument?_eq_some_iff :
    styledArgument? text = some argument ↔ ∃ gap, isBlankText gap = true ∧
      text = "styled".toList ++ (gap ++ '(' :: (argument ++ [')'])) := by
  rw [styledArgument?, Option.bind_eq_some_iff]
  constructor
  · rintro ⟨rest, hrest, hbracketed⟩
    obtain ⟨gap, hgap, rfl⟩ := bracketed?_eq_some_iff.1 hbracketed
    exact ⟨gap, hgap, afterWord?_eq_some_iff.1 hrest⟩
  · rintro ⟨gap, hgap, rfl⟩
    exact ⟨_, afterWord?_eq_some_iff.2 rfl, bracketed?_eq_some_iff.2 ⟨gap, hgap, rfl⟩⟩

/-- A name is capitalized if upper case leaves its first character as it is. -/
theorem isCapitalized_iff (h : name ≠ []) :
    isCapitalized name = true ↔ ∀ c ∈ name.head?, c.toUpper = c := by
  obtain ⟨c, rest, rfl⟩ := List.exists_cons_of_ne_nil h
  simp [isCapitalized, toUpper_eq_self_iff]

/-- The plain tags are those that are recognized without a cut. -/
theorem plainTag_iff :
    PlainTag text ↔ isStyledMember text = true ∨
      (∃ name, extendedComponent? text = some name ∧ isCapitalized name = true) ∨
      ∃ argument, styledArgument? text = some argument ∧ isOneArgument argument = true := by
  constructor
  · rintro (⟨hbefore, hafter, hname⟩ | ⟨hname, hcapital, hbefore, hafter⟩ | ⟨hgap, hargument⟩)
    · exact .inl (isStyledMember_iff.2 ⟨_, _, _, hbefore, hafter, hname, rfl⟩)
    · refine .inr (.inl ⟨_, extendedComponent?_eq_some_iff.2 ⟨hname, _, _, hbefore, hafter, rfl⟩, ?_⟩)
      exact (isCapitalized_iff (by rintro rfl; cases hname)).2 hcapital
    · exact .inr (.inr ⟨_, styledArgument?_eq_some_iff.2 ⟨_, hgap, rfl⟩, hargument⟩)
  · rintro (h | ⟨name, h, hcapital⟩ | ⟨argument, h, hargument⟩)
    · obtain ⟨before, after, name, hbefore, hafter, hname, rfl⟩ := isStyledMember_iff.1 h
      exact .member hbefore hafter hname
    · obtain ⟨hname, before, after, hbefore, hafter, rfl⟩ := extendedComponent?_eq_some_iff.1 h
      exact .extend hname ((isCapitalized_iff (by rintro rfl; cases hname)).1 hcapital) hbefore hafter
    · obtain ⟨gap, hgap, rfl⟩ := styledArgument?_eq_some_iff.1 h
      exact .call hgap hargument

/-! ## Cutting at a call of `.attrs` -/

/-- A call for attributes is a dot, its opening and a bracketed argument, with blanks between them. -/
theorem attrsArgument?_eq_some_iff :
    attrsArgument? text = some argument ↔ ∃ before after gap, isBlankText before = true ∧
      isBlankText after = true ∧ isBlankText gap = true ∧
      text = before ++ '.' :: (attrsOpening after gap ++ '(' :: (argument ++ [')'])) := by
  rw [attrsArgument?, Option.bind_eq_some_iff]
  constructor
  · rintro ⟨rest, hrest, hbracketed⟩
    obtain ⟨word, hword, hafter⟩ := Option.bind_eq_some_iff.1 hrest
    obtain ⟨before, after, hbefore, hafter', rfl⟩ := exists_of_afterDot? hword
    obtain ⟨gap, hgap, rfl⟩ := bracketed?_eq_some_iff.1 hbracketed
    refine ⟨before, after, gap, hbefore, hafter', hgap, ?_⟩
    rw [afterWord?_eq_some_iff.1 hafter, attrsOpening]
    simp
  · rintro ⟨before, after, gap, hbefore, hafter, hgap, rfl⟩
    refine ⟨gap ++ '(' :: (argument ++ [')']), ?_, bracketed?_eq_some_iff.2 ⟨gap, hgap, rfl⟩⟩
    rw [attrsOpening, List.append_assoc, afterDot?_append hbefore hafter (by rintro _ ⟨⟩; rfl)]
    simp [afterWord?]

/-- A call for attributes ends in a bracket. -/
theorem getLast?_of_attrsArgument? (h : attrsArgument? text = some argument) :
    text.getLast? = some ')' := by
  obtain ⟨before, after, gap, -, -, -, rfl⟩ := attrsArgument?_eq_some_iff.1 h
  simp [List.getLast?_append, List.getLast?_cons]

/-- Where a call opens and the last character closes a bracket, the text is a call. -/
theorem exists_attrsArgument? (hbefore : isBlankText before = true) (hafter : isBlankText after = true)
    (hgap : isBlankText gap = true) (hlast : rest.getLast? = some ')') :
    ∃ argument, attrsArgument? (before ++ '.' :: (attrsOpening after gap ++ '(' :: rest)) =
      some argument := by
  obtain ⟨argument, rfl⟩ := List.getLast?_eq_some_iff.1 hlast
  exact ⟨argument, attrsArgument?_eq_some_iff.2 ⟨before, after, gap, hbefore, hafter, hgap, rfl⟩⟩

/-- The cut is made at the first place where a call makes up the rest. -/
theorem cutAttrs?_eq_some_iff {inner : List Char} :
    cutAttrs? text = some (inner, argument) ↔ ∃ call, text = inner ++ call ∧ inner ≠ [] ∧
      attrsArgument? call = some argument ∧
      ∀ front back, inner = front ++ back → front ≠ [] → back ≠ [] →
        attrsArgument? (back ++ call) = none := by
  induction text generalizing inner with
  | nil =>
    refine iff_of_false (by simp [cutAttrs?]) ?_
    rintro ⟨call, htext, hinner, -⟩
    exact hinner (List.append_eq_nil_iff.1 htext.symm).1
  | cons c text ih =>
    rw [cutAttrs?]
    constructor
    · intro h
      split at h
      · next found hfound =>
        cases h
        refine ⟨text, rfl, by simp, hfound, fun front back hcut hfront hback => ?_⟩
        have hlength := congrArg List.length hcut
        have := List.length_pos_iff.2 hfront
        have := List.length_pos_iff.2 hback
        simp only [List.length_append, List.length_singleton] at hlength
        omega
      · next hnone =>
        obtain ⟨⟨inner', argument'⟩, hcut, heq⟩ := Option.map_eq_some_iff.1 h
        cases heq
        obtain ⟨call, rfl, hinner, hcall, hfirst⟩ := ih.1 hcut
        refine ⟨call, rfl, by simp, hcall, fun front back hsplit hfront hback => ?_⟩
        obtain ⟨d, front, rfl⟩ := List.exists_cons_of_ne_nil hfront
        rw [List.cons_append, List.cons.injEq] at hsplit
        obtain ⟨rfl, hsplit⟩ := hsplit
        by_cases hempty : front = []
        · rw [hempty, List.nil_append] at hsplit
          rw [← hsplit]
          exact hnone
        · exact hfirst front back hsplit hempty hback
    · rintro ⟨call, htext, hinner, hcall, hfirst⟩
      obtain ⟨d, inner, rfl⟩ := List.exists_cons_of_ne_nil hinner
      rw [List.cons_append, List.cons.injEq] at htext
      obtain ⟨rfl, rfl⟩ := htext
      by_cases hempty : inner = []
      · subst hempty
        rw [List.nil_append, hcall]
      · have hnone := hfirst [c] inner rfl (by simp) hempty
        have hcut : cutAttrs? (inner ++ call) = some (inner, argument) := by
          refine ih.2 ⟨call, rfl, hempty, hcall, fun front back hsplit hfront hback => ?_⟩
          exact hfirst (c :: front) back (by rw [hsplit, List.cons_append]) (by simp) hback
        rw [hnone, hcut]
        rfl

/-- A tag that is cut before its attributes ends in a bracket. -/
theorem getLast?_of_cutAttrs? {inner : List Char} (h : cutAttrs? text = some (inner, argument)) :
    text.getLast? = some ')' := by
  obtain ⟨call, rfl, -, hcall, -⟩ := cutAttrs?_eq_some_iff.1 h
  rw [List.getLast?_append, getLast?_of_attrsArgument? hcall]
  rfl

/-- A call of the factory ends in a bracket. -/
theorem getLast?_of_styledArgument? (h : styledArgument? text = some argument) :
    text.getLast? = some ')' := by
  obtain ⟨gap, -, rfl⟩ := styledArgument?_eq_some_iff.1 h
  simp [List.getLast?_append, List.getLast?_cons]

/-- An extended component ends in the last letter of the word. -/
theorem getLast?_of_extendedComponent? (h : extendedComponent? text = some name) :
    text.getLast? = some 'd' := by
  obtain ⟨-, before, after, -, -, rfl⟩ := extendedComponent?_eq_some_iff.1 h
  simp [List.getLast?_append, List.getLast?_cons]

/-! ## Recognition -/

/-- A tag is styled if it is plain, or if it is styled up to the first call of `.attrs`. -/
theorem isStyled_iff_cut {tag : List Char} :
    isStyled tag = true ↔ PlainTag (trim tag) ∨ ∃ inner argument,
      cutAttrs? (trim tag) = some (inner, argument) ∧ isOneArgument argument = true ∧
      isStyled inner = true := by
  rw [plainTag_iff, isStyled]
  cases hmember : isStyledMember (trim tag) with
  | true => simp
  | false =>
    cases hextend : extendedComponent? (trim tag) with
    | some name =>
      have hlast := getLast?_of_extendedComponent? hextend
      have hcall : ∀ argument, styledArgument? (trim tag) ≠ some argument := by
        intro argument h
        rw [getLast?_of_styledArgument? h] at hlast
        cases hlast
      have hcut : ∀ inner argument, cutAttrs? (trim tag) ≠ some (inner, argument) := by
        intro inner argument h
        rw [getLast?_of_cutAttrs? h] at hlast
        cases hlast
      simp [hcall, hcut]
    | none =>
      cases hcall : Option.any isOneArgument (styledArgument? (trim tag)) with
      | true =>
        have hargument := (Option.any_eq_true _ _).1 hcall
        simpa using .inl hargument
      | false =>
        have hargument : ¬∃ argument, styledArgument? (trim tag) = some argument ∧
            isOneArgument argument = true := by
          rw [← Option.any_eq_true, hcall]
          decide
        cases hcut : cutAttrs? (trim tag) with
        | none => simpa using hargument
        | some cut =>
          obtain ⟨inner, argument⟩ := cut
          simp [or_iff_right hargument]

end

/-! ## Where the first call opens -/

section

variable {tag plain inner call text : List Char}

/-- A plain tag is not empty. -/
theorem PlainTag.ne_nil (h : PlainTag plain) : plain ≠ [] := by
  cases h with
  | member _ _ _ => simp
  | extend _ _ _ _ => simp
  | call _ _ => simp

/-- A plain tag does not start with a dot. -/
theorem PlainTag.head_ne_dot (h : PlainTag plain) : plain.head? ≠ some '.' := by
  cases h with
  | member _ _ _ => simp
  | @extend name _ _ hname _ _ _ =>
    cases name with
    | nil => cases hname
    | cons c name =>
      rintro ⟨⟩
      cases hname
  | call _ _ => simp

/-- A plain tag has no blanks at its ends. -/
theorem PlainTag.trimmed (h : PlainTag plain) : Trimmed plain := by
  have hidentifier : ∀ {name : List Char}, isIdentifier name = true → ∀ c ∈ name, isBlank c = false :=
    fun hname c hc => isBlank_of_continuesIdentifier (continuesIdentifier_of_mem hname c hc)
  cases h with
  | @member before after name _ _ hname =>
    refine ⟨by simp [isBlank], ?_⟩
    obtain ⟨front, c, rfl⟩ := (List.eq_nil_or_concat name).resolve_left (by rintro rfl; cases hname)
    simpa [List.getLast?_append, List.getLast?_cons] using hidentifier hname c (by simp)
  | @extend name before after hname _ _ _ =>
    refine ⟨?_, by simp [List.getLast?_append, List.getLast?_cons, isBlank]⟩
    cases name with
    | nil => cases hname
    | cons c name => simpa using hidentifier hname c (by simp)
  | call _ _ =>
    exact ⟨by simp [isBlank], by simp [List.getLast?_append, List.getLast?_cons, isBlank]⟩

/-- A plain tag is recognized. -/
theorem isStyled_of_plainTag (h : PlainTag plain) : isStyled plain = true :=
  isStyled_iff_cut.2 (.inl (h.trimmed.trim_eq.symm ▸ h))

/-- Two texts that go on with different characters do not meet. -/
theorem eq_of_append_cons_eq {a b rest more : List Char} {x y : Char}
    (h : a ++ x :: rest = b ++ y :: more) (hx : x ∉ b) (hy : y ∉ a) : x = y := by
  rcases List.append_eq_append_iff.1 h with ⟨c, rfl, hrest⟩ | ⟨c, rfl, hrest⟩
  · cases c with
    | nil => exact (List.cons.inj hrest).1
    | cons d c =>
      obtain ⟨rfl, -⟩ := List.cons.inj hrest
      exact absurd (by simp) hx
  · cases c with
    | nil => exact (List.cons.inj hrest).1.symm
    | cons d c =>
      obtain ⟨rfl, -⟩ := List.cons.inj hrest
      exact absurd (by simp) hy

/-- A character that is not blank is not in a blank text. -/
theorem not_mem_of_isBlankText {blanks : List Char} {c : Char} (h : isBlankText blanks = true)
    (hc : isBlank c = false) : c ∉ blanks := by
  intro hmem
  rw [List.all_eq_true.1 h c hmem] at hc
  cases hc

/-- The opening of a call for attributes holds no dot. -/
theorem dot_not_mem_attrsOpening {after gap : List Char} (hafter : isBlankText after = true)
    (hgap : isBlankText gap = true) : '.' ∉ attrsOpening after gap := by
  simp [attrsOpening, not_mem_of_isBlankText hafter (c := '.') rfl,
    not_mem_of_isBlankText hgap (c := '.') rfl]

/-- Before the place of the cut no call opens. -/
theorem not_opens_of_first {argument : List Char} (hcall : attrsArgument? call = some argument)
    (hfirst : ∀ front back, inner = front ++ back → front ≠ [] → back ≠ [] →
      attrsArgument? (back ++ call) = none)
    {front before after gap rest : List Char} (hbefore : isBlankText before = true)
    (hafter : isBlankText after = true) (hgap : isBlankText gap = true)
    (hinner : inner = front ++ (before ++ '.' :: (attrsOpening after gap ++ '(' :: rest))) :
    front = [] := by
  by_contra hfront
  have hlast : (rest ++ call).getLast? = some ')' := by
    rw [List.getLast?_append, getLast?_of_attrsArgument? hcall]
    rfl
  have hnone := hfirst _ _ hinner hfront (by simp)
  obtain ⟨found, hfound⟩ := exists_attrsArgument? hbefore hafter hgap hlast
  rw [List.append_assoc, List.cons_append, List.append_assoc, List.cons_append, hfound] at hnone
  cases hnone

/-- A call after a plain tag is the first one, if none opens inside of the tag. -/
theorem PlainTag.cutAttrs?_append (h : PlainTag plain) (hopens : ¬OpensAttrs plain)
    {argument : List Char} (hcall : attrsArgument? call = some argument) :
    cutAttrs? (plain ++ call) = some (plain, argument) := by
  refine cutAttrs?_eq_some_iff.2 ⟨call, rfl, ?_, hcall, fun front back hplain hfront hback => ?_⟩
  · exact h.ne_nil
  · obtain ⟨before, after, gap, hbefore, hafter, hgap, rfl⟩ := attrsArgument?_eq_some_iff.1 hcall
    refine Option.eq_none_iff_forall_ne_some.2 fun found hfound => ?_
    obtain ⟨before', after', gap', hbefore', hafter', hgap', hsplit⟩ :=
      attrsArgument?_eq_some_iff.1 hfound
    -- the other call cannot open with the blanks at the end of the tag, for there are none
    have hblank : isBlankText back ≠ true := by
      intro hblank
      obtain ⟨more, c, rfl⟩ := (List.eq_nil_or_concat back).resolve_left hback
      have hc := List.all_eq_true.1 hblank c (by simp)
      have hlast := h.trimmed.last c (by rw [hplain]; simp [List.getLast?_append])
      rw [hc] at hlast
      cases hlast
    rcases List.append_eq_append_iff.1 hsplit with ⟨more, rfl, -⟩ | ⟨more, rfl, hmore⟩
    · rw [isBlankText, List.all_append, Bool.and_eq_true] at hbefore'
      exact hblank hbefore'.1
    · cases more with
      | nil => exact hblank (by rwa [List.append_nil])
      | cons d more =>
        rw [List.cons_append, List.cons.injEq] at hmore
        obtain ⟨rfl, hmore⟩ := hmore
        rcases List.append_eq_append_iff.1 hmore with ⟨inside, rfl, hrest⟩ | ⟨inside, hopening, hrest⟩
        · cases inside with
          | nil =>
            have hopen : [] ++ '(' :: (found ++ [')']) = before ++ '.' :: _ := hrest
            cases eq_of_append_cons_eq hopen (not_mem_of_isBlankText hbefore rfl) List.not_mem_nil
          | cons d inside =>
            rw [List.cons_append, List.cons.injEq] at hrest
            obtain ⟨rfl, -⟩ := hrest
            refine hopens ⟨front ++ before', after', gap', inside, hafter', hgap', ?_⟩
            rw [hplain, List.append_assoc]
        · -- nor can its dot be in the tag and its bracket in the call
          have hdot : '.' ∉ inside := fun hmem =>
            dot_not_mem_attrsOpening hafter' hgap' (hopening ▸ List.mem_append_right _ hmem)
          cases eq_of_append_cons_eq hrest.symm (not_mem_of_isBlankText hbefore rfl) hdot

/-- What stands before the first call is recognized as a plain tag only. -/
theorem plainTag_of_cut {argument : List Char} (htrimmed : Trimmed (inner ++ call))
    (hfilled : inner ≠ [])
    (hcall : attrsArgument? call = some argument)
    (hfirst : ∀ front back, inner = front ++ back → front ≠ [] → back ≠ [] →
      attrsArgument? (back ++ call) = none)
    (hinner : isStyled inner = true) : PlainTag inner := by
  have htrim : trim inner = inner := by
    refine Trimmed.trim_eq ⟨fun c hc => htrimmed.head c ?_, fun c hc => ?_⟩
    · rw [List.head?_append, Option.mem_def.1 hc]
      rfl
    · -- a blank at the end would belong to the call
      obtain ⟨front, rfl⟩ := List.getLast?_eq_some_iff.1 hc
      refine Bool.eq_false_iff.2 fun hblank => ?_
      have hfront : front ≠ [] := by
        rintro rfl
        have hhead := htrimmed.head c rfl
        rw [hblank] at hhead
        cases hhead
      obtain ⟨before, after, gap, hbefore, hafter, hgap, rfl⟩ := attrsArgument?_eq_some_iff.1 hcall
      have hlonger : isBlankText (c :: before) = true := by
        rw [isBlankText, List.all_cons, hblank]
        exact hbefore
      have hnone := hfirst front [c] rfl hfront (by simp)
      rw [List.singleton_append, ← List.cons_append,
        attrsArgument?_eq_some_iff.2 ⟨c :: before, after, gap, hlonger, hafter, hgap, rfl⟩] at hnone
      cases hnone
  rcases isStyled_iff_cut.1 hinner with hplain | ⟨inner', argument', hcut, -, -⟩
  · rwa [htrim] at hplain
  · rw [htrim] at hcut
    obtain ⟨call', hsplit, hfilled', hcall', -⟩ := cutAttrs?_eq_some_iff.1 hcut
    obtain ⟨before, after, gap, hbefore, hafter, hgap, rfl⟩ := attrsArgument?_eq_some_iff.1 hcall'
    exact absurd (not_opens_of_first hcall hfirst hbefore hafter hgap hsplit) hfilled'

/-! ## The tags that are recognized -/

/-- **Styled tags.** A tag is recognized if and only if, without the blanks around it, it is a plain tag
or a plain tag in which no call of `.attrs` opens with one such call after it. These are styled tags. -/
theorem isStyled_iff (tag : List Char) :
    (isStyled tag = true ↔ PlainTag (trim tag) ∨ ∃ plain call, PlainTag plain ∧ ¬OpensAttrs plain ∧
      AttrsCall call ∧ trim tag = plain ++ call) ∧
    (isStyled tag = true → StyledTag (trim tag)) := by
  have hiff : isStyled tag = true ↔ PlainTag (trim tag) ∨ ∃ plain call, PlainTag plain ∧
      ¬OpensAttrs plain ∧ AttrsCall call ∧ trim tag = plain ++ call := by
    rw [isStyled_iff_cut]
    refine or_congr_right ⟨?_, ?_⟩
    · rintro ⟨inner, argument, hcut, hargument, hinner⟩
      obtain ⟨call, htag, hfilled, hcall, hfirst⟩ := cutAttrs?_eq_some_iff.1 hcut
      have hplain := plainTag_of_cut (htag ▸ trimmed_trim tag) hfilled hcall hfirst hinner
      refine ⟨inner, call, hplain, ?_, ?_, htag⟩
      · rintro ⟨front, after, gap, rest, hafter, hgap, heq⟩
        have hfront := not_opens_of_first hcall hfirst (rfl : isBlankText [] = true) hafter hgap heq
        rw [hfront] at heq
        exact hplain.head_ne_dot (by rw [heq]; rfl)
      · obtain ⟨before, after, gap, hbefore, hafter, hgap, rfl⟩ := attrsArgument?_eq_some_iff.1 hcall
        exact .call hbefore hafter hgap hargument
    · rintro ⟨plain, _, hplain, hopens,
        @⟨before, after, gap, argument, hbefore, hafter, hgap, hargument⟩, htag⟩
      have hcall : attrsArgument?
          (before ++ '.' :: (attrsOpening after gap ++ '(' :: (argument ++ [')']))) = some argument :=
        attrsArgument?_eq_some_iff.2 ⟨before, after, gap, hbefore, hafter, hgap, rfl⟩
      have hcut := hplain.cutAttrs?_append hopens hcall
      exact ⟨plain, argument, htag ▸ hcut, hargument, isStyled_of_plainTag hplain⟩
  refine ⟨hiff, fun h => ?_⟩
  rcases hiff.1 h with hplain | ⟨plain, call, hplain, -, hcall, htag⟩
  · exact .plain hplain
  · rw [htag]
    exact .attrs (.plain hplain) hcall

/-- Two calls of `.attrs` after each other make a styled tag that is not recognized: the argument of the
first one is taken to go up to the last bracket. -/
theorem isStyled_chained :
    StyledTag (trim "styled.div.attrs(a).attrs(b)".toList) ∧
      isStyled "styled.div.attrs(a).attrs(b)".toList = false := by
  constructor
  · have hplain : PlainTag "styled.div".toList :=
      @PlainTag.member [] [] "div".toList rfl rfl (by decide +kernel)
    have hfirst : AttrsCall ".attrs(a)".toList :=
      @AttrsCall.call [] [] [] ['a'] rfl rfl rfl (by decide +kernel)
    have hsecond : AttrsCall ".attrs(b)".toList :=
      @AttrsCall.call [] [] [] ['b'] rfl rfl rfl (by decide +kernel)
    have htext : trim "styled.div.attrs(a).attrs(b)".toList =
        "styled.div".toList ++ ".attrs(a)".toList ++ ".attrs(b)".toList := by
      decide +kernel
    rw [htext]
    exact ((StyledTag.plain hplain).attrs hfirst).attrs hsecond
  · have hcut : cutAttrs? (trim "styled.div.attrs(a).attrs(b)".toList) =
        some ("styled.div".toList, "a).attrs(b".toList) := by
      decide +kernel
    refine Bool.eq_false_iff.2 fun h => ?_
    rcases isStyled_iff_cut.1 h with hplain | ⟨inner, argument, hfound, hargument, -⟩
    · rcases plainTag_iff.1 hplain with hmember | ⟨name, hextend, -⟩ | ⟨argument, hcall, -⟩
      · revert hmember
        decide +kernel
      · cases (getLast?_of_extendedComponent? hextend).symm.trans (getLast?_of_cutAttrs? hcut)
      · have hnone : styledArgument? (trim "styled.div.attrs(a).attrs(b)".toList) = none := by
          decide +kernel
        cases hnone.symm.trans hcall
    · cases hcut.symm.trans hfound
      revert hargument
      decide +kernel

end

end CssTemplate
