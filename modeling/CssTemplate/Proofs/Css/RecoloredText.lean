import CssTemplate.Css.Selector
import CssTemplate.Proofs.Css.RecoloredItems

/-!
# Texts written in other colors

Writing commutes with a recoloring as reading does. A character outside ASCII is always written as
it is, and an ASCII character is always written in ASCII, whatever escapes it needs
(`WritesInColor`); whether neighbours have to be kept apart depends on ASCII literals only; and
trimming asks of a character no more than whether it is blank. So the minified text of recolored
components, with or without an outer selector, is the recolored minified text.
-/

namespace CssTemplate.Css

/-! ## Characters -/

/-- Digits to the base sixteen are hexadecimal digits. -/
theorem isHexDigit_of_mem_toDigitsCore {fuel n : Nat} {digits : List Char}
    (hdigits : ∀ c ∈ digits, isHexDigit c = true) :
    ∀ c ∈ Nat.toDigitsCore 16 fuel n digits, isHexDigit c = true := by
  have hdigit : ∀ k < 16, isHexDigit (Nat.digitChar k) = true := by decide
  induction fuel generalizing n digits with
  | zero => exact hdigits
  | succ fuel ih =>
    have hmore : ∀ c ∈ (n % 16).digitChar :: digits, isHexDigit c = true :=
      List.forall_mem_cons.2 ⟨hdigit _ (Nat.mod_lt n (by decide)), hdigits⟩
    rw [Nat.toDigitsCore]
    split
    · exact hmore
    · exact ih hmore

/-- A hexadecimal digit in upper case is one. -/
theorem isHexDigit_toUpper {c : Char} (h : isHexDigit c = true) : isHexDigit c.toUpper = true := by
  rw [Char.toUpper]
  split
  · next hc =>
    have hlow : 97 ≤ c.val.toNat := hc.1
    have hhigh : c.val.toNat ≤ 122 := hc.2
    have hhex : 48 ≤ c.val.toNat ∧ c.val.toNat ≤ 57 ∨ 97 ≤ c.val.toNat ∧ c.val.toNat ≤ 102 ∨
        65 ≤ c.val.toNat ∧ c.val.toNat ≤ 70 := isHexDigit_iff.1 h
    have hshift : ('A'.val - 'a'.val).toNat = 4294967264 := rfl
    have hcode : (c.val + ('A'.val - 'a'.val)).toNat = c.val.toNat - 32 := by
      rw [UInt32.toNat_add, hshift]
      omega
    refine isHexDigit_iff.2 ?_
    simp only [Char.toNat, hcode]
    omega
  · exact h

/-- A hexadecimal numeral holds hexadecimal digits. -/
theorem isHexDigit_of_mem_hexUpper {width n : Nat} {c : Char} (h : c ∈ hexUpper width n) :
    isHexDigit c = true := by
  obtain ⟨d, hd, rfl⟩ := List.mem_map.1 h
  refine isHexDigit_toUpper ?_
  rcases List.mem_append.1 hd with hd | hd
  · rw [(List.mem_replicate.1 hd).2]
    decide
  · exact isHexDigit_of_mem_toDigitsCore (List.forall_mem_nil _) d hd

/-- A code point is written in ASCII. -/
theorem ascii_hexUpper (width n : Nat) : Ascii (hexUpper width n) := by
  intro c hc
  have hhex := isHexDigit_iff.1 (isHexDigit_of_mem_hexUpper hc)
  omega

/-- The escape of an ASCII character is ASCII. -/
theorem ascii_escapeText {c : Char} (hc : c.toNat < 0x80) : Ascii (escapeText c) := by
  unfold escapeText
  repeat' split
  · decide
  · decide
  · decide
  · exact ascii_cons.2 ⟨by decide, ascii_singleton hc⟩

/-- A way to write characters that writes ASCII in ASCII, and any other character as it is. -/
structure WritesInColor (write : Char → List Char) : Prop where
  ascii : ∀ c, c.toNat < 0x80 → Ascii (write c)
  nonAscii : ∀ c, 0x80 ≤ c.toNat → write c = [c]

/-- Writing a recolored character gives its text recolored. -/
theorem WritesInColor.map {write : Char → List Char} (hw : WritesInColor write) {f : Char → Char}
    (hf : Recoloring f) (c : Char) : write (f c) = (write c).map f := by
  rcases Nat.lt_or_ge c.toNat 0x80 with h | h
  · rw [hf.ascii c h, hf.map_ascii (hw.ascii c h)]
  · rw [hw.nonAscii c h, hw.nonAscii (f c) (hf.nonAscii c h), List.map_singleton]

/-- Writing a recolored text character by character gives what is written, recolored. -/
theorem WritesInColor.flatMap {write : Char → List Char} (hw : WritesInColor write)
    {f : Char → Char} (hf : Recoloring f) (text : List Char) :
    (text.map f).flatMap write = (text.flatMap write).map f := by
  rw [List.flatMap_map, List.map_flatMap]
  exact congrArg (List.flatMap · text) (funext fun c => hw.map hf c)

/-- A character inside a name is written in its color. -/
theorem writesInColor_nameCharText : WritesInColor nameCharText where
  ascii c hc := by
    unfold nameCharText
    split
    · exact ascii_singleton hc
    · exact ascii_escapeText hc
  nonAscii c hc := by rw [nameCharText, if_pos (isNameChar_of_nonAscii hc)]

/-- The first character of a name is written in its color. -/
theorem writesInColor_firstCharText : WritesInColor firstCharText where
  ascii c hc := by
    unfold firstCharText
    split
    · exact ascii_singleton hc
    · split
      · exact ascii_cons.2 ⟨by decide, ascii_append.2 ⟨ascii_hexUpper _ _, by decide⟩⟩
      · exact ascii_escapeText hc
  nonAscii c hc := by rw [firstCharText, if_pos (startsName_of_nonAscii hc)]

/-- A character of a string is written in its color. -/
theorem writesInColor_stringCharText : WritesInColor stringCharText where
  ascii c hc := by
    unfold stringCharText
    split
    · exact ascii_escapeText hc
    · exact ascii_singleton hc
  nonAscii c hc := by
    simp [stringCharText, ne_of_nonAscii hc]

/-- A character of a URL is written in its color. -/
theorem writesInColor_urlCharText : WritesInColor urlCharText where
  ascii c hc := by
    unfold urlCharText
    split
    · decide
    · split
      · exact ascii_escapeText hc
      · exact ascii_singleton hc
  nonAscii c hc := by
    simp [urlCharText, ne_of_nonAscii hc]

/-! ## Atoms -/

/-- The sort of a component in other colors. -/
def Kind.map (f : Char → Char) : Kind → Kind
  | .literal text => .literal (text.map f)
  | kind => kind

/-- Whether a literal of this sort is ASCII. -/
def Kind.isAscii : Kind → Bool
  | .literal text => decide (Ascii text)
  | _ => true

/-- A recolored component is of the recolored sort. -/
theorem Component.kind_map (f : Char → Char) (c : Component) :
    (c.map f).kind = c.kind.map f := by
  rcases c with a | ⟨o, content⟩
  · cases a <;> rfl
  · rw [Component.map_group]
    cases o <;> rfl

section

variable {f : Char → Char} (hf : Recoloring f)

include hf

/-- Writing the characters of a name commutes with a recoloring. -/
theorem nameText_map (name : List Char) : nameText (name.map f) = (nameText name).map f :=
  writesInColor_nameCharText.flatMap hf name

/-- Writing an identifier commutes with a recoloring. -/
theorem identifierText_map (name : List Char) :
    identifierText (name.map f) = (identifierText name).map f := by
  have hfirst := writesInColor_firstCharText.map hf
  have hname := nameText_map hf
  have hyphen : ∀ c, f c = '-' ↔ c = '-' := fun c => hf.eq_ascii_iff '-' rfl
  fun_cases identifierText name with
  | case1 => rfl
  | case2 => simp [identifierText, hf.fixes '-' rfl, hf.fixes '\\' rfl]
  | case3 rest => simp [identifierText, hf.fixes '-' rfl, hname]
  | case4 c rest hc =>
    rw [List.map_cons, List.map_cons, hf.fixes '-' rfl, identifierText, hfirst, hname]
    · simp [hf.fixes '-' rfl]
    · exact fun h => hc ((hyphen c).1 h)
  | case5 c rest hnil _ hcons =>
    have hc : f c ≠ '-' := by
      rw [Ne, hyphen]
      intro hc
      cases rest with
      | nil => exact hnil hc rfl
      | cons d rest => exact hcons d rest hc rfl
    rw [List.map_cons, identifierText, hfirst, hname, List.map_append]
    · exact fun h => absurd h hc
    · exact fun _ h => absurd h hc
    · exact fun _ _ h => absurd h hc

/-- Trimming commutes with a recoloring: what is blank stays blank. -/
theorem trim_map (text : List Char) : trim (text.map f) = (trim text).map f := by
  rw [trim, trim, trimBy, trimBy, trimEnd, trimEnd, dropWhile_map_of hf.blank, ← List.map_reverse,
    dropWhile_map_of hf.blank, List.map_reverse]

/-- Whether a unit looks like an exponent is a matter of ASCII. -/
theorem looksLikeExponent_map (unit : List Char) :
    looksLikeExponent (unit.map f) = looksLikeExponent unit := by
  fun_cases looksLikeExponent unit with
  | case1 => simp [looksLikeExponent, hf.fixes 'e' rfl]
  | case2 => simp [looksLikeExponent, hf.fixes 'E' rfl]
  | case3 rest => simp [looksLikeExponent, hf.fixes 'e' rfl, hf.fixes '-' rfl]
  | case4 rest => simp [looksLikeExponent, hf.fixes 'E' rfl, hf.fixes '-' rfl]
  | case5 _ hlower hupper hlower' hupper' =>
    have hword : ∀ {word : List Char}, unit.map f = word → Ascii word →
        unit = word := fun h hascii => (hf.map_eq_ascii_iff hascii).1 h
    rw [looksLikeExponent]
    · exact fun h => hlower (hword h (by decide))
    · exact fun h => hupper (hword h (by decide))
    · intro tail h
      obtain ⟨rest, hrest⟩ := hf.exists_of_map_eq_append ['e', '-'] (by decide) h
      exact hlower' rest hrest
    · intro tail h
      obtain ⟨rest, hrest⟩ := hf.exists_of_map_eq_append ['E', '-'] (by decide) h
      exact hupper' rest hrest

/-- Writing a unit commutes with a recoloring. -/
theorem unitText_map (unit : List Char) : unitText (unit.map f) = (unitText unit).map f := by
  rw [unitText, unitText, looksLikeExponent_map hf]
  split
  · rw [← List.map_drop, nameText_map hf]
    simp [hf.fixes '\\' rfl, hf.fixes '6' rfl, hf.fixes '5' rfl, hf.fixes ' ' rfl]
  · exact identifierText_map hf unit

/-- What a fault is written as is ASCII, so a recoloring keeps it. -/
theorem TokenFault.text_map (what : TokenFault) : what.text.map f = what.text := by
  refine hf.map_ascii ?_
  cases what with
  | unmatched b => cases b <;> decide
  | _ => decide

/-- Writing an atom commutes with a recoloring. -/
theorem Atom.text_map (a : Atom) : (a.map f).text = a.text.map f := by
  have hhex : ∀ n, (hexUpper 1 n).map f = hexUpper 1 n :=
    fun n => hf.map_ascii (ascii_hexUpper 1 n)
  cases a with
  | space text => rfl
  | literal text => rfl
  | ident name => exact identifierText_map hf name
  | atKeyword name => simp [Atom.map, Atom.text, identifierText_map hf, hf.fixes '@' rfl]
  | hash name isIdent =>
    cases isIdent <;>
      simp [Atom.map, Atom.text, identifierText_map hf, nameText_map hf, hf.fixes '#' rfl]
  | string value closed =>
    cases closed <;>
      simp [Atom.map, Atom.text, stringText, writesInColor_stringCharText.flatMap hf, hf.fixes '"' rfl]
  | url value closed =>
    cases closed <;>
      simp [Atom.map, Atom.text, urlText, writesInColor_urlCharText.flatMap hf, hf.fixes 'u' rfl,
        hf.fixes 'r' rfl, hf.fixes 'l' rfl, hf.fixes '(' rfl, hf.fixes ')' rfl]
  | unicodeRange first last =>
    simp only [Atom.map, Atom.text, List.map_cons, List.map_append, hhex, hf.fixes 'U' rfl,
      hf.fixes '+' rfl]
    split <;> simp [hhex, hf.fixes '-' rfl]
  | number numeral => rfl
  | percentage numeral => simp [Atom.map, Atom.text, hf.fixes '%' rfl]
  | dimension numeral unit => simp [Atom.map, Atom.text, unitText_map hf]
  | fault what => exact (TokenFault.text_map hf what).symm

/-! ## Neighbours -/

/-- A recoloring does not move a sort into or out of a list of ASCII sorts. -/
theorem Kind.map_mem (kinds : List Kind) (k : Kind)
    (h : kinds.all Kind.isAscii = true) : k.map f ∈ kinds ↔ k ∈ kinds := by
  have hascii : ∀ other ∈ kinds, other.isAscii = true := List.all_eq_true.1 h
  cases k with
  | literal text =>
    constructor
    · intro hmem
      have hword : Ascii (text.map f) := of_decide_eq_true (hascii _ hmem)
      rw [(hf.map_eq_ascii_iff hword).1 rfl]
      exact hmem
    · intro hmem
      have hword : Ascii text := of_decide_eq_true (hascii _ hmem)
      rwa [Kind.map, hf.map_ascii hword]
  | _ => rfl

/-- Recolored neighbours have to be kept apart exactly when the neighbours do. -/
theorem Kind.clashes_map (a b : Kind) : (a.map f).clashes (b.map f) = a.clashes b := by
  have hmem : ∀ (k : Kind) (kinds : List Kind), kinds.all Kind.isAscii = true →
      decide (k.map f ∈ kinds) = decide (k ∈ kinds) := by
    intro k kinds hkinds
    exact decide_eq_decide.2 (Kind.map_mem hf kinds k hkinds)
  have heq : ∀ k kind : Kind, kind.isAscii = true → (k.map f == kind) = (k == kind) := by
    intro k kind hkind
    have := Kind.map_mem hf [kind] k (by simpa using hkind)
    rw [Bool.eq_iff_iff, beq_iff_eq, beq_iff_eq, ← List.mem_singleton, this, List.mem_singleton]
  simp only [Kind.clashes, Kind.isWordLike, Kind.startsWord, Kind.startsLikeName,
    Kind.startsLikeNumber]
  repeat rw [hmem _ _ (by decide)]
  repeat rw [heq _ _ (by decide)]

/-- White space starts with a line end in every color. -/
theorem Component.startsWithLineEnd_map (c : Component) :
    (c.map f).startsWithLineEnd = c.startsWithLineEnd := by
  rcases c with a | ⟨o, content⟩
  · cases a with
    | space text =>
      cases text with
      | nil => rfl
      | cons d text =>
        rw [Component.map_atom, Atom.map, List.map_cons]
        by_cases hd : d = '\n'
        · rw [hd, hf.fixes '\n' rfl]; rfl
        · have hd' : f d ≠ '\n' := fun h => hd ((hf.eq_ascii_iff '\n' rfl).1 h)
          simp [Component.startsWithLineEnd, hd, hd']
    | _ => rfl
  · rw [Component.map_group]; rfl

/-- What is written between two neighbours is recolored with them. -/
theorem separator_map (before : Option Kind) (next : Component) :
    separator (before.map (Kind.map f)) (next.map f) = (separator before next).map f := by
  cases before with
  | none => rfl
  | some k =>
    have hbackslash : k.map f = .literal ['\\'] ↔ k = .literal ['\\'] := by
      have := Kind.map_mem hf [.literal ['\\']] k rfl
      rwa [List.mem_singleton, List.mem_singleton] at this
    simp only [separator, Option.map_some, Component.kind_map, Kind.clashes_map hf, hbackslash,
      Component.startsWithLineEnd_map hf]
    split
    · exact (hf.map_ascii (by decide)).symm
    · split
      · exact (hf.map_ascii (by decide)).symm
      · rfl

end

/-! ## Groups -/

mutual

/-- An open string at the end of a component stays open in other colors. -/
theorem Component.endsInOpenString_map (f : Char → Char) : ∀ c : Component,
    (c.map f).endsInOpenString = c.endsInOpenString
  | .atom a => by rw [Component.map_atom]; cases a <;> rfl
  | .group (.bracket b) content => rfl
  | .group (.function name) content => endInOpenString_map f content

/-- An open string at the end of a list of components stays open in other colors. -/
theorem endInOpenString_map (f : Char → Char) : ∀ cs : List Component,
    endInOpenString (Component.mapAll f cs) = endInOpenString cs
  | [] => rfl
  | [c] => Component.endsInOpenString_map f c
  | _ :: c :: cs => endInOpenString_map f (c :: cs)

end

mutual

/-- A recolored component has the fault of the component. -/
theorem Component.firstFault_map (f : Char → Char) : ∀ c : Component,
    (c.map f).firstFault = c.firstFault
  | .atom a => by rw [Component.map_atom]; cases a <;> rfl
  | .group (.bracket .curly) content => rfl
  | .group (.bracket .round) content => firstFaultOf_mapAll f content
  | .group (.bracket .square) content => firstFaultOf_mapAll f content
  | .group (.function name) content => firstFaultOf_mapAll f content

/-- Recolored components have the first fault of the components. -/
theorem firstFaultOf_mapAll (f : Char → Char) : ∀ cs : List Component,
    firstFaultOf (Component.mapAll f cs) = firstFaultOf cs
  | [] => rfl
  | c :: cs => by
    rw [Component.mapAll, firstFaultOf, firstFaultOf, Component.firstFault_map f c,
      firstFaultOf_mapAll f cs]

end

/-- The first fault of components does not depend on their colors. -/
theorem firstFaultOf_map (f : Char → Char) (cs : List Component) :
    firstFaultOf (cs.map (Component.map f)) = firstFaultOf cs := by
  rw [← Component.mapAll_eq, firstFaultOf_mapAll]

mutual

/-- A recolored component mentions the outer selector exactly when the component does. -/
theorem Component.mentionsOuter_map {f : Char → Char} (hf : Recoloring f) : ∀ c : Component,
    (c.map f).mentionsOuter = c.mentionsOuter
  | .atom a => by
    rw [Component.map_atom]
    cases a with
    | literal text =>
      rw [Atom.map, Component.mentionsOuter, Component.mentionsOuter, Bool.eq_iff_iff, beq_iff_eq,
        beq_iff_eq]
      exact hf.map_eq_ascii_iff (by decide)
    | _ => rfl
  | .group (.bracket .curly) content => rfl
  | .group (.bracket .round) content => mentionsOuter_mapAll hf content
  | .group (.bracket .square) content => mentionsOuter_mapAll hf content
  | .group (.function name) content => mentionsOuter_mapAll hf content

/-- Recolored content mentions the outer selector exactly when the content does. -/
theorem mentionsOuter_mapAll {f : Char → Char} (hf : Recoloring f) : ∀ cs : List Component,
    mentionsOuter (Component.mapAll f cs) = mentionsOuter cs
  | [] => rfl
  | c :: cs => by
    rw [Component.mapAll, mentionsOuter, mentionsOuter, Component.mentionsOuter_map hf c,
      mentionsOuter_mapAll hf cs]

end

section

variable {f : Char → Char} (hf : Recoloring f)

include hf

/-- Recolored components mention the outer selector exactly when the components do. -/
theorem mentionsOuter_map (cs : List Component) :
    mentionsOuter (cs.map (Component.map f)) = mentionsOuter cs := by
  rw [← Component.mapAll_eq, mentionsOuter_mapAll hf]

mutual

/-- Writing a component commutes with a recoloring. -/
theorem Component.text_map : ∀ c : Component, (c.map f).text = c.text.map f
  | .atom a => by rw [Component.map_atom, Component.text, Component.text, Atom.text_map hf]
  | .group (.bracket b) content => by
    have hb : f b.openChar = b.openChar ∧ f b.closeChar = b.closeChar := by
      cases b <;> exact ⟨hf.fixes _ rfl, hf.fixes _ rfl⟩
    rw [Component.map, Opening.map, Component.text, Component.text]
    have := contentText_map none content
    rw [Option.map_none] at this
    simp [this, hb]
  | .group (.function name) arguments => by
    rw [Component.map, Opening.map, Component.text, Component.text, endInOpenString_map]
    have := contentText_map none arguments
    rw [Option.map_none] at this
    rw [this, identifierText_map hf]
    split <;> simp [hf.fixes '(' rfl, hf.fixes ')' rfl]

/-- Writing content commutes with a recoloring, whatever was written before it. -/
theorem contentText_map (before : Option Kind) : ∀ cs : List Component,
    contentText (before.map (Kind.map f)) (Component.mapAll f cs) = (contentText before cs).map f
  | [] => rfl
  | c :: cs => by
    have := contentText_map (some c.kind) cs
    rw [Option.map_some] at this
    rw [Component.mapAll, contentText, contentText, separator_map hf, Component.text_map c,
      Component.kind_map, this, List.map_append, List.map_append]

end

/-! ## Minified text -/

/-- Whether the outer selector is a lone space does not depend on its color. -/
theorem eq_some_space_map (outer : Option (List Char)) :
    (outer.map (List.map f) == some [' ']) = (outer == some [' ']) := by
  rw [Bool.eq_iff_iff, beq_iff_eq, beq_iff_eq]
  cases outer with
  | none => rfl
  | some text =>
    rw [Option.map_some, Option.some.injEq, Option.some.injEq]
    exact hf.map_eq_ascii_iff (by decide)

mutual

/-- The minified text of a recolored component is the recolored minified text. -/
theorem Component.minifiedText_map (outer : Option (List Char)) : ∀ c : Component,
    (c.map f).minifiedText (outer.map (List.map f)) = (c.minifiedText outer).map f
  | .atom a => by
    have htext := Atom.text_map hf a
    rw [Component.map_atom]
    cases a with
    | literal text =>
      have hamp : text.map f = ['&'] ↔ text = ['&'] := hf.map_eq_ascii_iff (by decide)
      rw [Atom.map, Component.minifiedText, Component.minifiedText]
      simp only [hamp]
      split
      · cases outer <;> rfl
      · rfl
    | _ => exact htext
  | .group (.function name) arguments => by
    rw [Component.map, Opening.map, Component.minifiedText, Component.minifiedText,
      minifiedParts_mapAll outer true arguments, trim_map hf, identifierText_map hf]
    simp [hf.fixes '(' rfl, hf.fixes ')' rfl]
  | .group (.bracket .round) content => by
    rw [Component.map, Opening.map, Component.minifiedText, Component.minifiedText,
      minifiedParts_mapAll outer true content, trim_map hf]
    simp [hf.fixes '(' rfl, hf.fixes ')' rfl]
  | .group (.bracket .square) content => by
    rw [Component.map, Opening.map, Component.minifiedText, Component.minifiedText,
      minifiedParts_mapAll outer true content, trim_map hf]
    simp [hf.fixes '[' rfl, hf.fixes ']' rfl]
  | .group (.bracket .curly) content =>
    Component.text_map hf (.group (.bracket .curly) content)

/-- The minified parts of recolored content are the recolored minified parts. -/
theorem minifiedParts_mapAll (outer : Option (List Char)) (skip : Bool) : ∀ cs : List Component,
    minifiedParts (outer.map (List.map f)) skip (Component.mapAll f cs) =
      (minifiedParts outer skip cs).map f
  | [] => rfl
  | c :: cs => by
    have hnesting : (c.map f).isNestingSelector = c.isNestingSelector :=
      Component.isLiteral_map hf ['&'] (by decide) c
    rw [Component.mapAll, minifiedParts, minifiedParts, Component.isSpace_map, hnesting,
      eq_some_space_map hf, Component.minifiedText_map outer c]
    split
    · split
      · exact minifiedParts_mapAll outer true cs
      · rw [minifiedParts_mapAll outer true cs, List.map_cons, hf.fixes ' ' rfl]
    · rw [minifiedParts_mapAll outer _ cs, List.map_append]

end

/-- The minified text of recolored components under a recolored selector is the recolored text. -/
theorem minifiedText_map (outer : Option (List Char)) (cs : List Component) :
    minifiedText (outer.map (List.map f)) (cs.map (Component.map f)) =
      (minifiedText outer cs).map f := by
  rw [minifiedText, minifiedText, ← Component.mapAll_eq, minifiedParts_mapAll hf, trim_map hf]

end

end CssTemplate.Css
