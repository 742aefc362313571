import Mathlib
import CssTemplate.Proofs.Css.Reading
import CssTemplate.Proofs.Text.Characters

/-!
# Characters that style sheets do not tell apart

The syntax of style sheets is ASCII. Outside ASCII a character can only be a part of a name, a
string or a URL, and the one thing that is ever asked about it is whether it is blank. A
`Recoloring` changes characters without touching what the syntax sees. Every reader commutes with
it: reading a recolored text gives what reading the text gives, recolored. The one exception are
numeric escapes, which name a character by its code point, so a text has to be free of escapes
that name a character which the recoloring changes (`KeepsEscapes`).
-/

namespace CssTemplate.Css

/-- A change of characters that the syntax of style sheets does not see. -/
structure Recoloring (f : Char → Char) : Prop where
  ascii : ∀ c, c.toNat < 0x80 → f c = c
  nonAscii : ∀ c, 0x80 ≤ c.toNat → 0x80 ≤ (f c).toNat
  blank : ∀ c, isBlank (f c) = isBlank c
  replacement : f replacement = replacement

/-- A text of ASCII characters. -/
def Ascii (text : List Char) : Prop :=
  ∀ c ∈ text, c.toNat < 0x80

instance (text : List Char) : Decidable (Ascii text) :=
  List.decidableBAll (fun c : Char => c.toNat < 0x80) text

/-- An ASCII character is an ASCII text. -/
theorem ascii_singleton {c : Char} (h : c.toNat < 0x80) : Ascii [c] :=
  List.forall_mem_singleton.2 h

/-- A text is ASCII if its first character and its rest are. -/
theorem ascii_cons {c : Char} {text : List Char} :
    Ascii (c :: text) ↔ c.toNat < 0x80 ∧ Ascii text :=
  List.forall_mem_cons

/-- Two texts one after the other are ASCII if both are. -/
theorem ascii_append {text rest : List Char} : Ascii (text ++ rest) ↔ Ascii text ∧ Ascii rest :=
  List.forall_mem_append

/-! ## Characters outside ASCII -/

section NonAscii

variable {c : Char}

/-- A character outside ASCII is none of ASCII. -/
theorem ne_of_nonAscii {a : Char} (h : 0x80 ≤ c.toNat) (ha : a.toNat < 0x80) : c ≠ a := by
  rintro rfl
  omega

/-- A character outside ASCII is no digit. -/
theorem isDigit_of_nonAscii (h : 0x80 ≤ c.toNat) : c.isDigit = false := by
  rw [← Bool.not_eq_true, isDigit_iff]
  omega

/-- A character outside ASCII is no hexadecimal digit. -/
theorem isHexDigit_of_nonAscii (h : 0x80 ≤ c.toNat) : isHexDigit c = false := by
  rw [← Bool.not_eq_true, isHexDigit_iff]
  omega

/-- A character outside ASCII is no white space of style sheets, even if it is blank. -/
theorem isSpace_of_nonAscii (h : 0x80 ≤ c.toNat) : isSpace c = false := by
  simp [isSpace, ne_of_nonAscii h]

/-- A character outside ASCII starts a name. -/
theorem startsName_of_nonAscii (h : 0x80 ≤ c.toNat) : startsName c = true := by
  rw [startsName, decide_eq_true (Nat.lt_of_lt_of_le (by decide : 0x7F < 0x80) h), Bool.or_true]

/-- A character outside ASCII is a name character. -/
theorem isNameChar_of_nonAscii (h : 0x80 ≤ c.toNat) : isNameChar c = true := by
  rw [isNameChar, startsName_of_nonAscii h, Bool.true_or, Bool.true_or]

/-- A character outside ASCII may stand in an unquoted URL. -/
theorem isUrlForbidden_of_nonAscii (h : 0x80 ≤ c.toNat) : isUrlForbidden c = false := by
  simp [isUrlForbidden, ne_of_nonAscii h]
  omega

/-- A character outside ASCII has no other case here. -/
theorem toLower_of_nonAscii (h : 0x80 ≤ c.toNat) : c.toLower = c := by
  rw [Char.toLower, dif_neg]
  rintro ⟨-, hz⟩
  have hz' : c.toNat ≤ 90 := hz
  omega

/-- An ASCII character in lower case is ASCII. -/
theorem toNat_toLower_of_ascii (h : c.toNat < 0x80) : c.toLower.toNat < 0x80 := by
  rw [Char.toLower]
  split
  · next hc =>
    have hz : c.val.toNat ≤ 90 := hc.2
    show (c.val + 32).toNat < 0x80
    rw [UInt32.toNat_add]
    have h32 : (32 : UInt32).toNat = 32 := rfl
    rw [h32]
    omega
  · exact h

end NonAscii

/-! ## What a recoloring keeps of a character -/

namespace Recoloring

variable {f : Char → Char} (hf : Recoloring f) {c a : Char}

include hf

/-- What is the same for all characters outside ASCII does not change. -/
theorem apply_eq {β : Type} {p : Char → β} {b : β} (hp : ∀ c, 0x80 ≤ c.toNat → p c = b)
    (c : Char) : p (f c) = p c := by
  rcases Nat.lt_or_ge c.toNat 0x80 with h | h
  · rw [hf.ascii c h]
  · rw [hp c h, hp (f c) (hf.nonAscii c h)]

/-- A recoloring fixes every ASCII character. -/
theorem fixes (a : Char) (ha : decide (a.toNat < 0x80) = true) : f a = a :=
  hf.ascii a (of_decide_eq_true ha)

/-- A recolored character is a given ASCII character only if it was before. -/
theorem eq_ascii_iff (a : Char) (ha : decide (a.toNat < 0x80) = true) : f c = a ↔ c = a := by
  have ha := of_decide_eq_true ha
  rcases Nat.lt_or_ge c.toNat 0x80 with h | h
  · rw [hf.ascii c h]
  · exact iff_of_false (ne_of_nonAscii (hf.nonAscii c h) ha) (ne_of_nonAscii h ha)

/-- Whether a character is a digit does not depend on its color. -/
theorem isDigit (c : Char) : (f c).isDigit = c.isDigit :=
  hf.apply_eq (fun _ => isDigit_of_nonAscii) c

/-- Whether a character is a hexadecimal digit does not depend on its color. -/
theorem isHexDigit (c : Char) : CssTemplate.isHexDigit (f c) = CssTemplate.isHexDigit c :=
  hf.apply_eq (fun _ => isHexDigit_of_nonAscii) c

/-- Whether a character is white space does not depend on its color. -/
theorem isSpace (c : Char) : Css.isSpace (f c) = Css.isSpace c :=
  hf.apply_eq (fun _ => isSpace_of_nonAscii) c

/-- Whether a character starts a name does not depend on its color. -/
theorem startsName (c : Char) : Css.startsName (f c) = Css.startsName c :=
  hf.apply_eq (fun _ => startsName_of_nonAscii) c

/-- Whether a character is a name character does not depend on its color. -/
theorem isNameChar (c : Char) : Css.isNameChar (f c) = Css.isNameChar c :=
  hf.apply_eq (fun _ => isNameChar_of_nonAscii) c

/-- Whether a character may stand in an unquoted URL does not depend on its color. -/
theorem isUrlForbidden (c : Char) : Css.isUrlForbidden (f c) = Css.isUrlForbidden c :=
  hf.apply_eq (fun _ => isUrlForbidden_of_nonAscii) c

/-- Lower case commutes with a recoloring. -/
theorem toLower (c : Char) : (f c).toLower = f c.toLower := by
  rcases Nat.lt_or_ge c.toNat 0x80 with h | h
  · rw [hf.ascii c h, hf.ascii _ (toNat_toLower_of_ascii h)]
  · rw [toLower_of_nonAscii h, toLower_of_nonAscii (hf.nonAscii c h)]

/-- An ASCII text is a recolored text only if it is that text. -/
theorem map_eq_ascii_iff {text word : List Char} (hword : Ascii word) :
    text.map f = word ↔ text = word := by
  induction text generalizing word with
  | nil => rfl
  | cons c text ih =>
    cases word with
    | nil => simp
    | cons a word =>
      rw [List.map_cons, List.cons.injEq, List.cons.injEq,
        hf.eq_ascii_iff a (decide_eq_true (hword a (.head _))), ih fun c hc => hword c (.tail _ hc)]

/-- A recolored text starts with an ASCII text only if the text does. -/
theorem exists_of_map_eq_append {text rest : List Char} (word : List Char)
    (hword : Ascii word) (h : text.map f = word ++ rest) :
    ∃ rest, text = word ++ rest := by
  obtain ⟨front, back, rfl, hfront, -⟩ := List.map_eq_append_iff.1 h
  exact ⟨back, by rw [(hf.map_eq_ascii_iff hword).1 hfront]⟩

/-- An ASCII text stays as it is. -/
theorem map_ascii {text : List Char} (h : Ascii text) : text.map f = text := by
  rw [List.map_congr_left fun c hc => hf.ascii c (h c hc), List.map_id']

end Recoloring

/-! ## Readers of names -/

/-- Every numeric escape of a text names a character that stays as it is. -/
def KeepsEscapes (f : Char → Char) (text : List Char) : Prop :=
  ∀ rest, '\\' :: rest <:+ text → (spanHex 6 rest).1 ≠ [] →
    f (readEscape rest).1 = (readEscape rest).1

/-- A suffix has no escapes that the text does not have. -/
theorem KeepsEscapes.of_suffix {f : Char → Char} {text rest : List Char}
    (h : KeepsEscapes f text) (hsuffix : rest <:+ text) : KeepsEscapes f rest :=
  fun more hmore => h more (hmore.trans hsuffix)

/-- A text without backslashes has no escapes. -/
theorem KeepsEscapes.of_not_mem {f : Char → Char} {text : List Char} (h : '\\' ∉ text) :
    KeepsEscapes f text :=
  fun _ hsuffix => absurd (hsuffix.subset (.head _)) h

section Readers

variable {f : Char → Char} (hf : Recoloring f)

include hf

/-- A recolored text starts with an ASCII character exactly when the text does. -/
theorem head?_map_eq_some (text : List Char) (a : Char) (ha : decide (a.toNat < 0x80) = true) :
    (text.map f).head? = some a ↔ text.head? = some a := by
  cases text with
  | nil => rfl
  | cons c text => simp only [List.map_cons, List.head?_cons, Option.some.injEq, hf.eq_ascii_iff a ha]

/-- Whether an escape starts here does not depend on colors. -/
theorem startsEscape_map (text : List Char) : startsEscape (text.map f) = startsEscape text := by
  cases text with
  | nil => rfl
  | cons c rest =>
    rw [List.map_cons, startsEscape_cons, startsEscape_cons, Bool.eq_iff_iff]
    simp only [Bool.and_eq_true, beq_iff_eq, bne_iff_ne, ne_eq,
      head?_map_eq_some hf rest '\n' rfl, hf.eq_ascii_iff '\\' rfl]

/-- Whether an identifier starts here does not depend on colors. -/
theorem startsIdent_map (text : List Char) : startsIdent (text.map f) = startsIdent text := by
  cases text with
  | nil => rfl
  | cons c rest =>
    have hrest := startsEscape_map hf rest
    have htext := startsEscape_map hf (c :: rest)
    have hhead : (rest.map f).head?.any (fun d => startsName d || d == '-') =
        rest.head?.any (fun d => startsName d || d == '-') := by
      cases rest with
      | nil => rfl
      | cons d rest =>
        simp only [List.map_cons, List.head?_cons, Option.any_some, hf.startsName]
        rw [Bool.eq_iff_iff]
        simp only [Bool.or_eq_true, beq_iff_eq, hf.eq_ascii_iff '-' rfl]
    rw [List.map_cons] at htext ⊢
    rw [startsIdent_cons, startsIdent_cons, hf.startsName, hhead, hrest, htext]
    simp only [hf.eq_ascii_iff '-' rfl]

/-- Hexadecimal digits keep their color, what follows is recolored. -/
theorem spanHex_map (limit : Nat) (text : List Char) :
    spanHex limit (text.map f) = ((spanHex limit text).1, (spanHex limit text).2.map f) := by
  fun_induction spanHex limit text with
  | case1 text => rfl
  | case2 => rfl
  | case3 limit c rest hc more ih =>
    have hascii : f c = c := by
      refine hf.ascii c ?_
      have := isHexDigit_iff.1 hc
      omega
    rw [List.map_cons, spanHex, if_pos (by rw [hf.isHexDigit]; exact hc), ih, hascii]
  | case4 limit c rest hc =>
    rw [List.map_cons, spanHex, if_neg (by rw [hf.isHexDigit]; exact hc)]

/-- Skipping one white space commutes with a recoloring. -/
theorem skipOneSpace_map (text : List Char) :
    skipOneSpace (text.map f) = (skipOneSpace text).map f := by
  cases text with
  | nil => rfl
  | cons c rest =>
    rw [List.map_cons, skipOneSpace, skipOneSpace, hf.isSpace]
    split <;> rfl

/-- Reading an escape commutes with a recoloring that keeps the character which it names. -/
theorem readEscape_map {text : List Char}
    (h : (spanHex 6 text).1 ≠ [] → f (readEscape text).1 = (readEscape text).1) :
    readEscape (text.map f) = (f (readEscape text).1, (readEscape text).2.map f) := by
  rcases hspan : spanHex 6 text with ⟨digits, rest⟩
  have hspan' := spanHex_map hf 6 text
  rw [hspan] at h hspan'
  cases digits with
  | nil =>
    cases text with
    | nil => exact congrArg (·, []) hf.replacement.symm
    | cons c text =>
      rw [List.map_cons] at hspan' ⊢
      simp only [readEscape, hspan', hspan]
  | cons d digits =>
    have hchar := h (by simp)
    simp only [readEscape, hspan] at hchar
    simp only [readEscape, hspan', hspan, hchar, skipOneSpace_map hf]

/-- Reading a name commutes with a recoloring that keeps its escapes. -/
theorem readName_map {text : List Char} (h : KeepsEscapes f text) :
    readName (text.map f) = ((readName text).1.map f, (readName text).2.map f) := by
  fun_induction readName text with
  | case1 => simp [readName]
  | case2 c rest hc more ih =>
    rw [List.map_cons, readName, if_pos (by rw [hf.isNameChar]; exact hc),
      ih (h.of_suffix (List.suffix_cons c rest))]
    rfl
  | case3 c rest hc he escape more ih =>
    have hescape := readEscape_map hf (h rest (eq_backslash_of_startsEscape he ▸ List.suffix_rfl))
    have hstart : startsEscape (f c :: rest.map f) = true := by
      rw [← List.map_cons, startsEscape_map hf]; exact he
    rw [List.map_cons, readName, if_neg (by rw [hf.isNameChar]; exact hc), if_pos hstart, hescape]
    simp only
    rw [ih (h.of_suffix ((readEscape_suffix rest).trans (List.suffix_cons c rest)))]
    rfl
  | case4 c rest hc he =>
    have hstart : ¬startsEscape (f c :: rest.map f) = true := by
      rw [← List.map_cons, startsEscape_map hf]; exact he
    rw [List.map_cons, readName, if_neg (by rw [hf.isNameChar]; exact hc), if_neg hstart]
    rfl

end Readers

end CssTemplate.Css
