import CssTemplate.Proofs.Css.Hereditary
import CssTemplate.Proofs.Css.Plain
import CssTemplate.Proofs.Css.RecoloredText
import CssTemplate.Proofs.Css.Written

/-!
# The escapes that flattening writes

Out of a template without backslashes, flattening writes two escapes only: a double quote inside a
string, and the letter at the front of a unit that would be taken for an exponent. Such a text is
`Tame` (`tame_flattenCss`). The second escape is numeric, and hexadecimal digits that come to stand
after it join it: so the characters which a tame text can name, when it is read again, are those of
`U+0650` to `U+065F` and `U+6500` to `U+65FF`, apart from ASCII and from what no marker can be
(`Tame.keepsEscapes`).
-/

namespace CssTemplate.Css

/-- A double quote or the digits of the letter `e` follow every backslash. -/
def Tame (text : List Char) : Prop :=
  ∀ rest, '\\' :: rest <:+ text → ∃ more, rest = '"' :: more ∨ rest = '6' :: '5' :: more

/-- A text without backslashes is tame. -/
theorem tame_of_not_mem {text : List Char} (h : '\\' ∉ text) : Tame text :=
  fun _ hsuffix => absurd (hsuffix.subset (.head _)) h

/-- A suffix of a tame text is tame. -/
theorem Tame.of_suffix {text rest : List Char} (h : Tame text) (hsuffix : rest <:+ text) :
    Tame rest :=
  fun more hmore => h more (hmore.trans hsuffix)

/-- A text is tame if its front is no backslash or one with the right characters behind it, and its
rest is tame. -/
theorem tame_cons {c : Char} {text : List Char} :
    Tame (c :: text) ↔
      (c = '\\' → ∃ more, text = '"' :: more ∨ text = '6' :: '5' :: more) ∧ Tame text := by
  constructor
  · intro h
    refine ⟨fun hc => h text (hc ▸ List.suffix_rfl), h.of_suffix (List.suffix_cons c text)⟩
  · rintro ⟨hfirst, htext⟩ rest hsuffix
    rcases List.suffix_cons_iff.1 hsuffix with heq | hsuffix
    · injection heq with hc heq
      rw [heq]
      exact hfirst hc.symm
    · exact htext rest hsuffix

/-- Tame texts written one after the other are tame. -/
theorem Tame.append {a b : List Char} (ha : Tame a) (hb : Tame b) : Tame (a ++ b) := by
  induction a with
  | nil => exact hb
  | cons c a ih =>
    obtain ⟨hfirst, ha⟩ := tame_cons.1 ha
    refine tame_cons.2 ⟨fun hc => ?_, ih ha⟩
    obtain ⟨more, rfl | rfl⟩ := hfirst hc
    · exact ⟨more ++ b, .inl rfl⟩
    · exact ⟨more ++ b, .inr rfl⟩

/-- A tame text stays tame when it loses characters at its end that do not follow backslashes. -/
theorem Tame.of_append {text tail : List Char} (h : Tame (text ++ tail))
    (htail : ∀ c ∈ tail, c ∉ ['"', '5', '6']) : Tame text := by
  have hhead : ∀ {c : Char} {more : List Char}, tail = c :: more → c ∉ ['"', '5', '6'] :=
    fun heq => htail _ (heq ▸ .head _)
  induction text with
  | nil => exact tame_of_not_mem List.not_mem_nil
  | cons c text ih =>
    obtain ⟨hfirst, h⟩ := tame_cons.1 h
    refine tame_cons.2 ⟨fun hc => ?_, ih h⟩
    obtain ⟨more, hmore⟩ := hfirst hc
    rcases hmore with hmore | hmore
    · rcases List.append_eq_cons_iff.1 hmore with ⟨-, htail⟩ | ⟨text', rfl, -⟩
      · exact absurd (hhead htail) (by decide)
      · exact ⟨text', .inl rfl⟩
    · rcases List.append_eq_cons_iff.1 hmore with ⟨-, htail⟩ | ⟨text', rfl, hdigit⟩
      · exact absurd (hhead htail) (by decide)
      · rcases List.append_eq_cons_iff.1 hdigit.symm with ⟨-, htail⟩ | ⟨text'', rfl, -⟩
        · exact absurd (hhead htail) (by decide)
        · exact ⟨text'', .inr rfl⟩

/-- The characters behind the backslashes of a tame text are not blank. -/
theorem isBlank_of_digit_or_quote {c : Char} (h : c ∈ ['"', '5', '6']) : isBlank c = false := by
  rcases List.mem_cons.1 h with rfl | h
  · decide
  · rcases List.mem_cons.1 h with rfl | h
    · decide
    · rw [List.mem_singleton.1 h]
      decide

/-- Tame texts are closed under what printers do. -/
theorem writable_tame : Writable Tame where
  punctuation h _ _ := tame_of_not_mem h
  append := Tame.append
  trim := by
    intro text h
    obtain ⟨tail, htail, hblank⟩ := exists_trimEnd_append isBlank (text.dropWhile isBlank)
    have hdrop := h.of_suffix (List.dropWhile_suffix isBlank)
    rw [htail] at hdrop
    refine hdrop.of_append fun c hc hmem => ?_
    have hc := hblank c hc
    rw [isBlank_of_digit_or_quote hmem] at hc
    cases hc

/-! ## Plain components -/

/-- A name of name characters is written without escapes. -/
theorem nameText_of_chars {name : List Char} (h : ∀ c ∈ name, isNameChar c = true) :
    nameText name = name := by
  induction name with
  | nil => rfl
  | cons c name ih =>
    obtain ⟨hc, hname⟩ := List.forall_mem_cons.1 h
    have hrest : name.flatMap nameCharText = name := ih hname
    rw [nameText, List.flatMap_cons, hrest, nameCharText, if_pos hc, List.singleton_append]

/-- A name of name characters holds no backslash. -/
theorem backslash_not_mem_of_chars {name : List Char} (h : ∀ c ∈ name, isNameChar c = true) :
    '\\' ∉ name := by
  intro hmem
  exact absurd (h _ hmem) (by decide)

/-- An identifier that was written without escapes is written as it was. -/
theorem PlainIdent.identifierText {name : List Char} (h : PlainIdent name) :
    identifierText name = name := by
  have hbackslash := backslash_not_mem_of_chars h.chars
  have hstarts := h.starts
  fun_cases Css.identifierText name with
  | case1 => rfl
  | case2 => cases hstarts
  | case3 rest =>
    rw [nameText_of_chars fun c hc => h.chars c (.tail _ (.tail _ hc))]
  | case4 c rest hne =>
    have hc : startsName c = true := by
      have hescape := startsEscape_of_not_mem fun hc => hbackslash (.tail _ hc)
      rw [startsIdent_cons, if_pos rfl, List.head?_cons, Option.any_some, hescape, Bool.or_false,
        Bool.or_eq_true, beq_iff_eq] at hstarts
      exact hstarts.resolve_right hne
    rw [nameText_of_chars fun c hc => h.chars c (.tail _ (.tail _ hc)), firstCharText, if_pos hc,
      List.singleton_append]
  | case5 c rest hnil htwo hone =>
    have hyphen : c ≠ '-' := by
      rintro rfl
      cases rest with
      | nil => exact hnil rfl rfl
      | cons d rest => exact hone d rest rfl rfl
    rw [startsIdent_cons, if_neg hyphen, startsEscape_of_not_mem hbackslash, Bool.or_false] at hstarts
    rw [nameText_of_chars fun c hc => h.chars c (.tail _ hc), firstCharText, if_pos hstarts,
      List.singleton_append]

/-- A plain identifier is written as a tame text. -/
theorem PlainIdent.tame {name : List Char} (h : PlainIdent name) : Tame (Css.identifierText name) := by
  rw [h.identifierText]
  exact tame_of_not_mem (backslash_not_mem_of_chars h.chars)

/-- A plain unit is written as a tame text: the one escape in it is the code of the letter. -/
theorem tame_unitText {unit : List Char} (h : PlainIdent unit) : Tame (unitText unit) := by
  unfold unitText
  split
  · have hrest : ∀ c ∈ unit.drop 1, isNameChar c = true :=
      fun c hc => h.chars c ((List.drop_suffix 1 unit).subset hc)
    rw [nameText_of_chars hrest]
    refine tame_cons.2 ⟨fun _ => ⟨_, .inr rfl⟩, tame_of_not_mem ?_⟩
    simpa using backslash_not_mem_of_chars hrest
  · exact h.tame

/-- A string without backslashes and line ends is written as a tame text. -/
theorem tame_stringText {value : List Char} (h : Unescaped value) (hline : '\n' ∉ value)
    (closed : Bool) : Tame (stringText value closed) := by
  have hchar : ∀ c ∈ value, Tame (stringCharText c) := by
    intro c hc
    have hne : ∀ {a : Char}, a ∉ value → c ≠ a := fun ha heq => ha (heq ▸ hc)
    by_cases hquote : c = '"'
    · subst hquote
      exact tame_cons.2 ⟨fun _ => ⟨[], .inl rfl⟩, tame_of_not_mem (by decide)⟩
    · have hplain : stringCharText c = [c] := by
        simp [stringCharText, hquote, hne h.backslash, hne hline, hne h.lineEnd, hne h.formFeed]
      rw [hplain]
      exact tame_of_not_mem (by simpa using Ne.symm (hne h.backslash))
  refine tame_cons.2 ⟨fun hc => absurd hc (by decide), (writable_tame.flatMap hchar).append ?_⟩
  split <;> exact tame_of_not_mem (by decide)

/-- A plain URL is written as a tame text. -/
theorem tame_urlText {value : List Char} (h : Unescaped value) (hchars : ∀ c ∈ value, UrlChar c)
    (closed : Bool) : Tame (urlText value closed) := by
  have hvalue : ∀ c ∈ value, Tame (urlCharText c) := by
    intro c hc
    have hne : ∀ {a : Char}, a ∉ value → c ≠ a := fun ha heq => ha (heq ▸ hc)
    obtain ⟨hclose, hspace, hallowed⟩ := hchars c hc
    simp only [isSpace, Bool.or_eq_false_iff, beq_eq_false_iff_ne] at hspace
    simp only [isUrlForbidden, Bool.or_eq_false_iff, beq_eq_false_iff_ne] at hallowed
    have hplain : urlCharText c = [c] := by
      simp [urlCharText, hclose, hspace, hallowed, hne h.backslash, hne h.lineEnd, hne h.formFeed]
    rw [hplain]
    exact tame_of_not_mem (by simpa using Ne.symm (hne h.backslash))
  have hopen : Tame ['u', 'r', 'l', '('] := tame_of_not_mem (by decide)
  refine hopen.append ((writable_tame.flatMap hvalue).append ?_)
  split <;> exact tame_of_not_mem (by decide)

/-- What stands for a fault is tame. -/
theorem TokenFault.tame_text (what : TokenFault) : Tame what.text := by
  refine tame_of_not_mem ?_
  cases what with
  | unmatched b => cases b <;> decide
  | _ => decide

/-- A code point holds no backslash. -/
theorem tame_hexUpper (width n : Nat) : Tame (hexUpper width n) :=
  tame_of_not_mem fun h => absurd (isHexDigit_of_mem_hexUpper h) (by decide)

/-- A plain atom is written as a tame text. -/
theorem Atom.Plain.tame {a : Atom} (h : a.Plain) : Tame a.text := by
  have hQ := writable_tame
  cases a with
  | space text => exact tame_of_not_mem h
  | literal text => exact tame_of_not_mem h
  | ident name => exact PlainIdent.tame h
  | atKeyword name => exact hQ.cons (by decide) (PlainIdent.tame h)
  | hash name isIdent =>
    refine hQ.cons (by decide) ?_
    cases isIdent with
    | true => exact PlainIdent.tame ⟨h.2 rfl, h.1⟩
    | false =>
      show Tame (nameText name)
      rw [nameText_of_chars h.1]
      exact tame_of_not_mem (backslash_not_mem_of_chars h.1)
  | string value closed => exact tame_stringText h.1 h.2 closed
  | url value closed => exact tame_urlText h.1 h.2 closed
  | number numeral => exact tame_of_not_mem h
  | percentage numeral => exact hQ.concat (by decide) (tame_of_not_mem h)
  | dimension numeral unit => exact (tame_of_not_mem h.1).append (tame_unitText h.2)
  | unicodeRange first last =>
    refine hQ.cons (by decide) (hQ.cons (by decide) ((tame_hexUpper 1 first).append ?_))
    split
    · exact hQ.nil
    · exact hQ.cons (by decide) (tame_hexUpper 1 last)
  | fault what => exact what.tame_text

mutual

/-- A plain component is made of tame texts. -/
theorem Component.Plain.within : ∀ c : Component, c.Plain → c.Within Tame
  | .atom a, h => Atom.Plain.tame h
  | .group (.bracket b) content, h => by
    rw [Component.Plain] at h
    refine ⟨fun text htext => ?_, Component.PlainAll.within content h.2⟩
    have hopen : Tame [b.openChar] := tame_of_not_mem (by cases b <;> decide)
    have hclose : Tame [b.closeChar] := tame_of_not_mem (by cases b <;> decide)
    exact hopen.append (htext.append hclose)
  | .group (.function name) arguments, h => by
    rw [Component.Plain] at h
    exact ⟨PlainIdent.tame h.1, Component.PlainAll.within arguments h.2⟩

/-- Plain components are made of tame texts. -/
theorem Component.PlainAll.within : ∀ cs : List Component, Component.PlainAll cs →
    Component.WithinAll Tame cs
  | [], _ => trivial
  | c :: cs, h => ⟨Component.Plain.within c h.1, Component.PlainAll.within cs h.2⟩

end

/-! ## Templates -/

/-- What is inside a plain group is plain. -/
theorem hereditary_plain : Hereditary Component.Plain := by
  intro content h
  rw [Component.Plain] at h
  exact Component.plainAll_iff.1 h.2

mutual

/-- A node with plain components is written in tame texts. -/
theorem NestedRule.Holds.writtenIn : ∀ node : NestedRule, node.Holds Component.Plain →
    node.WrittenIn Tame Tame
  | .bare name, h => PlainIdent.tame h
  | .declaration d, h => by
    have hname : PlainIdent d.name := h.name
    exact ⟨tame_of_not_mem (backslash_not_mem_of_chars hname.chars),
      fun c hc => Component.Plain.within c (h.value c hc)⟩
  | .rule selectors body, h => by
    rw [NestedRule.Holds] at h
    exact ⟨fun c hc => Component.Plain.within c (h.1 c hc), NestedRule.HoldsOf.writtenIn body h.2⟩
  | .atRule kind keyword prelude body, h => by
    rw [NestedRule.Holds] at h
    have hkeyword : PlainIdent keyword := h.1
    exact ⟨tame_of_not_mem (backslash_not_mem_of_chars hkeyword.chars),
      fun c hc => Component.Plain.within c (h.2.1 c hc), NestedRule.HoldsOf.writtenIn body h.2.2⟩
  | .atStatement keyword prelude, _ => trivial
  | .malformed what, _ => trivial

/-- Nodes with plain components are written in tame texts. -/
theorem NestedRule.HoldsOf.writtenIn : ∀ nodes : List NestedRule,
    NestedRule.HoldsOf Component.Plain nodes → NestedRule.AllWrittenIn Tame Tame nodes
  | [], _ => trivial
  | node :: nodes, h => by
    rw [NestedRule.HoldsOf] at h
    exact ⟨NestedRule.Holds.writtenIn node h.1, NestedRule.HoldsOf.writtenIn nodes h.2⟩

end

/-- A block is tame if its head and its body are. -/
theorem tame_blockText {head body : List Char} (hhead : Tame head) (hbody : Tame body) :
    Tame (blockText head body) := by
  have hopen : Tame ['{'] := tame_of_not_mem (by decide)
  have hclose : Tame ['}'] := tame_of_not_mem (by decide)
  exact (hhead.append (hopen.append hbody)).append hclose

mutual

/-- A flat rule of tame texts is written as a tame text. -/
theorem FlatRule.WrittenIn.tame : ∀ rule : FlatRule, rule.WrittenIn Tame Tame → Tame rule.text
  | .style selectors declarations, h => by
    rw [FlatRule.WrittenIn] at h
    rw [FlatRule.text]
    exact tame_blockText (writable_tame.joinCommas h.1) (writable_tame.flatMap h.2)
  | .atRule head rules, h => by
    rw [FlatRule.WrittenIn] at h
    rw [FlatRule.text]
    exact tame_blockText h.1 (FlatRule.AllWrittenIn.tame rules h.2)

/-- Flat rules of tame texts are written as a tame text. -/
theorem FlatRule.AllWrittenIn.tame : ∀ rules : List FlatRule, FlatRule.AllWrittenIn Tame Tame rules →
    Tame (rulesText rules)
  | [], _ => tame_of_not_mem (by simp [rulesText])
  | rule :: rules, h => by
    rw [rulesText]
    exact (FlatRule.WrittenIn.tame rule h.1).append (FlatRule.AllWrittenIn.tame rules h.2)

end

/-- The body of a template without backslashes is plain. -/
theorem plain_templateBody {context css : List Char} (hcontext : '\\' ∉ context) (hcss : '\\' ∉ css)
    {content : List Component} (h : templateBody context css = .ok content) :
    ∀ c ∈ content, c.Plain := by
  have hblock : '\\' ∉ blockText context css := by simp [blockText, hcontext, hcss]
  exact holds_templateBody hereditary_plain (plain_parse hblock) h

/-- Flattening a template without backslashes writes tame escapes only. -/
theorem tame_flattenCss {context css flat : List Char} (hcontext : '\\' ∉ context)
    (hcss : '\\' ∉ css) (h : flattenCss context css = .ok flat) : Tame flat := by
  obtain ⟨rules, hrules, rfl⟩ := Except.map_eq_ok_iff.1 h
  obtain ⟨content, hcontent, -⟩ := Except.bind_eq_ok_iff.1 hrules
  have hplain := plain_templateBody hcontext hcss hcontent
  have htree := NestedRule.HoldsOf.writtenIn _ (NestedRule.holds_ofBody hereditary_plain hplain)
  have hwritten := writtenIn_flattenTemplate writable_tame writable_tame (tame_of_not_mem hcontext)
    hcontent htree hrules
  exact FlatRule.AllWrittenIn.tame rules (FlatRule.allWrittenIn_iff.2 hwritten)

/-! ## Reading a tame text -/

/-- What follows a backslash of a preprocessed text follows one of the text. -/
theorem suffix_of_suffix_normalize {text rest : List Char} (h : '\\' :: rest <:+ normalize text) :
    ∃ rest', '\\' :: rest' <:+ text ∧ rest = normalize rest' := by
  fun_induction normalize text with
  | case1 => simp at h
  | case2 more ih =>
    rcases List.suffix_cons_iff.1 h with heq | h
    · injection heq with hc
      exact absurd hc (by decide)
    · obtain ⟨rest', hrest', heq⟩ := ih h
      exact ⟨rest', (hrest'.trans (List.suffix_cons _ _)).trans (List.suffix_cons _ _), heq⟩
  | case3 c more hreturn ih =>
    rcases List.suffix_cons_iff.1 h with heq | h
    · injection heq with hc heq
      split at hc
      · exact absurd hc (by decide)
      · split at hc
        · exact absurd hc (by decide)
        · exact ⟨more, hc ▸ List.suffix_rfl, heq⟩
    · obtain ⟨rest', hrest', heq⟩ := ih h
      exact ⟨rest', hrest'.trans (List.suffix_cons _ _), heq⟩

/-- Preprocessing keeps a text tame. -/
theorem Tame.normalize {text : List Char} (h : Tame text) : Tame (normalize text) := by
  intro rest hsuffix
  obtain ⟨rest', hrest', rfl⟩ := suffix_of_suffix_normalize hsuffix
  obtain ⟨more, rfl | rfl⟩ := h rest' hrest'
  · exact ⟨_, .inl (normalize_cons (by decide) more)⟩
  · refine ⟨Css.normalize more, .inr ?_⟩
    rw [normalize_cons (by decide), normalize_cons (by decide)]

/-- The characters that numeric escapes of a tame text can name. -/
def TameName (c : Char) : Prop :=
  c.toNat < 0x80 ∨ (0x650 ≤ c.toNat ∧ c.toNat ≤ 0x65F) ∨ (0x6500 ≤ c.toNat ∧ c.toNat ≤ 0x65FF) ∨
    0xD800 ≤ c.toNat

/-- A hexadecimal digit is less than sixteen. -/
theorem hexValue_lt (c : Char) : hexValue c < 16 := by
  have hzero : '0'.toNat = 48 := rfl
  have hlower : 'a'.toNat = 97 := rfl
  have hupper : 'A'.toNat = 65 := rfl
  unfold hexValue
  split
  · next h =>
    have := isDigit_iff.1 h
    omega
  · split
    · next h =>
      have hle : c.toNat ≤ 102 := (Bool.and_eq_true_iff.1 h).2 |> of_decide_eq_true
      omega
    · split
      · next h =>
        have hle : c.toNat ≤ 70 := (Bool.and_eq_true_iff.1 h).2 |> of_decide_eq_true
        omega
      · omega

/-- Digits that follow a numeral shift it by their number. -/
theorem hexNumber_bounds (digits : List Char) (n : Nat) :
    n * 16 ^ digits.length ≤ digits.foldl (fun n c => 16 * n + hexValue c) n ∧
      digits.foldl (fun n c => 16 * n + hexValue c) n < (n + 1) * 16 ^ digits.length := by
  induction digits generalizing n with
  | nil => simp
  | cons c digits ih =>
    have hc := hexValue_lt c
    obtain ⟨hlow, hhigh⟩ := ih (16 * n + hexValue c)
    rw [List.foldl_cons, List.length_cons, Nat.pow_succ]
    constructor
    · calc n * (16 ^ digits.length * 16) = (16 * n) * 16 ^ digits.length := by
            rw [Nat.mul_comm (16 ^ digits.length), ← Nat.mul_assoc, Nat.mul_comm n]
        _ ≤ (16 * n + hexValue c) * 16 ^ digits.length := Nat.mul_le_mul_right _ (Nat.le_add_right _ _)
        _ ≤ _ := hlow
    · calc _ < (16 * n + hexValue c + 1) * 16 ^ digits.length := hhigh
        _ ≤ (16 * (n + 1)) * 16 ^ digits.length := Nat.mul_le_mul_right _ (by omega)
        _ = (n + 1) * (16 ^ digits.length * 16) := by
            rw [Nat.mul_comm (16 ^ digits.length), ← Nat.mul_assoc, Nat.mul_comm (n + 1)]

/-- Up to six digits that start with the code of the letter name a character of the known ranges. -/
theorem tameName_of_digits {digits : List Char} (hlength : digits.length ≤ 4) :
    TameName (escapedChar (hexNumber ('6' :: '5' :: digits))) := by
  obtain ⟨hlow, hhigh⟩ := hexNumber_bounds digits 0x65
  have hnumber : hexNumber ('6' :: '5' :: digits) =
      digits.foldl (fun n c => 16 * n + hexValue c) 0x65 := rfl
  rw [← hnumber] at hlow hhigh
  unfold escapedChar TameName
  split
  · next hvalid =>
    have hcode : (Char.ofNat (hexNumber ('6' :: '5' :: digits))).toNat =
        hexNumber ('6' :: '5' :: digits) := by
      rw [Char.ofNat, dif_pos hvalid.2]
      rfl
    rw [hcode]
    match hdigits : digits.length, hlength with
    | 0, _ => rw [hdigits] at hlow hhigh; omega
    | 1, _ => rw [hdigits] at hlow hhigh; omega
    | 2, _ => rw [hdigits] at hlow hhigh; omega
    | 3, _ => rw [hdigits] at hlow hhigh; omega
    | 4, _ => rw [hdigits] at hlow hhigh; omega
  · exact .inr (.inr (.inr (by decide)))

/-- No more hexadecimal digits are read than the limit allows. -/
theorem length_spanHex_fst_le (limit : Nat) (text : List Char) :
    (spanHex limit text).1.length ≤ limit := by
  fun_induction spanHex limit text with
  | case1 => exact Nat.le_refl _
  | case2 => exact Nat.zero_le _
  | case3 limit c rest _ more ih => exact Nat.succ_le_succ ih
  | case4 => exact Nat.zero_le _

/-- A numeric escape of a tame text names a character of the known ranges. -/
theorem Tame.tameName {text rest : List Char} (h : Tame text) (hsuffix : '\\' :: rest <:+ text)
    (hspan : (spanHex 6 rest).1 ≠ []) : TameName (readEscape rest).1 := by
  obtain ⟨more, rfl | rfl⟩ := h rest hsuffix
  · exact absurd rfl hspan
  · exact tameName_of_digits (length_spanHex_fst_le 4 more)

/-- A tame text keeps its escapes when the characters stay that they can name. -/
theorem Tame.keepsEscapes {f : Char → Char} {text : List Char} (h : Tame text)
    (hf : ∀ c, TameName c → f c = c) : KeepsEscapes f text :=
  fun _ hsuffix hspan => hf _ (h.tameName hsuffix hspan)

end CssTemplate.Css
