import CssTemplate.Compilation
import CssTemplate.Proofs.Css.AnimationName
import CssTemplate.Proofs.Css.Origin
import CssTemplate.Proofs.Output.Rebased

/-!
# Compilations at another base

The base of the markers is not seen in what a template compiles to (`compile_rebase`), as long as no
marker is blank, which trimming would remove, and none can be named by an escape that flattening
itself writes. Every stage commutes with the change of the base: encoding, flattening, prefixing,
cutting into blocks and building.
-/

namespace CssTemplate

/-! ## Related results -/

/-- Two results that are there and related, or two faults of the same name. -/
inductive Agree {α β : Type} (R : α → β → Prop) :
    Except CompileFault α → Except CompileFault β → Prop where
  | ok {a : α} {b : β} (h : R a b) : Agree R (.ok a) (.ok b)
  | error {what what' : CompileFault} (h : what'.name = what.name) :
      Agree R (.error what) (.error what')

/-- Steps that agree on results that correspond can follow results that agree. -/
theorem Agree.bind {α β γ δ : Type} {R : α → β → Prop} {S : γ → δ → Prop}
    {x : Except CompileFault α} {y : Except CompileFault β} (h : Agree R x y)
    {k : α → Except CompileFault γ} {k' : β → Except CompileFault δ}
    (hk : ∀ a b, x = .ok a → R a b → Agree S (k a) (k' b)) : Agree S (x >>= k) (y >>= k') := by
  cases h with
  | ok h => exact hk _ _ rfl h
  | error h => exact .error h

/-- Faults of the same name are as good as each other. -/
theorem Agree.congr {α β : Type} {R : α → β → Prop} {x x' : Except CompileFault α}
    {y y' : Except CompileFault β} (h : Agree R x y)
    (hx : x'.mapError CompileFault.name = x.mapError CompileFault.name)
    (hy : y'.mapError CompileFault.name = y.mapError CompileFault.name) : Agree R x' y' := by
  cases h with
  | ok h =>
    cases x' <;> cases hx
    cases y' <;> cases hy
    exact .ok h
  | error h =>
    cases x' with
    | ok a => cases hx
    | error what =>
      cases y' with
      | ok b => cases hy
      | error what' =>
        injection hx with hx
        injection hy with hy
        exact .error (hy.trans (h.trans hx.symm))

/-! ## Processing -/

section Processing

open Css

variable {f : Char → Char}

/-- Lifting a recolored result agrees with lifting the result. -/
theorem agree_liftCss (f : Char → Char) (x : Except Css.Fault (List Char)) :
    Agree (fun css css' => css' = css.map f) (liftCss x) (liftCss (mapResult f (List.map f) x)) := by
  cases x with
  | ok css => exact .ok rfl
  | error what => exact .error rfl

/-- A prefix that the recoloring does not move is one in every color. -/
theorem isPrefixOf_map {word : List Char} (hword : ∀ d ∈ word, ∀ c, f c = d ↔ c = d)
    (text : List Char) : word.isPrefixOf (text.map f) = word.isPrefixOf text := by
  induction word generalizing text with
  | nil => rfl
  | cons d word ih =>
    obtain ⟨hd, hword⟩ := List.forall_mem_cons.1 hword
    cases text with
    | nil => rfl
    | cons c text =>
      have hhead : (d == f c) = (d == c) := by
        rw [Bool.eq_iff_iff, beq_iff_eq, beq_iff_eq, eq_comm, hd c, eq_comm]
      rw [List.map_cons, List.isPrefixOf_cons_cons, List.isPrefixOf_cons_cons, hhead, ih hword]

/-- Unwrapping a recolored animation agrees with unwrapping the animation. -/
theorem agree_unwrapKeyframes {name : List Char}
    (hopening : ∀ d ∈ keyframesOpening name, ∀ c, f c = d ↔ c = d) (hf : Recoloring f)
    (output : List Char) :
    Agree (fun body body' => body' = body.map f) (unwrapKeyframes name output)
      (unwrapKeyframes name (output.map f)) := by
  have hlast : ((output.map f).getLast? == some '}') = (output.getLast? == some '}') := by
    rw [List.getLast?_map]
    cases output.getLast? with
    | none => rfl
    | some c =>
      rw [Option.map_some, Bool.eq_iff_iff, beq_iff_eq, beq_iff_eq, Option.some.injEq,
        Option.some.injEq, hf.eq_ascii_iff '}' rfl]
  unfold unwrapKeyframes
  simp only [isPrefixOf_map hopening, hlast]
  split
  · refine .ok ?_
    rw [List.map_dropLast, List.map_drop]
  · exact .error rfl

/-- The unwrapped body is part of the output. -/
theorem mem_of_unwrapKeyframes {name output body : List Char}
    (hbody : unwrapKeyframes name output = .ok body) : body ⊆ output := by
  unfold unwrapKeyframes at hbody
  simp only at hbody
  split at hbody
  · cases hbody
    exact fun c hc => List.mem_of_mem_drop (List.dropLast_subset _ hc)
  · cases hbody

/-- The body of an animation is tame if the rule around it is. -/
theorem tame_unwrapKeyframes {name output body : List Char} (h : Tame output)
    (hbody : unwrapKeyframes name output = .ok body) : Tame body := by
  unfold unwrapKeyframes at hbody
  simp only at hbody
  split at hbody
  · next hwrapped =>
    cases hbody
    rw [Bool.and_eq_true, beq_iff_eq, List.getLast?_eq_some_iff] at hwrapped
    obtain ⟨front, rfl⟩ := hwrapped.2
    have hdrop := h.of_suffix (List.drop_suffix (keyframesOpening name).length _)
    rcases Nat.lt_or_ge front.length (keyframesOpening name).length with hlength | hlength
    · rw [List.drop_of_length_le (by rw [List.length_append, List.length_singleton]; exact hlength)]
      exact tame_of_not_mem List.not_mem_nil
    · rw [List.drop_append_of_le_length hlength] at hdrop ⊢
      rw [List.dropLast_concat]
      exact hdrop.of_append (List.forall_mem_singleton.2 (by decide))
  · cases hbody

/-- The last step on a recolored body agrees with the step on the body. -/
theorem agree_finish (hf : Recoloring f) (hnamed : ∀ c, TameName c → f c = c) (prefixing : Bool)
    {body : List Char} (hbody : Tame body) :
    Agree (fun css css' => css' = css.map f) (liftCss ((CssProcessor.nesting prefixing).finish body))
      (liftCss ((CssProcessor.nesting prefixing).finish (body.map f))) := by
  cases prefixing with
  | true =>
    have hprefixed := withVendorPrefixes_map hf (hbody.normalize.keepsEscapes hnamed)
    simp only [CssProcessor.nesting, if_true, hprefixed]
    exact agree_liftCss f _
  | false => exact .ok rfl

/-- A lifted result is the result. -/
theorem eq_ok_of_liftCss {x : Except Css.Fault (List Char)} {css : List Char}
    (h : liftCss x = .ok css) : x = .ok css := by
  cases x with
  | ok css' => cases h; rfl
  | error what => cases h

/-- Flattening a recolored text. -/
theorem agree_flattenCss (hf : Recoloring f) {context css : List Char} (hcontext : '\\' ∉ context)
    (hcss : '\\' ∉ css) :
    Agree (fun flat flat' => flat' = flat.map f) (liftCss (flattenCss context css))
      (liftCss (flattenCss (context.map f) (css.map f))) := by
  have hblock : '\\' ∉ blockText context css := by simp [blockText, hcontext, hcss]
  rw [flattenCss_map hf (KeepsEscapes.of_not_mem (unescaped_normalize hblock).backslash)]
  exact agree_liftCss f _

/-- The opening under a one-letter name is ASCII. -/
theorem ascii_keyframesOpening_x : Ascii (keyframesOpening ['x']) := by
  decide

/-- A text without backslashes stays so inside of its wrapper. -/
theorem backslash_not_mem_flattenInput {text : List Char} (h : '\\' ∉ text) :
    '\\' ∉ flattenInput true ['x'] text := by
  have hopening : '\\' ∉ keyframesOpening ['x'] := by decide
  simp [flattenInput, hopening, h]

/-- Flattening a recolored animation under any name. -/
theorem agree_flattenAnimation (hf : Recoloring f) {text context name : List Char}
    (htext : '\\' ∉ text) (hcontext : '\\' ∉ context) (hplain : PlainName context)
    (hplain' : PlainName (context.map f)) (hname : isIdentifierLine name = true) :
    Agree (fun body body' => body' = body.map f) (flattenAnimation context text name)
      (flattenAnimation (context.map f) (text.map f) name) := by
  have hopening : ∀ d ∈ keyframesOpening ['x'], ∀ c, f c = d ↔ c = d := fun d hd c =>
    hf.eq_ascii_iff d (decide_eq_true (ascii_keyframesOpening_x d hd))
  have hfixed : (keyframesOpening ['x']).map f = keyframesOpening ['x'] := by
    rw [List.map_congr_left fun d hd => (hopening d hd d).2 rfl, List.map_id']
  have hinput : (flattenInput true ['x'] text).map f = flattenInput true ['x'] (text.map f) := by
    unfold flattenInput
    rw [if_pos rfl, if_pos rfl, List.map_append, List.map_append, hfixed, List.map_singleton,
      hf.fixes '}' rfl]
  have hflat := agree_flattenCss hf hcontext (backslash_not_mem_flattenInput htext)
  rw [hinput] at hflat
  have hx : Agree (fun body body' => body' = body.map f) (flattenAnimation context text ['x'])
      (flattenAnimation (context.map f) (text.map f) ['x']) := by
    refine hflat.bind fun flat _ _ hmap => ?_
    subst hmap
    exact agree_unwrapKeyframes hopening hf flat
  obtain ⟨atoms, hatoms⟩ := exists_readAs (isTitleChar_of_identifierLine hname)
  have hleft := mapError_flattenAnimation hplain text hatoms
  have hright := mapError_flattenAnimation hplain' (text.map f) hatoms
  by_cases hback : "@keyframes ".toList ++ name = animationHead atoms
  · rw [if_pos hback] at hleft hright
    exact hx.congr hleft hright
  · rw [if_neg hback] at hleft hright
    exact Agree.congr (hx.bind fun _ _ _ _ => Agree.error rfl) hleft hright

/-- The result of the first step. -/
def flattenStep (context text : List Char) (asKeyframes : Bool) (name : List Char) :
    Except CompileFault (List Char) :=
  if asKeyframes then flattenAnimation context text name else liftCss (flattenCss context text)

/-- Processing is flattening and then the last step. -/
theorem processCss_eq_bind (prefixing : Bool) (text context : List Char) (asKeyframes : Bool)
    (name : List Char) :
    processCss (.nesting prefixing) text context asKeyframes name =
      flattenStep context text asKeyframes name >>= fun body =>
        liftCss ((CssProcessor.nesting prefixing).finish body) := by
  cases asKeyframes with
  | false => rfl
  | true =>
    have hflatten : (CssProcessor.nesting prefixing).flatten = flattenCss := rfl
    unfold processCss flattenStep flattenAnimation
    rw [hflatten, if_pos rfl]
    cases liftCss (flattenCss context (flattenInput true name text)) with
    | ok flat => rfl
    | error what => rfl

/-- What the first step gives is tame, and its characters come from the selector and the text. -/
theorem of_flattenStep {text context name : List Char} (htext : '\\' ∉ text)
    (hcontext : '\\' ∉ context) (hplain : PlainName context) (hname : isIdentifierLine name = true)
    {asKeyframes : Bool} {body : List Char}
    (h : flattenStep context text asKeyframes name = .ok body) :
    Tame body ∧ ∀ c ∈ body, 0x80 ≤ c.toNat → c.toNat ≤ 0xD7FF → c ∈ context ∨ c ∈ text := by
  have hflat : ∀ {css flat : List Char}, '\\' ∉ css → flattenCss context css = .ok flat →
      Tame flat ∧ ∀ c ∈ flat, 0x80 ≤ c.toNat → c.toNat ≤ 0xD7FF → c ∈ context ∨ c ∈ css := by
    intro css flat hcss hflat
    refine ⟨tame_flattenCss hcontext hcss hflat, fun c hc hlow hhigh => ?_⟩
    have hblock : '\\' ∉ blockText context css := by simp [blockText, hcontext, hcss]
    rcases mem_of_mem_flattenCss hlow hhigh hflat hc with hc | hc | hc
    · exact .inl hc
    · exact .inr hc
    · obtain ⟨rest, hsuffix, -⟩ := exists_of_mem_namedByEscapes hc
      exact absurd (hsuffix.subset (.head _)) (unescaped_normalize hblock).backslash
  unfold flattenStep at h
  split at h
  · obtain ⟨flat, hlift, hunwrap⟩ := Except.bind_eq_ok_iff.1 (flattenAnimation_x hplain hname h)
    obtain ⟨htame, horigin⟩ := hflat (backslash_not_mem_flattenInput htext) (eq_ok_of_liftCss hlift)
    refine ⟨tame_unwrapKeyframes htame hunwrap, fun c hc hlow hhigh => ?_⟩
    rcases horigin c (mem_of_unwrapKeyframes hunwrap hc) hlow hhigh with hc | hc
    · exact .inl hc
    · unfold flattenInput at hc
      rw [if_pos rfl, List.mem_append, List.mem_append] at hc
      rcases hc with (hc | hc) | hc
      · exact absurd (ascii_keyframesOpening_x c hc) (Nat.not_lt.2 hlow)
      · exact .inr hc
      · rw [List.mem_singleton.1 hc] at hlow
        exact absurd hlow (by decide)
  · exact hflat htext (eq_ok_of_liftCss h)

/-- Processing a recolored text, if the recoloring leaves alone what a tame escape can name. -/
theorem agree_processCss (hf : Recoloring f) (hnamed : ∀ c, TameName c → f c = c)
    {text context name : List Char} (htext : '\\' ∉ text) (hcontext : '\\' ∉ context)
    (hplain : PlainName context) (hplain' : PlainName (context.map f))
    (hname : isIdentifierLine name = true) (asKeyframes prefixing : Bool) :
    Agree (fun css css' => css' = css.map f)
      (processCss (.nesting prefixing) text context asKeyframes name)
      (processCss (.nesting prefixing) (text.map f) (context.map f) asKeyframes name) := by
  have hstep : Agree (fun body body' => body' = body.map f)
      (flattenStep context text asKeyframes name)
      (flattenStep (context.map f) (text.map f) asKeyframes name) := by
    cases asKeyframes with
    | false => exact agree_flattenCss hf hcontext htext
    | true => exact agree_flattenAnimation hf htext hcontext hplain hplain' hname
  rw [processCss_eq_bind, processCss_eq_bind]
  refine hstep.bind fun body _ hbody hmap => ?_
  subst hmap
  exact agree_finish hf hnamed prefixing (of_flattenStep htext hcontext hplain hname hbody).1

/-- A character of processed CSS comes from the selector or the text, or a tame escape names it. -/
theorem mem_of_mem_processCss {c : Char} (hlow : 0x80 ≤ c.toNat) (hhigh : c.toNat ≤ 0xD7FF)
    {text context name : List Char} (htext : '\\' ∉ text) (hcontext : '\\' ∉ context)
    (hplain : PlainName context) (hname : isIdentifierLine name = true)
    {asKeyframes prefixing : Bool} {css : List Char}
    (h : processCss (.nesting prefixing) text context asKeyframes name = .ok css) (hc : c ∈ css) :
    c ∈ context ∨ c ∈ text ∨ TameName c := by
  rw [processCss_eq_bind] at h
  obtain ⟨body, hbody, h⟩ := Except.bind_eq_ok_iff.1 h
  obtain ⟨htame, horigin⟩ := of_flattenStep htext hcontext hplain hname hbody
  have hfinished : c ∈ body ∨ TameName c := by
    cases prefixing with
    | false =>
      cases h
      exact .inl hc
    | true =>
      rcases mem_of_mem_withVendorPrefixes hlow hhigh (eq_ok_of_liftCss h) hc with hc | hc
      · exact .inl hc
      · obtain ⟨rest, hsuffix, hspan, rfl⟩ := exists_of_mem_namedByEscapes hc
        exact .inr (htame.normalize.tameName hsuffix hspan)
  rcases hfinished with hc | hc
  · exact (horigin c hc hlow hhigh).imp_right .inl
  · exact .inr (.inr hc)

end Processing

/-! ## Encoding -/

/-- Only segments without foreign values can be joined. -/
theorem Markers.proper_of_join {m : Markers} {segments : List Segment} {encoded : Encoded}
    (h : m.join segments = .ok encoded) : Proper segments := by
  induction segments generalizing m encoded with
  | nil => exact fun _ => List.not_mem_nil
  | cons segment segments ih =>
    have hcons : Proper segments → (∀ value, segment ≠ .foreign value) →
        Proper (segment :: segments) := by
      intro hproper hfirst value hmem
      rcases List.mem_cons.1 hmem with heq | hmem
      · exact hfirst value heq.symm
      · exact hproper value hmem
    cases segment with
    | literal text =>
      obtain ⟨joined, hjoin, -⟩ := Except.bind_eq_ok_iff.1 h
      exact hcons (ih hjoin) nofun
    | expression e =>
      obtain ⟨⟨marker, next⟩, -, h⟩ := Except.bind_eq_ok_iff.1 h
      obtain ⟨joined, hjoin, -⟩ := Except.bind_eq_ok_iff.1 h
      exact hcons (ih hjoin) nofun
    | foreign value => cases h

/-- A compilation from the results of its stages. -/
theorem Compiler.compile_of_stages {compiler : Compiler} {template : Node} {asKeyframes : Bool}
    {segments : List Segment} {encoded : Encoded} {css : List Char} {blocks : List (List Char)}
    {output : Output} (hencode : compiler.encode template = .ok (segments, encoded))
    (hprocess : compiler.process encoded asKeyframes = .ok css)
    (hassemble : compiler.assemble encoded.markers css asKeyframes = .ok (blocks, output)) :
    compiler.compile template asKeyframes =
      .ok ⟨segments, encoded, css, blocks, output, asKeyframes⟩ := by
  rw [Compiler.compile, hencode, Except.bind_ok]
  simp only [hprocess, Except.bind_ok, hassemble]

/-- What is known of a template that has been encoded. -/
theorem Compiler.of_encode {config : Config} {template : Node} {segments : List Segment}
    {encoded : Encoded} (h : (Compiler.ofConfig config).encode template = .ok (segments, encoded)) :
    template.segments = .ok segments ∧
      config.markerBase + (segmentExpressions segments).length < firstSurrogate ∧
      (Markers.mk config.markerBase (segmentExpressions segments)).Unreserved segments ∧
      encoded = ⟨spelled (config.markerBase + 1) segments,
        ⟨config.markerBase, segmentExpressions segments⟩⟩ := by
  have hbase : config.markerBase < firstSurrogate :=
    Nat.lt_trans config.base_lt (by decide)
  unfold Compiler.encode at h
  cases hfound : template.segments with
  | error what =>
    rw [hfound] at h
    cases h
  | ok found =>
    rw [hfound] at h
    simp only [Except.bind_ok] at h
    split at h
    · next result hencode =>
      cases h
      obtain ⟨joined, hjoin, -⟩ := Except.bind_eq_ok_iff.1 hencode
      have hsize : config.markerBase + ({ base := config.markerBase } : Markers).size <
          firstSurrogate := hbase
      obtain ⟨hroom, hfree, hencoded⟩ :=
        (Markers.encode_eq_ok_iff hsize (Markers.proper_of_join hjoin)).1 hencode
      exact ⟨rfl, hroom, hfree, hencoded⟩
    · cases h

/-- A character of a spelled template is of one of its literals or one of its markers. -/
theorem mem_spelled {c : Char} {code : Nat} {segments : List Segment} (h : c ∈ spelled code segments) :
    (∃ text, Segment.literal text ∈ segments ∧ c ∈ text) ∨
      ∃ k, k < (segmentExpressions segments).length ∧ c = Char.ofNat (code + k) := by
  induction segments generalizing code with
  | nil => cases h
  | cons segment segments ih =>
    cases segment with
    | literal text =>
      rcases List.mem_append.1 h with h | h
      · exact .inl ⟨text, .head _, h⟩
      · rcases ih h with ⟨text, hmem, h⟩ | h
        · exact .inl ⟨text, .tail _ hmem, h⟩
        · exact .inr h
    | expression e =>
      rcases List.mem_cons.1 h with rfl | h
      · exact .inr ⟨0, by simp [segmentExpressions], rfl⟩
      · rcases ih h with ⟨text, hmem, h⟩ | ⟨k, hk, h⟩
        · exact .inl ⟨text, .tail _ hmem, h⟩
        · refine .inr ⟨k + 1, ?_, ?_⟩
          · simpa [segmentExpressions] using hk
          · rw [h]
            congr 1
            omega
    | foreign value =>
      rcases ih h with ⟨text, hmem, h⟩ | h
      · exact .inl ⟨text, .tail _ hmem, h⟩
      · exact .inr h

/-! ## Compilations -/

/-- Two configurations that differ in the base of the markers at most. -/
structure Config.SameButBase (config config' : Config) : Prop where
  classParameter : config'.classParameter = config.classParameter
  slotStem : config'.slotStem = config.slotStem
  animationName : config'.animationName = config.animationName
  prefixing : config'.prefixing = config.prefixing

/-- Markers that trimming keeps and that no escape of a tame text names. -/
structure Markers.Inert (m : Markers) : Prop where
  notBlank : ∀ c, m.contains c = true → isBlank c = false
  notNamed : ∀ c, m.contains c = true → ¬Css.TameName c

/-- Assembling recolored text with the other markers agrees with assembling the text. -/
theorem agree_assemble {f : Char → Char} {m m' : Markers} (hf : Rebasing f m m')
    (hocc : m'.occurrences = m.occurrences) {config config' : Config}
    (hsame : config.SameButBase config') (asKeyframes : Bool) {css : List Char}
    (hclean : Clean m m' css) :
    Agree (fun a b => b.2 = a.2) ((Compiler.ofConfig config).assemble m css asKeyframes)
      ((Compiler.ofConfig config').assemble m' (css.map f) asKeyframes) := by
  unfold Compiler.assemble
  rcases splitBlocks_map hf.recoloring css asKeyframes with
    ⟨blocks, hblocks, hblocks'⟩ | ⟨what, what', hwhat, hwhat'⟩
  · have hbuild := buildOutput_rebase hf hsame.classParameter hsame.slotStem hocc asKeyframes
      (hclean.of_splitBlocks hblocks)
    simp only [hblocks, hblocks', Except.bind_ok, Compiler.ofConfig, hbuild]
    cases buildOutput config m asKeyframes blocks with
    | ok output => exact .ok rfl
    | error what => exact .error rfl
  · simp only [hwhat, hwhat', Except.bind_error]
    exact .error rfl

/-- The class marker is read as a name. -/
theorem plainName_class {base : Nat} (hbase : 0x80 ≤ base) (hbound : base < firstSurrogate) :
    Css.PlainName [Char.ofNat base] := by
  have hcode : 0x80 ≤ (Char.ofNat base).toNat := by
    rw [Markers.toNat_ofNat hbound]
    exact hbase
  exact ⟨Css.startsName_of_nonAscii hcode,
    List.forall_mem_singleton.2 (Css.isNameChar_of_nonAscii hcode)⟩

section

variable {base base' : Nat} {segments : List Segment}

/-- The encoded text and the class marker hold no backslash if the literals hold none. -/
theorem backslash_not_mem_spelled (hbase : 0x80 ≤ base)
    (hroom : base + (segmentExpressions segments).length < firstSurrogate)
    (hliterals : ∀ text, Segment.literal text ∈ segments → '\\' ∉ text) :
    '\\' ∉ spelled (base + 1) segments ∧ '\\' ∉ [Char.ofNat base] := by
  have hmarker : ∀ k ≤ (segmentExpressions segments).length, '\\' ≠ Char.ofNat (base + k) := by
    intro k hk heq
    have hcode : (Char.ofNat (base + k)).toNat = base + k := Markers.toNat_ofNat (by omega)
    have hbackslash : '\\'.toNat = 0x5C := rfl
    rw [← heq] at hcode
    omega
  constructor
  · intro hmem
    rcases mem_spelled hmem with ⟨text, htext, hmem⟩ | ⟨k, hk, heq⟩
    · exact hliterals text htext hmem
    · refine hmarker (k + 1) hk (heq.trans ?_)
      congr 1
      omega
  · intro hmem
    exact hmarker 0 (Nat.zero_le _) (List.mem_singleton.1 hmem)

/-- Among the characters of the encoded text and the class marker, those that are no markers are no
markers at another base either. -/
theorem clean_spelled (hroom : base + (segmentExpressions segments).length < firstSurrogate)
    {m' : Markers} (hfree' : m'.Unreserved segments) :
    Clean ⟨base, segmentExpressions segments⟩ m' (Char.ofNat base :: spelled (base + 1) segments) := by
  have hmarker : ∀ k ≤ (segmentExpressions segments).length,
      (Markers.mk base (segmentExpressions segments)).contains (Char.ofNat (base + k)) = true := by
    intro k hk
    rw [Markers.contains_iff, Markers.toNat_ofNat (by omega)]
    simp only [Markers.size]
    omega
  intro c hc hno
  rcases List.mem_cons.1 hc with rfl | hc
  · have hclass := hmarker 0 (Nat.zero_le _)
    rw [Nat.add_zero, hno] at hclass
    cases hclass
  · rcases mem_spelled hc with ⟨text, htext, hc⟩ | ⟨k, hk, rfl⟩
    · exact hfree' text htext c hc
    · have hoccurrence := hmarker (k + 1) hk
      rw [Nat.add_comm k 1, ← Nat.add_assoc, hno] at hoccurrence
      cases hoccurrence

/-- Moving the markers of an encoded template to another base. -/
theorem exists_rebasing (hbase : 0x80 ≤ base) (hbase' : 0x80 ≤ base')
    (hroom : base + (segmentExpressions segments).length < firstSurrogate)
    (hroom' : base' + (segmentExpressions segments).length < firstSurrogate)
    (hinert : (Markers.mk base (segmentExpressions segments)).Inert)
    (hinert' : (Markers.mk base' (segmentExpressions segments)).Inert)
    (hfree : (Markers.mk base (segmentExpressions segments)).Unreserved segments) :
    ∃ f, Rebasing f ⟨base, segmentExpressions segments⟩ ⟨base', segmentExpressions segments⟩ ∧
      (spelled (base + 1) segments).map f = spelled (base' + 1) segments ∧
      f (Char.ofNat base) = Char.ofNat base' := by
  refine ⟨_, Markers.rebasing_rebase hbase hbase' hroom hroom' hinert.notBlank hinert'.notBlank,
    Markers.spelled_map_rebase (k := 0) hroom (Nat.le_of_eq (Nat.zero_add _)) hfree, ?_⟩
  have hcode : (Char.ofNat base).toNat = base := Markers.toNat_ofNat (by omega)
  have hclass : (Markers.mk base (segmentExpressions segments)).isClass (Char.ofNat base) = true :=
    Markers.isClass_iff.2 hcode
  rw [Markers.rebase, if_pos (Markers.contains_of_isClass hclass), hcode, Nat.sub_self, Nat.add_zero]

/-- In processed CSS, what is no marker is none at another base either. -/
theorem clean_processCss (hbase : 0x80 ≤ base) (hbase' : 0x80 ≤ base')
    (hroom : base + (segmentExpressions segments).length < firstSurrogate)
    (hroom' : base' + (segmentExpressions segments).length < firstSurrogate)
    (hinert' : (Markers.mk base' (segmentExpressions segments)).Inert)
    (hfree' : (Markers.mk base' (segmentExpressions segments)).Unreserved segments)
    (hliterals : ∀ text, Segment.literal text ∈ segments → '\\' ∉ text) {name : List Char}
    (hname : isIdentifierLine name = true) {asKeyframes prefixing : Bool}
    {css : List Char} (hcss : processCss (.nesting prefixing) (spelled (base + 1) segments)
      [Char.ofNat base] asKeyframes name = .ok css) :
    Clean ⟨base, segmentExpressions segments⟩ ⟨base', segmentExpressions segments⟩ css := by
  intro c hc hno
  refine Bool.eq_false_iff.2 fun hyes => ?_
  obtain ⟨hcode, hcode'⟩ := Markers.contains_iff.1 hyes
  simp only [Markers.size] at hcode hcode'
  have hlow : 0x80 ≤ c.toNat := Nat.le_trans hbase' hcode
  have hhigh : c.toNat ≤ 0xD7FF := by
    simp only [firstSurrogate] at hroom'
    omega
  obtain ⟨htext, hclass⟩ := backslash_not_mem_spelled hbase hroom hliterals
  have hclean := clean_spelled hroom hfree'
  have hplain := plainName_class hbase (Nat.lt_of_le_of_lt (Nat.le_add_right _ _) hroom)
  rcases mem_of_mem_processCss hlow hhigh htext hclass hplain hname hcss hc with hc | hc | hc
  · rw [hclean c (List.mem_singleton.1 hc ▸ .head _) hno] at hyes
    cases hyes
  · rw [hclean c (.tail _ hc) hno] at hyes
    cases hyes
  · exact hinert'.notNamed c hyes hc

end

/-- The base of the markers is not seen in the output. -/
theorem compile_rebase {config config' : Config} (hsame : config.SameButBase config')
    {template : Node} {segments segments' : List Segment} {encoded encoded' : Encoded}
    (hencode : (Compiler.ofConfig config).encode template = .ok (segments, encoded))
    (hencode' : (Compiler.ofConfig config').encode template = .ok (segments', encoded'))
    (hliterals : ∀ text, Segment.literal text ∈ segments → '\\' ∉ text)
    (hinert : encoded.markers.Inert) (hinert' : encoded'.markers.Inert) (asKeyframes : Bool) :
    Agree (fun a b => b.output = a.output)
      ((Compiler.ofConfig config).compile template asKeyframes)
      ((Compiler.ofConfig config').compile template asKeyframes) := by
  obtain ⟨hsegments, hroom, hfree, rfl⟩ := Compiler.of_encode hencode
  obtain ⟨hsegments', hroom', hfree', rfl⟩ := Compiler.of_encode hencode'
  rw [hsegments] at hsegments'
  cases hsegments'
  have hlow : 0x80 ≤ config.markerBase := config.base_ge
  have hlow' : 0x80 ≤ config'.markerBase := config'.base_ge
  obtain ⟨htext, hclass⟩ := backslash_not_mem_spelled hlow hroom hliterals
  obtain ⟨f, hf, hspelled, hclassMap⟩ :=
    exists_rebasing hlow hlow' hroom hroom' hinert hinert' hfree
  have hnamed : ∀ c, Css.TameName c → f c = c := fun c hc =>
    hf.fixes c (Bool.eq_false_iff.2 fun hcontains => hinert.notNamed c hcontains hc)
  have hplain := plainName_class hlow (Nat.lt_of_le_of_lt (Nat.le_add_right _ _) hroom)
  have hplain' := plainName_class hlow' (Nat.lt_of_le_of_lt (Nat.le_add_right _ _) hroom')
  rw [← hclassMap] at hplain'
  have hprocess := agree_processCss hf.recoloring hnamed htext hclass hplain hplain'
    config.animationName_name asKeyframes config.prefixing
  rw [hspelled, List.map_singleton, hclassMap] at hprocess
  unfold Compiler.compile
  rw [hencode, hencode']
  simp only [Except.bind_ok, Compiler.process, Compiler.ofConfig, hsame.prefixing,
    hsame.animationName]
  refine hprocess.bind fun css _ hcss hmap => ?_
  subst hmap
  have hclean := clean_processCss hlow hlow' hroom hroom' hinert' hfree' hliterals
    config.animationName_name hcss
  exact (agree_assemble hf rfl hsame asKeyframes hclean).bind fun _ _ _ h => .ok h

/-- The markers from the default base on, if there are not too many of them. -/
theorem Markers.inert_of_lt {m : Markers} (hlow : 0xA1 ≤ m.base) (hhigh : m.base + m.size < 0x650) :
    m.Inert := by
  refine ⟨fun c hc => ?_, fun c hc => ?_⟩
  · obtain ⟨hge, hle⟩ := Markers.contains_iff.1 hc
    simp [isBlank]
    omega
  · obtain ⟨hge, hle⟩ := Markers.contains_iff.1 hc
    simp only [Css.TameName]
    omega

/-- The body of an animation whose name holds a marker of the other base. -/
theorem compile_rebase_keyframes :
    Agree (fun a b => b.output = a.output)
      ((Compiler.ofConfig { Config.default with
          animationName := ['a', 'α'], animationName_name := by decide +kernel }).compile
        (.template (.text "to\x7bwidth:".toList) [.span ⟨['x'], by decide⟩ (.text ['}'])]) true)
      ((Compiler.ofConfig { Config.default with
          animationName := ['a', 'α'], animationName_name := by decide +kernel,
          markerBase := 945, base_ge := by decide, base_lt := by decide }).compile
        (.template (.text "to\x7bwidth:".toList) [.span ⟨['x'], by decide⟩ (.text ['}'])]) true) := by
  have hencode : (Compiler.ofConfig { Config.default with
        animationName := ['a', 'α'], animationName_name := by decide +kernel }).encode
      (.template (.text "to\x7bwidth:".toList) [.span ⟨['x'], by decide⟩ (.text ['}'])]) =
      .ok ([.literal "to\x7bwidth:".toList, .expression ⟨['x'], by decide⟩, .literal ['}']],
        ⟨"to\x7bwidth:ç\x7d".toList, ⟨230, [⟨['x'], by decide⟩]⟩⟩) := by cbv
  have hencode' : (Compiler.ofConfig { Config.default with
        animationName := ['a', 'α'], animationName_name := by decide +kernel,
        markerBase := 945, base_ge := by decide, base_lt := by decide }).encode
      (.template (.text "to\x7bwidth:".toList) [.span ⟨['x'], by decide⟩ (.text ['}'])]) =
      .ok ([.literal "to\x7bwidth:".toList, .expression ⟨['x'], by decide⟩, .literal ['}']],
        ⟨"to\x7bwidth:β\x7d".toList, ⟨945, [⟨['x'], by decide⟩]⟩⟩) := by cbv
  refine compile_rebase ?_ hencode hencode' (fun text htext => ?_)
    (Markers.inert_of_lt (by decide) (by decide)) (Markers.inert_of_lt (by decide) (by decide)) true
  · exact ⟨rfl, rfl, rfl, rfl⟩
  · simp only [List.mem_cons, Segment.literal.injEq, reduceCtorEq, List.not_mem_nil, or_false,
      false_or] at htext
    rcases htext with rfl | rfl <;> decide

/-- A class marker that is blank is trimmed off, and the rule no longer starts with the class name. -/
theorem compile_blank_base :
    ((Compiler.ofConfig Config.default).encode (.template (.text "color:red".toList) [])).isOk = true ∧
      ((Compiler.ofConfig { Config.default with
          markerBase := 8192, base_ge := by decide, base_lt := by decide }).encode
        (.template (.text "color:red".toList) [])).isOk = true ∧
      ((Compiler.ofConfig Config.default).compile (.template (.text "color:red".toList) []) false).map
        (·.output.shape) = .ok .singleCollapsed ∧
      ((Compiler.ofConfig { Config.default with
          markerBase := 8192, base_ge := by decide, base_lt := by decide }).compile
        (.template (.text "color:red".toList) []) false).map (·.output.shape) = .ok .functional := by
  refine ⟨?_, ?_, ?_, ?_⟩ <;> cbv

end CssTemplate
