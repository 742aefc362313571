import CssTemplate.Proofs.Css.RecoloredRules
import CssTemplate.Proofs.Marker.RoundTrip

/-!
# Where the characters of processed CSS come from

A character outside ASCII in flattened or prefixed CSS was there before, or a numeric escape of the
text that was read names it. The argument is by recoloring: were the character neither written nor
named, then exchanging it for another one would leave the input as it is, and so the output too.

`namedByEscapes` is an upper bound of what escapes can bring in: it also counts the digits behind a
backslash that is itself escaped, and escapes in a place where nothing is decoded. A marker of an encoded
template that is not in it stands in the output only for its expression (`origin_of_processed`): no
literal holds the marker, and another character in the place of the expression takes the place of the
marker everywhere in the output.
-/

namespace CssTemplate.Css

/-! ## Named characters -/

/-- The characters that numeric escapes of a text can name: those of the digits behind any backslash. -/
def namedByEscapes : List Char → List Char
  | [] => []
  | c :: rest =>
    if c = '\\' ∧ (spanHex 6 rest).1 ≠ [] then (readEscape rest).1 :: namedByEscapes rest
    else namedByEscapes rest

/-- The digits behind a backslash count, wherever it stands. -/
theorem mem_namedByEscapes {text rest : List Char} (hsuffix : '\\' :: rest <:+ text)
    (hdigits : (spanHex 6 rest).1 ≠ []) : (readEscape rest).1 ∈ namedByEscapes text := by
  induction text with
  | nil => simp at hsuffix
  | cons c text ih =>
    rw [namedByEscapes]
    rcases List.suffix_cons_iff.1 hsuffix with heq | hsuffix
    · cases heq
      rw [if_pos ⟨rfl, hdigits⟩]
      exact .head _
    · split
      · exact .tail _ (ih hsuffix)
      · exact ih hsuffix

/-- Only digits behind a backslash count. -/
theorem exists_of_mem_namedByEscapes {text : List Char} {c : Char} (h : c ∈ namedByEscapes text) :
    ∃ rest, '\\' :: rest <:+ text ∧ (spanHex 6 rest).1 ≠ [] ∧ (readEscape rest).1 = c := by
  induction text with
  | nil => cases h
  | cons d text ih =>
    have hrest : c ∈ namedByEscapes text →
        ∃ rest, '\\' :: rest <:+ d :: text ∧ (spanHex 6 rest).1 ≠ [] ∧ (readEscape rest).1 = c := by
      intro h
      obtain ⟨rest, hsuffix, hnamed⟩ := ih h
      exact ⟨rest, hsuffix.trans (List.suffix_cons d text), hnamed⟩
    rw [namedByEscapes] at h
    split at h
    · next hescape =>
      rcases List.mem_cons.1 h with rfl | h
      · exact ⟨text, hescape.1 ▸ List.suffix_rfl, hescape.2, rfl⟩
      · exact hrest h
    · exact hrest h

/-- A change that fixes what escapes can name keeps the escapes. -/
theorem KeepsEscapes.of_named {f : Char → Char} {text : List Char}
    (h : ∀ c ∈ namedByEscapes text, f c = c) : KeepsEscapes f text :=
  fun _ hsuffix hdigits => h _ (mem_namedByEscapes hsuffix hdigits)

/-! ## Exchanging one character -/

/-- One character exchanged for another. -/
def exchange (m other c : Char) : Char :=
  if c = m then other else c

/-- Any other character stays as it is. -/
theorem exchange_of_ne {m other c : Char} (h : c ≠ m) : exchange m other c = c :=
  if_neg h

/-- Another character outside ASCII that is blank if and only if the given one is. -/
def lookalike (m : Char) : Char :=
  if isBlank m then (if m = '\u2028' then '\u2029' else '\u2028')
  else (if m = 'é' then 'è' else 'é')

/-- A character is not its own lookalike. -/
theorem lookalike_ne (m : Char) : lookalike m ≠ m := by
  unfold lookalike
  split <;> split
  · next h => rw [h]; decide
  · next h => exact Ne.symm h
  · next h => rw [h]; decide
  · next h => exact Ne.symm h

/-- A lookalike is outside ASCII. -/
theorem nonAscii_lookalike (m : Char) : 0x80 ≤ (lookalike m).toNat := by
  unfold lookalike
  split <;> split <;> decide

/-- A lookalike is blank exactly when the character is. -/
theorem isBlank_lookalike (m : Char) : isBlank (lookalike m) = isBlank m := by
  unfold lookalike
  split
  · next h => rw [h]; split <;> decide
  · next h => rw [Bool.not_eq_true] at h; rw [h]; split <;> decide

/-- Exchanging a character outside ASCII for one like it is a recoloring. -/
theorem recoloring_exchange {m other : Char} (hlow : 0x80 ≤ m.toNat) (hhigh : m.toNat ≤ 0xD7FF)
    (hother : 0x80 ≤ other.toNat) (hblank : isBlank other = isBlank m) :
    Recoloring (exchange m other) where
  ascii c hc := if_neg fun h => by rw [h] at hc; omega
  nonAscii c hc := by
    unfold exchange
    split
    · exact hother
    · exact hc
  blank c := by
    unfold exchange
    split
    · next h => rw [h, hblank]
    · rfl
  replacement := if_neg fun h => by
    have : replacement.toNat = 0xFFFD := by decide
    rw [h] at this
    omega

/-- A text without the character stays as it is. -/
theorem exchange_map_of_not_mem {m other : Char} {text : List Char} (h : m ∉ text) :
    text.map (exchange m other) = text := by
  have hfixed : ∀ c ∈ text, exchange m other c = c :=
    fun c hc => exchange_of_ne (ne_of_mem_of_not_mem hc h)
  rw [List.map_congr_left hfixed, List.map_id']

/-- A text that stays as it is does not hold the character. -/
theorem not_mem_of_exchange_map {m other : Char} (hne : other ≠ m) {text : List Char}
    (h : text.map (exchange m other) = text) : m ∉ text := by
  intro hmem
  have hfixed : ∀ c ∈ text, exchange m other c = id c :=
    List.map_inj_left.1 (h.trans (List.map_id text).symm)
  exact hne (by simpa [exchange] using hfixed m hmem)

/-! ## The two steps -/

/-- Exchanging a character that no escape can name keeps the escapes. -/
theorem keepsEscapes_exchange {m other : Char} {text : List Char} (h : m ∉ namedByEscapes text) :
    KeepsEscapes (exchange m other) text :=
  KeepsEscapes.of_named fun _ hc => exchange_of_ne (ne_of_mem_of_not_mem hc h)

section

variable {m : Char} (hlow : 0x80 ≤ m.toNat) (hhigh : m.toNat ≤ 0xD7FF)

include hlow hhigh

/-- Exchanging a character that no escape names for one like it commutes with flattening. -/
theorem flattenCss_exchange {other : Char} (hother : 0x80 ≤ other.toNat)
    (hblank : isBlank other = isBlank m) {context css flat : List Char}
    (hnamed : m ∉ namedByEscapes (normalize (blockText context css)))
    (h : flattenCss context css = .ok flat) :
    flattenCss (context.map (exchange m other)) (css.map (exchange m other)) =
      .ok (flat.map (exchange m other)) := by
  rw [flattenCss_map (recoloring_exchange hlow hhigh hother hblank) (keepsEscapes_exchange hnamed), h,
    mapResult_ok]

/-- Exchanging a character that no escape names for one like it commutes with prefixing. -/
theorem withVendorPrefixes_exchange {other : Char} (hother : 0x80 ≤ other.toNat)
    (hblank : isBlank other = isBlank m) {css out : List Char} (hnamed : m ∉ namedByEscapes (normalize css))
    (h : withVendorPrefixes css = .ok out) :
    withVendorPrefixes (css.map (exchange m other)) = .ok (out.map (exchange m other)) := by
  rw [withVendorPrefixes_map (recoloring_exchange hlow hhigh hother hblank) (keepsEscapes_exchange hnamed),
    h, mapResult_ok]

/-- A character of flattened CSS was in the selector or in the template, or an escape names it. -/
theorem mem_of_mem_flattenCss {context css flat : List Char} (h : flattenCss context css = .ok flat)
    (hm : m ∈ flat) :
    m ∈ context ∨ m ∈ css ∨ m ∈ namedByEscapes (normalize (blockText context css)) := by
  refine Classical.byContradiction fun hnone => ?_
  obtain ⟨hcontext, hcss, hnamed⟩ : m ∉ context ∧ m ∉ css ∧
      m ∉ namedByEscapes (normalize (blockText context css)) := by
    simpa only [not_or] using hnone
  have hmap := flattenCss_exchange hlow hhigh (nonAscii_lookalike m) (isBlank_lookalike m) hnamed h
  rw [exchange_map_of_not_mem hcontext, exchange_map_of_not_mem hcss, h] at hmap
  exact not_mem_of_exchange_map (lookalike_ne m) (Except.ok.inj hmap).symm hm

/-- A character of prefixed CSS was there before, or an escape names it. -/
theorem mem_of_mem_withVendorPrefixes {css out : List Char} (h : withVendorPrefixes css = .ok out)
    (hm : m ∈ out) : m ∈ css ∨ m ∈ namedByEscapes (normalize css) := by
  refine Classical.byContradiction fun hnone => ?_
  obtain ⟨hcss, hnamed⟩ : m ∉ css ∧ m ∉ namedByEscapes (normalize css) := by
    simpa only [not_or] using hnone
  have hmap :=
    withVendorPrefixes_exchange hlow hhigh (nonAscii_lookalike m) (isBlank_lookalike m) hnamed h
  rw [exchange_map_of_not_mem hcss, h] at hmap
  exact not_mem_of_exchange_map (lookalike_ne m) (Except.ok.inj hmap).symm hm

end

/-- Neither step makes up a character: outside ASCII, a character of their output was in the
selector or in the template, or a numeric escape that one of the steps read can name it. If the template
is encoded and the character is one of its markers, no literal holds it; and if no escape can name it
either, any other character of its kind that is put in the place of its expression stands in its place in
the output, so each of the places where it stands there comes from the expression. -/
theorem origin_of_processed {m : Char} (hlow : 0x80 ≤ m.toNat) (hhigh : m.toNat ≤ 0xD7FF)
    {context css flat : List Char} (hflat : flattenCss context css = .ok flat) :
    (m ∈ flat → m ∈ context ∨ m ∈ css ∨ m ∈ namedByEscapes (normalize (blockText context css))) ∧
      (∀ out, withVendorPrefixes flat = .ok out → m ∈ out →
        m ∈ context ∨ m ∈ css ∨ m ∈ namedByEscapes (normalize (blockText context css)) ∨
          m ∈ namedByEscapes (normalize flat)) ∧
      ∀ (markers : Markers) (segments : List Segment) (encoded : Encoded),
        markers.encode segments = .ok encoded → encoded.text = css →
        encoded.markers.contains m = true →
        (∀ text, Segment.literal text ∈ segments → m ∉ text) ∧
        (m ∉ namedByEscapes (normalize (blockText context css)) → ∀ other : Char,
          0x80 ≤ other.toNat → isBlank other = isBlank m →
          flattenCss (context.map (exchange m other)) (css.map (exchange m other)) =
              .ok (flat.map (exchange m other)) ∧
            (m ∉ namedByEscapes (normalize flat) → ∀ out, withVendorPrefixes flat = .ok out →
              withVendorPrefixes (flat.map (exchange m other)) = .ok (out.map (exchange m other)))) := by
  refine ⟨mem_of_mem_flattenCss hlow hhigh hflat, fun out hout hm => ?_,
    fun markers segments encoded hencode _ hmarker => ⟨fun text htext hm => ?_,
      fun hnamed other hother hblank => ⟨?_, fun hnamed' out hout => ?_⟩⟩⟩
  · rcases mem_of_mem_withVendorPrefixes hlow hhigh hout hm with hm | hm
    · rcases mem_of_mem_flattenCss hlow hhigh hflat hm with h | h | h
      · exact .inl h
      · exact .inr (.inl h)
      · exact .inr (.inr (.inl h))
    · exact .inr (.inr (.inr hm))
  · have hfree := Markers.unreserved_of_encode hencode text htext m hm
    rw [hmarker] at hfree
    cases hfree
  · exact flattenCss_exchange hlow hhigh hother hblank hnamed hflat
  · exact withVendorPrefixes_exchange hlow hhigh hother hblank hnamed' hout

/-- A character that only an escape names, and a marker that stands for its expression beside it. -/
theorem origin_of_processed_escape :
    flattenCss ['ç'] "content:\"\\e9 \";color:è".toList = .ok "ç\x7bcontent:\"é\";color:è;\x7d".toList ∧
      'é' ∈ "ç\x7bcontent:\"é\";color:è;\x7d".toList ∧
      ('é' ∈ ['ç'] ∨ 'é' ∈ "content:\"\\e9 \";color:è".toList ∨
        'é' ∈ namedByEscapes (normalize (blockText ['ç'] "content:\"\\e9 \";color:è".toList))) ∧
      Markers.encode { base := 0xE7 }
          [.literal "content:\"\\e9 \";color:".toList, .expression ⟨['x'], rfl⟩] =
        .ok ⟨"content:\"\\e9 \";color:è".toList, ⟨0xE7, [⟨['x'], rfl⟩]⟩⟩ ∧
      flattenCss ['ç'] "content:\"\\e9 \";color:ê".toList = .ok "ç\x7bcontent:\"é\";color:ê;\x7d".toList := by
  have hflat : flattenCss ['ç'] "content:\"\\e9 \";color:è".toList =
      .ok "ç\x7bcontent:\"é\";color:è;\x7d".toList := by cbv
  have hencode : Markers.encode { base := 0xE7 }
      [.literal "content:\"\\e9 \";color:".toList, .expression ⟨['x'], rfl⟩] =
        .ok ⟨"content:\"\\e9 \";color:è".toList, ⟨0xE7, [⟨['x'], rfl⟩]⟩⟩ := by cbv
  obtain ⟨-, hmarker⟩ := (origin_of_processed (m := 'è') (by decide) (by decide) hflat).2.2 _ _ _ hencode
    rfl (by decide)
  exact ⟨hflat, by decide, (origin_of_processed (by decide) (by decide) hflat).1 (by decide), hencode,
    (hmarker (by decide) 'ê' (by decide) (by decide)).1⟩

/-- A numeric escape puts a character into the output that neither the selector nor the template
holds. -/
theorem flattenCss_decodes_escape :
    'æ' ∉ ['.', 'a'] ∧ 'æ' ∉ "content:\"\\e6 \"".toList ∧
      flattenCss ['.', 'a'] "content:\"\\e6 \"".toList = .ok ".a\x7bcontent:\"æ\";\x7d".toList ∧
      'æ' ∈ ".a\x7bcontent:\"æ\";\x7d".toList := by
  refine ⟨by decide, by decide, ?_, by decide⟩
  cbv

end CssTemplate.Css
