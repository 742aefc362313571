import CssTemplate.Proofs.Css.Recoloring
import CssTemplate.Proofs.Marker.RoundTrip

/-!
# Markers at another base

The same occurrences can have their markers anywhere above ASCII. `Markers.rebase` moves the markers
of a table to another base and leaves every other character alone. If no marker is blank on either
side, this is a recoloring (`rebasing_rebase`), it keeps what the markers stand for, and it takes the
encoding of a template at one base to its encoding at the other (`spelled_map_rebase`).
-/

namespace CssTemplate

/-- A change of characters that takes the markers of one table to those of another and leaves all
other characters as they are. -/
structure Rebasing (f : Char → Char) (m m' : Markers) : Prop where
  recoloring : Css.Recoloring f
  fixes : ∀ c, m.contains c = false → f c = c
  isClass : ∀ c, m.contains c = true → m'.isClass (f c) = m.isClass c
  occurrence? : ∀ c, m.contains c = true → m'.occurrence? (f c) = m.occurrence? c
  injective : ∀ c d, m.contains c = true → m.contains d = true → f c = f d → c = d

namespace Markers

/-- A marker moved to another base; other characters stay. -/
def rebase (m : Markers) (base : Nat) (c : Char) : Char :=
  if m.contains c then Char.ofNat (base + (c.toNat - m.base)) else c

section

variable {base base' : Nat} {es : List Expression}

/-- A marker keeps its distance from the base. -/
theorem toNat_rebase {c : Char} (hroom : base' + es.length < firstSurrogate)
    (hc : (Markers.mk base es).contains c = true) :
    ((Markers.mk base es).rebase base' c).toNat = base' + (c.toNat - base) := by
  obtain ⟨hlow, hhigh⟩ := contains_iff.1 hc
  rw [rebase, if_pos hc, toNat_ofNat]
  simp only [size] at hlow hhigh ⊢
  omega

/-- A marker moves to the marker of the same occurrence. -/
theorem contains_rebase {c : Char} (hroom : base' + es.length < firstSurrogate)
    (hc : (Markers.mk base es).contains c = true) :
    (Markers.mk base' es).contains ((Markers.mk base es).rebase base' c) = true := by
  obtain ⟨hlow, hhigh⟩ := contains_iff.1 hc
  rw [contains_iff, toNat_rebase hroom hc]
  simp only [size] at hlow hhigh ⊢
  omega

/-- Moving the markers to another base is a rebasing, if both ranges have room and no marker is
blank. -/
theorem rebasing_rebase (hlow : 0x80 ≤ base) (hlow' : 0x80 ≤ base')
    (hroom : base + es.length < firstSurrogate) (hroom' : base' + es.length < firstSurrogate)
    (hblank : ∀ c, (Markers.mk base es).contains c = true → isBlank c = false)
    (hblank' : ∀ c, (Markers.mk base' es).contains c = true → isBlank c = false) :
    Rebasing ((Markers.mk base es).rebase base') ⟨base, es⟩ ⟨base', es⟩ where
  recoloring := {
    ascii := fun c hc => if_neg (by rw [not_contains_of_lt hlow hc]; decide)
    nonAscii := by
      intro c hc
      cases hcontains : (Markers.mk base es).contains c with
      | true => rw [toNat_rebase hroom' hcontains]; omega
      | false => rwa [rebase, hcontains, if_neg Bool.false_ne_true]
    blank := by
      intro c
      cases hcontains : (Markers.mk base es).contains c with
      | true => rw [hblank c hcontains, hblank' _ (contains_rebase hroom' hcontains)]
      | false => rw [rebase, hcontains, if_neg Bool.false_ne_true]
    replacement := by
      refine if_neg fun h => ?_
      have hhigh := (contains_iff.1 h).2
      have hcode : Css.replacement.toNat = 0xFFFD := by decide
      rw [hcode] at hhigh
      simp only [size, firstSurrogate] at hhigh hroom
      omega }
  fixes := fun c hc => if_neg (by rw [hc]; exact Bool.false_ne_true)
  isClass := by
    intro c hc
    have hlow := (contains_iff.1 hc).1
    rw [Bool.eq_iff_iff, isClass_iff, isClass_iff, toNat_rebase hroom' hc]
    simp only at hlow ⊢
    omega
  occurrence? := by
    intro c hc
    have hlow := (contains_iff.1 hc).1
    have hindex : base' + (c.toNat - base) - (base' + 1) = c.toNat - (base + 1) := by omega
    simp only at hlow
    simp only [Markers.occurrence?, toNat_rebase hroom' hc, hindex]
    have habove : base' < base' + (c.toNat - base) ↔ base < c.toNat := by omega
    simp only [habove]
  injective := by
    intro c d hc hd h
    have hlow := (contains_iff.1 hc).1
    have hlow' := (contains_iff.1 hd).1
    have hcode := congrArg Char.toNat h
    rw [toNat_rebase hroom' hc, toNat_rebase hroom' hd] at hcode
    apply Char.toNat_inj.1
    simp only at hlow hlow'
    omega

/-- The encoding at one base is the encoding at the other, rebased. -/
theorem spelled_map_rebase {segments : List Segment} {k : Nat}
    (hroom : base + es.length < firstSurrogate)
    (hcount : k + (segmentExpressions segments).length ≤ es.length)
    (hfree : (Markers.mk base es).Unreserved segments) :
    (spelled (base + k + 1) segments).map ((Markers.mk base es).rebase base') =
      spelled (base' + k + 1) segments := by
  induction segments generalizing k with
  | nil => rfl
  | cons segment segments ih =>
    have hrest : (Markers.mk base es).Unreserved segments :=
      fun text hmem => hfree text (.tail _ hmem)
    cases segment with
    | literal text =>
      have htext : text.map ((Markers.mk base es).rebase base') = text := by
        have hfixed : ∀ c ∈ text, (Markers.mk base es).rebase base' c = c := fun c hc =>
          if_neg (by rw [hfree text (.head _) c hc]; exact Bool.false_ne_true)
        rw [List.map_congr_left hfixed, List.map_id']
      rw [spelled, spelled, List.map_append, htext, ih hcount hrest]
    | expression e =>
      have hcount' : k + 1 + (segmentExpressions segments).length ≤ es.length := by
        simp only [segmentExpressions, List.filterMap_cons, List.length_cons] at hcount ⊢
        omega
      have hcode : (Char.ofNat (base + k + 1)).toNat = base + k + 1 := toNat_ofNat (by omega)
      have hcontains : (Markers.mk base es).contains (Char.ofNat (base + k + 1)) = true := by
        rw [contains_iff, hcode]
        simp only [size]
        omega
      have hmoved : (Markers.mk base es).rebase base' (Char.ofNat (base + k + 1)) =
          Char.ofNat (base' + k + 1) := by
        rw [rebase, if_pos hcontains, hcode]
        congr 1
        simp only
        omega
      rw [spelled, spelled, List.map_cons, hmoved]
      exact congrArg _ (ih hcount' hrest)
    | foreign value => exact ih hcount hrest

end

end Markers

end CssTemplate
