import CssTemplate.Marker.Markers

/-!
# What markers stand for

The markers of a table are the code points from its base up to its base plus the number of
occurrences. `Markers.occurrence?` reads an occurrence off a code point by counting from the base;
a marker other than the class marker always has an occurrence (`Markers.isClass_or_occurrence`),
and `Markers.meaning` agrees with it there (`Markers.meaning_of_occurrence`). No other character
stands for anything (`Markers.contains_iff_meaning`).
-/

namespace CssTemplate

namespace Markers

variable {m : Markers} {c : Char}

/-- The occurrence whose marker a character is: the one as far behind the first as the code point
is above the one after the base. -/
def occurrence? (m : Markers) (c : Char) : Option Expression :=
  if m.base < c.toNat then m.occurrences[c.toNat - (m.base + 1)]? else none

/-- The class marker is the character at the base. -/
theorem isClass_iff : m.isClass c = true ↔ c.toNat = m.base :=
  beq_iff_eq

/-- The class marker is no other character. -/
theorem isClass_eq_false_iff : m.isClass c = false ↔ c.toNat ≠ m.base :=
  beq_eq_false_iff_ne

/-- The markers are the code points from the base on, one more than there are occurrences. -/
theorem contains_iff : m.contains c = true ↔ m.base ≤ c.toNat ∧ c.toNat ≤ m.base + m.size := by
  simp [contains]

/-- A marker is the class marker, or the marker of an occurrence. -/
theorem isClass_or_occurrence (h : m.contains c = true) :
    m.isClass c = true ∨ ∃ e, m.occurrence? c = some e := by
  obtain ⟨hlow, hhigh⟩ := contains_iff.1 h
  rcases Nat.eq_or_lt_of_le hlow with heq | hlt
  · exact .inl (isClass_iff.2 heq.symm)
  · have hidx : c.toNat - (m.base + 1) < m.occurrences.length := by
      rw [size] at hhigh
      omega
    exact .inr ⟨m.occurrences[c.toNat - (m.base + 1)], by rw [occurrence?, if_pos hlt,
      List.getElem?_eq_getElem hidx]⟩

/-- The class marker is a marker. -/
theorem contains_of_isClass (h : m.isClass c = true) : m.contains c = true := by
  rw [contains_iff, isClass_iff.1 h]
  exact ⟨Nat.le_refl _, Nat.le_add_right _ _⟩

/-- The marker of an occurrence is a marker, and not the class marker. -/
theorem contains_of_occurrence {e : Expression} (h : m.occurrence? c = some e) :
    m.contains c = true ∧ m.isClass c = false := by
  rw [occurrence?] at h
  split at h
  · next hlt =>
    obtain ⟨hidx, -⟩ := List.getElem?_eq_some_iff.1 h
    refine ⟨contains_iff.2 ⟨Nat.le_of_lt hlt, ?_⟩, isClass_eq_false_iff.2 (Nat.ne_of_gt hlt)⟩
    rw [size]
    omega
  · cases h

/-- A character that is no marker has no occurrence. -/
theorem occurrence?_of_not_contains (h : m.contains c = false) : m.occurrence? c = none := by
  cases ho : m.occurrence? c with
  | none => rfl
  | some e => rw [(contains_of_occurrence ho).1] at h; cases h

/-- The class marker has no occurrence. -/
theorem occurrence?_of_isClass (h : m.isClass c = true) : m.occurrence? c = none := by
  rw [occurrence?, if_neg (by rw [isClass_iff.1 h]; exact Nat.lt_irrefl _)]

/-- What the marker of an occurrence stands for. -/
theorem meaning_of_occurrence {e : Expression} (h : m.occurrence? c = some e) :
    m.meaning c = .ok (.expression e) := by
  have hclass := (contains_of_occurrence h).2
  rw [occurrence?] at h
  split at h
  · next hlt =>
    rw [meaning, hclass, if_neg (by decide), if_neg (by omega)]
    rw [← Nat.sub_sub] at h
    rw [h]
  · cases h

/-- A character that is neither the class marker nor the marker of an occurrence stands for
nothing. -/
theorem meaning_of_none (hclass : m.isClass c = false) (hnone : m.occurrence? c = none) :
    m.meaning c = .error (.unknownMarker c.toNat) := by
  rw [meaning, hclass, if_neg Bool.false_ne_true]
  split
  · rfl
  · next hlow =>
    have habove : m.base < c.toNat :=
      Nat.lt_of_le_of_ne (Nat.le_of_not_lt hlow) (isClass_eq_false_iff.1 hclass).symm
    rw [occurrence?, if_pos habove] at hnone
    rw [Nat.sub_sub, hnone]

/-- What a character stands for. -/
theorem meaning_eq_ok_iff {meaning : Meaning} :
    m.meaning c = .ok meaning ↔
      m.isClass c = true ∧ meaning = .className ∨
      ∃ e, m.occurrence? c = some e ∧ meaning = .expression e := by
  cases hclass : m.isClass c with
  | true =>
    have hmeaning : m.meaning c = .ok .className := by rw [Markers.meaning, hclass, if_pos rfl]
    rw [hmeaning, occurrence?_of_isClass hclass]
    simp [eq_comm]
  | false =>
    cases hoccurrence : m.occurrence? c with
    | none => simp [meaning_of_none hclass hoccurrence]
    | some e => simp [meaning_of_occurrence hoccurrence, eq_comm]

/-- The markers are the characters that stand for something. -/
theorem contains_iff_meaning : m.contains c = true ↔ ∃ meaning, m.meaning c = .ok meaning := by
  simp only [meaning_eq_ok_iff]
  constructor
  · intro h
    rcases isClass_or_occurrence h with hclass | ⟨e, he⟩
    · exact ⟨.className, .inl ⟨hclass, rfl⟩⟩
    · exact ⟨.expression e, .inr ⟨e, he, rfl⟩⟩
  · rintro ⟨meaning, ⟨hclass, -⟩ | ⟨e, he, -⟩⟩
    · exact contains_of_isClass hclass
    · exact (contains_of_occurrence he).1

/-- The class marker is the character that stands for the class name. -/
theorem meaning_eq_className_iff : m.meaning c = .ok .className ↔ m.isClass c = true := by
  simp [meaning_eq_ok_iff]

/-- A table above ASCII has no ASCII character as a marker. -/
theorem not_contains_of_lt (hbase : 0x80 ≤ m.base) (h : c.toNat < 0x80) : m.contains c = false := by
  rw [← Bool.not_eq_true, contains_iff]
  omega

end Markers

end CssTemplate
