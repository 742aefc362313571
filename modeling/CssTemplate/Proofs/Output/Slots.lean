import CssTemplate.Config
import CssTemplate.Output.Slots
import CssTemplate.Proofs.Marker.Meaning

/-!
# Slots over a run

A table of slots only grows, and what it may do at a marker is listed once
(`Slots.handle_cases`): give the slot that the marker has, bind the next slot, or leave the
expression in its place. Two facts hold of every table that a run can reach (`Slots.Valid`): the
slots are numbered in the order of binding, and every slot holds the occurrence of its marker. So
the names of the slots differ from each other (`Slots.Valid.names_nodup`), and from the parameter
for the class name in every accepted configuration (`Slots.Valid.name_ne_classParameter`).
-/

namespace CssTemplate

/-! ## Numerals -/

/-- A number is determined by its numeral. -/
theorem decimal_injective : Function.Injective decimal := by
  intro a b h
  have := congrArg (Nat.ofDigitChars 10 · 0) h
  simpa [decimal, Nat.ofDigitChars_ten_toDigits] using this

/-- An ASCII digit is a decimal digit. -/
theorem isDecimal_of_isDigit {c : Char} (h : c.isDigit = true) : isDecimal c = true := by
  have hrange : 0x30 ≤ c.toNat ∧ c.toNat < 0x30 + 10 := by
    simp only [Char.isDigit, Bool.and_eq_true, decide_eq_true_eq, UInt32.le_iff_toNat_le] at h
    have hlow : '0'.val.toNat ≤ c.val.toNat := h.1
    have hhigh : c.val.toNat ≤ '9'.val.toNat := h.2
    simp only [Char.toNat]
    exact ⟨hlow, Nat.lt_succ_of_le hhigh⟩
  simp only [isDecimal, digitValue?, digitZeros]
  rw [List.find?_cons_of_pos (by simpa using hrange)]
  rfl

/-- A numeral consists of decimal digits. -/
theorem all_isDecimal_decimal (n : Nat) : (decimal n).all isDecimal = true := by
  rw [List.all_eq_true]
  intro c hc
  exact isDecimal_of_isDigit (Nat.isDigit_of_mem_toDigits (by decide) (by decide) hc)

/-- A stem with a numeral after it looks like the name of a slot. -/
theorem looksLikeSlot_append_decimal (stem : List Char) (n : Nat) :
    looksLikeSlot stem (stem ++ decimal n) = true := by
  have hne : (decimal n).isEmpty = false := by
    simp [decimal, Nat.toDigits_ne_nil]
  simp [looksLikeSlot, hne, all_isDecimal_decimal n]

namespace Slots

variable {m : Markers} {s : Slots} {marker : List Char} {e : Expression} {asParameter : Bool}

/-! ## One step -/

/-- The table after binding the next slot. -/
def push (s : Slots) (marker : List Char) (e : Expression) : Slots :=
  { s with entries := s.entries ++ [(marker, ⟨s.nextName, e⟩)] }

/-- A slot that is found is bound to the marker. -/
theorem mem_of_get? {slot : Slot} (h : s.get? marker = some slot) : (marker, slot) ∈ s.entries := by
  obtain ⟨before, after, heq, -⟩ := List.lookup_eq_some_iff.1 h
  rw [heq]
  exact List.mem_append_right _ (.head _)

/-- Everything that a table of slots can do at a marker. -/
theorem handle_cases (s : Slots) (marker : List Char) (e : Expression) (asParameter : Bool) :
    (∃ slot, s.get? marker = some slot ∧ s.handle marker e asParameter = (.slot slot, s)) ∨
    (s.get? marker = none ∧ asParameter = true ∧
      s.handle marker e asParameter = (.slot ⟨s.nextName, e⟩, s.push marker e)) ∨
    (s.get? marker = none ∧ asParameter = false ∧
      s.handle marker e asParameter = (.expression e, s)) := by
  cases hget : s.get? marker with
  | some slot => cases asParameter <;> exact .inl ⟨slot, rfl, by simp [handle, bind, hget]⟩
  | none =>
    cases asParameter with
    | true => exact .inr (.inl ⟨rfl, rfl, by simp [handle, bind, hget, push]⟩)
    | false => exact .inr (.inr ⟨rfl, rfl, by simp [handle, hget]⟩)

/-- A table keeps its slots and their order. -/
theorem prefix_handle (s : Slots) (marker : List Char) (e : Expression) (asParameter : Bool) :
    s.entries <+: (s.handle marker e asParameter).2.entries := by
  rcases s.handle_cases marker e asParameter with ⟨_, -, h⟩ | ⟨-, -, h⟩ | ⟨-, -, h⟩
  · simp [h]
  · simp [h, push]
  · simp [h]

/-- A table keeps its stem. -/
theorem stem_handle (s : Slots) (marker : List Char) (e : Expression) (asParameter : Bool) :
    (s.handle marker e asParameter).2.stem = s.stem := by
  rcases s.handle_cases marker e asParameter with ⟨_, -, h⟩ | ⟨-, -, h⟩ | ⟨-, -, h⟩ <;> rw [h]
  rfl

/-! ## Tables that a run can reach -/

/-- The slots are numbered in the order of binding (`named`), and each holds the occurrence of the
marker that it is bound to (`marked`). -/
structure Valid (m : Markers) (s : Slots) : Prop where
  named : ∀ k slot, s.toList[k]? = some slot → slot.name = s.stem ++ decimal k
  marked : ∀ marker slot, (marker, slot) ∈ s.entries →
    ∃ c, marker = [c] ∧ m.occurrence? c = some slot.occurrence

/-- A table without slots is valid. -/
theorem Valid.empty (m : Markers) (stem : List Char) : Valid m { stem := stem } where
  named := fun k slot h => by simp [toList] at h
  marked := fun marker slot h => by cases h

/-- The next slot has the number of its place. -/
theorem named_push (h : ∀ k slot, s.toList[k]? = some slot → slot.name = s.stem ++ decimal k)
    (marker : List Char) (e : Expression) (k : Nat) (slot : Slot)
    (hk : (s.push marker e).toList[k]? = some slot) : slot.name = s.stem ++ decimal k := by
  have hlist : (s.push marker e).toList = s.toList ++ [⟨s.nextName, e⟩] := by
    simp [Slots.push, toList]
  rw [hlist] at hk
  rcases Nat.lt_or_ge k s.toList.length with hlt | hge
  · rw [List.getElem?_append_left hlt] at hk
    exact h k slot hk
  · rw [List.getElem?_append_right hge] at hk
    obtain ⟨hk0, rfl⟩ := List.getElem?_eq_some_iff.1 hk
    have hk : k = s.size := by
      simp only [List.length_singleton, toList, List.length_map] at hk0 hge
      rw [size]
      omega
    simp [hk, nextName]

/-- Binding the next slot keeps a table valid. -/
theorem Valid.push {c : Char} (h : s.Valid m) (he : m.occurrence? c = some e) :
    (s.push [c] e).Valid m where
  named := named_push h.named [c] e
  marked := by
    intro marker slot hmem
    rcases List.mem_append.1 hmem with hmem | hmem
    · exact h.marked marker slot hmem
    · cases List.mem_singleton.1 hmem
      exact ⟨c, rfl, he⟩

/-- A step at the marker of an occurrence keeps a table valid. -/
theorem Valid.handle {c : Char} (h : s.Valid m) (he : m.occurrence? c = some e) :
    (s.handle [c] e asParameter).2.Valid m := by
  rcases s.handle_cases [c] e asParameter with ⟨_, -, heq⟩ | ⟨-, -, heq⟩ | ⟨-, -, heq⟩ <;> rw [heq]
  · exact h
  · exact h.push he
  · exact h

/-- The value at the marker of an occurrence is that occurrence, in its place or through a slot
that is bound then. -/
theorem Valid.handle_value {c : Char} (h : s.Valid m) (he : m.occurrence? c = some e)
    (asParameter : Bool) :
    (s.handle [c] e asParameter).1 = .expression e ∨
      ∃ slot ∈ (s.handle [c] e asParameter).2.toList,
        (s.handle [c] e asParameter).1 = .slot slot ∧ slot.occurrence = e := by
  rcases s.handle_cases [c] e asParameter with ⟨slot, hget, heq⟩ | ⟨-, -, heq⟩ | ⟨-, -, heq⟩ <;>
    rw [heq]
  · have hmem := mem_of_get? hget
    obtain ⟨c', hc, hocc⟩ := h.marked _ _ hmem
    cases hc
    rw [he] at hocc
    exact .inr ⟨slot, List.mem_map.2 ⟨_, hmem, rfl⟩, rfl, (Option.some.inj hocc).symm⟩
  · exact .inr ⟨⟨s.nextName, e⟩, by simp [Slots.push, toList], rfl, rfl⟩
  · exact .inl rfl

/-! ## Names -/

/-- No two slots have the same name. -/
theorem Valid.names_nodup (h : s.Valid m) : (s.toList.map Slot.name).Nodup := by
  have hnames :
      s.toList.map Slot.name = (List.range s.toList.length).map (s.stem ++ decimal ·) := by
    apply List.ext_getElem
    · simp
    · intro k hk _
      simp only [List.getElem_map, List.getElem_range]
      exact h.named k _ (List.getElem?_eq_getElem _)
  rw [hnames, List.Nodup, List.pairwise_map]
  refine List.Pairwise.imp ?_ List.nodup_range
  intro a b hne heq
  exact hne (decimal_injective (List.append_cancel_left heq))

/-- No slot takes the name of the parameter for the class name. -/
theorem Valid.name_ne_classParameter (h : s.Valid m) (config : Config)
    (hstem : s.stem = config.slotStem) : ∀ slot ∈ s.toList, slot.name ≠ config.classParameter := by
  intro slot hmem heq
  obtain ⟨k, hk, rfl⟩ := List.mem_iff_getElem.1 hmem
  have hname := h.named k _ (List.getElem?_eq_getElem hk)
  have hslot := looksLikeSlot_append_decimal config.slotStem k
  rw [← hstem, ← hname, heq, hstem, config.no_collision] at hslot
  cases hslot

end Slots

end CssTemplate
