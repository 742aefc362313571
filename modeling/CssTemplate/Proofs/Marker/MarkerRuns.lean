import CssTemplate.Proofs.Marker.RoundTrip

/-!
# One table of markers over a run

A table of markers is asked for one marker after another, and goes on after a call that fails.
`Markers.issue` is such a call, `Markers.issueAll` a run of them. A call fails exactly on a full table
(`Markers.exists_issue_error_iff`) and leaves it as it is; so the calls that succeed are the first ones
of a run, and their markers have ascending code points. `Markers.Issued` says this, and each call keeps
it (`Markers.Issued.issue`). `markers_of_run` is what follows for every run: the range of the markers,
the marker of an occurrence and the meaning of a character agree in every table that it can reach.
-/

namespace CssTemplate

namespace Markers

/-! ## Calls -/

/-- The outcome of a call for a marker, and the table that it leaves. -/
def issue (m : Markers) (e : Expression) : Except MarkerFault Char × Markers :=
  match m.add e with
  | .ok (c, next) => (.ok c, next)
  | .error fault => (.error fault, m)

/-- The outcomes of calls in a row, and the table that they leave. -/
def issueAll (m : Markers) : List Expression → List (Except MarkerFault Char) × Markers
  | [] => ([], m)
  | e :: es =>
    let first := m.issue e
    let rest := first.2.issueAll es
    (first.1 :: rest.1, rest.2)

/-- The markers among outcomes. -/
def returned (outcomes : List (Except MarkerFault Char)) : List Char :=
  outcomes.filterMap Except.toOption

/-- What calls return is what the first one returns, and then the rest. -/
theorem returned_cons (outcome : Except MarkerFault Char) (outcomes : List (Except MarkerFault Char)) :
    returned (outcome :: outcomes) = returned [outcome] ++ returned outcomes :=
  List.filterMap_append (l := [outcome])

/-- The next marker would not be below the surrogates. -/
def IsFull (m : Markers) : Prop :=
  firstSurrogate ≤ m.base + m.size + 1

section
variable {m : Markers} {e : Expression}

/-- A character is a base. -/
theorem ofBase_toNat (first : Char) : ofBase first.toNat = .ok { base := first.toNat } := by
  have hvalid : first.toNat < 0xD800 ∨ 0xDFFF < first.toNat ∧ first.toNat < 0x110000 := first.valid
  have hbound : (first.toNat : Int) ≤ 0x10FFFF := by omega
  rw [ofBase, if_pos ⟨Int.natCast_nonneg _, hbound⟩, Int.toNat_natCast]

/-- A call on a full table fails and leaves it as it is. -/
theorem IsFull.issue (h : m.IsFull) (e : Expression) :
    m.issue e = (.error (.exhausted (m.base + m.size + 1)), m) := by
  have hcode : firstSurrogate ≤ m.base + m.size + 1 := h
  rw [Markers.issue, add, if_pos hcode]

/-- Any other call gives the next marker. -/
theorem issue_of_room (h : ¬m.IsFull) (e : Expression) :
    m.issue e = (.ok (Char.ofNat (m.base + m.size + 1)), m.extend [e]) := by
  rw [issue, add_eq m e (Nat.not_le.1 h)]

/-- A call fails exactly when the table is full. -/
theorem exists_issue_error_iff : (∃ fault, (m.issue e).1 = .error fault) ↔ m.IsFull := by
  by_cases hfull : m.IsFull
  · rw [hfull.issue e]
    exact iff_of_true ⟨_, rfl⟩ hfull
  · rw [issue_of_room hfull e]
    refine iff_of_false ?_ hfull
    rintro ⟨fault, h⟩
    cases h

/-- All calls on a full table fail. -/
theorem IsFull.issueAll (h : m.IsFull) (es : List Expression) :
    m.issueAll es = (es.map fun _ => .error (.exhausted (m.base + m.size + 1)), m) := by
  induction es with
  | nil => rfl
  | cons e es ih =>
    rw [Markers.issueAll, h.issue e]
    simp only [ih, List.map_cons]

end

/-! ## Runs -/

/-- What calls in a row have made of a table without occurrences: the calls that gave a marker are the
first ones, their markers are the code points after the base, and a call failed only if the table is
full. -/
structure Issued (base : Nat) (calls : List Expression) (chars : List Char) (m : Markers) : Prop where
  base_eq : m.base = base
  occurrences_eq : m.occurrences = calls.take chars.length
  length_le : chars.length ≤ calls.length
  codes_eq : chars.map Char.toNat = List.range' (base + 1) chars.length
  room : chars ≠ [] → base + chars.length < firstSurrogate
  full : chars.length < calls.length → m.IsFull

namespace Issued

variable {base : Nat} {calls : List Expression} {chars : List Char} {m : Markers}

/-- Nothing has been issued at the start. -/
theorem start (base : Nat) : Issued base [] [] { base := base } where
  base_eq := rfl
  occurrences_eq := rfl
  length_le := Nat.le_refl 0
  codes_eq := rfl
  room h := absurd rfl h
  full h := absurd h (Nat.lt_irrefl 0)

/-- There are as many markers as have been issued. -/
theorem size_eq (h : Issued base calls chars m) : m.size = chars.length := by
  rw [size, h.occurrences_eq, List.length_take, Nat.min_eq_left h.length_le]

/-- One more call. -/
theorem issue (h : Issued base calls chars m) (e : Expression) :
    Issued base (calls ++ [e]) (chars ++ returned [(m.issue e).1]) (m.issue e).2 := by
  have hlength : (calls ++ [e]).length = calls.length + 1 := List.length_append
  have hle := h.length_le
  by_cases hfull : m.IsFull
  · have hnone : returned [.error (.exhausted (m.base + m.size + 1))] = [] := rfl
    rw [hfull.issue e, hnone, List.append_nil]
    exact {
      base_eq := h.base_eq
      occurrences_eq := by rw [h.occurrences_eq, List.take_append_of_le_length hle]
      length_le := by omega
      codes_eq := h.codes_eq
      room := h.room
      full := fun _ => hfull }
  · -- no call has failed yet, so the call that is answered is the next one
    have hall : chars.length = calls.length :=
      Nat.le_antisymm hle (Nat.le_of_not_lt fun hlt => hfull (h.full hlt))
    have hcode : m.base + m.size + 1 < firstSurrogate := Nat.not_le.1 hfull
    rw [issue_of_room hfull e]
    rw [h.base_eq, h.size_eq] at hcode ⊢
    have hone : returned [.ok (Char.ofNat (base + chars.length + 1))] =
        [Char.ofNat (base + chars.length + 1)] := rfl
    have hchars : (chars ++ [Char.ofNat (base + chars.length + 1)]).length = chars.length + 1 :=
      List.length_append
    rw [hone]
    exact {
      base_eq := h.base_eq
      occurrences_eq := by
        rw [extend, h.occurrences_eq, hchars, hall, ← hlength, List.take_length, List.take_length]
      length_le := by omega
      codes_eq := by
        rw [hchars, List.range'_1_concat, List.map_append, h.codes_eq, List.map_singleton,
          toNat_ofNat hcode, Nat.add_right_comm]
      room := fun _ => by omega
      full := fun hlt => by omega }

/-- More calls in a row. -/
theorem issueAll (h : Issued base calls chars m) (es : List Expression) :
    Issued base (calls ++ es) (chars ++ returned (m.issueAll es).1) (m.issueAll es).2 := by
  induction es generalizing calls chars m with
  | nil =>
    have hnil : returned (m.issueAll []).1 = [] := rfl
    rw [hnil, List.append_nil, List.append_nil]
    exact h
  | cons e es ih =>
    have hrest := ih (h.issue e)
    rw [List.append_assoc, List.append_assoc, ← returned_cons] at hrest
    exact hrest

/-! ### What a run leaves -/

/-- Markers are issued in order of their code points, from the one behind the base. -/
theorem toNat_of_getElem? (h : Issued base calls chars m) {k : Nat} {c : Char}
    (hk : chars[k]? = some c) : c.toNat = base + k + 1 := by
  have hlt : k < chars.length := (List.getElem?_eq_some_iff.1 hk).1
  have hcode : (chars.map Char.toNat)[k]? = some c.toNat := by rw [List.getElem?_map, hk]; rfl
  rw [h.codes_eq, List.getElem?_range' hlt] at hcode
  have := Option.some.inj hcode
  omega

/-- Every marker lies behind the base and before the surrogates. -/
theorem mem_bounds (h : Issued base calls chars m) {c : Char} (hc : c ∈ chars) :
    base < c.toNat ∧ c.toNat < firstSurrogate := by
  obtain ⟨k, hk⟩ := List.mem_iff_getElem?.1 hc
  have hlt : k < chars.length := (List.getElem?_eq_some_iff.1 hk).1
  have hroom := h.room (List.ne_nil_of_mem hc)
  have hcode := h.toNat_of_getElem? hk
  omega

/-- The markers that have been issued are different. -/
theorem nodup (h : Issued base calls chars m) : chars.Nodup := by
  have hcodes : (chars.map Char.toNat).Nodup := by
    rw [h.codes_eq]
    exact List.nodup_range'
  exact List.Pairwise.of_map Char.toNat (fun c d hcode heq => hcode (congrArg _ heq)) hcodes

/-- The table is full exactly when the next code point is a surrogate. -/
theorem isFull_iff (h : Issued base calls chars m) :
    m.IsFull ↔ firstSurrogate ≤ base + chars.length + 1 := by
  rw [IsFull, h.base_eq, h.size_eq]

/-- The marker of an occurrence is the one that was returned for it, and stands for it. -/
theorem meaning_charOf (h : Issued base calls chars m) {i : Nat} {e : Expression}
    (hi : m.occurrences[i]? = some e) :
    ∃ c, chars[i]? = some c ∧ m.charOf i = .ok c ∧ m.meaning c = .ok (.expression e) := by
  have hlt : i < m.size := (List.getElem?_eq_some_iff.1 hi).1
  have hchars : i < chars.length := h.size_eq ▸ hlt
  have hroom : m.base + m.size < firstSurrogate := by
    rw [h.base_eq, h.size_eq]
    exact h.room (List.ne_nil_of_length_pos (Nat.zero_lt_of_lt hchars))
  have hget : chars[i]? = some chars[i] := List.getElem?_eq_getElem hchars
  have hchar : chars[i] = Char.ofNat (m.base + i + 1) := by
    rw [h.base_eq, ← h.toNat_of_getElem? hget, Char.ofNat_toNat]
  refine ⟨chars[i], hget, ?_, ?_⟩
  · rw [charOf, if_pos ⟨Int.natCast_nonneg i, Int.ofNat_lt.2 hlt⟩, Int.toNat_natCast, hchar]
  · rw [hchar]
    exact meaning_of_occurrence (occurrence?_ofNat hroom hi)

end Issued

end Markers

/-- **One table of markers over a run.** Whatever calls are made on a table that starts with the code
point of a character and no occurrences: this character stays the class marker; the call that succeeds
as the `k`-th one, counted from zero, returns the character that is `k + 1` code points above it; the
class marker and the markers returned are all different, and the latter lie below the surrogates. A
call fails exactly if the next marker would not; it leaves the table as it is, and all calls after it
fail too. The occurrences are the expressions of the calls that succeeded, the markers are the
characters that stand for something, the marker of an occurrence stands for it, and only the class
marker stands for the class name. -/
theorem markers_of_run (first : Char) (calls : List Expression) :
    let start : Markers := { base := first.toNat }
    let m : Markers := (start.issueAll calls).2
    let chars : List Char := Markers.returned (start.issueAll calls).1
    Markers.ofBase first.toNat = .ok start ∧
    m.classChar = first ∧
    (∀ k c, chars[k]? = some c → c.toNat = first.toNat + k + 1) ∧
    (first :: chars).Nodup ∧
    (∀ c ∈ chars, c.toNat < firstSurrogate) ∧
    (∀ e, (∃ fault, (m.issue e).1 = .error fault) ↔
      firstSurrogate ≤ first.toNat + chars.length + 1) ∧
    (∀ e fault, (m.issue e).1 = .error fault → (m.issue e).2 = m ∧
      ∀ more, ∀ outcome ∈ ((m.issue e).2.issueAll more).1, ∃ later, outcome = .error later) ∧
    m.occurrences = calls.take chars.length ∧
    (∀ c, m.contains c = true ↔ ∃ meaning, m.meaning c = .ok meaning) ∧
    (∀ (i : Nat) e, m.occurrences[i]? = some e →
      ∃ c, chars[i]? = some c ∧ m.charOf i = .ok c ∧ m.meaning c = .ok (.expression e)) ∧
    ∀ c, m.meaning c = .ok .className ↔ c = m.classChar := by
  intro start m chars
  have hrun : Markers.Issued first.toNat calls chars m :=
    (Markers.Issued.start first.toNat).issueAll calls
  have hfirst : m.classChar = first := by rw [Markers.classChar, hrun.base_eq, Char.ofNat_toNat]
  refine ⟨Markers.ofBase_toNat first, hfirst, fun k c => hrun.toNat_of_getElem?, ?_,
    fun c hc => (hrun.mem_bounds hc).2, fun e => ?_, fun e fault herror => ?_, hrun.occurrences_eq,
    fun c => Markers.contains_iff_meaning, fun i e => hrun.meaning_charOf, fun c => ?_⟩
  · refine List.nodup_cons.2 ⟨fun hmem => ?_, hrun.nodup⟩
    exact Nat.lt_irrefl _ (hrun.mem_bounds hmem).1
  · rw [Markers.exists_issue_error_iff, hrun.isFull_iff]
  · have hfull : m.IsFull := Markers.exists_issue_error_iff.1 ⟨fault, herror⟩
    rw [hfull.issue e]
    refine ⟨rfl, fun more outcome hmem => ?_⟩
    rw [hfull.issueAll more] at hmem
    obtain ⟨later, -, rfl⟩ := List.mem_map.1 hmem
    exact ⟨_, rfl⟩
  · rw [hfirst, Markers.meaning_eq_className_iff, Markers.isClass_iff, hrun.base_eq, Char.toNat_inj]

/-- A table with room for two markers, asked for three. -/
theorem markers_of_run_full :
    let start : Markers := { base := 0xD7FD }
    let calls : List Expression := [⟨['x'], rfl⟩, ⟨['y'], rfl⟩, ⟨['z'], rfl⟩]
    let m : Markers := (start.issueAll calls).2
    (start.issueAll calls).1 = [.ok '\ud7fe', .ok '\ud7ff', .error (.exhausted 0xD800)] ∧
    m.occurrences = [⟨['x'], rfl⟩, ⟨['y'], rfl⟩] ∧
    (m.issue ⟨['w'], rfl⟩).2 = m ∧
    (∀ c, m.contains c = true ↔ ∃ meaning, m.meaning c = .ok meaning) ∧
    m.meaning '\ud7ff' = .ok (.expression ⟨['y'], rfl⟩) := by
  obtain ⟨-, -, -, -, -, -, hfails, hoccurrences, hcontains, hmeaning, -⟩ :=
    markers_of_run '\ud7fd' [⟨['x'], rfl⟩, ⟨['y'], rfl⟩, ⟨['z'], rfl⟩]
  obtain ⟨c, hc, -, hlast⟩ := hmeaning 1 ⟨['y'], rfl⟩ rfl
  cases hc
  exact ⟨rfl, hoccurrences, (hfails _ _ rfl).1, hcontains, hlast⟩

end CssTemplate
