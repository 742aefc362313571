/-!
# Results of steps that may fail

Equations and inversion for `Except`, the result type of every stage: how a failure passes through
the steps after it, and what a success says of the steps before. `FailsOnly` follows the faults
through the steps.
-/

namespace CssTemplate

namespace Except

variable {ε α β : Type _} {x : Except ε α} {k : α → Except ε β} {g : α → β}

/-- A step after a result. -/
@[simp] theorem bind_ok (a : α) (k : α → Except ε β) : (Except.ok a >>= k) = k a := rfl

/-- A step after a fault is not taken. -/
@[simp] theorem bind_error (f : ε) (k : α → Except ε β) :
    ((Except.error f : Except ε α) >>= k) = .error f := rfl

/-- A function of a result. -/
@[simp] theorem map_ok (a : α) (g : α → β) : (Except.ok a : Except ε α).map g = .ok (g a) := rfl

/-- A function of a fault. -/
@[simp] theorem map_error (f : ε) (g : α → β) :
    (Except.error f : Except ε α).map g = .error f := rfl

/-- Two steps succeed when the first does and the second does on its result. -/
theorem bind_eq_ok_iff {b : β} : (x >>= k) = .ok b ↔ ∃ a, x = .ok a ∧ k a = .ok b := by
  cases x with
  | error f => simp
  | ok a => simp

/-- A function of a result succeeds when there is a result. -/
theorem map_eq_ok_iff {b : β} : x.map g = .ok b ↔ ∃ a, x = .ok a ∧ g a = b := by
  cases x with
  | error f => simp
  | ok a => simp

/-- A function of a result fails when there is none. -/
theorem map_eq_error_iff {f : ε} : x.map g = .error f ↔ x = .error f := by
  cases x with
  | error f => simp
  | ok a => simp

/-- Two functions that agree on the results of a step agree on the results of a whole list. -/
theorem mapM_of_mapM_ok {γ : Type _} {f : α → Except ε β} {g : β → Option γ} {k : α → Option γ}
    (hfg : ∀ a b, f a = .ok b → g b = k a) :
    ∀ {l : List α} {l' : List β}, l.mapM f = .ok l' → l'.mapM g = l.mapM k
  | [], _, h => by cases h; rfl
  | a :: l, _, h => by
      rw [List.mapM_cons, bind_eq_ok_iff] at h
      obtain ⟨b, hb, h⟩ := h
      obtain ⟨bs, hbs, h⟩ := bind_eq_ok_iff.1 h
      cases h
      rw [List.mapM_cons, List.mapM_cons, hfg a b hb, mapM_of_mapM_ok hfg hbs]

end Except

/-! ## Classes of faults -/

/-- The faults of a result are in a class. -/
def FailsOnly {ε α : Type} (P : ε → Prop) (x : Except ε α) : Prop :=
  ∀ f, x = .error f → P f

namespace FailsOnly

variable {ε α β : Type} {P : ε → Prop} {x : Except ε α}

/-- A result is no fault. -/
theorem ok (a : α) : FailsOnly P (.ok a) := by
  intro f h
  cases h

/-- A fault with the property. -/
theorem error {f : ε} (h : P f) : FailsOnly P (.error f : Except ε α) := by
  rintro g ⟨⟩
  exact h

/-- A step after another fails with the property if both do. -/
theorem bind {k : α → Except ε β} (hx : FailsOnly P x) (hk : ∀ a, x = .ok a → FailsOnly P (k a)) :
    FailsOnly P (x >>= k) := by
  cases x with
  | error f => exact .error (hx f rfl)
  | ok a => exact hk a rfl

/-- A list read in order fails with the property if each of its elements does. -/
theorem mapM {f : α → Except ε β} {l : List α} (h : ∀ a ∈ l, FailsOnly P (f a)) :
    FailsOnly P (l.mapM f) := by
  induction l with
  | nil => exact .ok _
  | cons a l ih =>
    obtain ⟨ha, hl⟩ := List.forall_mem_cons.1 h
    rw [List.mapM_cons]
    exact ha.bind fun _ _ => (ih hl).bind fun _ _ => .ok _

end FailsOnly

end CssTemplate
