import Mathlib

/-!
# Steps that may fail

Sequences and folds of steps that may fail: what a success says of the steps on the way, and what
a whole fold keeps if every step does.
-/

namespace PtySpec.Lib

universe u

variable {ε : Type u} {α β : Type}

/-- A sequence succeeds through its first part. -/
theorem bind_eq_ok {x : Except ε α} {f : α → Except ε β} {b : β} :
    (x >>= f) = .ok b ↔ ∃ a, x = .ok a ∧ f a = .ok b := by
  cases x with
  | error e => exact iff_of_false (fun h ↦ by cases h) fun h ↦ by simp at h
  | ok a => exact ⟨fun h ↦ ⟨a, rfl, h⟩, fun ⟨_, ha, h⟩ ↦ Except.ok.inj ha ▸ h⟩

/-- An error that is told otherwise is one still. -/
theorem mapError_eq_ok {δ : Type u} {x : Except ε α} {f : ε → δ} {a : α} :
    x.mapError f = .ok a ↔ x = .ok a := by
  cases x with
  | error e => exact iff_of_false (fun h ↦ by cases h) fun h ↦ by cases h
  | ok a' => exact ⟨fun h ↦ Except.ok.inj h ▸ rfl, fun h ↦ Except.ok.inj h ▸ rfl⟩

/-- What every step adds to what is known of the steps before it, a fold adds up. -/
theorem foldlM_induction {step : α → β → Except ε α} {P : List β → α → Prop} {s t : α}
    {xs : List β} (hs : P [] s)
    (hstep : ∀ seen x u v, P seen u → step u x = .ok v → P (seen ++ [x]) v)
    (h : xs.foldlM step s = .ok t) : P xs t := by
  suffices ∀ seen u, P seen u → xs.foldlM step u = .ok t → P (seen ++ xs) t from this [] s hs h
  clear hs h
  induction xs with
  | nil =>
    intro seen u hu h
    cases h
    rwa [List.append_nil]
  | cons x xs ih =>
    intro seen u hu h
    rw [List.foldlM_cons, bind_eq_ok] at h
    obtain ⟨v, hv, h⟩ := h
    have hrest := ih (seen ++ [x]) v (hstep seen x u v hu hv) h
    rwa [List.append_assoc] at hrest

end PtySpec.Lib
