import Mathlib

/-!
# Retention

A log that is cut to its newest records when it has too many, and what is left of
everything that was appended to it.
-/

namespace PtySpec.Lib

universe u

variable {α : Type u}

/-- The newest `keep` records. -/
def newest (keep : Nat) (log : List α) : List α := log.drop (log.length - keep)

/-- The log is a suffix of everything appended, with at least the newest `keep` of it. -/
structure Keeps (keep : Nat) (appended log : List α) : Prop where
  suffix : log <:+ appended
  enough : min appended.length keep ≤ log.length

namespace Keeps

variable {keep : Nat} {appended log : List α}

theorem nil (keep : Nat) : Keeps keep ([] : List α) [] where
  suffix := List.suffix_refl []
  enough := Nat.min_le_left 0 keep

theorem append (h : Keeps keep appended log) (xs : List α) :
    Keeps keep (appended ++ xs) (log ++ xs) where
  suffix := (List.suffix_append_inj_of_length_eq rfl).mpr ⟨h.suffix, rfl⟩
  enough := by
    have he := h.enough
    rw [List.length_append, List.length_append]
    omega

/-- A log of at least `keep` records still keeps them when it is cut to the newest. -/
theorem newest (h : Keeps keep appended log) (hl : keep ≤ log.length) :
    Keeps keep appended (Lib.newest keep log) where
  suffix := (List.drop_suffix _ log).trans h.suffix
  enough := by
    rw [Lib.newest, List.length_drop]
    omega

end Keeps

theorem length_newest {keep : Nat} {log : List α} (h : keep ≤ log.length) :
    (newest keep log).length = keep := by
  rw [newest, List.length_drop]
  omega

end PtySpec.Lib
