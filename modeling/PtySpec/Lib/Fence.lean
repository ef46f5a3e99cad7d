import Mathlib

/-!
# Values kept under an identity

What is read of an object may be kept and used again when the object's identity is the one it
was read under, as long as identities that are fenced off are not given again: no step brings
an object to such an identity, and none changes an object that keeps one.
-/

namespace PtySpec.Lib

universe u

/-- Steps of a system whose objects have an identity and a content, with the identities that
no later change can give. -/
structure Fence (σ κ ι γ : Type u) where
  step : σ → σ → Prop
  identity : σ → κ → ι
  content : σ → κ → γ
  fenced : σ → ι → Prop
  fenced_step : ∀ {s s' i}, step s s' → fenced s i → fenced s' i
  unchanged : ∀ {s s' i k}, step s s' → fenced s i → identity s' k = i →
    identity s k = i ∧ content s' k = content s k

namespace Fence

variable {σ κ ι γ : Type u} (F : Fence σ κ ι γ)

/-- The identity is fenced off, and an object that has it has a content of this kind. -/
def Holds (s : σ) (i : ι) (P : γ → Prop) : Prop :=
  F.fenced s i ∧ ∀ k, F.identity s k = i → P (F.content s k)

variable {F}

/-- What holds under an identity that is fenced off holds from then on. -/
theorem Holds.of_step {s s' : σ} {i : ι} {P : γ → Prop} (h : F.Holds s i P)
    (hs : F.step s s') : F.Holds s' i P := by
  refine ⟨F.fenced_step hs h.1, fun k hk ↦ ?_⟩
  obtain ⟨hi, hc⟩ := F.unchanged hs h.1 hk
  rw [hc]
  exact h.2 k hi

theorem Holds.imp {s : σ} {i : ι} {P Q : γ → Prop} (h : F.Holds s i P) (hPQ : ∀ c, P c → Q c) :
    F.Holds s i Q :=
  ⟨h.1, fun k hk ↦ hPQ _ (h.2 k hk)⟩

end Fence
end PtySpec.Lib
