import Mathlib

/-!
# Interactive programs and what they keep

A program asks its surroundings one question at a time and goes on with the
answer. A `Contract` says which questions may be asked, which answers may be
relied on and how ghost state follows them; `Keeps` is the Hoare judgement for
it. Programs of several threads are interleaved question by question, so a
thread's judgement survives every step the others take.
-/

namespace PtySpec.Lib

universe u

/-- A program over questions `Op`, the answer to `o` being an `Ans o`. -/
inductive Prog (Op : Type) (Ans : Op → Type) (α : Type) : Type where
  | ret (a : α)
  | ask (o : Op) (k : Ans o → Prog Op Ans α)

namespace Prog

variable {Op : Type} {Ans : Op → Type} {α β : Type}

/-- Run `p`, then `f` on its result. -/
def bind : Prog Op Ans α → (α → Prog Op Ans β) → Prog Op Ans β
  | ret a, f => f a
  | ask o k, f => ask o fun r ↦ (k r).bind f

/-- Sequencing of programs. -/
instance : Monad (Prog Op Ans) where
  pure := ret
  bind := bind

/-- The program that asks `o` and returns the answer. -/
def query (o : Op) : Prog Op Ans (Ans o) := ask o ret

end Prog

/-- What a program may ask in a ghost state, which answers it may rely on and the
ghost state after an answer. -/
structure Contract (Op : Type) (Ans : Op → Type) (M : Type u) where
  asks : M → Op → Prop
  answers : M → (o : Op) → Ans o → Prop
  next : M → (o : Op) → Ans o → M

namespace Prog

variable {Op : Type} {Ans : Op → Type} {α β : Type} {M : Type u} {c : Contract Op Ans M}

/-- Every question of the program meets the contract and every result satisfies `Q`,
as long as the answers meet it too. -/
def Keeps (c : Contract Op Ans M) : Prog Op Ans α → M → (M → α → Prop) → Prop
  | ret a, m, Q => Q m a
  | ask o k, m, Q => c.asks m o ∧ ∀ r, c.answers m o r → (k r).Keeps c (c.next m o r) Q

/-- A finished program keeps exactly its postcondition. -/
@[simp] theorem keeps_ret {Q : M → α → Prop} {m : M} {a : α} :
    (ret a : Prog Op Ans α).Keeps c m Q ↔ Q m a := Iff.rfl

/-- `pure` is `ret`. -/
@[simp] theorem keeps_pure {Q : M → α → Prop} {m : M} {a : α} :
    (pure a : Prog Op Ans α).Keeps c m Q ↔ Q m a := Iff.rfl

/-- Sequencing: the second program starts from what the first one establishes. -/
theorem keeps_bind {Q : M → β → Prop} {p : Prog Op Ans α} {f : α → Prog Op Ans β} {m : M} :
    (p >>= f).Keeps c m Q ↔ p.Keeps c m fun m' a ↦ (f a).Keeps c m' Q := by
  induction p generalizing m with
  | ret a => exact Iff.rfl
  | ask o k ih =>
    constructor
    · rintro ⟨ha, hk⟩
      exact ⟨ha, fun r hr ↦ (ih r).mp (hk r hr)⟩
    · rintro ⟨ha, hk⟩
      exact ⟨ha, fun r hr ↦ (ih r).mpr (hk r hr)⟩

/-- Consequence: a weaker postcondition is kept too. -/
theorem Keeps.mono {Q R : M → α → Prop} {p : Prog Op Ans α} {m : M}
    (h : p.Keeps c m Q) (hq : ∀ m' a, Q m' a → R m' a) : p.Keeps c m R := by
  induction p generalizing m with
  | ret a => exact hq m a h
  | ask o k ih => exact ⟨h.1, fun r hr ↦ ih r (h.2 r hr)⟩

/-- Sequencing through an intermediate assertion. -/
theorem Keeps.seq {Q : M → α → Prop} {R : M → β → Prop} {p : Prog Op Ans α}
    {f : α → Prog Op Ans β} {m : M} (hp : p.Keeps c m Q)
    (hf : ∀ m' a, Q m' a → (f a).Keeps c m' R) : (p >>= f).Keeps c m R :=
  keeps_bind.mpr (hp.mono hf)

end Prog

/-! ### Threads -/

/-- A program under way, with what it has done so far. -/
structure Thread (Op : Type) (Ans : Op → Type) (M : Type u) (α : Type) where
  ghost : M
  prog : Prog Op Ans α

/-- The thread keeps its contract from here on. -/
def Thread.Keeps {Op : Type} {Ans : Op → Type} {M : Type u} {α : Type} (t : Thread Op Ans M α)
    (c : Contract Op Ans M) (Q : M → α → Prop) : Prop :=
  t.prog.Keeps c t.ghost Q

/-! ### Runs -/

/-- States reached by steps from an initial state. -/
def Reachable {S : Type u} (init : S → Prop) (step : S → S → Prop) (s : S) : Prop :=
  ∃ s₀, init s₀ ∧ Relation.ReflTransGen step s₀ s

namespace Reachable

variable {S : Type u} {init : S → Prop} {step : S → S → Prop}

/-- Initial states are reached. -/
theorem base {s : S} (h : init s) : Reachable init step s := ⟨s, h, .refl⟩

/-- A step from a reached state reaches its target. -/
theorem tail {s t : S} (h : Reachable init step s) (hs : step s t) : Reachable init step t := by
  obtain ⟨s₀, h₀, hr⟩ := h
  exact ⟨s₀, h₀, hr.tail hs⟩

/-- What holds initially and is kept by every step between reached states holds throughout. -/
theorem induct {P : S → Prop} {s : S} (h : Reachable init step s) (h₀ : ∀ s, init s → P s)
    (hs : ∀ s t, Reachable init step s → P s → step s t → P t) : P s := by
  obtain ⟨s₀, hi, hr⟩ := h
  induction hr with
  | refl => exact h₀ s₀ hi
  | tail hab hbc ih => exact hs _ _ ⟨s₀, hi, hab⟩ ih hbc

end Reachable
end PtySpec.Lib
