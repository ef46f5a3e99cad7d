import Mathlib

/-!
# Serial histories

Operations that took effect one after the other, each with the state it saw and the state it
left: every one saw what the one before it left. What an observation of the state comes to
after some of them is decided by the last that did not leave the observation as it was.
-/

namespace PtySpec.Lib

universe u v w

/-- An operation's state before and after it. -/
structure Passage (ε : Type u) (σ : Type v) where
  saw : ε → σ
  left : ε → σ

namespace Passage

variable {ε : Type u} {σ : Type v} {ο : Type w} (P : Passage ε σ)

/-- The state after some operations. -/
def leftBy (init : σ) (l : List ε) : σ := (l.getLast?.map P.left).getD init

/-- Each operation saw the state that those before it left. -/
def Serial (init : σ) (l : List ε) : Prop :=
  ∀ pre e post, l = pre ++ e :: post → P.saw e = P.leftBy init pre

@[simp] theorem leftBy_nil (init : σ) : P.leftBy init [] = init := rfl

@[simp] theorem leftBy_concat (init : σ) (l : List ε) (e : ε) :
    P.leftBy init (l ++ [e]) = P.left e := by
  simp [leftBy]

theorem serial_nil (init : σ) : P.Serial init [] := by
  intro pre e post h
  simp at h

variable {P}

theorem Serial.concat {init : σ} {l : List ε} {e : ε} (h : P.Serial init l)
    (he : P.saw e = P.leftBy init l) : P.Serial init (l ++ [e]) := by
  intro pre d post hl
  obtain rfl | ⟨post, x, rfl⟩ := List.eq_nil_or_concat' post
  · obtain ⟨rfl, hd⟩ := List.append_inj' hl rfl
    obtain rfl := List.singleton_inj.mp hd
    exact he
  · rw [← List.cons_append, ← List.append_assoc] at hl
    exact h pre d post (List.append_inj' hl rfl).1

/-- A history's beginning is a history. -/
theorem Serial.left {init : σ} {l m : List ε} (h : P.Serial init (l ++ m)) :
    P.Serial init l := by
  rintro pre e post rfl
  refine h pre e (post ++ m) ?_
  rw [List.append_assoc, List.cons_append]

/-- What operations after one of them leave as they find it is as that one left it. -/
theorem Serial.kept {init : σ} {pre post : List ε} {e : ε}
    (h : P.Serial init (pre ++ e :: post)) (obs : σ → ο)
    (hp : ∀ d ∈ post, obs (P.left d) = obs (P.saw d)) :
    obs (P.leftBy init (pre ++ e :: post)) = obs (P.left e) := by
  induction post using List.reverseRecOn with
  | nil => rw [leftBy_concat]
  | append_singleton post d ih =>
    rw [← List.cons_append, ← List.append_assoc] at h ⊢
    have hd : P.saw d = P.leftBy init (pre ++ e :: post) := h _ d [] rfl
    rw [leftBy_concat, hp d (by simp), hd]
    exact ih h.left fun x hx ↦ hp x (List.mem_append_left _ hx)

end Passage
end PtySpec.Lib
