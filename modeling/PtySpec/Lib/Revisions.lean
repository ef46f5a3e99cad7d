import Mathlib.Data.List.Infix

/-!
# Revisions and what is read of them

A component publishes one state after another, and a state's place in the list of all of them
is its revision. A reader is given a view of one of them. The view is fresh if it shows a
state not older than the newest one when the reader began.
-/

namespace PtySpec.Lib

variable {σ α : Type}

/-- The state of a revision, as a reader sees it. -/
def Shows (states : List σ) (rev : Nat) (view : σ → α) (a : α) : Prop :=
  ∃ x, states[rev]? = some x ∧ view x = a

/-- A view of some state that is not older than a revision. -/
def Fresh (states : List σ) (since : Nat) (view : σ → α) (a : α) : Prop :=
  ∃ rev, since ≤ rev ∧ Shows states rev view a

variable {states more : List σ} {rev since : Nat} {view : σ → α} {a : α}

theorem Shows.grow (h : Shows states rev view a) (hp : states <+: more) :
    Shows more rev view a := by
  obtain ⟨x, hx, ha⟩ := h
  obtain ⟨hlt, -⟩ := List.getElem?_eq_some_iff.mp hx
  obtain ⟨rest, rfl⟩ := hp
  exact ⟨x, (List.getElem?_append_left hlt).trans hx, ha⟩

/-- The newest state. -/
theorem shows_last {x : σ} (h : states.getLast? = some x) (view : σ → α) :
    Shows states (states.length - 1) view (view x) :=
  ⟨x, by rwa [← List.getLast?_eq_getElem?], rfl⟩

theorem Shows.fresh (h : Shows states rev view a) (hr : since ≤ rev) :
    Fresh states since view a := ⟨rev, hr, h⟩

theorem Fresh.grow (h : Fresh states since view a) (hp : states <+: more) :
    Fresh more since view a := h.imp fun _ ⟨hr, hs⟩ ↦ ⟨hr, hs.grow hp⟩

/-- What is fresh for a later reader is fresh for an earlier one. -/
theorem Fresh.earlier (h : Fresh states since view a) {began : Nat} (hb : began ≤ since) :
    Fresh states began view a := h.imp fun _ ⟨hr, hs⟩ ↦ ⟨Nat.le_trans hb hr, hs⟩

end PtySpec.Lib
