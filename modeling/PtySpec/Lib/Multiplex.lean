import Mathlib.Data.List.Basic

/-!
# Machines that one loop runs in rounds

In each round the loop starts every machine, ends when all of them are done or the round is the
last, and serves every machine. A machine that is done stays as it is, so each machine runs as it
would alone.
-/

namespace PtySpec.Lib

universe u v

/-- A loop that runs machines with states in `S` in rounds `ρ`. -/
structure Multiplexer (ρ : Type u) (S : Type v) where
  start : ρ → S → S
  serve : ρ → S → S
  done : S → Bool
  last : ρ → Bool
  start_done : ∀ {s}, done s = true → ∀ r, start r s = s
  serve_done : ∀ {s}, done s = true → ∀ r, serve r s = s

namespace Multiplexer

variable {ρ : Type u} {S : Type v} (m : Multiplexer ρ S)

/-- The loop over the rounds. -/
def run : List ρ → List S → List S
  | [], ss => ss
  | r :: rs, ss =>
    let started := ss.map (m.start r)
    if started.all m.done || m.last r then started else run rs (started.map (m.serve r))

/-- One machine in the rounds, up to the last one. -/
def runOne : List ρ → S → S
  | [], s => s
  | r :: rs, s => if m.last r then m.start r s else runOne rs (m.serve r (m.start r s))

/-- The rounds before the last one, in which machines are served. -/
def served (rs : List ρ) : List ρ := rs.takeWhile fun r ↦ !m.last r

theorem runOne_of_done {s : S} (h : m.done s = true) (rs : List ρ) : m.runOne rs s = s := by
  induction rs with
  | nil => rfl
  | cons r rs ih => rw [runOne, m.start_done h, m.serve_done h, ih, ite_self]

/-- Each machine runs as it would alone. -/
theorem run_eq (rs : List ρ) (ss : List S) : m.run rs ss = ss.map (m.runOne rs) := by
  induction rs generalizing ss with
  | nil => simp [run, runOne]
  | cons r rs ih =>
    rw [run]
    by_cases hl : m.last r = true
    · simp [hl, runOne]
    · by_cases ha : ((ss.map (m.start r)).all m.done) = true
      · have hdone : ∀ s ∈ ss, m.runOne (r :: rs) s = m.start r s := by
          intro s hs
          have hs : m.done (m.start r s) = true :=
            List.all_eq_true.1 ha _ (List.mem_map_of_mem hs)
          rw [runOne, if_neg hl, m.serve_done hs, m.runOne_of_done hs]
        simp only [ha, Bool.true_or, if_true]
        exact List.map_congr_left fun s hs ↦ (hdone s hs).symm
      · simp [ha, hl, ih, runOne]

/-- What every start and every service preserves holds after a run. -/
theorem runOne_keeps {P : S → Prop} (hstart : ∀ r s, P s → P (m.start r s))
    (hserve : ∀ r s, P s → P (m.serve r s)) (rs : List ρ) {s : S} (hs : P s) :
    P (m.runOne rs s) := by
  induction rs generalizing s with
  | nil => exact hs
  | cons r rs ih =>
    rw [runOne]
    split
    · exact hstart r s hs
    · exact ih (hserve r _ (hstart r s hs))

/-- A machine that has less left after each round of a kind, and never more, has nothing left
after as many rounds of the kind as it had left. -/
theorem runOne_finishes {P : S → Prop} {left : S → Nat} {good : ρ → Bool}
    (hstart : ∀ r s, P s → P (m.start r s) ∧ left (m.start r s) ≤ left s)
    (hserve : ∀ r s, P s → P (m.serve r s) ∧ left (m.serve r s) ≤ left s)
    (hgood : ∀ r s, P s → m.last r = false → good r = true → 0 < left s →
      left (m.serve r (m.start r s)) < left s)
    (rs : List ρ) {s : S} (hs : P s) (hleft : left s ≤ (m.served rs).countP good) :
    P (m.runOne rs s) ∧ left (m.runOne rs s) = 0 := by
  induction rs generalizing s with
  | nil => exact ⟨hs, Nat.le_zero.1 hleft⟩
  | cons r rs ih =>
    have hstarted := hstart r s hs
    have hserved := hserve r _ hstarted.1
    rw [runOne]
    split
    · next hl =>
      have hnone : left s = 0 := by simpa [served, hl] using hleft
      exact ⟨hstarted.1, by omega⟩
    · next hl =>
      have hl : m.last r = false := by simpa using hl
      refine ih hserved.1 ?_
      have hcount : (m.served (r :: rs)).countP good =
          (m.served rs).countP good + if good r = true then 1 else 0 := by
        simp [served, hl, List.countP_cons]
      rw [hcount] at hleft
      split at hleft
      · next hg =>
        by_cases hzero : left s = 0
        · omega
        · have hless := hgood r s hs hl hg (Nat.pos_of_ne_zero hzero)
          omega
      · omega

end Multiplexer

end PtySpec.Lib
