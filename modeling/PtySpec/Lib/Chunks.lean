import Mathlib

/-!
# Chunks of a list

Pieces of a given length, the last one shorter, and how long a text is that puts
something around each of them.
-/

namespace PtySpec.Lib

universe u v

variable {α : Type u} {β : Type v}

/-- Pieces of `n` items, and what is left as the last piece. -/
def chunks (n : Nat) : List α → List (List α)
  | [] => []
  | x :: xs => (x :: xs.take (n - 1)) :: chunks n (xs.drop (n - 1))
termination_by xs => xs.length
decreasing_by simp

@[simp] theorem chunks_nil (n : Nat) : chunks n ([] : List α) = [] := by
  rw [chunks]

@[simp] theorem chunks_cons (n : Nat) (x : α) (xs : List α) :
    chunks n (x :: xs) = (x :: xs.take (n - 1)) :: chunks n (xs.drop (n - 1)) := by
  rw [chunks]

/-- The pieces are the list. -/
theorem flatten_chunks (n : Nat) (xs : List α) : (chunks n xs).flatten = xs := by
  induction xs using chunks.induct n with
  | case1 => simp
  | case2 x xs ih => simp [ih]

/-- No piece is longer than it may be, nor than the list. -/
theorem length_le_of_mem_chunks {n : Nat} (hn : 0 < n) {xs chunk : List α}
    (h : chunk ∈ chunks n xs) : chunk.length ≤ min xs.length n := by
  induction xs using chunks.induct n with
  | case1 => simp at h
  | case2 x xs ih =>
    rw [chunks_cons, List.mem_cons] at h
    rcases h with rfl | h
    · simp only [List.length_cons, List.length_take]
      omega
    · have := ih h
      simp only [List.length_cons, List.length_drop] at this ⊢
      omega

/-- The first piece is as long as it can be. -/
theorem chunks_eq_take_cons {n : Nat} (hn : 0 < n) {xs : List α} (hx : xs ≠ []) :
    chunks n xs = xs.take n :: chunks n (xs.drop n) := by
  obtain ⟨x, xs, rfl⟩ := List.exists_cons_of_ne_nil hx
  obtain ⟨n, rfl⟩ := Nat.exists_eq_add_one.mpr hn
  rw [chunks_cons]
  rfl

/-- There are as many pieces as the rounded up quotient of the lengths. -/
theorem length_chunks {n : Nat} (hn : 0 < n) (xs : List α) :
    (chunks n xs).length = (xs.length + n - 1) / n := by
  induction xs using chunks.induct n with
  | case1 =>
    simp only [chunks_nil, List.length_nil, Nat.zero_add]
    exact (Nat.div_eq_of_lt (by omega)).symm
  | case2 x xs ih =>
    rw [chunks_cons, List.length_cons, ih, List.length_drop, List.length_cons,
      show xs.length + 1 + n - 1 = xs.length + n by omega, Nat.add_div_right _ hn]
    by_cases h : n - 1 ≤ xs.length
    · rw [show xs.length - (n - 1) + n - 1 = xs.length by omega]
    · rw [Nat.div_eq_of_lt (by omega), Nat.div_eq_of_lt (by omega)]

/-- The length of pieces that each become a text of one length. -/
theorem length_flatMap_const (f : α → List β) {k : Nat} (hf : ∀ x, (f x).length = k)
    (xs : List α) : (xs.flatMap f).length = k * xs.length := by
  simp [List.length_flatMap, hf, Nat.mul_comm]

end PtySpec.Lib
