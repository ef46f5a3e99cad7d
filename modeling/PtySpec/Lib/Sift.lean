import Mathlib

/-!
# Lists sifted round by round

A list whose elements are each tested in turn, with the tests numbered through, and the rounds
of such tests that each go over what the round before left. An element stays exactly when every
test of it holds.
-/

namespace PtySpec.Lib

universe u

variable {α : Type u}

/-- What is left when every element is tested once, from test `n` on. -/
def sift (test : Nat → α → Bool) : Nat → List α → List α
  | _, [] => []
  | n, x :: xs => if test n x then x :: sift test (n + 1) xs else sift test (n + 1) xs

variable {test : Nat → α → Bool}

theorem sift_sublist (n : Nat) (xs : List α) : (sift test n xs).Sublist xs := by
  induction xs generalizing n with
  | nil => exact List.Sublist.slnil
  | cons x xs ih =>
    unfold sift
    split
    · exact (ih (n + 1)).cons_cons x
    · exact (ih (n + 1)).cons x

theorem mem_sift {n : Nat} {xs : List α} {x : α} :
    x ∈ sift test n xs ↔ ∃ i, xs[i]? = some x ∧ test (n + i) x = true := by
  induction xs generalizing n with
  | nil => simp [sift]
  | cons y xs ih =>
    have htail : x ∈ sift test (n + 1) xs ↔
        ∃ i, (y :: xs)[i + 1]? = some x ∧ test (n + (i + 1)) x = true := by
      rw [ih]
      simp only [List.getElem?_cons_succ, Nat.add_comm 1, Nat.add_assoc]
    have hsplit : (∃ i, (y :: xs)[i]? = some x ∧ test (n + i) x = true) ↔
        (y = x ∧ test n x = true) ∨ x ∈ sift test (n + 1) xs := by
      rw [htail]
      constructor
      · rintro ⟨_ | i, hi, ht⟩
        · exact .inl ⟨by simpa using hi, ht⟩
        · exact .inr ⟨i, hi, ht⟩
      · rintro (⟨rfl, ht⟩ | ⟨i, hi, ht⟩)
        · exact ⟨0, rfl, ht⟩
        · exact ⟨i + 1, hi, ht⟩
    rw [hsplit, sift]
    split
    · next ht =>
      rw [List.mem_cons]
      exact or_congr_left ⟨fun h ↦ ⟨h.symm, h ▸ ht⟩, fun h ↦ h.1.symm⟩
    · next ht =>
      refine ⟨.inr, fun h ↦ h.resolve_left ?_⟩
      rintro ⟨rfl, h⟩
      exact ht h

/-- In a list without repetitions an element that is left passed its test. -/
theorem test_of_mem_sift {n : Nat} {xs : List α} (hn : xs.Nodup) {x : α}
    (h : x ∈ sift test n xs) {i : Nat} (hi : xs[i]? = some x) : test (n + i) x = true := by
  obtain ⟨j, hj, ht⟩ := mem_sift.mp h
  obtain ⟨hlt, -⟩ := List.getElem?_eq_some_iff.mp hi
  rwa [(List.getElem?_inj hlt hn).mp (hi.trans hj.symm)]

/-- `Sifted test n xs asked left`: rounds of tests, the first of them test `n`, went over `xs`
and over what was left of it, the elements `asked` in their order, and `left` is what is left
in the end. -/
inductive Sifted (test : Nat → α → Bool) : Nat → List α → List α → List α → Prop
  | done (n : Nat) (xs : List α) : Sifted test n xs [] xs
  | round {n : Nat} {xs asked left : List α}
      (h : Sifted test (n + xs.length) (sift test n xs) asked left) :
      Sifted test n xs (xs ++ asked) left

namespace Sifted

variable {n : Nat} {xs asked left : List α}

theorem sublist (h : Sifted test n xs asked left) : left.Sublist xs := by
  induction h with
  | done => exact List.Sublist.refl _
  | round _ ih => exact ih.trans (sift_sublist _ _)

theorem asked_subset (h : Sifted test n xs asked left) : asked ⊆ xs := by
  induction h with
  | done => exact List.nil_subset _
  | round _ ih =>
    exact List.append_subset.mpr
      ⟨List.Subset.refl _, fun _ hx ↦ (sift_sublist _ _).subset (ih hx)⟩

/-- An element whose tests all hold is left. -/
theorem mem (h : Sifted test n xs asked left) {x : α} (hx : x ∈ xs)
    (ht : ∀ i, asked[i]? = some x → test (n + i) x = true) : x ∈ left := by
  induction h with
  | done => exact hx
  | @round n xs asked left _ ih =>
    obtain ⟨i, hi⟩ := List.getElem?_of_mem hx
    have hlt : i < xs.length := (List.getElem?_eq_some_iff.mp hi).1
    apply ih
    · exact mem_sift.mpr ⟨i, hi, ht i (by rw [List.getElem?_append_left hlt]; exact hi)⟩
    · intro j hj
      rw [Nat.add_assoc]
      apply ht
      rw [List.getElem?_append_right (Nat.le_add_right _ _), Nat.add_sub_cancel_left]
      exact hj

/-- Without repetitions, what is left passed every test of it. -/
theorem test_of_mem (h : Sifted test n xs asked left) (hn : xs.Nodup) {x : α} (hx : x ∈ left)
    {i : Nat} (hi : asked[i]? = some x) : test (n + i) x = true := by
  induction h generalizing i with
  | done => cases hi
  | @round n xs asked left hr ih =>
    by_cases hlt : i < xs.length
    · rw [List.getElem?_append_left hlt] at hi
      exact test_of_mem_sift hn (hr.sublist.subset hx) hi
    · rw [List.getElem?_append_right (by omega)] at hi
      have ht := ih (hn.sublist (sift_sublist _ _)) hx hi
      rwa [Nat.add_assoc, Nat.add_sub_cancel' (by omega)] at ht

end Sifted
end PtySpec.Lib
