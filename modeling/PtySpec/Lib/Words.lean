import Mathlib

/-!
# Words between separators

The pieces of a list between separators, the empty ones left out: what joins them again, and the
ways to write one separator for several that keep them.
-/

namespace PtySpec.Lib

universe u

variable {α : Type u}

/-! ### Joined words -/

theorem mem_intercalate {sep x : α} {w : List α} {ws : List (List α)} (hw : w ∈ ws) (hx : x ∈ w) :
    x ∈ [sep].intercalate ws := by
  induction ws with
  | nil => cases hw
  | cons v ws ih =>
    cases ws with
    | nil => simpa [List.mem_singleton.mp hw] using hx
    | cons v' ws =>
      rw [List.intercalate_cons_cons, List.append_assoc]
      obtain rfl | hw := List.mem_cons.mp hw
      · exact List.mem_append_left _ hx
      · exact List.mem_append_right _ (List.mem_append_right _ (ih hw))

/-- What is in a joined list is the separator or in a word. -/
theorem eq_or_mem_of_mem_intercalate {sep x : α} {ws : List (List α)}
    (h : x ∈ [sep].intercalate ws) : x = sep ∨ ∃ w ∈ ws, x ∈ w := by
  induction ws with
  | nil => cases h
  | cons w ws ih =>
    cases ws with
    | nil => exact .inr ⟨w, List.mem_cons_self, by simpa using h⟩
    | cons v ws =>
      rw [List.intercalate_cons_cons, List.mem_append, List.mem_append, List.mem_singleton] at h
      obtain (h | h) | h := h
      · exact .inr ⟨w, List.mem_cons_self, h⟩
      · exact .inl h
      · exact (ih h).imp_right fun ⟨v, hv, hx⟩ ↦ ⟨v, List.mem_cons_of_mem _ hv, hx⟩

theorem not_mem_intercalate {sep x : α} {ws : List (List α)} (hs : x ≠ sep)
    (h : ∀ w ∈ ws, x ∉ w) : x ∉ [sep].intercalate ws := by
  intro hm
  obtain he | ⟨w, hw, hx⟩ := eq_or_mem_of_mem_intercalate hm
  · exact hs he
  · exact h w hw hx

theorem length_intercalate {ws : List (List α)} (hne : ws ≠ []) (sep : α) :
    ([sep].intercalate ws).length + 1 = (ws.map fun w ↦ w.length + 1).sum := by
  induction ws with
  | nil => exact absurd rfl hne
  | cons w ws ih =>
    cases ws with
    | nil => simp
    | cons v ws =>
      have hi := ih (List.cons_ne_nil v ws)
      rw [List.map_cons, List.sum_cons, ← hi, List.intercalate_cons_cons]
      simp only [List.length_append, List.length_singleton]
      omega

/-! ### Words -/

variable [DecidableEq α] (sep : α)

/-- The pieces between separators that are not empty. -/
def words (xs : List α) : List (List α) := (xs.splitOn sep).filter (· ≠ [])

theorem words_append_cons (xs ys : List α) :
    words sep (xs ++ sep :: ys) = words sep xs ++ words sep ys := by
  rw [words, List.splitOn_eq_splitOnP,
    List.splitOnP_append_cons (p := (· == sep)) xs ys (beq_self_eq_true sep), List.filter_append]
  rfl

@[simp] theorem words_nil : words sep [] = [] := rfl

@[simp] theorem words_cons_self (xs : List α) : words sep (sep :: xs) = words sep xs :=
  words_append_cons sep [] xs

theorem words_append_self (xs : List α) : words sep (xs ++ [sep]) = words sep xs := by
  rw [words_append_cons, words_nil, List.append_nil]

variable {sep}

theorem words_of_notMem {xs : List α} (h : sep ∉ xs) (hne : xs ≠ []) : words sep xs = [xs] := by
  have hsplit : xs.splitOn sep = [xs] := by
    rw [List.splitOn_eq_splitOnP]
    refine List.splitOnP_eq_singleton fun x hx ↦ ?_
    rw [beq_eq_false_iff_ne]
    exact fun he ↦ h (he ▸ hx)
  rw [words, hsplit, List.filter_singleton, decide_eq_true hne]
  rfl

/-- A piece up to a separator is the first word. -/
theorem words_word {w : List α} (h : sep ∉ w) (hne : w ≠ []) (xs : List α) :
    words sep (w ++ sep :: xs) = w :: words sep xs := by
  rw [words_append_cons, words_of_notMem h hne]
  rfl

/-- Words that were joined are read again. -/
theorem words_intercalate {ws : List (List α)} (h : ∀ w ∈ ws, w ≠ [] ∧ sep ∉ w) :
    words sep ([sep].intercalate ws) = ws := by
  by_cases hne : ws = []
  · subst hne
    rfl
  · rw [words, List.splitOn_intercalate sep (fun w hw ↦ (h w hw).2) hne, List.filter_eq_self]
    exact fun w hw ↦ decide_eq_true (h w hw).1

/-- A list that begins with no separator is a word and what follows it. -/
private theorem exists_word {xs : List α} (hne : xs ≠ []) (hhead : xs.head? ≠ some sep) :
    ∃ w, w ≠ [] ∧ sep ∉ w ∧ (xs = w ∨ ∃ ys, xs = w ++ sep :: ys) := by
  induction xs with
  | nil => exact absurd rfl hne
  | cons x xs ih =>
    have hx : x ≠ sep := fun he ↦ hhead (congrArg some he)
    by_cases hxs : xs = []
    · exact ⟨[x], List.cons_ne_nil _ _, by simpa using Ne.symm hx, .inl (by rw [hxs])⟩
    · by_cases hs : xs.head? = some sep
      · obtain ⟨ys, rfl⟩ := List.head?_eq_some_iff.mp hs
        exact ⟨[x], List.cons_ne_nil _ _, by simpa using Ne.symm hx, .inr ⟨ys, rfl⟩⟩
      · obtain ⟨w, -, hw, hcases⟩ := ih hxs hs
        refine ⟨x :: w, List.cons_ne_nil _ _, ?_, ?_⟩
        · exact fun hm ↦ (List.mem_cons.mp hm).elim (fun he ↦ hx he.symm) hw
        · exact hcases.imp (congrArg (x :: ·)) fun ⟨ys, hy⟩ ↦ ⟨ys, congrArg (x :: ·) hy⟩

theorem not_mem_of_mem_splitOn {xs : List α} : ∀ w ∈ xs.splitOn sep, sep ∉ w := by
  induction xs with
  | nil => simp
  | cons x xs ih =>
    rw [List.splitOn_cons_eq_if_modifyHead]
    split
    · next h =>
      rw [List.forall_mem_cons]
      exact ⟨List.not_mem_nil, ih⟩
    · next h =>
      obtain ⟨w, ws, hw⟩ := List.exists_cons_of_ne_nil (List.splitOn_ne_nil sep xs)
      rw [hw, List.forall_mem_cons] at ih
      rw [hw, List.modifyHead_cons, List.forall_mem_cons]
      refine ⟨fun hm ↦ ?_, ih.2⟩
      obtain rfl | hm := List.mem_cons.mp hm
      · exact h (beq_self_eq_true sep)
      · exact ih.1 hm

theorem mem_words {xs w : List α} (h : w ∈ words sep xs) : w ≠ [] ∧ sep ∉ w := by
  obtain ⟨hm, hne⟩ := List.mem_filter.mp h
  exact ⟨of_decide_eq_true hne, not_mem_of_mem_splitOn w hm⟩

/-- The words hold what is not a separator, in its order. -/
theorem flatten_words (xs : List α) : (words sep xs).flatten = xs.filter (· ≠ sep) := by
  induction xs with
  | nil => rfl
  | cons x xs ih =>
    by_cases hx : x = sep
    · rw [hx, words_cons_self, ih, List.filter_cons_of_neg (by simp)]
    · rw [List.filter_cons_of_pos (by simpa using hx), ← ih]
      unfold words
      rw [List.splitOn_cons_eq_if_modifyHead, if_neg (by simpa using hx)]
      obtain ⟨w, ws, hw⟩ := List.exists_cons_of_ne_nil (List.splitOn_ne_nil sep xs)
      rw [hw, List.modifyHead_cons, List.filter_cons_of_pos (by simp)]
      by_cases hnil : w = []
      · rw [hnil, List.filter_cons_of_neg (by simp)]
        rfl
      · rw [List.filter_cons_of_pos (by simpa using hnil)]
        rfl

theorem eq_of_words_eq_nil {xs : List α} (h : words sep xs = []) {x : α} (hx : x ∈ xs) :
    x = sep := by
  have hnil : (words sep xs).flatten = xs.filter (· ≠ sep) := flatten_words xs
  rw [h, List.flatten_nil] at hnil
  have hnot := List.filter_eq_nil_iff.mp hnil.symm x hx
  simpa using hnot

/-- What a word holds is in the list. -/
theorem mem_of_mem_words {xs w : List α} (h : w ∈ words sep xs) {x : α} (hx : x ∈ w) : x ∈ xs := by
  have hjoin : [sep].intercalate (xs.splitOn sep) = xs := List.intercalate_splitOn sep
  rw [← hjoin]
  exact mem_intercalate (List.mem_filter.mp h).1 hx

/-- Without separators at its ends and two in a row, a list is its words joined. -/
theorem intercalate_words {xs : List α} (hpair : ¬[sep, sep] <:+: xs)
    (hhead : xs.head? ≠ some sep) (hlast : xs.getLast? ≠ some sep) :
    [sep].intercalate (words sep xs) = xs := by
  induction hn : xs.length using Nat.strong_induction_on generalizing xs with
  | _ n ih =>
    by_cases hne : xs = []
    · subst hne
      rfl
    · obtain ⟨w, hw, hsep, rfl | ⟨ys, rfl⟩⟩ := exists_word hne hhead
      · rw [words_of_notMem hsep hw, List.intercalate_singleton]
      · have hys : ys ≠ [] := by
          rintro rfl
          exact hlast (by simp)
        have hinfix : ys <:+: w ++ sep :: ys := ⟨w ++ [sep], [], by simp⟩
        have hjoin := ih ys.length (by rw [← hn]; simp; omega)
          (fun h ↦ hpair (h.trans hinfix)) ?_ ?_ rfl
        · have hwords : words sep ys ≠ [] := by
            intro h
            rw [h] at hjoin
            exact hys hjoin.symm
          obtain ⟨v, vs, hv⟩ := List.exists_cons_of_ne_nil hwords
          rw [words_word hsep hw, hv, List.intercalate_cons_cons, ← hv, hjoin,
            List.append_assoc, List.singleton_append]
        · intro h
          obtain ⟨zs, rfl⟩ := List.head?_eq_some_iff.mp h
          exact hpair ⟨w, zs, by simp⟩
        · intro h
          refine hlast ?_
          rw [List.getLast?_append, List.getLast?_cons, h]
          rfl

/-- A list that ends in no separator ends in its last word. -/
theorem getLast?_splitOn {xs : List α} (hne : xs ≠ []) (hl : xs.getLast? ≠ some sep) :
    (xs.splitOn sep).getLast? = (words sep xs).getLast? := by
  have hlast : ∃ init w, xs.splitOn sep = init ++ [w] ∧ w ≠ [] := by
    induction xs with
    | nil => exact absurd rfl hne
    | cons x xs ih =>
      rw [List.splitOn_cons_eq_if_modifyHead]
      by_cases hxs : xs = []
      · subst hxs
        rw [if_neg (by simpa using hl)]
        exact ⟨[], [x], rfl, List.cons_ne_nil _ _⟩
      · obtain ⟨init, w, hs, hw⟩ := ih hxs (by rwa [List.getLast?_cons_of_ne_nil hxs] at hl)
        rw [hs]
        split
        · exact ⟨[] :: init, w, rfl, hw⟩
        · cases init with
          | nil => exact ⟨[], x :: w, rfl, List.cons_ne_nil _ _⟩
          | cons v init => exact ⟨(x :: v) :: init, w, rfl, hw⟩
  obtain ⟨init, w, hs, hw⟩ := hlast
  rw [words, hs, List.filter_append, List.filter_singleton, decide_eq_true hw,
    List.getLast?_concat]
  exact List.getLast?_concat.symm

variable (sep)

/-- Without the separators at both ends. -/
def trimSep (xs : List α) : List α := (xs.dropWhile (· = sep)).rdropWhile (· = sep)

theorem words_rdropWhile (xs : List α) :
    words sep (xs.rdropWhile (· = sep)) = words sep xs := by
  induction xs using List.reverseRecOn with
  | nil => rfl
  | append_singleton xs x ih =>
    rw [List.rdropWhile_concat]
    split
    · next h =>
      obtain rfl : x = sep := of_decide_eq_true h
      rw [ih, words_append_self]
    · rfl

theorem words_trimSep (xs : List α) : words sep (trimSep sep xs) = words sep xs := by
  have hdrop (xs : List α) : words sep (xs.dropWhile (· = sep)) = words sep xs := by
    induction xs with
    | nil => rfl
    | cons x xs ih =>
      rw [List.dropWhile_cons]
      split
      · next h =>
        obtain rfl : x = sep := of_decide_eq_true h
        rw [ih, words_cons_self]
      · rfl
  rw [trimSep, words_rdropWhile, hdrop]

/-- A list without two separators in a row is, trimmed, its words joined. -/
theorem trimSep_eq {xs : List α} (h : ¬[sep, sep] <:+: xs) :
    trimSep sep xs = [sep].intercalate (words sep xs) := by
  have hsub : trimSep sep xs <:+: xs :=
    (List.rdropWhile_prefix _ _).isInfix.trans (List.dropWhile_suffix _).isInfix
  rw [← words_trimSep]
  refine (intercalate_words (fun hp ↦ h (hp.trans hsub)) ?_ ?_).symm
  · intro hh
    have hpre := List.rdropWhile_prefix (fun x ↦ decide (x = sep)) (xs.dropWhile (· = sep))
    have hd : (xs.dropWhile (· = sep)).head? = some sep := by
      obtain ⟨t, ht⟩ := hpre
      obtain ⟨zs, hz⟩ := List.head?_eq_some_iff.mp hh
      rw [← ht, show List.rdropWhile _ _ = _ from hz]
      rfl
    have hnot := List.head?_dropWhile_not (fun x ↦ decide (x = sep)) xs
    rw [hd] at hnot
    simp at hnot
  · intro hl
    have hne : trimSep sep xs ≠ [] := by
      rintro he
      rw [he] at hl
      cases hl
    have hnot := List.rdropWhile_last_not (fun x ↦ decide (x = sep)) (xs.dropWhile (· = sep)) hne
    rw [List.getLast?_eq_some_getLast hne] at hl
    exact hnot (decide_eq_true (Option.some.inj hl))

/-- One pass that writes one separator for two. -/
def squeeze : List α → List α
  | x :: y :: xs =>
    if x = sep ∧ y = sep then sep :: squeeze xs else x :: squeeze (y :: xs)
  | xs => xs

theorem words_squeeze (xs ys : List α) :
    words sep (ys ++ squeeze sep xs) = words sep (ys ++ xs) := by
  fun_induction squeeze sep xs generalizing ys with
  | case1 x y xs h ih =>
    rw [h.1, h.2, words_append_cons, words_append_cons, words_cons_self,
      ← List.nil_append (squeeze sep xs), ih, List.nil_append]
  | case2 x y xs h ih =>
    have hi := ih (ys ++ [x])
    rw [List.append_assoc, List.append_assoc] at hi
    exact hi
  | case3 xs h => rfl

theorem length_squeeze_le (xs : List α) : (squeeze sep xs).length ≤ xs.length := by
  fun_induction squeeze sep xs with
  | case1 x y xs h ih =>
    simp only [List.length_cons]
    omega
  | case2 x y xs h ih =>
    simp only [List.length_cons] at ih ⊢
    omega
  | case3 xs h => exact Nat.le_refl _

/-- Two separators in a row make the pass shorten the list. -/
theorem length_squeeze_lt {xs : List α} (h : [sep, sep] <:+: xs) :
    (squeeze sep xs).length < xs.length := by
  fun_induction squeeze sep xs with
  | case1 x y xs _ _ =>
    have := length_squeeze_le sep xs
    simp only [List.length_cons]
    omega
  | case2 x y xs hxy ih =>
    have htail : [sep, sep] <:+: y :: xs := by
      obtain h | h := List.infix_cons_iff.mp h
      · obtain ⟨t, ht⟩ := h
        cases ht
        exact absurd ⟨rfl, rfl⟩ hxy
      · exact h
    have := ih htail
    simp only [List.length_cons] at this ⊢
    omega
  | case3 xs hxs =>
    have := h.length_le
    match xs, hxs, this with
    | x :: y :: xs, hxs, _ => exact absurd rfl (hxs x y xs)

/-- An element at the end, but no second separator in a row. -/
def pushSep (out : List α) (x : α) : List α :=
  if x = sep ∧ out.getLast? = some sep then out else out ++ [x]

theorem words_foldl_pushSep (xs out : List α) :
    words sep (xs.foldl (pushSep sep) out) = words sep (out ++ xs) := by
  induction xs generalizing out with
  | nil => rw [List.foldl_nil, List.append_nil]
  | cons x xs ih =>
    rw [List.foldl_cons, ih]
    unfold pushSep
    split
    · next h =>
      obtain ⟨rfl, hl⟩ := h
      obtain ⟨out, rfl⟩ := List.getLast?_eq_some_iff.mp hl
      rw [List.append_assoc, List.append_assoc, List.singleton_append, List.singleton_append,
        words_append_cons, words_append_cons, words_cons_self]
    · rw [List.append_assoc]
      rfl

theorem not_pair_foldl_pushSep (xs : List α) {out : List α} (h : ¬[sep, sep] <:+: out) :
    ¬[sep, sep] <:+: xs.foldl (pushSep sep) out := by
  induction xs generalizing out with
  | nil => exact h
  | cons x xs ih =>
    refine ih ?_
    unfold pushSep
    split
    · exact h
    · next hx =>
      intro hp
      obtain hp | hp := List.infix_concat_iff.mp hp
      · obtain hp | ⟨t, ht, hs⟩ := List.suffix_concat_iff.mp hp
        · cases hp
        · have ht' : [sep] ++ [sep] = t ++ [x] := ht
          obtain ⟨rfl, hx'⟩ := List.append_inj' ht' rfl
          obtain ⟨u, rfl⟩ := hs
          exact hx ⟨(List.cons.inj hx').1.symm, by simp⟩
      · exact h hp

end PtySpec.Lib
