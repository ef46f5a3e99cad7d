import Mathlib

/-!
# Taking words out of a text

Some words are taken out of a text, and what is on both sides of one then follows each other,
or another text is put in the place of each. The words are such that two of them never
overlap. Where words are taken out, what is left contains a word exactly if the text contains
that word broken up by others.
-/

namespace PtySpec.Lib

universe u

variable {α : Type u}

/-- Somewhere in the text there is such a word. -/
def Has (R : List α → Prop) (text : List α) : Prop := ∃ a q b, text = a ++ q ++ b ∧ R q

/-- Two such words in one text are the same one or do not touch. -/
structure Apart (R : List α → Prop) : Prop where
  nonempty : ∀ {q}, R q → q ≠ []
  apart : ∀ {a q b a' q' b'}, R q → R q' → a ++ q ++ b = a' ++ q' ++ b' →
    (a = a' ∧ q = q') ∨ (∃ m, a' = a ++ q ++ m) ∨ ∃ m, a = a' ++ q' ++ m

/-- Such words are replaced, and nothing else. -/
structure Replaces (R : List α → Prop) (g f : List α → List α) : Prop where
  swap : ∀ x {q} y, R q → f (x ++ q ++ y) = f x ++ g q ++ f y
  keep : ∀ {x}, ¬ Has R x → f x = x

/-- Such words are taken out, and nothing else. -/
structure Excises (R : List α → Prop) (f : List α → List α) : Prop where
  cut : ∀ x {q} y, R q → f (x ++ q ++ y) = f x ++ f y
  keep : ∀ {x}, ¬ Has R x → f x = x

/-- The second text is the first one with words put in. -/
inductive Filled (R : List α → Prop) : List α → List α → Prop where
  | nil : Filled R [] []
  | cons (x : α) {s t : List α} (h : Filled R s t) : Filled R (x :: s) (x :: t)
  | word {q s t : List α} (hq : R q) (h : Filled R s t) : Filled R s (q ++ t)

/-- Somewhere in the text there is a word of one kind, broken up by words of another: they
were put in between its first symbol and its last one. -/
def BrokenUp (R Q : List α → Prop) (text : List α) : Prop :=
  ∃ pre b s t c post, text = pre ++ b :: (t ++ c :: post) ∧ Q (b :: (s ++ [c])) ∧
    Filled R s t ∧ s ≠ t

variable {R Q : List α → Prop} {f g : List α → List α}

theorem Has.append {x : List α} (h : Has R x) (a b : List α) : Has R (a ++ x ++ b) := by
  obtain ⟨u, q, v, rfl, hq⟩ := h
  exact ⟨a ++ u, q, v ++ b, by simp, hq⟩

theorem BrokenUp.append {x : List α} (h : BrokenUp R Q x) (a b : List α) :
    BrokenUp R Q (a ++ x ++ b) := by
  obtain ⟨pre, c, s, t, d, post, rfl, hq, hf, hne⟩ := h
  exact ⟨a ++ pre, c, s, t, d, post ++ b, by simp, hq, hf, hne⟩

namespace Filled

variable {s t s' t' : List α}

theorem refl (s : List α) : Filled R s s := by
  induction s with
  | nil => exact .nil
  | cons x s ih => exact .cons x ih

theorem append (h : Filled R s t) (h' : Filled R s' t') : Filled R (s ++ s') (t ++ t') := by
  induction h with
  | nil => exact h'
  | cons x _ ih => exact .cons x ih
  | word hq _ ih =>
    rw [List.append_assoc]
    exact .word hq ih

theorem length_le (h : Filled R s t) : s.length ≤ t.length := by
  induction h with
  | nil => exact Nat.le_refl _
  | cons x _ ih => exact Nat.succ_le_succ ih
  | word _ _ ih =>
    rw [List.length_append]
    omega

/-- A symbol of the first text is somewhere in the second one. -/
theorem split {x : α} (h : Filled R (s ++ x :: s') t) :
    ∃ u v, t = u ++ x :: v ∧ Filled R s u ∧ Filled R s' v := by
  generalize hw : s ++ x :: s' = w at h
  induction h generalizing s with
  | nil => exact absurd hw (by simp)
  | @cons y w t h ih =>
    cases s with
    | nil =>
      obtain ⟨rfl, rfl⟩ := List.cons.inj hw
      exact ⟨[], t, rfl, .nil, h⟩
    | cons z s =>
      obtain ⟨rfl, hs⟩ := List.cons.inj hw
      obtain ⟨u, v, rfl, hu, hv⟩ := ih hs
      exact ⟨z :: u, v, rfl, .cons z hu, hv⟩
  | @word q w t hq _ ih =>
    obtain ⟨u, v, rfl, hu, hv⟩ := ih hw
    exact ⟨q ++ u, v, by simp, .word hq hu, hv⟩

end Filled

/-! ### Around a word that is replaced -/

namespace Replaces

variable (hf : Replaces R g f)

include hf

/-- The first part of a word stays, whatever is in front of it. -/
theorem append_first (hR : Apart R) {u v : List α} (h : R (u ++ v)) (hv : v ≠ [])
    (a : List α) : f (a ++ u) = f a ++ u := by
  induction hn : a.length using Nat.strong_induction_on generalizing a with
  | _ n ih =>
    by_cases hh : Has R (a ++ u)
    · obtain ⟨x, q, y, he, hq⟩ := hh
      have hpos := List.length_pos_of_ne_nil (hR.nonempty hq)
      have hvpos := List.length_pos_of_ne_nil hv
      have hl := congrArg List.length he
      have he' : a ++ (u ++ v) ++ [] = x ++ q ++ (y ++ v) := by
        rw [List.append_nil, ← List.append_assoc, he, List.append_assoc _ y v]
      simp only [List.length_append] at hl
      obtain ⟨rfl, hqe⟩ | ⟨m, rfl⟩ | ⟨m, rfl⟩ := hR.apart h hq he'
      · have hql := congrArg List.length hqe
        simp only [List.length_append] at hql
        omega
      · simp only [List.length_append] at hl
        omega
      · simp only [List.length_append] at hn
        have hm := ih m.length (by omega) m rfl
        rw [List.append_assoc _ m u, hf.swap x _ hq, hf.swap x _ hq, hm]
        simp only [List.append_assoc]
    · have ha : ¬ Has R a := fun ha ↦ hh (by simpa using ha.append [] u)
      rw [hf.keep hh, hf.keep ha]

/-- The last part of a word stays, whatever follows it. -/
theorem last_append (hR : Apart R) {u v : List α} (h : R (u ++ v)) (hu : u ≠ [])
    (b : List α) : f (v ++ b) = v ++ f b := by
  induction hn : b.length using Nat.strong_induction_on generalizing b with
  | _ n ih =>
    by_cases hh : Has R (v ++ b)
    · obtain ⟨x, q, y, he, hq⟩ := hh
      have hpos := List.length_pos_of_ne_nil (hR.nonempty hq)
      have hupos := List.length_pos_of_ne_nil hu
      have hl := congrArg List.length he
      have he' : [] ++ (u ++ v) ++ b = (u ++ x) ++ q ++ y := by
        rw [List.nil_append, List.append_assoc, he]
        simp
      simp only [List.length_append] at hl
      obtain ⟨hne, -⟩ | ⟨m, hm⟩ | ⟨m, hm⟩ := hR.apart h hq he'
      · exact absurd (List.append_eq_nil_iff.mp hne.symm).1 hu
      · rw [List.nil_append, List.append_assoc] at hm
        obtain rfl := List.append_cancel_left hm
        rw [List.append_assoc, List.append_assoc] at he
        obtain rfl := List.append_cancel_left he
        simp only [List.length_append] at hn
        rw [← List.append_assoc] at he ⊢
        rw [← List.append_assoc, ← List.append_assoc, hf.swap _ _ hq, hf.swap _ _ hq,
          ih m.length (by omega) m rfl]
        simp only [List.append_assoc]
      · have hml := congrArg List.length hm
        simp only [List.length_append, List.length_nil] at hml
        omega
    · have hb : ¬ Has R b := fun hb ↦ hh (by simpa using hb.append v [])
      rw [hf.keep hh, hf.keep hb]

end Replaces

/-! ### Around a word -/

namespace Excises

variable (hf : Excises R f)

include hf

theorem replaces : Replaces R (fun _ ↦ []) f where
  swap x {q} y hq := by rw [List.append_nil, hf.cut x y hq]
  keep := hf.keep

/-- What was taken out can be put in again. -/
theorem filled (hR : Apart R) (x : List α) : Filled R (f x) x := by
  induction hn : x.length using Nat.strong_induction_on generalizing x with
  | _ n ih =>
    by_cases h : Has R x
    · obtain ⟨a, q, b, rfl, hq⟩ := h
      have hpos := List.length_pos_of_ne_nil (hR.nonempty hq)
      simp only [List.length_append] at hn
      rw [hf.cut a b hq, List.append_assoc]
      exact (ih a.length (by omega) a rfl).append (.word hq (ih b.length (by omega) b rfl))
    · rw [hf.keep h]
      exact .refl x

theorem length_lt (hR : Apart R) {x : List α} (h : Has R x) : (f x).length < x.length := by
  obtain ⟨a, q, b, rfl, hq⟩ := h
  have hpos := List.length_pos_of_ne_nil (hR.nonempty hq)
  have ha := (hf.filled hR a).length_le
  have hb := (hf.filled hR b).length_le
  rw [hf.cut a b hq]
  simp only [List.length_append]
  omega

/-- Taking words out changes a text exactly if it has one. -/
theorem eq_self_iff (hR : Apart R) {x : List α} : f x = x ↔ ¬ Has R x := by
  constructor
  · intro h hx
    have hl := hf.length_lt hR hx
    rw [h] at hl
    exact Nat.lt_irrefl _ hl
  · exact hf.keep

/-- The middle of a word stays. -/
theorem middle (hR : Apart R) {u v w : List α} (h : R (u ++ v ++ w)) (hu : u ≠ []) :
    f v = v := by
  have hv := hf.replaces.last_append hR (u := u) (v := v ++ w) (by rwa [← List.append_assoc]) hu []
  refine hf.keep fun hh ↦ ?_
  have hl := hf.length_lt hR (by simpa using hh.append [] (w ++ []))
  rw [← List.append_assoc, hv] at hl
  simp only [List.length_append, List.length_nil] at hl
  omega

/-- The rest of a word, broken up, is joined again. -/
private theorem rejoin (hR : Apart R) {x w s t : List α} {c : α} (b : List α)
    (hx : x ≠ []) (h : R (x ++ w ++ s ++ [c])) (hs : Filled R s t) :
    f (w ++ t ++ c :: b) = w ++ s ++ c :: f b := by
  induction hs generalizing x w with
  | nil =>
    have hl := hf.replaces.last_append hR (u := x) (v := w ++ [c]) (by simpa using h) hx b
    simpa using hl
  | @cons y s t _ ih =>
    have hi := ih (x := x) (w := w ++ [y]) hx (by simpa using h)
    simpa using hi
  | @word q s t hq _ ih =>
    have hi := ih (x := x ++ w) (w := []) (by simp [hx]) (by simpa using h)
    have hm := hf.middle hR (u := x) (v := w) (w := s ++ [c]) (by simpa using h) hx
    rw [← List.append_assoc w q t, List.append_assoc (w ++ q), hf.cut w _ hq, hm]
    simpa using hi

/-- A word broken up by others is joined. -/
private theorem joined (hR : Apart R) {w s t : List α} {b c : α} (pre post : List α)
    (h : R (b :: (w ++ s ++ [c]))) (hs : Filled R s t) (hne : s ≠ t) :
    f (pre ++ b :: (w ++ t ++ c :: post)) = f pre ++ b :: (w ++ s ++ c :: f post) := by
  induction hs generalizing w with
  | nil => exact absurd rfl hne
  | @cons y s t _ ih =>
    have hi := ih (w := w ++ [y]) (by simpa using h) (fun he ↦ hne (congrArg _ he))
    simpa using hi
  | @word q s t hq hs _ =>
    have hj := hf.rejoin hR (x := b :: w) (w := []) post (by simp) (by simpa using h) hs
    have hp :=
      hf.replaces.append_first hR (u := b :: w) (v := s ++ [c]) (by simpa using h) (by simp) pre
    have hc := hf.cut (pre ++ b :: w) (t ++ c :: post) hq
    rw [hp, List.nil_append, List.nil_append] at *
    simpa [hj] using hc

/-- A word across a place where one was taken out was broken up. -/
private theorem brokenUp_across (hR : Apart R) {y q z a k m b : List α} (hq : R q)
    (hy : f y = a ++ k) (hz : f z = m ++ b) (hk : k ≠ []) (hm : m ≠ []) (h : Q (k ++ m)) :
    BrokenUp R Q (y ++ q ++ z) := by
  obtain ⟨first, k, rfl⟩ := List.exists_cons_of_ne_nil hk
  obtain ⟨m, last, rfl⟩ := List.eq_nil_or_concat' m |>.resolve_left hm
  have hfy := hf.filled hR y
  have hfz := hf.filled hR z
  rw [hy] at hfy
  rw [hz, List.append_assoc, List.singleton_append] at hfz
  obtain ⟨pre, t, rfl, -, ht⟩ := hfy.split
  obtain ⟨t', post, rfl, ht', -⟩ := hfz.split
  refine ⟨pre, first, k ++ m, t ++ (q ++ t'), last, post, by simp, by simpa using h,
    ht.append (.word hq ht'), fun he ↦ ?_⟩
  have hl := congrArg List.length he
  have hpos := List.length_pos_of_ne_nil (hR.nonempty hq)
  have hlt := ht.length_le
  have hlt' := ht'.length_le
  simp only [List.length_append] at hl
  omega

/-- A word in what is left was broken up. -/
private theorem brokenUp_of_has (hR : Apart R) (hQ : ∀ {q}, Q q → R q) {x : List α}
    (h : Has Q (f x)) : BrokenUp R Q x := by
  induction hn : x.length using Nat.strong_induction_on generalizing x with
  | _ n ih =>
    by_cases hx : Has R x
    · obtain ⟨y, q, z, rfl, hq⟩ := hx
      have hpos := List.length_pos_of_ne_nil (hR.nonempty hq)
      simp only [List.length_append] at hn
      have hfirst : Has Q (f y) → BrokenUp R Q (y ++ q ++ z) := fun hy ↦ by
        simpa using (ih y.length (by omega) hy rfl).append [] (q ++ z)
      have hsecond : Has Q (f z) → BrokenUp R Q (y ++ q ++ z) := fun hz ↦ by
        simpa using (ih z.length (by omega) hz rfl).append (y ++ q) []
      rw [hf.cut y z hq] at h
      obtain ⟨a, w, b, he, hw⟩ := h
      -- the word lies in the first part, in the second one, or across both
      obtain ⟨m, hm, hz⟩ | ⟨m, hy, hb⟩ := List.append_eq_append_iff.mp he
      · obtain ⟨k, hk, rfl⟩ | ⟨k, rfl, rfl⟩ := List.append_eq_append_iff.mp hm
        · by_cases hke : k = []
          · subst hke
            exact hsecond ⟨[], m, b, by simpa using hz, by simpa using hw⟩
          · by_cases hme : m = []
            · subst hme
              exact hfirst ⟨a, k, [], by simpa using hk, by simpa using hw⟩
            · exact hf.brokenUp_across hR hq hk hz hke hme hw
        · exact hsecond ⟨k, w, b, hz, hw⟩
      · exact hfirst ⟨a, w, m, hy, hw⟩
    · rw [hf.keep hx] at h
      obtain ⟨a, w, b, rfl, hw⟩ := h
      exact absurd ⟨a, w, b, rfl, hQ hw⟩ hx

/-- What is left has a word exactly if the text has one broken up. -/
theorem has_iff_brokenUp (hR : Apart R) (hQ : ∀ {q}, Q q → R q) {x : List α} :
    Has Q (f x) ↔ BrokenUp R Q x := by
  refine ⟨hf.brokenUp_of_has hR hQ, ?_⟩
  rintro ⟨pre, b, s, t, c, post, rfl, hw, hs, hne⟩
  have hj := hf.joined hR (w := []) pre post (by simpa using hQ hw) hs hne
  refine ⟨f pre, b :: (s ++ [c]), f post, ?_, hw⟩
  simpa using hj

end Excises

end PtySpec.Lib
