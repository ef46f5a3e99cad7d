import PtySpec.Lib.Excision

/-!
# Replacing words in pieces

A text whose words are replaced piece by piece, each piece without what came before it. That
is what replacing the words of the whole text gives exactly if every word that starts in a
piece ends in it. Words that start with a mark and have it nowhere else never overlap, and one
pass from the left replaces them.
-/

namespace PtySpec.Lib

universe u

variable {α : Type u} {R : List α → Prop} {f g : List α → List α}

/-! ### Words over a cut -/

/-- A word lies across the place where two texts meet. -/
def Straddles (R : List α → Prop) (x y : List α) : Prop :=
  ∃ a u v b, x = a ++ u ∧ y = v ++ b ∧ u ≠ [] ∧ v ≠ [] ∧ R (u ++ v)

/-- Every word of a text in pieces that starts in a piece ends in it. -/
def Unsplit (R : List α → Prop) : List (List α) → Prop
  | [] => True
  | piece :: rest => ¬Straddles R piece rest.flatten ∧ Unsplit R rest

private theorem has_append {x y : List α} (h : Has R (x ++ y)) :
    Has R x ∨ Has R y ∨ Straddles R x y := by
  obtain ⟨a, q, b, he, hq⟩ := h
  rw [List.append_assoc] at he
  obtain ⟨m, rfl, hm⟩ | ⟨m, rfl, hm⟩ := List.append_eq_append_iff.mp he
  · exact .inr (.inl ⟨m, q, b, by rw [hm, List.append_assoc], hq⟩)
  · obtain ⟨k, rfl, -⟩ | ⟨k, rfl, hk⟩ := List.append_eq_append_iff.mp hm
    · exact .inl ⟨a, q, k, by rw [List.append_assoc], hq⟩
    · by_cases hm' : m = []
      · subst hm'
        exact .inr (.inl ⟨[], k, b, hk, hq⟩)
      · by_cases hk' : k = []
        · subst hk'
          exact .inl ⟨a, m, [], by simp, by simpa using hq⟩
        · exact .inr (.inr ⟨a, m, k, b, rfl, hk, hm', hk', hq⟩)

namespace Replaces

variable (hf : Replaces R g f)

include hf

theorem nil (hR : Apart R) : f [] = [] :=
  hf.keep fun ⟨_, _, _, he, hq⟩ ↦ hR.nonempty hq
    (List.append_eq_nil_iff.mp (List.append_eq_nil_iff.mp he.symm).1).2

/-- Two texts with no word across them are replaced apart. -/
theorem append_eq (hR : Apart R) {x y : List α} (h : ¬Straddles R x y) :
    f (x ++ y) = f x ++ f y := by
  induction hn : x.length + y.length using Nat.strong_induction_on generalizing x y with
  | _ n ih =>
    by_cases hx : Has R x
    · obtain ⟨a, q, b, rfl, hq⟩ := hx
      have hpos := List.length_pos_of_ne_nil (hR.nonempty hq)
      simp only [List.length_append] at hn
      have hb : f (b ++ y) = f b ++ f y := by
        refine ih (b.length + y.length) (by omega) (fun ⟨a', u, v, c, he, hy, hu, hv, hw⟩ ↦ ?_) rfl
        exact h ⟨a ++ q ++ a', u, v, c, by rw [he]; simp, hy, hu, hv, hw⟩
      rw [List.append_assoc, hf.swap a (b ++ y) hq, hb, hf.swap a b hq]
      simp only [List.append_assoc]
    · by_cases hy : Has R y
      · obtain ⟨a, q, b, rfl, hq⟩ := hy
        have hpos := List.length_pos_of_ne_nil (hR.nonempty hq)
        simp only [List.length_append] at hn
        have ha : f (x ++ a) = f x ++ f a := by
          refine ih (x.length + a.length) (by omega) (fun ⟨c, u, v, a', hx, he, hu, hv, hw⟩ ↦ ?_)
            rfl
          exact h ⟨c, u, v, a' ++ q ++ b, hx, by rw [he]; simp, hu, hv, hw⟩
        have hs : f (x ++ (a ++ q ++ b)) = f (x ++ a) ++ g q ++ f b := by
          rw [← hf.swap (x ++ a) b hq]
          simp only [List.append_assoc]
        rw [hs, ha, hf.swap a b hq]
        simp only [List.append_assoc]
      · have hxy : ¬Has R (x ++ y) := fun hxy ↦ by
          obtain h' | h' | h' := has_append hxy
          · exact hx h'
          · exact hy h'
          · exact h h'
        rw [hf.keep hxy, hf.keep hx, hf.keep hy]

/-- A word across two texts is kept by each of them. -/
theorem straddled (hR : Apart R) {x y : List α} (h : Straddles R x y) :
    ∃ a u v b, R (u ++ v) ∧ f x = a ++ u ∧ f y = v ++ b ∧
      f (x ++ y) = a ++ g (u ++ v) ++ b := by
  obtain ⟨a, u, v, b, rfl, rfl, hu, hv, hq⟩ := h
  refine ⟨f a, u, v, f b, hq, hf.append_first hR hq hv a, hf.last_append hR hq hu b, ?_⟩
  rw [← hf.swap a b hq]
  simp only [List.append_assoc]

/-- Replacing in pieces, where no word is split. -/
theorem flatMap_eq (hR : Apart R) {pieces : List (List α)} (h : Unsplit R pieces) :
    pieces.flatMap f = f pieces.flatten := by
  induction pieces with
  | nil => rw [List.flatten_nil, List.flatMap_nil, hf.nil hR]
  | cons piece rest ih =>
    rw [List.flatten_cons, List.flatMap_cons, hf.append_eq hR h.1, ih h.2]

section Sizes

variable {size : List α → Nat} (hs : ∀ x y, size (x ++ y) = size x + size y)
  (hq : ∀ q, R q → size (g q) < size q)

include hs hq

/-- Replacing in pieces leaves more, if a word is split. -/
theorem size_pieces (hR : Apart R) (pieces : List (List α)) :
    size (f pieces.flatten) ≤ size (pieces.flatMap f) ∧
      (¬Unsplit R pieces → size (f pieces.flatten) < size (pieces.flatMap f)) := by
  induction pieces with
  | nil =>
    rw [List.flatten_nil, List.flatMap_nil, hf.nil hR]
    exact ⟨le_rfl, fun h ↦ absurd trivial h⟩
  | cons piece rest ih =>
    rw [List.flatten_cons, List.flatMap_cons, hs]
    by_cases h : Straddles R piece rest.flatten
    · obtain ⟨a, u, v, b, hw, hp, hr, hpr⟩ := hf.straddled hR h
      have hlt := hq _ hw
      have hle := ih.1
      rw [hr, hs] at hle
      rw [hpr, hp]
      simp only [hs] at hlt hle ⊢
      omega
    · rw [hf.append_eq hR h, hs]
      refine ⟨Nat.add_le_add_left ih.1 _, fun hu ↦ Nat.add_lt_add_left (ih.2 fun hr ↦ ?_) _⟩
      exact hu ⟨h, hr⟩

/-- Replacing in pieces is replacing in the whole exactly if no word is split. -/
theorem flatMap_eq_iff (hR : Apart R) (pieces : List (List α)) :
    pieces.flatMap f = f pieces.flatten ↔ Unsplit R pieces := by
  refine ⟨fun h ↦ ?_, hf.flatMap_eq hR⟩
  by_contra hu
  have hlt := (hf.size_pieces hs hq hR pieces).2 hu
  rw [h] at hlt
  exact Nat.lt_irrefl _ hlt

end Sizes

end Replaces

/-! ### Words with a mark -/

/-- Words start with a mark that they have nowhere else, and none of them starts another. -/
structure Marked (mark : α) (R : List α → Prop) : Prop where
  opens : ∀ {q}, R q → ∃ rest, q = mark :: rest ∧ mark ∉ rest
  same : ∀ {q m}, R q → R (q ++ m) → m = []

namespace Marked

variable {mark : α} (hM : Marked mark R)

include hM

private theorem apart_after {q b q' b' m : List α} (h : R q) (h' : R q')
    (he : q ++ b = m ++ (q' ++ b')) : (m = [] ∧ q = q') ∨ ∃ k, m = q ++ k := by
  obtain ⟨rest, rfl, hr⟩ := hM.opens h
  obtain ⟨rest', rfl, -⟩ := hM.opens h'
  obtain ⟨k, rfl, -⟩ | ⟨w, hw, hb⟩ := List.append_eq_append_iff.mp he
  · exact .inr ⟨k, rfl⟩
  · cases m with
    | nil =>
      rw [List.nil_append] at he
      obtain ⟨k, hk, -⟩ | ⟨k, hk, -⟩ := List.append_eq_append_iff.mp he
      · have hk' := hM.same h (hk ▸ h')
        exact .inl ⟨rfl, by rw [hk, hk', List.append_nil]⟩
      · have hk' := hM.same h' (hk ▸ h)
        exact .inl ⟨rfl, by rw [hk, hk', List.append_nil]⟩
    | cons x m =>
      obtain ⟨rfl, hrest⟩ := List.cons.inj hw
      cases w with
      | nil => exact .inr ⟨[], by rw [hrest]; simp⟩
      | cons y w =>
        obtain ⟨rfl, -⟩ := List.cons.inj hb
        exact absurd (hrest ▸ List.mem_append_right m List.mem_cons_self) hr

theorem apart : Apart R := by
  refine ⟨fun h ↦ ?_, fun {a q b a' q' b'} h h' he ↦ ?_⟩
  · obtain ⟨rest, rfl, -⟩ := hM.opens h
    exact List.cons_ne_nil _ _
  · rw [List.append_assoc, List.append_assoc] at he
    obtain ⟨m, rfl, hm⟩ | ⟨m, rfl, hm⟩ := List.append_eq_append_iff.mp he
    · obtain ⟨rfl, hq⟩ | ⟨k, rfl⟩ := hM.apart_after h h' hm
      · exact .inl ⟨(List.append_nil a).symm, hq⟩
      · exact .inr (.inl ⟨k, (List.append_assoc _ _ _).symm⟩)
    · obtain ⟨rfl, hq⟩ | ⟨k, rfl⟩ := hM.apart_after h' h hm
      · exact .inl ⟨List.append_nil a', hq.symm⟩
      · exact .inr (.inr ⟨k, (List.append_assoc _ _ _).symm⟩)

end Marked

/-! ### One pass -/

/-- One pass from the left: `find` gives the rest of the word that starts at a symbol. -/
def onePass (find : α → List α → Option (List α)) (g : List α → List α) : List α → List α
  | [] => []
  | x :: text =>
    match find x text with
    | some rest => g (x :: rest) ++ onePass find g (text.drop rest.length)
    | none => x :: onePass find g text
termination_by text => text.length
decreasing_by all_goals simp

/-- `find` finds the words. -/
def Finds (find : α → List α → Option (List α)) (R : List α → Prop) : Prop :=
  ∀ x text rest, find x text = some rest ↔ R (x :: rest) ∧ rest <+: text

theorem onePass_none {find : α → List α → Option (List α)} {x : α} {text : List α}
    (h : find x text = none) : onePass find g (x :: text) = x :: onePass find g text := by
  rw [onePass, h]

theorem onePass_some {find : α → List α → Option (List α)} {x : α} {rest text : List α}
    (h : find x (rest ++ text) = some rest) :
    onePass find g (x :: (rest ++ text)) = g (x :: rest) ++ onePass find g text := by
  rw [onePass, h]
  dsimp only
  rw [List.drop_left]

/-- One pass replaces the words of a marked kind. -/
theorem replaces_onePass {mark : α} (hM : Marked mark R)
    {find : α → List α → Option (List α)} (hF : Finds find R) :
    Replaces R g (onePass find g) := by
  have hR := hM.apart
  refine ⟨fun x q y hq ↦ ?_, fun {x} h ↦ ?_⟩
  · induction hn : x.length using Nat.strong_induction_on generalizing x with
    | _ n ih =>
      cases x with
      | nil =>
        obtain ⟨rest, rfl, -⟩ := hM.opens hq
        have hfind : find mark (rest ++ y) = some rest :=
          (hF _ _ _).mpr ⟨hq, List.prefix_append _ _⟩
        rw [List.nil_append, List.cons_append, onePass_some hfind, onePass, List.nil_append]
      | cons c x =>
        rw [List.length_cons] at hn
        cases hfind : find c (x ++ q ++ y) with
        | none =>
          have hnone : find c x = none := by
            cases hx : find c x with
            | none => rfl
            | some rest =>
              obtain ⟨hw, hp⟩ := (hF _ _ _).mp hx
              have hs := (hF c (x ++ q ++ y) rest).mpr
                ⟨hw, hp.trans (by rw [List.append_assoc]; exact List.prefix_append _ _)⟩
              rw [hfind] at hs
              cases hs
          rw [List.cons_append, List.cons_append, onePass_none hfind, onePass_none hnone,
            ih x.length (by omega) x rfl]
          rfl
        | some rest =>
          obtain ⟨hw, t, ht⟩ := (hF _ _ _).mp hfind
          -- the word that starts the text ends before the other one
          obtain ⟨k, rfl⟩ : ∃ k, x = rest ++ k := by
            have he : [] ++ (c :: rest) ++ t = (c :: x) ++ q ++ y := by
              rw [List.nil_append, List.cons_append, ht]
              simp
            obtain ⟨hbad, -⟩ | ⟨m, hm⟩ | ⟨m, hm⟩ := hR.apart hw hq he
            · cases hbad
            · exact ⟨m, (List.cons.inj hm).2⟩
            · cases hm
          have hx : find c (rest ++ k) = some rest :=
            (hF _ _ _).mpr ⟨hw, List.prefix_append _ _⟩
          have hlong : find c (rest ++ (k ++ q ++ y)) = some rest :=
            (hF _ _ _).mpr ⟨hw, List.prefix_append _ _⟩
          rw [List.length_append] at hn
          rw [List.cons_append, List.cons_append, List.append_assoc rest k q,
            List.append_assoc rest (k ++ q) y, onePass_some hlong, onePass_some hx,
            ih k.length (by omega) k rfl]
          simp only [List.append_assoc]
  · induction x with
    | nil => rw [onePass]
    | cons c x ih =>
      have hnone : find c x = none := by
        cases hx : find c x with
        | none => rfl
        | some rest =>
          obtain ⟨hw, t, ht⟩ := (hF _ _ _).mp hx
          exact absurd ⟨[], c :: rest, t, by simp [ht], hw⟩ h
      rw [onePass_none hnone, ih fun hx ↦ h (by simpa using hx.append [c] [])]

end PtySpec.Lib
