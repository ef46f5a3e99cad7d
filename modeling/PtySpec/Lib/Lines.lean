import Mathlib

/-!
# Lines

A text as the lines that a separator ends, and what is left after the last of them.
-/

namespace PtySpec.Lib

universe u

variable {α : Type u}

/-- The lines one after the other, each with the separator that ends it. -/
def unlines (sep : α) (ls : List (List α)) : List α := ls.flatMap (· ++ [sep])

@[simp] theorem unlines_nil (sep : α) : unlines sep [] = [] := rfl

@[simp] theorem unlines_cons (sep : α) (l : List α) (ls : List (List α)) :
    unlines sep (l :: ls) = l ++ sep :: unlines sep ls := by
  simp [unlines]

@[simp] theorem unlines_append (sep : α) (ls ms : List (List α)) :
    unlines sep (ls ++ ms) = unlines sep ls ++ unlines sep ms :=
  List.flatMap_append

section Split

variable [BEq α] [LawfulBEq α]

/-- Splitting gives the lines back, and the rest as the last piece. -/
theorem splitOn_unlines_append {sep : α} {ls : List (List α)} (h : ∀ l ∈ ls, sep ∉ l)
    {rest : List α} (hr : sep ∉ rest) :
    (unlines sep ls ++ rest).splitOn sep = ls ++ [rest] := by
  induction ls with
  | nil =>
    rw [unlines_nil, List.nil_append, List.splitOn_eq_splitOnP, List.splitOnP_eq_singleton]
    · rfl
    · intro x hx
      exact beq_eq_false_iff_ne.mpr fun he ↦ hr (he ▸ hx)
  | cons l ls ih =>
    have hl := h l List.mem_cons_self
    have hi := ih fun m hm ↦ h m (List.mem_cons_of_mem _ hm)
    rw [List.splitOn_eq_splitOnP] at hi ⊢
    have hp : ∀ x ∈ l, (x == sep) = false :=
      fun x hx ↦ beq_eq_false_iff_ne.mpr fun he ↦ hl (he ▸ hx)
    rw [unlines_cons, List.append_assoc, List.cons_append,
      List.splitOnP_append_cons_of_forall_mem (p := (· == sep)) hp sep (beq_self_eq_true sep),
      hi, List.cons_append]

theorem splitOn_unlines {sep : α} {ls : List (List α)} (h : ∀ l ∈ ls, sep ∉ l) :
    (unlines sep ls).splitOn sep = ls ++ [[]] := by
  rw [← splitOn_unlines_append h List.not_mem_nil, List.append_nil]

/-- The lines of a text. -/
def linesOf (sep : α) (text : List α) : List (List α) := (text.splitOn sep).dropLast

/-- What a text has after its last line. -/
def restOf (sep : α) (text : List α) : List α := ((text.splitOn sep).getLast?).getD []

theorem linesOf_unlines_append {sep : α} {ls : List (List α)} (h : ∀ l ∈ ls, sep ∉ l)
    {rest : List α} (hr : sep ∉ rest) : linesOf sep (unlines sep ls ++ rest) = ls := by
  rw [linesOf, splitOn_unlines_append h hr, List.dropLast_concat]

theorem linesOf_unlines {sep : α} {ls : List (List α)} (h : ∀ l ∈ ls, sep ∉ l) :
    linesOf sep (unlines sep ls) = ls := by
  rw [linesOf, splitOn_unlines h, List.dropLast_concat]

theorem restOf_unlines_append {sep : α} {ls : List (List α)} (h : ∀ l ∈ ls, sep ∉ l)
    {rest : List α} (hr : sep ∉ rest) : restOf sep (unlines sep ls ++ rest) = rest := by
  rw [restOf, splitOn_unlines_append h hr, List.getLast?_concat, Option.getD_some]

omit [BEq α] [LawfulBEq α] in
/-- A text is lines and a rest. -/
theorem exists_unlines_append (sep : α) (text : List α) :
    ∃ ls rest, (∀ l ∈ ls, sep ∉ l) ∧ sep ∉ rest ∧ text = unlines sep ls ++ rest := by
  induction text with
  | nil => exact ⟨[], [], by simp, by simp, rfl⟩
  | cons x text ih =>
    obtain ⟨ls, rest, hl, hr, rfl⟩ := ih
    by_cases hx : x = sep
    · subst hx
      refine ⟨[] :: ls, rest, ?_, hr, by simp⟩
      intro l hm
      obtain rfl | hm := List.mem_cons.mp hm
      · exact List.not_mem_nil
      · exact hl l hm
    · cases ls with
      | nil => exact ⟨[], x :: rest, by simp, by simp [hr, Ne.symm hx], rfl⟩
      | cons l ls =>
        refine ⟨(x :: l) :: ls, rest, ?_, hr, by simp⟩
        intro m hm
        obtain rfl | hm := List.mem_cons.mp hm
        · have hn := hl l List.mem_cons_self
          simp [hn, Ne.symm hx]
        · exact hl m (List.mem_cons_of_mem _ hm)

theorem unlines_linesOf (sep : α) (text : List α) :
    unlines sep (linesOf sep text) ++ restOf sep text = text := by
  obtain ⟨ls, rest, hl, hr, rfl⟩ := exists_unlines_append sep text
  rw [linesOf_unlines_append hl hr, restOf_unlines_append hl hr]

theorem not_mem_of_mem_linesOf {sep : α} {text l : List α} (h : l ∈ linesOf sep text) :
    sep ∉ l := by
  obtain ⟨ls, rest, hl, hr, rfl⟩ := exists_unlines_append sep text
  rw [linesOf_unlines_append hl hr] at h
  exact hl l h

theorem not_mem_restOf (sep : α) (text : List α) : sep ∉ restOf sep text := by
  obtain ⟨ls, rest, hl, hr, rfl⟩ := exists_unlines_append sep text
  rw [restOf_unlines_append hl hr]
  exact hr

/-- What is added to a text goes on with its rest. -/
theorem linesOf_append (sep : α) (s t : List α) :
    linesOf sep (s ++ t) = linesOf sep s ++ linesOf sep (restOf sep s ++ t) ∧
      restOf sep (s ++ t) = restOf sep (restOf sep s ++ t) := by
  have hs := unlines_linesOf sep s
  have ht := unlines_linesOf sep (restOf sep s ++ t)
  have hall : s ++ t = unlines sep (linesOf sep s ++ linesOf sep (restOf sep s ++ t)) ++
      restOf sep (restOf sep s ++ t) := by
    rw [unlines_append, List.append_assoc, ht, ← List.append_assoc, hs]
  have hl : ∀ l ∈ linesOf sep s ++ linesOf sep (restOf sep s ++ t), sep ∉ l := by
    intro l hm
    obtain hm | hm := List.mem_append.mp hm
    · exact not_mem_of_mem_linesOf hm
    · exact not_mem_of_mem_linesOf hm
  have hr := not_mem_restOf sep (restOf sep s ++ t)
  generalize hu : linesOf sep s ++ linesOf sep (restOf sep s ++ t) = u at hall hl
  generalize restOf sep (restOf sep s ++ t) = r at hall hr
  rw [hall]
  exact ⟨linesOf_unlines_append hl hr, restOf_unlines_append hl hr⟩

/-- A text starts with the lines of another exactly when its lines do. -/
theorem unlines_prefix_iff {sep : α} {ls : List (List α)} (h : ∀ l ∈ ls, sep ∉ l)
    (text : List α) : unlines sep ls <+: text ↔ ls <+: linesOf sep text := by
  constructor
  · rintro ⟨rest, rfl⟩
    have hl := (linesOf_append sep (unlines sep ls) rest).1
    rw [hl, linesOf_unlines h]
    exact List.prefix_append _ _
  · rintro ⟨more, hm⟩
    rw [← unlines_linesOf sep text, ← hm, unlines_append, List.append_assoc]
    exact List.prefix_append _ _

end Split

end PtySpec.Lib
