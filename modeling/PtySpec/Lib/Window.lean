import Mathlib

/-!
# Matching in a text of which the end is kept

A text grows symbol by symbol, and patterns are looked for from time to time in the end of it
that is still kept. If what is kept is one symbol shorter than the longest pattern, or longer,
no pattern is missed.
-/

namespace PtySpec.Lib

universe u

variable {α : Type u} {patterns : List (List α)} {keep : Nat}

/-- Some pattern occurs in the text. -/
def Occurs (patterns : List (List α)) (text : List α) : Prop := ∃ p ∈ patterns, p <:+: text

theorem Occurs.of_infix {s t : List α} (h : Occurs patterns s) (hst : s <:+: t) :
    Occurs patterns t := by
  obtain ⟨p, hp, hs⟩ := h
  exact ⟨p, hp, hs.trans hst⟩

/-- What is kept is enough of the text: a pattern that is not in it was seen before. -/
structure Window (patterns : List (List α)) (keep : Nat) (text kept : List α) (seen : Prop) :
    Prop where
  suffix : kept <:+ text
  long : keep ≤ kept.length ∨ kept = text
  missed : ∀ p ∈ patterns, p <:+: text → seen ∨ p <:+: kept

namespace Window

variable {text kept : List α} {seen : Prop}

theorem nil (seen : Prop) : Window patterns keep [] [] seen :=
  ⟨List.suffix_rfl, .inr rfl, fun _ _ h ↦ .inr h⟩

theorem mono {seen' : Prop} (h : Window patterns keep text kept seen) (hs : seen → seen') :
    Window patterns keep text kept seen' :=
  ⟨h.suffix, h.long, fun p hp ht ↦ (h.missed p hp ht).imp_left hs⟩

/-- One more symbol: a pattern that ends in it lies in what is kept. -/
theorem push (hlen : ∀ p ∈ patterns, p.length ≤ keep + 1)
    (h : Window patterns keep text kept seen) (x : α) :
    Window patterns keep (text ++ [x]) (kept ++ [x]) seen := by
  obtain ⟨front, rfl⟩ := h.suffix
  have hs : kept ++ [x] <:+ front ++ kept ++ [x] := ⟨front, (List.append_assoc _ _ _).symm⟩
  refine ⟨hs, ?_, fun p hp ht ↦ ?_⟩
  · rw [List.length_append]
    exact h.long.imp (fun hl ↦ Nat.le_add_right_of_le hl) (fun he ↦ by rw [← he])
  · obtain ht | ht := List.infix_concat_iff.mp ht
    · obtain hl | he := h.long
      · have hle : p.length ≤ (kept ++ [x]).length := by
          have := hlen p hp
          rw [List.length_append, List.length_singleton]
          omega
        exact .inr (List.suffix_of_suffix_length_le ht hs hle).isInfix
      · rw [← he] at ht
        exact .inr ht.isInfix
    · exact (h.missed p hp ht).imp_right fun hk ↦ hk.trans (List.infix_append' [] kept [x])

/-- What is too old is dropped, after a look at what was kept. -/
theorem trim (h : Window patterns keep text kept seen) :
    Window patterns keep text (kept.drop (kept.length - keep)) (seen ∨ Occurs patterns kept) := by
  refine ⟨(List.drop_suffix _ _).trans h.suffix, ?_, fun p hp ht ↦ .inl ?_⟩
  · rw [List.length_drop]
    by_cases hk : keep ≤ kept.length
    · exact .inl (by omega)
    · refine .inr ?_
      rw [Nat.sub_eq_zero_of_le (by omega), List.drop_zero]
      exact h.long.resolve_left hk
  · exact (h.missed p hp ht).imp_right fun hk ↦ ⟨p, hp, hk⟩

/-- A look at what is kept sees what occurs in the text, unless it was seen before. -/
theorem occurs (h : Window patterns keep text kept seen) (ht : Occurs patterns text) :
    seen ∨ Occurs patterns kept := by
  obtain ⟨p, hp, hpt⟩ := ht
  exact (h.missed p hp hpt).imp_right fun hk ↦ ⟨p, hp, hk⟩

end Window

end PtySpec.Lib
