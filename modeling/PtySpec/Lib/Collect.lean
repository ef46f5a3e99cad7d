import Mathlib.Data.List.Basic
import Mathlib.Data.List.Induction
import Mathlib.Data.List.Nodup

/-!
# Entries collected under their keys

A loop that looks each item's key up among the entries it has, updates the entry that it
finds, and otherwise appends a new one. What an entry holds at the end is what the items
with its key say, in their order.
-/

namespace PtySpec.Lib

variable {α β κ : Type} [DecidableEq κ]

/-- The first entry with a key is updated; without one, a new entry is appended. -/
def upsert (key : β → κ) (k : κ) (fresh : β) (update : β → β) : List β → List β
  | [] => [fresh]
  | b :: bs => if key b = k then update b :: bs else b :: upsert key k fresh update bs

/-- Every item updates the entry with its key, or becomes a new one. -/
def collect (tag : α → κ) (key : β → κ) (fresh : α → β) (update : β → α → β)
    (entries : List β) (items : List α) : List β :=
  items.foldl (fun acc x ↦ upsert key (tag x) (fresh x) (update · x) acc) entries

/-- An entry with a key there was none of is appended. -/
theorem upsert_of_forall_ne {key : β → κ} {k : κ} {fresh : β} {update : β → β} {bs : List β}
    (hk : ∀ b ∈ bs, key b ≠ k) : upsert key k fresh update bs = bs ++ [fresh] := by
  induction bs with
  | nil => rfl
  | cons b bs ih =>
    rw [upsert, if_neg (hk b List.mem_cons_self), ih fun c hc ↦ hk c (List.mem_cons_of_mem _ hc),
      List.cons_append]

/-- An entry with the key is updated where it is, and the others stay as they are. -/
theorem upsert_of_mem {key : β → κ} {fresh : β} {update : β → β} {bs : List β} {b : β}
    (hupdate : key (update b) = key b) (hb : b ∈ bs) (hn : (bs.map key).Nodup) :
    (upsert key (key b) fresh update bs).map key = bs.map key ∧
      ∀ c, c ∈ upsert key (key b) fresh update bs ↔
        c = update b ∨ c ∈ bs ∧ key c ≠ key b := by
  induction bs with
  | nil => exact absurd hb List.not_mem_nil
  | cons d bs ih =>
    rw [List.map_cons, List.nodup_cons] at hn
    have hrest : ∀ c ∈ bs, key c ≠ key d := fun c hc hk ↦
      hn.1 (List.mem_map.mpr ⟨c, hc, hk⟩)
    rw [upsert]
    rcases List.mem_cons.mp hb with rfl | hb
    · rw [if_pos rfl]
      refine ⟨by rw [List.map_cons, List.map_cons, hupdate], fun c ↦ ?_⟩
      rw [List.mem_cons, List.mem_cons]
      constructor
      · rintro (rfl | hc)
        · exact .inl rfl
        · exact .inr ⟨.inr hc, hrest c hc⟩
      · rintro (rfl | ⟨rfl | hc, hk⟩)
        · exact .inl rfl
        · exact absurd rfl hk
        · exact .inr hc
    · have hne : key d ≠ key b := fun hk ↦ hrest b hb hk.symm
      obtain ⟨hkeys, hmem⟩ := ih hb hn.2
      rw [if_neg hne]
      refine ⟨by rw [List.map_cons, List.map_cons, hkeys], fun c ↦ ?_⟩
      rw [List.mem_cons, List.mem_cons, hmem]
      constructor
      · rintro (rfl | rfl | ⟨hc, hk⟩)
        · exact .inr ⟨.inl rfl, hne⟩
        · exact .inl rfl
        · exact .inr ⟨.inr hc, hk⟩
      · rintro (rfl | ⟨rfl | hc, hk⟩)
        · exact .inr (.inl rfl)
        · exact .inl rfl
        · exact .inr (.inr ⟨hc, hk⟩)

section Collected

variable (tag : α → κ) (key : β → κ) (fresh : α → β) (update : β → α → β)

/-- The entries are those of the items: one for each key, and made of the items with it. -/
structure Collected (items : List α) (entries : List β) : Prop where
  nodup : (entries.map key).Nodup
  made : ∀ b ∈ entries, ∃ c cs, items.filter (tag · = key b) = c :: cs ∧
    b = cs.foldl update (fresh c)
  covered : ∀ x ∈ items, ∃ b ∈ entries, key b = tag x

variable {tag key fresh update}

/-- One more item keeps the entries those of the items. -/
theorem Collected.upsert (hfresh : ∀ x, key (fresh x) = tag x)
    (hupdate : ∀ b x, key (update b x) = key b) {items : List α} {entries : List β}
    (hc : Collected tag key fresh update items entries) (x : α) :
    Collected tag key fresh update (items ++ [x])
      (upsert key (tag x) (fresh x) (update · x) entries) := by
  obtain ⟨hn, hmade, hcov⟩ := hc
  have hother : ∀ k, k ≠ tag x →
      (items ++ [x]).filter (tag · = k) = items.filter (tag · = k) := by
    intro k hk
    rw [List.filter_append, List.filter_cons_of_neg (by simpa using Ne.symm hk), List.filter_nil,
      List.append_nil]
  have hsame : (items ++ [x]).filter (tag · = tag x) = items.filter (tag · = tag x) ++ [x] := by
    rw [List.filter_append, List.filter_cons_of_pos (by simp), List.filter_nil]
  by_cases hx : ∃ b ∈ entries, key b = tag x
  · obtain ⟨b, hb, hbk⟩ := hx
    obtain ⟨hkeys, hmem⟩ :=
      @upsert_of_mem _ _ _ key (fresh x) (update · x) entries b (hupdate b x) hb hn
    rw [← hbk]
    refine ⟨hkeys ▸ hn, fun c hcm ↦ ?_, fun y hy ↦ ?_⟩
    · rcases (hmem c).mp hcm with rfl | ⟨hc, hk⟩
      · obtain ⟨y, ys, hys, hb'⟩ := hmade b hb
        refine ⟨y, ys ++ [x], ?_, ?_⟩
        · rw [hupdate, hbk, hsame, ← hbk, hys, List.cons_append]
        · rw [List.foldl_append, ← hb', List.foldl_cons, List.foldl_nil]
      · rw [hother _ (hbk ▸ hk)]
        exact hmade c hc
    · have hcovered : ∃ c ∈ entries, key c = tag y := by
        rcases List.mem_append.mp hy with hy | hy
        · exact hcov y hy
        · exact List.mem_singleton.mp hy ▸ ⟨b, hb, hbk⟩
      obtain ⟨c, hc, hck⟩ := hcovered
      by_cases hk : key c = key b
      · exact ⟨update b x, (hmem _).mpr (.inl rfl), by rw [hupdate, ← hk, hck]⟩
      · exact ⟨c, (hmem c).mpr (.inr ⟨hc, hk⟩), hck⟩
  · have hne : ∀ b ∈ entries, key b ≠ tag x := fun b hb hk ↦ hx ⟨b, hb, hk⟩
    have hnone : items.filter (tag · = tag x) = [] := by
      rw [List.filter_eq_nil_iff]
      intro y hy hyx
      obtain ⟨b, hb, hbk⟩ := hcov y hy
      exact hne b hb (hbk.trans (of_decide_eq_true hyx))
    rw [upsert_of_forall_ne hne]
    refine ⟨?_, fun b hb ↦ ?_, fun y hy ↦ ?_⟩
    · rw [List.map_append, List.map_singleton, hfresh]
      refine List.nodup_append.mpr ⟨hn, List.nodup_singleton _, fun k hk l hl ↦ ?_⟩
      obtain ⟨b, hb, rfl⟩ := List.mem_map.mp hk
      rw [List.mem_singleton.mp hl]
      exact hne b hb
    · rcases List.mem_append.mp hb with hb | hb
      · rw [hother _ (hne b hb)]
        exact hmade b hb
      · rw [List.mem_singleton.mp hb, hfresh, hsame, hnone]
        exact ⟨x, [], rfl, rfl⟩
    · rcases List.mem_append.mp hy with hy | hy
      · obtain ⟨b, hb, hbk⟩ := hcov y hy
        exact ⟨b, List.mem_append_left _ hb, hbk⟩
      · rw [List.mem_singleton.mp hy]
        exact ⟨fresh x, List.mem_append_right _ (List.mem_singleton_self _), hfresh x⟩

/-- What is collected from nothing is the entries of the items. -/
theorem collected_collect (hfresh : ∀ x, key (fresh x) = tag x)
    (hupdate : ∀ b x, key (update b x) = key b) (items : List α) :
    Collected tag key fresh update items (collect tag key fresh update [] items) := by
  induction items using List.reverseRecOn with
  | nil => exact ⟨List.nodup_nil, nofun, nofun⟩
  | append_singleton items x ih =>
    rw [collect, List.foldl_append, List.foldl_cons, List.foldl_nil]
    exact ih.upsert hfresh hupdate x

end Collected

end PtySpec.Lib
