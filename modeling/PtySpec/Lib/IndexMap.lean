import Mathlib

/-!
# Maps that keep the order of insertion

An association list whose first entry for a key counts, with the operations of an
insertion-ordered map and what each of them leaves in place.
-/

namespace PtySpec.Lib

universe u v

/-- A map in the order of insertion. -/
abbrev IndexMap (κ : Type u) (α : Type v) := List (κ × α)

namespace IndexMap

variable {κ : Type u} {α : Type v} [DecidableEq κ]

/-- The value of a key. -/
def get (m : IndexMap κ α) (key : κ) : Option α := (m.find? (·.1 = key)).map (·.2)

/-- The value of a key, in place or at the end. -/
def insert (key : κ) (value : α) : IndexMap κ α → IndexMap κ α
  | [] => [(key, value)]
  | (k, v) :: m => if k = key then (k, value) :: m else (k, v) :: insert key value m

/-- Without a key, the others in their order. -/
def remove (key : κ) (m : IndexMap κ α) : IndexMap κ α := m.filter (·.1 ≠ key)

/-- The keys in their order. -/
def keys (m : IndexMap κ α) : List κ := m.map (·.1)

/-- With entries inserted one after the other. -/
def insertAll (m entries : IndexMap κ α) : IndexMap κ α :=
  entries.foldl (fun m e ↦ insert e.1 e.2 m) m

/-- With keys removed one after the other. -/
def removeAll (ks : List κ) (m : IndexMap κ α) : IndexMap κ α :=
  ks.foldl (fun m key ↦ remove key m) m

@[simp] theorem get_nil (key : κ) : get ([] : IndexMap κ α) key = none := rfl

theorem get_cons (p : κ × α) (m : IndexMap κ α) (key : κ) :
    get (p :: m) key = if p.1 = key then some p.2 else get m key := by
  unfold get
  rw [List.find?_cons]
  split
  · next h => rw [if_pos (of_decide_eq_true h)]; rfl
  · next h => rw [if_neg (of_decide_eq_false h)]

theorem get_insert (key : κ) (value : α) (m : IndexMap κ α) (other : κ) :
    (insert key value m).get other = if key = other then some value else m.get other := by
  induction m with
  | nil => rw [insert, get_cons]
  | cons p m ih =>
    unfold insert
    split
    · next h =>
      rw [get_cons, get_cons]
      by_cases ho : p.1 = other
      · rw [if_pos ho, if_pos (h.symm.trans ho)]
      · rw [if_neg ho, if_neg (fun hk ↦ ho (h.trans hk)), if_neg ho]
    · next h =>
      rw [get_cons, get_cons, ih]
      by_cases ho : p.1 = other
      · rw [if_pos ho, if_pos ho, if_neg (fun hk ↦ h (ho.trans hk.symm))]
      · rw [if_neg ho, if_neg ho]

theorem get_remove (key : κ) (m : IndexMap κ α) (other : κ) :
    (remove key m).get other = if key = other then none else m.get other := by
  induction m with
  | nil =>
    rw [show remove key ([] : IndexMap κ α) = [] from rfl]
    split <;> rfl
  | cons p m ih =>
    unfold remove at ih ⊢
    rw [List.filter_cons]
    split
    · next h =>
      have hp : p.1 ≠ key := of_decide_eq_true h
      rw [get_cons, ih, get_cons]
      by_cases ho : p.1 = other
      · rw [if_pos ho, if_neg (fun hk ↦ hp (ho.trans hk.symm)), if_pos ho]
      · rw [if_neg ho, if_neg ho]
    · next h =>
      have hp : p.1 = key := by simpa using h
      rw [ih, get_cons]
      by_cases ho : key = other
      · rw [if_pos ho, if_pos ho]
      · rw [if_neg ho, if_neg ho, if_neg (fun hk ↦ ho (hp.symm.trans hk))]

theorem mem_keys_iff {m : IndexMap κ α} {key : κ} : key ∈ m.keys ↔ (m.get key).isSome := by
  induction m with
  | nil => simp [keys]
  | cons p m ih =>
    rw [get_cons, keys, List.map_cons, List.mem_cons]
    change _ ∨ key ∈ keys m ↔ _
    rw [ih]
    split
    · next h => simp [h]
    · next h => simp [Ne.symm h]

theorem get_of_mem {m : IndexMap κ α} (hn : m.keys.Nodup) {p : κ × α} (hp : p ∈ m) :
    m.get p.1 = some p.2 := by
  induction m with
  | nil => cases hp
  | cons q m ih =>
    have hn' : q.1 ∉ keys m ∧ (keys m).Nodup := List.nodup_cons.mp hn
    rw [get_cons]
    obtain rfl | hp := List.mem_cons.mp hp
    · rw [if_pos rfl]
    · have hne : q.1 ≠ p.1 := by
        intro he
        exact hn'.1 (he ▸ List.mem_map_of_mem hp)
      rw [if_neg hne, ih hn'.2 hp]

theorem mem_of_get {m : IndexMap κ α} {key : κ} {value : α} (h : m.get key = some value) :
    (key, value) ∈ m := by
  unfold get at h
  obtain ⟨p, hp, rfl⟩ := Option.map_eq_some_iff.mp h
  have hk : p.1 = key := by simpa using List.find?_some hp
  subst hk
  exact List.mem_of_find?_eq_some hp

/-- Insertion keeps the keys in place and adds a new one at the end. -/
theorem keys_insert (key : κ) (value : α) (m : IndexMap κ α) :
    (insert key value m).keys = if key ∈ m.keys then m.keys else m.keys ++ [key] := by
  induction m with
  | nil => simp [insert, keys]
  | cons p m ih =>
    unfold insert
    split
    · next h => simp [keys, h]
    · next h =>
      have hk : ∀ (q : κ × α) (n : IndexMap κ α), keys (q :: n) = q.1 :: keys n := fun _ _ ↦ rfl
      rw [hk, hk, ih]
      by_cases hm : key ∈ keys m
      · rw [if_pos hm, if_pos (List.mem_cons_of_mem _ hm)]
      · rw [if_neg hm, if_neg (by simp [hm, Ne.symm h]), List.cons_append]

theorem nodup_insert {m : IndexMap κ α} (hn : m.keys.Nodup) (key : κ) (value : α) :
    (insert key value m).keys.Nodup := by
  rw [keys_insert]
  split
  · exact hn
  · next h =>
    rw [List.nodup_append]
    refine ⟨hn, List.nodup_singleton key, ?_⟩
    intro a ha b hb he
    rw [List.mem_singleton] at hb
    exact h (hb ▸ he ▸ ha)

/-- What is said of other keys is true of the same entries after an insertion. -/
theorem filter_insert {P : κ → Bool} {key : κ} (h : P key = false) (value : α)
    (m : IndexMap κ α) : (insert key value m).filter (P ·.1) = m.filter (P ·.1) := by
  induction m with
  | nil => simp [insert, h]
  | cons p m ih =>
    unfold insert
    split
    · next hk => simp [hk, h]
    · next => simp only [List.filter_cons, ih]

/-- What is said of other keys is true of the same entries after a removal. -/
theorem filter_remove {P : κ → Bool} {key : κ} (h : P key = false) (m : IndexMap κ α) :
    (remove key m).filter (P ·.1) = m.filter (P ·.1) := by
  rw [remove, List.filter_filter]
  congr 1
  funext p
  by_cases hk : p.1 = key <;> simp [hk, h]

/-- The entries of a map without repeated keys hide what was there. -/
theorem get_insertAll {entries : IndexMap κ α} (hn : entries.keys.Nodup) (m : IndexMap κ α)
    (key : κ) : (insertAll m entries).get key = (entries.get key).or (m.get key) := by
  induction entries generalizing m with
  | nil => rfl
  | cons e entries ih =>
    have hn' : e.1 ∉ keys entries ∧ (keys entries).Nodup := List.nodup_cons.mp hn
    have hi := ih hn'.2 (insert e.1 e.2 m)
    change get (insertAll (insert e.1 e.2 m) entries) key = _
    rw [hi, get_insert, get_cons]
    by_cases he : e.1 = key
    · subst he
      have hg : get entries e.1 = none := by
        rw [mem_keys_iff, Bool.not_eq_true, Option.isSome_eq_false_iff] at hn'
        exact Option.isNone_iff_eq_none.mp hn'.1
      rw [if_pos rfl, if_pos rfl, hg]
      rfl
    · rw [if_neg he, if_neg he]

/-- What was inserted last hides what was there. -/
theorem get_insertAll_or (m entries : IndexMap κ α) (key : κ) :
    (insertAll m entries).get key = ((insertAll [] entries).get key).or (m.get key) := by
  induction entries using List.reverseRecOn with
  | nil => rfl
  | append_singleton entries e ih =>
    have happend (m : IndexMap κ α) :
        insertAll m (entries ++ [e]) = insert e.1 e.2 (insertAll m entries) := by
      rw [insertAll, List.foldl_append]
      rfl
    rw [happend, happend, get_insert, get_insert, ih]
    split <;> rfl

theorem mem_insert {key : κ} {value : α} {m : IndexMap κ α} {p : κ × α}
    (h : p ∈ insert key value m) : p = (key, value) ∨ p ∈ m := by
  induction m with
  | nil => exact .inl (List.mem_singleton.mp h)
  | cons q m ih =>
    unfold insert at h
    split at h
    · next hk =>
      obtain rfl | h := List.mem_cons.mp h
      · exact .inl (by rw [hk])
      · exact .inr (List.mem_cons_of_mem _ h)
    · obtain rfl | h := List.mem_cons.mp h
      · exact .inr List.mem_cons_self
      · exact (ih h).imp_right (List.mem_cons_of_mem _)

/-- The entries of a map are among those that were inserted. -/
theorem mem_insertAll {m entries : IndexMap κ α} {p : κ × α} (h : p ∈ insertAll m entries) :
    p ∈ m ∨ p ∈ entries := by
  induction entries generalizing m with
  | nil => exact .inl h
  | cons e entries ih =>
    obtain h | h := ih h
    · exact (mem_insert h).symm.imp_right fun he ↦ List.mem_cons.mpr (.inl he)
    · exact .inr (List.mem_cons_of_mem _ h)

theorem nodup_insertAll {m : IndexMap κ α} (hn : m.keys.Nodup) (entries : IndexMap κ α) :
    (insertAll m entries).keys.Nodup := by
  induction entries generalizing m with
  | nil => exact hn
  | cons e entries ih => exact ih (nodup_insert hn e.1 e.2)

theorem filter_insertAll {P : κ → Bool} {entries : IndexMap κ α}
    (h : ∀ e ∈ entries, P e.1 = false) (m : IndexMap κ α) :
    (insertAll m entries).filter (P ·.1) = m.filter (P ·.1) := by
  induction entries generalizing m with
  | nil => rfl
  | cons e entries ih =>
    have hi := ih (fun f hf ↦ h f (List.mem_cons_of_mem _ hf)) (insert e.1 e.2 m)
    exact hi.trans (filter_insert (h e List.mem_cons_self) e.2 m)

/-- The keys that were there stay in place, and those added follow. -/
theorem keys_insertAll (m entries : IndexMap κ α) :
    ∃ added, (insertAll m entries).keys = m.keys ++ added := by
  induction entries generalizing m with
  | nil => exact ⟨[], (List.append_nil _).symm⟩
  | cons e entries ih =>
    obtain ⟨added, ha⟩ := ih (insert e.1 e.2 m)
    rw [keys_insert] at ha
    split at ha
    · exact ⟨added, ha⟩
    · exact ⟨e.1 :: added, by rw [← List.append_cons] at ha; exact ha⟩

theorem mem_keys_insertAll {m entries : IndexMap κ α} {key : κ} :
    key ∈ (insertAll m entries).keys ↔ key ∈ m.keys ∨ key ∈ entries.keys := by
  induction entries generalizing m with
  | nil => exact (or_iff_left List.not_mem_nil).symm
  | cons e entries ih =>
    have hi := ih (m := insert e.1 e.2 m)
    have hk : key ∈ (insert e.1 e.2 m).keys ↔ key ∈ m.keys ∨ key = e.1 := by
      rw [keys_insert]
      split
      · next he => exact ⟨.inl, fun h ↦ h.elim id (· ▸ he)⟩
      · rw [List.mem_append, List.mem_singleton]
    rw [hk, or_assoc] at hi
    exact hi.trans (or_congr_right List.mem_cons.symm)

theorem get_removeAll (ks : List κ) (m : IndexMap κ α) (key : κ) :
    (removeAll ks m).get key = if key ∈ ks then none else m.get key := by
  induction ks generalizing m with
  | nil => rfl
  | cons k ks ih =>
    change get (removeAll ks (remove k m)) key = _
    rw [ih, get_remove]
    by_cases hk : key ∈ ks
    · rw [if_pos hk, if_pos (List.mem_cons_of_mem _ hk)]
    · rw [if_neg hk]
      by_cases he : k = key
      · rw [if_pos he, if_pos (he ▸ List.mem_cons_self)]
      · rw [if_neg he, if_neg (by simp [hk, Ne.symm he])]

theorem filter_removeAll {P : κ → Bool} {ks : List κ} (h : ∀ key ∈ ks, P key = false)
    (m : IndexMap κ α) : (removeAll ks m).filter (P ·.1) = m.filter (P ·.1) := by
  induction ks generalizing m with
  | nil => rfl
  | cons k ks ih =>
    have hi := ih (fun key hk ↦ h key (List.mem_cons_of_mem _ hk)) (remove k m)
    exact hi.trans (filter_remove (h k List.mem_cons_self) m)

theorem keys_remove (key : κ) (m : IndexMap κ α) :
    (remove key m).keys = m.keys.filter (· ≠ key) := by
  rw [keys, keys, remove, List.filter_map]
  rfl

theorem keys_removeAll (ks : List κ) (m : IndexMap κ α) :
    (removeAll ks m).keys = m.keys.filter (· ∉ ks) := by
  induction ks generalizing m with
  | nil => simp [removeAll]
  | cons k ks ih =>
    change keys (removeAll ks (remove k m)) = _
    rw [ih, keys_remove, List.filter_filter]
    congr 1
    funext key
    by_cases hk : key = k <;> simp [hk]

theorem get_filter (P : κ → Bool) (m : IndexMap κ α) (key : κ) :
    get (m.filter (P ·.1)) key = if P key then m.get key else none := by
  induction m with
  | nil => simp
  | cons p m ih =>
    rw [List.filter_cons]
    split
    · next hp =>
      rw [get_cons, get_cons, ih]
      by_cases hk : p.1 = key
      · rw [if_pos hk, if_pos hk, if_pos (hk ▸ hp)]
      · rw [if_neg hk, if_neg hk]
    · next hp =>
      rw [get_cons, ih]
      by_cases hk : p.1 = key
      · rw [if_pos hk, if_neg (hk ▸ hp), if_neg (hk ▸ hp)]
      · rw [if_neg hk]

end IndexMap
end PtySpec.Lib
