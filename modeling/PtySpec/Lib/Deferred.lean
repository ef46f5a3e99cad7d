import PtySpec.Lib.IndexMap

/-!
# Maps whose values are read late

A map of unread values, and its values read at once. Reading after the last value of each
key is known agrees with reading every value as it comes, as long as a value that is
overwritten is still checked.
-/

namespace PtySpec.Lib.IndexMap

universe u v w

variable {κ : Type u} {α : Type v} {β : Type w}

/-- A map with its values read, if all of them can be. -/
def readAll (read : α → Option β) : IndexMap κ α → Option (IndexMap κ β)
  | [] => some []
  | (key, value) :: m => (read value).bind fun v ↦ (readAll read m).map ((key, v) :: ·)

/-- The values of one map, read one after the other into another map. -/
def readInto [DecidableEq κ] (read : α → Option β) (into : IndexMap κ β) :
    IndexMap κ α → Option (IndexMap κ β)
  | [] => some into
  | (key, value) :: m => (read value).bind fun v ↦ readInto read (into.insert key v) m

theorem keys_of_readAll {read : α → Option β} {m : IndexMap κ α} {r : IndexMap κ β}
    (h : m.readAll read = some r) : r.keys = m.keys := by
  induction m generalizing r with
  | nil => cases h; rfl
  | cons e m ih =>
    obtain ⟨v, -, h⟩ := Option.bind_eq_some_iff.mp h
    obtain ⟨s, hs, rfl⟩ := Option.map_eq_some_iff.mp h
    exact congrArg (e.1 :: ·) (ih hs)

/-- What is kept of a map by its keys is kept of the read map. -/
theorem readAll_filter {read : α → Option β} {m : IndexMap κ α} {r : IndexMap κ β}
    (h : m.readAll read = some r) (P : κ → Bool) :
    readAll read (m.filter (P ·.1)) = some (r.filter (P ·.1)) := by
  induction m generalizing r with
  | nil => cases h; rfl
  | cons e m ih =>
    obtain ⟨v, hv, h⟩ := Option.bind_eq_some_iff.mp h
    obtain ⟨s, hs, rfl⟩ := Option.map_eq_some_iff.mp h
    rw [List.filter_cons, List.filter_cons]
    split
    · rw [readAll, hv, Option.bind_some, ih hs]
      rfl
    · exact ih hs

theorem readAll_isSome {read : α → Option β} {m : IndexMap κ α} :
    (m.readAll read).isSome ↔ ∀ e ∈ m, (read e.2).isSome := by
  induction m with
  | nil => simp [readAll]
  | cons e m ih =>
    rw [List.forall_mem_cons, ← ih, readAll]
    cases read e.2 <;> simp

variable [DecidableEq κ]

theorem get_readAll {read : α → Option β} {m : IndexMap κ α} {r : IndexMap κ β}
    (h : m.readAll read = some r) (key : κ) : r.get key = (m.get key).bind read := by
  induction m generalizing r with
  | nil => cases h; rfl
  | cons e m ih =>
    obtain ⟨v, hv, h⟩ := Option.bind_eq_some_iff.mp h
    obtain ⟨s, hs, rfl⟩ := Option.map_eq_some_iff.mp h
    rw [get_cons, get_cons]
    by_cases hk : e.1 = key
    · rw [if_pos hk, if_pos hk, Option.bind_some, hv]
    · rw [if_neg hk, if_neg hk, ih hs]

/-- A value that is overwritten counts as long as it is looked at: with this check the map
read at the end is the one read before the insertion, with the new value inserted. -/
theorem readAll_insert (read : α → Option β) (m : IndexMap κ α) (key : κ) (value : α) :
    (if (m.get key).all (fun previous ↦ (read previous).isSome) then
        readAll read (m.insert key value) else none) =
      (m.readAll read).bind fun r ↦ (read value).map fun v ↦ r.insert key v := by
  induction m with
  | nil =>
    simp only [get_nil, Option.all_none, if_true, insert, readAll, Option.bind_some,
      Option.map_some]
    cases read value <;> rfl
  | cons e m ih =>
    obtain ⟨k, old⟩ := e
    rw [get_cons, insert]
    by_cases hk : k = key
    · simp only [if_pos hk, readAll]
      cases ho : read old with
      | none => simp [ho]
      | some o =>
        cases hv : read value <;> cases hm : readAll read m <;>
          simp [ho, insert, hk]
    · simp only [if_neg hk, readAll]
      cases ho : read old with
      | none => split <;> rfl
      | some o =>
        simp only [Option.bind_some]
        split at ih
        · next hc =>
          rw [if_pos hc, ih]
          cases readAll read m <;> cases read value <;> simp [insert, hk]
        · next hc =>
          rw [if_neg hc]
          cases hm : readAll read m with
          | none => rfl
          | some r =>
            rw [hm, Option.bind_some] at ih
            cases hv : read value with
            | none => rfl
            | some v => simp [hv] at ih

theorem insert_of_notMem {key : κ} {m : IndexMap κ β} (h : key ∉ m.keys) (value : β) :
    m.insert key value = m ++ [(key, value)] := by
  induction m with
  | nil => rfl
  | cons e m ih =>
    obtain ⟨hk, hm⟩ := not_or.mp (mt List.mem_cons.mpr h)
    rw [insert, if_neg (Ne.symm hk), ih hm]
    rfl

theorem readInto_eq (read : α → Option β) {m : IndexMap κ α} (hn : m.keys.Nodup)
    {into : IndexMap κ β} (hd : ∀ key ∈ m.keys, key ∉ into.keys) :
    readInto read into m = (m.readAll read).map (into ++ ·) := by
  induction m generalizing into with
  | nil => simp [readInto, readAll]
  | cons e m ih =>
    obtain ⟨hk, hn⟩ : e.1 ∉ keys m ∧ (keys m).Nodup := List.nodup_cons.mp hn
    have hf : ∀ v, into.insert e.1 v = into ++ [(e.1, v)] := fun v ↦
      insert_of_notMem (hd e.1 List.mem_cons_self) v
    rw [readInto, readAll]
    cases read e.2 with
    | none => rfl
    | some v =>
      rw [Option.bind_some, Option.bind_some, hf, ih hn, Option.map_map]
      · simp [Function.comp_def]
      · intro key hm hi
        rw [keys, List.map_append, List.mem_append] at hi
        obtain hi | hi := hi
        · exact hd key (List.mem_cons_of_mem _ hm) hi
        · exact hk ((List.mem_singleton.mp hi : key = e.1) ▸ hm)

end PtySpec.Lib.IndexMap
