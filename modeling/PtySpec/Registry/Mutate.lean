import PtySpec.Operation.Value

/-!
# Session metadata and its locked mutation

Model of `crates/pty-core/src/registry/mutate.rs`. The record is what its file parses
to; what the lock, the second read and the write come to is decided by the surroundings.
Of the record's fields only those that a mutation here reads, compares or changes are kept.
-/

namespace PtySpec.Registry

open Operation (Value)

/-- `TagMap`, an `IndexMap` in its order. -/
abbrev TagMap := List (String × String)

namespace TagMap

/-- `IndexMap::get`. -/
def get (m : TagMap) (key : String) : Option String := (m.find? (·.1 = key)).map (·.2)

/-- `IndexMap::insert`: in place, or at the end. -/
def insert (key value : String) : TagMap → TagMap
  | [] => [(key, value)]
  | (k, v) :: m => if k = key then (k, value) :: m else (k, v) :: insert key value m

@[simp] theorem get_insert_self (m : TagMap) (key value : String) :
    (insert key value m).get key = some value := by
  induction m with
  | nil => simp [insert, get]
  | cons p m ih =>
    unfold get at ih
    unfold insert get
    split
    · next h => simp [h]
    · next h => rw [List.find?_cons_of_neg (by simpa using h), ih]

@[simp] theorem get_insert_of_ne (m : TagMap) {key other : String} (value : String)
    (h : other ≠ key) : (insert key value m).get other = m.get other := by
  induction m with
  | nil => simp [insert, get, h.symm]
  | cons p m ih =>
    unfold get at ih ⊢
    unfold insert
    split
    · next hk => simp [hk, h.symm]
    · next =>
      by_cases ho : p.1 = other
      · simp [ho]
      · rw [List.find?_cons_of_neg (by simpa using ho), ih,
          List.find?_cons_of_neg (by simpa using ho)]

end TagMap

/-- What `mutate.rs:208` calls launch inputs: fixed once a session is bound. -/
structure LaunchInputs where
  command : String
  args : List String
  cwd : String
  isolateEnv : Option Bool
  extraEnv : Option TagMap
  sessionEnv : Option TagMap
  unsetEnv : Option (List String)
  env : Option TagMap
  deriving DecidableEq, Repr

/-- `SessionMetadata`, `metadata.rs:34`, in the part that mutations look at. -/
structure SessionMetadata where
  generation : Option String
  tags : Option TagMap
  publicationBinding : Option Value
  publicationRootId : Option String
  publicationCapability : Option Nat
  launch : LaunchInputs
  extra : List (String × Value)
  deriving DecidableEq, Repr

namespace SessionMetadata

/-- `metadata.tags.as_ref().and_then(|tags| tags.get(tag))`. -/
def tag (m : SessionMetadata) (key : String) : Option String := m.tags.bind (·.get key)

/-- `metadata.tags.get_or_insert_with(TagMap::new).insert(tag, value)`. -/
def withTag (m : SessionMetadata) (key value : String) : SessionMetadata :=
  { m with tags := some (TagMap.insert key value (m.tags.getD [])) }

@[simp] theorem tag_withTag_self (m : SessionMetadata) (key value : String) :
    (m.withTag key value).tag key = some value := by
  simp [tag, withTag]

@[simp] theorem tag_withTag_of_ne (m : SessionMetadata) {key other : String} (value : String)
    (h : other ≠ key) : (m.withTag key value).tag other = m.tag other := by
  have hi := TagMap.get_insert_of_ne (m.tags.getD []) value h
  have hw : (m.withTag key value).tag other = (m.tags.getD []).get other := hi
  rw [hw]
  cases ht : m.tags <;> simp [tag, ht, TagMap.get]

@[simp] theorem generation_withTag (m : SessionMetadata) (key value : String) :
    (m.withTag key value).generation = m.generation := rfl

/-- `after.extra.contains_key(key)` for one of the keys. -/
def aliases (m : SessionMetadata) (keys : List String) : Bool :=
  keys.any fun key ↦ m.extra.any (·.1 == key)

end SessionMetadata

/-- The tag of a bound session's operation, `mutate.rs:197`. -/
def operationTag : String := "st3.start-operation"

/-- The checks on publication provenance and launch inputs, `mutate.rs:199-243`. -/
def keepsPublication (before after : SessionMetadata) : Bool :=
  !(before.publicationBinding != after.publicationBinding ||
      before.publicationRootId != after.publicationRootId ||
      before.publicationCapability != after.publicationCapability ||
      (before.publicationBinding.isSome &&
        (before.tag operationTag != after.tag operationTag || after.aliases ["tags"])) ||
      after.aliases ["publicationBinding", "publicationRootId", "publicationCapability"]) &&
    !(before.publicationBinding.isSome &&
      (before.launch != after.launch ||
        after.aliases ["command", "args", "cwd", "isolateEnv", "extraEnv", "sessionEnv",
          "unsetEnv", "env"]))

/-- `MutateStatus`, `mutate.rs:37`. -/
inductive MutateStatus where
  | busy
  | missing
  | generationMismatch
  | stale
  | unchanged (m : SessionMetadata)
  | changed (m : SessionMetadata)
  deriving DecidableEq, Repr

/-- How the surroundings answer one mutation: whether the lock is had, whether the second
read finds what the first one did, and whether the file is written. -/
structure MutateIo where
  locked : Bool
  same : Bool
  written : Bool
  deriving DecidableEq, Repr

/-- `mutate_metadata_under_lock_core`, `mutate.rs:151`, under an expected generation:
the status and what the record's file then holds. -/
def mutateMetadataUnderLock (io : MutateIo) (expectedGeneration : String)
    (mutate : SessionMetadata → Option SessionMetadata) (file : Option SessionMetadata) :
    MutateStatus × Option SessionMetadata :=
  if !io.locked then (.busy, file)
  else match file with
    | none => (.missing, file)
    | some before =>
      if before.generation ≠ some expectedGeneration then (.generationMismatch, file)
      else match mutate before with
        | none => (.unchanged before, file)
        | some after =>
          if !keepsPublication before after then (.generationMismatch, file)
          else if !io.same then (.stale, file)
          else if !io.written then (.stale, file)
          else (.changed after, some after)

/-- What a mutation can do, by its status. -/
inductive Mutated (expectedGeneration : String)
    (mutate : SessionMetadata → Option SessionMetadata) (file : Option SessionMetadata) :
    MutateStatus × Option SessionMetadata → Prop
  | refused {status : MutateStatus}
      (h : status = .busy ∨ status = .missing ∨ status = .generationMismatch ∨ status = .stale) :
    Mutated expectedGeneration mutate file (status, file)
  | unchanged {before : SessionMetadata} (hf : file = some before)
      (hg : before.generation = some expectedGeneration) (hm : mutate before = none) :
    Mutated expectedGeneration mutate file (.unchanged before, file)
  | changed {before after : SessionMetadata} (hf : file = some before)
      (hg : before.generation = some expectedGeneration) (hm : mutate before = some after) :
    Mutated expectedGeneration mutate file (.changed after, some after)

theorem mutateMetadataUnderLock_mutated (io : MutateIo) (expectedGeneration : String)
    (mutate : SessionMetadata → Option SessionMetadata) (file : Option SessionMetadata) :
    Mutated expectedGeneration mutate file
      (mutateMetadataUnderLock io expectedGeneration mutate file) := by
  unfold mutateMetadataUnderLock
  split
  · exact .refused (by simp)
  cases hf : file with
  | none => exact .refused (by simp)
  | some before =>
    dsimp only
    split
    · exact .refused (by simp)
    next hg =>
    rw [not_not] at hg
    cases hm : mutate before with
    | none => exact .unchanged rfl hg hm
    | some after =>
      dsimp only
      split
      · exact .refused (by simp)
      split
      · exact .refused (by simp)
      split
      · exact .refused (by simp)
      exact .changed rfl hg hm

/-- `TagCompareAndSetResult`, `mutate.rs:279`. -/
inductive TagCompareAndSetResult where
  | changed (value : String)
  | unchanged (value : String)
  | valueMismatch (value : Option String)
  | busy
  | missing
  | generationMismatch
  | stale
  deriving DecidableEq, Repr

/-- The closure of `compare_and_set_tag_value`, `mutate.rs:307`. -/
def compareAndSetTag (tag expectedValue value : String) (m : SessionMetadata) :
    Option SessionMetadata :=
  if m.tag tag ≠ some expectedValue then none
  else if m.tag tag = some value then none
  else some (m.withTag tag value)

/-- `compare_and_set_tag_value`, `mutate.rs:295`. -/
def compareAndSetTagValue (io : MutateIo) (expectedGeneration tag expectedValue value : String)
    (file : Option SessionMetadata) : TagCompareAndSetResult × Option SessionMetadata :=
  match mutateMetadataUnderLock io expectedGeneration (compareAndSetTag tag expectedValue value)
      file with
  | (.changed _, file) => (.changed value, file)
  | (.unchanged m, file) =>
    if m.tag tag = some expectedValue then (.unchanged value, file)
    else (.valueMismatch (m.tag tag), file)
  | (.busy, file) => (.busy, file)
  | (.missing, file) => (.missing, file)
  | (.generationMismatch, file) => (.generationMismatch, file)
  | (.stale, file) => (.stale, file)

/-- `TagCompareAndSetResult::Changed` or `Unchanged`. -/
def TagCompareAndSetResult.succeeded : TagCompareAndSetResult → Bool
  | changed _ | unchanged _ => true
  | _ => false

/-- A compare-and-set that does not succeed leaves the record, one that does found the
expected value under its generation, and leaves every other tag and the generation. -/
theorem compareAndSetTagValue_cases (io : MutateIo)
    (expectedGeneration tag expectedValue value : String) (file : Option SessionMetadata) :
    (compareAndSetTagValue io expectedGeneration tag expectedValue value file).1.succeeded = false ∧
        (compareAndSetTagValue io expectedGeneration tag expectedValue value file).2 = file ∨
      ∃ before, file = some before ∧ before.generation = some expectedGeneration ∧
        before.tag tag = some expectedValue ∧
        (expectedValue = value ∧
            compareAndSetTagValue io expectedGeneration tag expectedValue value file =
              (.unchanged value, file) ∨
          expectedValue ≠ value ∧
            compareAndSetTagValue io expectedGeneration tag expectedValue value file =
              (.changed value, some (before.withTag tag value))) := by
  have hm := mutateMetadataUnderLock_mutated io expectedGeneration
    (compareAndSetTag tag expectedValue value) file
  generalize hr : mutateMetadataUnderLock io expectedGeneration
    (compareAndSetTag tag expectedValue value) file = r at hm
  unfold compareAndSetTagValue
  rw [hr]
  cases hm with
  | refused h =>
    obtain rfl | rfl | rfl | rfl := h <;> exact .inl ⟨rfl, rfl⟩
  | @unchanged before hf hg hm =>
    dsimp only
    split
    · next ht =>
      have hv : before.tag tag = some value := by
        by_contra hv
        rw [ht] at hv
        simp [compareAndSetTag, ht, hv] at hm
      refine .inr ⟨before, hf, hg, ht, .inl ⟨?_, rfl⟩⟩
      exact Option.some.inj (ht.symm.trans hv)
    · exact .inl ⟨rfl, rfl⟩
  | @changed before after hf hg hm =>
    unfold compareAndSetTag at hm
    split at hm
    · cases hm
    next ht =>
    rw [not_not] at ht
    split at hm
    · cases hm
    next hv =>
    cases hm
    refine .inr ⟨before, hf, hg, ht, .inr ⟨?_, rfl⟩⟩
    intro he
    exact hv (he ▸ ht)

end PtySpec.Registry
