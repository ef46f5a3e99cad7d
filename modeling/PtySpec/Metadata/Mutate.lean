import PtySpec.Metadata.Record

/-!
# Locked mutation of the raw record

Model of `mutate_metadata_under_lock_core`, `crates/pty-core/src/registry/mutate.rs:151`, on
the bytes of the record's file. What the library parses and prints, who has the lock, what
the second read finds and whether the write succeeds are decided by the surroundings.
-/

namespace PtySpec.Metadata

open Lib SessionMetadata

/-- A file's contents. -/
abbrev Bytes := List UInt8

/-- `serde_json` as the registry uses it: `from_slice` and `to_string_pretty`. -/
structure SerdeJson where
  fromSlice : Bytes → Option Json
  prettyJson : JsonMap → Bytes

/-- `read_metadata_map_at`, `metadata.rs:294`: `none` unless the file has an object. -/
def readMetadataMap (serde : SerdeJson) (file : Option Bytes) : Option JsonMap :=
  match file.bind serde.fromSlice with
  | some (.object map) => some map
  | _ => none

namespace SessionMetadata

/-- `generation`. -/
def generation (m : SessionMetadata) : Option String := m.field .generation

/-- `publication_binding.is_some()`. -/
def bound (m : SessionMetadata) : Bool := (m.field .publicationBinding).isSome

/-- `tags`. -/
def tags (m : SessionMetadata) : Option (IndexMap String String) := m.field .tags

/-- `recovery`. -/
def recovery (m : SessionMetadata) : Option Json := m.field .recovery

/-- Whether `extra` has the key of one of the fields. -/
def aliases (m : SessionMetadata) (fs : List Field) : Bool :=
  fs.any fun f ↦ (m.extra.get f.key).isSome

end SessionMetadata

/-- The tag of a bound session's operation, `mutate.rs:197`. -/
def operationTag : String := "st3.start-operation"

/-- `operation`, `mutate.rs:196`. -/
def operation (m : SessionMetadata) : Option String := m.tags.bind (·.get operationTag)

/-- The operation tag of a raw record. -/
def rawOperation (map : JsonMap) : Option Json :=
  (map.get Field.tags.key).bind (·.get operationTag)

/-- The fields of publication provenance. -/
def provenance : List Field := [.publicationBinding, .publicationRootId, .publicationCapability]

/-- The fields of a launch, fixed once the session is bound. -/
def launch : List Field :=
  [.command, .args, .cwd, .isolateEnv, .extraEnv, .sessionEnv, .unsetEnv, .env]

/-- The checks on provenance and launch, `mutate.rs:199-243`. -/
def keepsPublication (before after : SessionMetadata) : Bool :=
  !(provenance.any (fun f ↦ !before.agree after f) ||
      (before.bound && (operation before != operation after || after.aliases [.tags])) ||
      after.aliases provenance) &&
    !(before.bound && (launch.any (fun f ↦ !before.agree after f) || after.aliases launch))

/-- `MutateOptions`, `mutate.rs:26`. -/
structure MutateOptions where
  expectedGeneration : Option String
  expectedMetadata : Option SessionMetadata

/-- `metadata_matches_observation`, `mutate.rs:69`. -/
def metadataMatchesObservation (observed current : SessionMetadata) : Bool :=
  if observed.generation.isSome || current.generation.isSome then
    observed.generation.isSome && observed.generation == current.generation
  else same (some (.object observed.toMap)) (some (.object current.toMap))

/-- `guards_hold`, `mutate.rs:174`. -/
def guardsHold (options : MutateOptions) (current : SessionMetadata) : Bool :=
  options.expectedMetadata.all (metadataMatchesObservation · current) &&
    options.expectedGeneration.all fun expected ↦ current.generation == some expected

/-- `MutateStatus`, `mutate.rs:37`. -/
inductive MutateStatus where
  | busy
  | missing
  | generationMismatch
  | stale
  | unchanged (m : SessionMetadata)
  | changed (m : SessionMetadata)

/-- `MutateStatus::Changed`. -/
def MutateStatus.isChanged : MutateStatus → Bool
  | changed _ => true
  | _ => false

/-- What the surroundings decide of one mutation: whether the lock is had, what the file has
when it is read again, and whether it is written. -/
structure MutateIo where
  locked : Bool
  latest : Option Bytes
  written : Bool

/-- What a mutation comes to: its status, and what it publishes, if anything. -/
structure Mutation where
  status : MutateStatus
  published : Option Bytes

/-- What the file has after a mutation, where it had `there` up to the write. -/
def Mutation.file (r : Mutation) (there : Option Bytes) : Option Bytes := r.published.or there

/-- `mutate_metadata_under_lock_core`, `mutate.rs:151`. `atomic_write` renames last, so that
a write that fails leaves the file. -/
def mutateMetadataUnderLock (serde : SerdeJson) (options : MutateOptions)
    (mutate : SessionMetadata → Option SessionMetadata) (io : MutateIo) (file : Option Bytes) :
    Mutation :=
  if !io.locked then ⟨.busy, none⟩
  else match readMetadataMap serde file with
    | none => ⟨.missing, none⟩
    | some raw => match fromMap raw with
      | none => ⟨.missing, none⟩
      | some before =>
        if !guardsHold options before then ⟨.generationMismatch, none⟩
        else match mutate before with
          | none => ⟨.unchanged before, none⟩
          | some after =>
            if !keepsPublication before after then ⟨.generationMismatch, none⟩
            else match readMetadataMap serde io.latest with
              | none => ⟨.stale, none⟩
              | some latest =>
                if !same (some (.object latest)) (some (.object raw)) then ⟨.stale, none⟩
                else if !io.written then ⟨.stale, none⟩
                else
                  let published := applyMetadataDiff before after raw
                  ⟨.changed ((fromMap published).getD after), some (serde.prettyJson published)⟩

/-- What a mutation can do. -/
inductive Mutated (serde : SerdeJson) (mutate : SessionMetadata → Option SessionMetadata)
    (file : Option Bytes) : Mutation → Prop
  | refused {status : MutateStatus} (h : status.isChanged = false) :
    Mutated serde mutate file ⟨status, none⟩
  | changed {raw : JsonMap} {before after m : SessionMetadata}
      (hr : readMetadataMap serde file = some raw) (hb : fromMap raw = some before)
      (hm : mutate before = some after) (hk : keepsPublication before after = true) :
    Mutated serde mutate file
      ⟨.changed m, some (serde.prettyJson (applyMetadataDiff before after raw))⟩

theorem mutateMetadataUnderLock_mutated (serde : SerdeJson) (options : MutateOptions)
    (mutate : SessionMetadata → Option SessionMetadata) (io : MutateIo) (file : Option Bytes) :
    Mutated serde mutate file (mutateMetadataUnderLock serde options mutate io file) := by
  unfold mutateMetadataUnderLock
  split
  · exact .refused rfl
  cases hr : readMetadataMap serde file with
  | none => exact .refused rfl
  | some raw =>
    dsimp only
    cases hb : fromMap raw with
    | none => exact .refused rfl
    | some before =>
      dsimp only
      split
      · exact .refused rfl
      cases hm : mutate before with
      | none => exact .refused rfl
      | some after =>
        dsimp only
        split
        · exact .refused rfl
        next hk =>
        rw [Bool.not_eq_true', Bool.not_eq_false] at hk
        cases readMetadataMap serde io.latest with
        | none => exact .refused rfl
        | some latest =>
          dsimp only
          split
          · exact .refused rfl
          split
          · exact .refused rfl
          exact .changed hr hb hm hk

/-- A mutation that the guards and checks allow is published. -/
theorem mutateMetadataUnderLock_of_keepsPublication (options : MutateOptions)
    {serde : SerdeJson} {mutate : SessionMetadata → Option SessionMetadata}
    {file : Option Bytes} {raw : JsonMap} {before after : SessionMetadata}
    (hr : readMetadataMap serde file = some raw) (hb : fromMap raw = some before)
    (hg : guardsHold options before = true) (hm : mutate before = some after)
    (hk : keepsPublication before after = true) :
    mutateMetadataUnderLock serde options mutate ⟨true, file, true⟩ file =
      ⟨.changed ((fromMap (applyMetadataDiff before after raw)).getD after),
        some (serde.prettyJson (applyMetadataDiff before after raw))⟩ := by
  simp [mutateMetadataUnderLock, hr, hb, hg, hm, hk, same]

/-! ### The difference of two records -/

/-- Whether a mutation leaves the value of a key. -/
def unchanged (before after : SessionMetadata) (key : String) : Bool :=
  same (before.toMap.get key) (after.toMap.get key)

private theorem same_none {a : Option Json} (h : same none a = true) : a = none := by
  cases a with
  | none => rfl
  | some v => simp [same] at h

private theorem none_same {a : Option Json} (h : same a none = true) : a = none := by
  cases a with
  | none => rfl
  | some v => simp [same] at h

private theorem changed_of_mem {before after : SessionMetadata} {e : String × Json}
    (he : e ∈ before.changes after) :
    after.toMap.get e.1 = some e.2 ∧ unchanged before after e.1 = false := by
  obtain ⟨hm, hs⟩ := List.mem_filter.mp he
  have hg := IndexMap.get_of_mem after.nodup_toMap hm
  refine ⟨hg, ?_⟩
  rw [unchanged, hg]
  simpa using hs

private theorem mem_removals {before after : SessionMetadata} {key : String} :
    key ∈ before.removals after ↔
      (before.toMap.get key).isSome = true ∧ after.toMap.get key = none := by
  rw [removals, List.mem_filter, IndexMap.mem_keys_iff, Option.isNone_iff_eq_none]

private theorem changed_of_removed {before after : SessionMetadata} {key : String}
    (hk : key ∈ before.removals after) : unchanged before after key = false := by
  obtain ⟨hb, ha⟩ := mem_removals.mp hk
  rw [unchanged, ha, Bool.eq_false_iff]
  intro hs
  rw [none_same hs] at hb
  cases hb

private theorem nodup_changes (before after : SessionMetadata) :
    (before.changes after).keys.Nodup :=
  after.nodup_toMap.sublist (List.filter_sublist.map _)

private theorem get_changes (before after : SessionMetadata) (key : String) :
    (before.changes after).get key =
      if unchanged before after key then none else after.toMap.get key := by
  by_cases hu : unchanged before after key = true
  · rw [if_pos hu]
    by_contra hs
    obtain ⟨v, hv⟩ := Option.ne_none_iff_exists'.mp hs
    have hm := (changed_of_mem (IndexMap.mem_of_get hv)).2
    rw [hu] at hm
    cases hm
  · rw [if_neg hu]
    cases ha : after.toMap.get key with
    | none =>
      by_contra hs
      obtain ⟨v, hv⟩ := Option.ne_none_iff_exists'.mp hs
      have hm := (changed_of_mem (IndexMap.mem_of_get hv)).1
      rw [ha] at hm
      cases hm
    | some v =>
      have hm : (key, v) ∈ before.changes after := by
        refine List.mem_filter.mpr ⟨IndexMap.mem_of_get ha, ?_⟩
        rw [unchanged, ha] at hu
        simpa using hu
      exact IndexMap.get_of_mem (nodup_changes before after) hm

/-- A key has what it had where the two records agree on it, and what the second has
elsewhere. -/
theorem get_applyMetadataDiff (before after : SessionMetadata) (map : JsonMap) (key : String) :
    (applyMetadataDiff before after map).get key =
      if unchanged before after key then map.get key else after.toMap.get key := by
  rw [applyMetadataDiff, IndexMap.get_removeAll, IndexMap.get_insertAll (nodup_changes _ _),
    get_changes]
  by_cases hu : unchanged before after key = true
  · have hr : key ∉ before.removals after := by
      intro hr
      rw [changed_of_removed hr] at hu
      cases hu
    rw [if_neg hr, if_pos hu, if_pos hu, Option.none_or]
  · rw [if_neg hu, if_neg hu]
    cases ha : after.toMap.get key with
    | none =>
      have hb : before.toMap.get key ≠ none := by
        intro hb
        exact hu (by rw [unchanged, ha, hb, same_refl])
      rw [if_pos (mem_removals.mpr ⟨Option.isSome_iff_ne_none.mpr hb, ha⟩)]
    | some v =>
      have hr : key ∉ before.removals after := by
        simp [mem_removals, ha]
      rw [if_neg hr]
      rfl

theorem nodup_applyMetadataDiff {map : JsonMap} (hn : map.keys.Nodup)
    (before after : SessionMetadata) : (applyMetadataDiff before after map).keys.Nodup := by
  rw [applyMetadataDiff, IndexMap.keys_removeAll]
  exact (IndexMap.nodup_insertAll hn _).sublist List.filter_sublist

/-- The entries of the keys on which the two records agree are left as they are. -/
theorem filter_applyMetadataDiff (before after : SessionMetadata) (map : JsonMap) :
    (applyMetadataDiff before after map).filter (unchanged before after ·.1) =
      map.filter (unchanged before after ·.1) := by
  rw [applyMetadataDiff, IndexMap.filter_removeAll (fun key hk ↦ changed_of_removed hk),
    IndexMap.filter_insertAll (fun e he ↦ (changed_of_mem he).2)]

/-- Whether a key is kept: the first record does not have it, or the second does. -/
def kept (before after : SessionMetadata) (key : String) : Bool :=
  (before.toMap.get key).isNone || (after.toMap.get key).isSome

/-- The keys that are kept stay in their order, and new ones follow. -/
theorem keys_applyMetadataDiff (before after : SessionMetadata) (map : JsonMap) :
    ∃ added, (applyMetadataDiff before after map).keys =
      map.keys.filter (kept before after) ++ added := by
  obtain ⟨added, ha⟩ := IndexMap.keys_insertAll map (before.changes after)
  rw [applyMetadataDiff, IndexMap.keys_removeAll, ha, List.filter_append]
  refine ⟨_, congrArg (· ++ _) (List.filter_congr fun key _ ↦ ?_)⟩
  rw [kept, Bool.eq_iff_iff, decide_eq_true_iff, mem_removals]
  cases before.toMap.get key <;> cases after.toMap.get key <;> simp

/-! ### What a published record keeps -/

theorem extra_of_fromMap {raw : JsonMap} {m : SessionMetadata}
    (h : fromMap raw = some m) (f : Field) : m.extra.get f.key = none := by
  obtain ⟨-, -, he⟩ := fromMap_eq_some.mp h
  rw [he, get_unknown, Field.ofKey_key]
  rfl

/-- A field that `extra` does not override is changed when its values differ. -/
theorem unchanged_key {before after : SessionMetadata} {f : Field}
    (hb : before.extra.get f.key = none) (ha : after.extra.get f.key = none) :
    unchanged before after f.key = before.agree after f := by
  rw [unchanged, get_toMap_key before f hb, get_toMap_key after f ha, agree]

/-- A field on which the records agree, and which `extra` does not override, keeps its raw
value. -/
theorem get_applyMetadataDiff_of_agree {raw : JsonMap} {before after : SessionMetadata}
    (hr : fromMap raw = some before) {f : Field} (ha : after.extra.get f.key = none)
    (hf : before.agree after f = true) :
    (applyMetadataDiff before after raw).get f.key = raw.get f.key := by
  rw [get_applyMetadataDiff, unchanged_key (extra_of_fromMap hr f) ha, if_pos hf]

/-- What a field that `extra` does not override is published as, read back. -/
theorem read_applyMetadataDiff {raw : JsonMap} {before after : SessionMetadata}
    (hr : fromMap raw = some before) {f : Field} (ha : after.extra.get f.key = none)
    (hw : after.written f ≠ some .null) :
    f.codec.read ((applyMetadataDiff before after raw).get f.key) =
      some (if before.agree after f then before.field f else after.field f) := by
  rw [get_applyMetadataDiff, unchanged_key (extra_of_fromMap hr f) ha]
  split
  · exact (fromMap_eq_some.mp hr).2.1 f
  · rw [get_toMap_key after f ha]
    exact f.codec.read_write _ hw

private theorem get_tagEntries {fields : List (String × Json)} {m : IndexMap String String}
    (h : Kind.tagEntries fields = some m) (key : String) :
    IndexMap.get fields key = (m.get key).map .string := by
  induction fields generalizing m with
  | nil =>
    cases h
    rfl
  | cons e fields ih =>
    obtain ⟨k, v⟩ := e
    rw [Kind.tagEntries] at h
    obtain ⟨s, hs, ht⟩ := Option.bind_eq_some_iff.mp h
    obtain ⟨n, hn, rfl⟩ := Option.map_eq_some_iff.mp ht
    have hv : v = .string s := by
      cases v <;> simp_all [Json.asStr]
    rw [IndexMap.get_cons, IndexMap.get_cons, ih hn, hv]
    split <;> rfl

/-- The tags of a value that reads as a tag map. -/
theorem get_of_read {v : Option Json} {t : Option (IndexMap String String)}
    (h : Field.tags.codec.read v = some t) (key : String) :
    v.bind (·.get key) = (t.bind (·.get key)).map .string := by
  cases v with
  | none =>
    cases h
    rfl
  | some v =>
    cases v with
    | null =>
      cases h
      rfl
    | object fields =>
      obtain ⟨m, hm, rfl⟩ := Option.map_eq_some_iff.mp h
      exact get_tagEntries hm key
    | _ => cases h

theorem written_eq_null {m : SessionMetadata} {f : Field} (h : m.written f = some .null) :
    f = .recovery := by
  unfold written at h
  cases f <;> first
    | rfl
    | (simp only [Field.codec, Codec.default, Codec.optional, Option.map_eq_some_iff,
        Kind.string, Kind.strings, Kind.int32, Kind.int64, Kind.uint16, Kind.uint32,
        Kind.uint64, Kind.bool, Kind.tagMap, Kind.binding] at h
       simp at h)

/-- A record that can be read back: no field's key is in `extra`, and `recovery` is not an
explicit null. -/
def SessionMetadata.plain (m : SessionMetadata) : Prop :=
  m.aliases Field.all = false ∧ m.recovery ≠ some .null

private theorem aliases_eq_false {m : SessionMetadata} {fs : List Field} :
    m.aliases fs = false ↔ ∀ f ∈ fs, m.extra.get f.key = none := by
  simp [aliases]

private theorem written_ne_null {m : SessionMetadata} (h : m.recovery ≠ some .null)
    (f : Field) : m.written f ≠ some .null := by
  intro hw
  obtain rfl := written_eq_null hw
  refine h ?_
  obtain ⟨v, hv, hn⟩ := Option.map_eq_some_iff.mp hw
  exact hv.trans (congrArg some hn)

/-- A published record reads back as the mutated one when that can be read back. -/
theorem fromMap_published {raw : JsonMap} {before after : SessionMetadata}
    (hr : fromMap raw = some before) (hp : after.plain) :
    ∃ m, fromMap (applyMetadataDiff before after raw) = some m ∧ m.Equal after := by
  have ha : ∀ f : Field, after.extra.get f.key = none :=
    fun f ↦ aliases_eq_false.mp hp.1 f f.mem_all
  have hn := nodup_applyMetadataDiff (fromMap_eq_some.mp hr).1 before after
  refine ⟨⟨fun f ↦ if before.agree after f then before.field f else after.field f,
    unknown (applyMetadataDiff before after raw), nodup_unknown hn⟩, ?_, ?_, ?_⟩
  · exact fromMap_eq_some.mpr
      ⟨hn, fun f ↦ read_applyMetadataDiff hr (ha f) (written_ne_null hp.2 f), rfl⟩
  · intro f
    unfold agree written
    dsimp only
    split
    · next hf => exact hf
    · exact same_refl _
  · intro key
    dsimp only
    rw [get_unknown]
    cases hk : Field.ofKey key with
    | some f =>
      rw [← Field.key_of_ofKey hk, ha f]
      rfl
    | none =>
      have hbe : before.toMap.get key = raw.get key := by
        rw [get_toMap, get_fields_of_ofKey_none before hk, Option.or_none,
          (fromMap_eq_some.mp hr).2.2, get_unknown, hk]
        rfl
      have hae : after.toMap.get key = after.extra.get key := by
        rw [get_toMap, get_fields_of_ofKey_none after hk, Option.or_none]
      rw [Option.isNone_none, if_pos rfl, get_applyMetadataDiff]
      split
      · next hu =>
        rw [unchanged, hbe, hae] at hu
        exact hu
      · rw [hae]
        exact same_refl _

private theorem normal_eq_null {v : Json} (h : v.normal = .null) : v = .null := by
  cases v <;> simp [Json.normal] at h ⊢

/-- A record that is read from a map has no explicit null in `recovery`. -/
private theorem recovery_of_fromMap {map : JsonMap} {m : SessionMetadata}
    (h : fromMap map = some m) : m.recovery ≠ some .null := by
  have hf := (fromMap_eq_some.mp h).2.1 .recovery
  intro hn
  have hn' : m.field .recovery = some .null := hn
  rw [hn'] at hf
  cases hv : map.get Field.recovery.key with
  | none =>
    rw [hv] at hf
    cases hf
  | some v =>
    rw [hv] at hf
    cases v <;> cases hf

/-- A record equal to one that is read from a map can be read back. -/
theorem plain_of_equal {map : JsonMap} {m after : SessionMetadata}
    (h : fromMap map = some m) (he : m.Equal after) : after.plain := by
  refine ⟨aliases_eq_false.mpr fun f _ ↦ ?_, fun hn ↦ ?_⟩
  · have hs := he.2 f.key
    rw [extra_of_fromMap h f] at hs
    exact same_none hs
  · have hs := he.1 .recovery
    have hw : after.written .recovery = some .null := by
      unfold written
      rw [show after.field .recovery = some .null from hn]
      rfl
    rw [agree, hw, same, decide_eq_true_iff] at hs
    obtain ⟨v, hv, hm⟩ := Option.map_eq_some_iff.mp hs
    obtain rfl := normal_eq_null hm
    exact written_ne_null (recovery_of_fromMap h) .recovery hv

/-- What `applyMetadataDiff` keeps of a raw record under the checks of a mutation. -/
structure Preserved (raw : JsonMap) (before after : SessionMetadata) (published : JsonMap) :
    Prop where
  provenance : ∀ f ∈ provenance, published.get f.key = raw.get f.key
  launch : before.bound = true → ∀ f ∈ launch, published.get f.key = raw.get f.key
  operation : before.bound = true → rawOperation published = rawOperation raw
  reads : (∃ m, fromMap published = some m ∧ m.Equal after) ↔ after.plain
  values : ∀ key, unchanged before after key = true → published.get key = raw.get key
  entries : published.filter (unchanged before after ·.1) =
    raw.filter (unchanged before after ·.1)
  keys : ∃ added, published.keys = raw.keys.filter (kept before after) ++ added

/-- The checks, taken apart. -/
private theorem keepsPublication_eq_true {before after : SessionMetadata}
    (h : keepsPublication before after = true) :
    (∀ f ∈ provenance, before.agree after f = true ∧ after.extra.get f.key = none) ∧
      (before.bound = true →
        (∀ f ∈ launch, before.agree after f = true ∧ after.extra.get f.key = none) ∧
        operation before = operation after ∧ after.extra.get Field.tags.key = none) := by
  simp only [keepsPublication, Bool.and_eq_true, Bool.not_eq_true', Bool.or_eq_false_iff,
    List.any_eq_false, Bool.not_eq_false, aliases_eq_false] at h
  obtain ⟨⟨⟨hp, ht⟩, hpa⟩, hl⟩ := h
  refine ⟨fun f hf ↦ ⟨hp f hf, hpa f hf⟩, fun hb ↦ ?_⟩
  simp only [hb, Bool.true_and, Bool.or_eq_false_iff, bne_eq_false_iff_eq, aliases_eq_false,
    List.any_eq_false, Bool.not_eq_true', Bool.not_eq_false] at ht hl
  exact ⟨fun f hf ↦ ⟨hl.1 f hf, hl.2 f hf⟩, ht.1, ht.2 .tags List.mem_cons_self⟩

theorem preserved_of_keepsPublication {raw : JsonMap} {before after : SessionMetadata}
    (hr : fromMap raw = some before) (hk : keepsPublication before after = true) :
    Preserved raw before after (applyMetadataDiff before after raw) where
  provenance f hf :=
    have h := (keepsPublication_eq_true hk).1 f hf
    get_applyMetadataDiff_of_agree hr h.2 h.1
  launch hb f hf :=
    have h := ((keepsPublication_eq_true hk).2 hb).1 f hf
    get_applyMetadataDiff_of_agree hr h.2 h.1
  operation hb := by
    obtain ⟨-, ho, ht⟩ := (keepsPublication_eq_true hk).2 hb
    have hw : after.written .tags ≠ some .null := by
      intro hw
      cases written_eq_null hw
    have hp := get_of_read (read_applyMetadataDiff hr ht hw) operationTag
    have hb := get_of_read ((fromMap_eq_some.mp hr).2.1 .tags) operationTag
    unfold rawOperation
    rw [hp, hb]
    change Option.map _ (Option.bind (ite _ before.tags after.tags) _) =
      Option.map _ (operation before)
    split
    · rfl
    · rw [ho]
      rfl
  reads := by
    refine ⟨?_, fromMap_published hr⟩
    rintro ⟨m, hm, he⟩
    exact plain_of_equal hm he
  values key hu := by
    rw [get_applyMetadataDiff, if_pos hu]
  entries := filter_applyMetadataDiff before after raw
  keys := keys_applyMetadataDiff before after raw

/-- A mutation that does not report a change leaves the file's bytes. One that does
publishes an object with the provenance of the raw record, for a bound session also with its
operation tag and launch, which reads back as the mutated record exactly when that can be
read back, and which has every unchanged entry with its raw value and in its place. -/
theorem mutateMetadataUnderLock_preserves (serde : SerdeJson) (options : MutateOptions)
    (mutate : SessionMetadata → Option SessionMetadata) (io : MutateIo) (file : Option Bytes)
    (there : Option Bytes) :
    ((mutateMetadataUnderLock serde options mutate io file).status.isChanged = false →
      (mutateMetadataUnderLock serde options mutate io file).file there = there) ∧
    ((mutateMetadataUnderLock serde options mutate io file).status.isChanged = true →
      ∃ raw before after published,
        readMetadataMap serde file = some raw ∧ fromMap raw = some before ∧
        mutate before = some after ∧
        (mutateMetadataUnderLock serde options mutate io file).file there =
          some (serde.prettyJson published) ∧
        Preserved raw before after published) := by
  have hm := mutateMetadataUnderLock_mutated serde options mutate io file
  generalize mutateMetadataUnderLock serde options mutate io file = r at hm
  cases hm with
  | refused h => exact ⟨fun _ ↦ rfl, fun hc ↦ absurd hc (by simp [h])⟩
  | changed hr hb hm hk =>
    exact ⟨fun hn ↦ Bool.noConfusion hn,
      fun _ ↦ ⟨_, _, _, _, hr, hb, hm, rfl, preserved_of_keepsPublication hb hk⟩⟩

/-- The bytes of an empty object. -/
def braces : Bytes := [0x7b, 0x7d]

/-- A parser and printer that know the two objects of `widen`. -/
def sampleJson : SerdeJson where
  fromSlice b := if b = braces then some (.object []) else none
  prettyJson map := if map = [("rows", .string "wide")] then
    [0x7b, 0x0a, 0x20, 0x20, 0x22, 0x72, 0x6f, 0x77, 0x73, 0x22, 0x3a, 0x20, 0x22, 0x77, 0x69,
      0x64, 0x65, 0x22, 0x0a, 0x7d] else braces

/-- A mutation that adds `rows` to `extra`. -/
def widen (m : SessionMetadata) : Option SessionMetadata :=
  some { m with extra := [("rows", .string "wide")], nodup := by decide }

/-- The record of `widen` is published, and what is published cannot be read back. -/
theorem widen_unread :
    ∃ raw before after,
      readMetadataMap sampleJson (some braces) = some raw ∧
      fromMap raw = some before ∧ widen before = some after ∧
      (mutateMetadataUnderLock sampleJson ⟨none, none⟩ widen ⟨true, some braces, true⟩
        (some braces)).status.isChanged = true ∧
      (mutateMetadataUnderLock sampleJson ⟨none, none⟩ widen ⟨true, some braces, true⟩
        (some braces)).published =
          some (sampleJson.prettyJson (applyMetadataDiff before after raw)) ∧
      applyMetadataDiff before after raw = [("rows", .string "wide")] ∧
      ¬ ∃ m, fromMap (applyMetadataDiff before after raw) = some m ∧ m.Equal after := by
  have hr : readMetadataMap sampleJson (some braces) = some [] := by decide
  have hb : fromMap [] = some ((fromMap []).get (by decide)) := (Option.some_get _).symm
  have hm : widen ((fromMap []).get (by decide)) =
      some ((widen ((fromMap []).get (by decide))).get rfl) := rfl
  have hk := mutateMetadataUnderLock_of_keepsPublication ⟨none, none⟩ hr hb rfl hm
    (by decide)
  have hp : applyMetadataDiff ((fromMap []).get (by decide))
      ((widen ((fromMap []).get (by decide))).get rfl) [] = [("rows", .string "wide")] := by
    decide
  refine ⟨_, _, _, hr, hb, hm, by rw [hk]; rfl, by rw [hk], hp, ?_⟩
  rintro ⟨m, hf, -⟩
  rw [hp] at hf
  have hn : (fromMap [("rows", .string "wide")]).isSome = false := by decide
  rw [hf] at hn
  cases hn

end PtySpec.Metadata
