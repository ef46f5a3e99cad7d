import PtySpec.Metadata.Linear

/-!
# The event of a presentation patch

Model of `apply_metadata_patch_by_id_with_wait` with its event, and of the three calls that are
built on it, `crates/pty-core/src/registry/mutate.rs:467-674`. The event of a patch says what
changed; there is one exactly when something did.
-/

namespace PtySpec.Metadata

open Lib SessionMetadata

/-! ### The calls -/

/-- What a patch comes to: its answer, the event it appends and what it writes, if any. -/
structure PatchRun where
  result : MetadataPatch.Result
  emitted : Option PatchNotice
  wrote : Option Bytes

/-- The record of a file. -/
def recordAt (serde : SerdeJson) (file : Option Bytes) : Option SessionMetadata :=
  (readMetadataMap serde file).bind fromMap

/-- `apply_metadata_patch_by_id_with_wait`, `mutate.rs:467`: `eventLock` is how the event lock
is taken. The event is appended after the write. -/
def applyMetadataPatch (serde : SerdeJson) (id : String) (patch : MetadataPatch)
    (event : MetadataPatchEvent) (eventLock : Except String Unit) (io : MutateIo)
    (file : Option Bytes) : PatchRun :=
  match patch.validate with
  | .error e => ⟨.error e, none, none⟩
  | .ok () =>
    match eventLock with
    | .error e => ⟨.error e, none, none⟩
    | .ok () =>
      let r := mutateMetadataUnderLock serde ⟨none, none⟩ patch.mutate io file
      { result := patch.result id r.status
        emitted := if r.status.isChanged then
            (recordAt serde file).map fun before ↦ MetadataPatch.notice event (patch.state before)
          else none
        wrote := r.published }

/-- The calls that patch a record: `patch_metadata_by_id`, `set_display_name` and
`update_tags`. -/
inductive PatchRequest where
  | patch (p : MetadataPatch)
  | setDisplayName (displayName : Option String)
  | updateTags (updates : IndexMap String String) (nodup : updates.keys.Nodup)
    (removals : List String)

namespace PatchRequest

/-- The tags of `update_tags`, `mutate.rs:663`: the updates, then the removals. -/
def tagRequests (updates : IndexMap String String) (removals : List String) :
    IndexMap String (Option String) :=
  removals.foldl (fun tags key ↦ tags.insert key none)
    (IndexMap.insertAll [] (updates.map fun e ↦ (e.1, some e.2)))

theorem nodup_tagRequests (updates : IndexMap String String) (removals : List String) :
    (tagRequests updates removals).keys.Nodup := by
  unfold tagRequests
  have hn : (IndexMap.insertAll [] (updates.map fun e ↦ (e.1, some e.2))).keys.Nodup :=
    IndexMap.nodup_insertAll (m := ([] : IndexMap String (Option String))) .nil _
  generalize IndexMap.insertAll [] (updates.map fun e ↦ (e.1, some e.2)) = tags at hn
  induction removals generalizing tags with
  | nil => exact hn
  | cons key removals ih => exact ih _ (IndexMap.nodup_insert hn key none)

/-- The patch of a call. -/
def asPatch : PatchRequest → MetadataPatch
  | patch p => p
  | setDisplayName displayName => ⟨some (displayName.filter (· ≠ "")), none, .nil⟩
  | updateTags updates _ removals =>
    ⟨none, some (tagRequests updates removals), nodup_tagRequests updates removals⟩

/-- The event of a call. -/
def event : PatchRequest → MetadataPatchEvent
  | patch _ => .metadataChange
  | setDisplayName _ => .displayNameChange
  | updateTags _ _ _ => .tagsChange

/-- A call. -/
def run (q : PatchRequest) (serde : SerdeJson) (id : String) (eventLock : Except String Unit)
    (io : MutateIo) (file : Option Bytes) : PatchRun :=
  applyMetadataPatch serde id q.asPatch q.event eventLock io file

private theorem get_foldl_insert_none (removals : List String)
    (tags : IndexMap String (Option String)) (key : String) :
    IndexMap.get (removals.foldl (fun tags key ↦ tags.insert key none) tags) key =
      if key ∈ removals then some none else tags.get key := by
  induction removals generalizing tags with
  | nil => rfl
  | cons r removals ih =>
    rw [List.foldl_cons, ih, IndexMap.get_insert]
    by_cases hm : key ∈ removals
    · rw [if_pos hm, if_pos (List.mem_cons_of_mem r hm)]
    · by_cases hr : r = key
      · rw [if_neg hm, if_pos hr, if_pos (List.mem_cons.mpr (.inl hr.symm))]
      · rw [if_neg hm, if_neg hr, if_neg (by simp [hm, Ne.symm hr])]

private theorem get_map_some (updates : IndexMap String String) (key : String) :
    IndexMap.get (updates.map fun e ↦ (e.1, some e.2)) key = (updates.get key).map some := by
  induction updates with
  | nil => rfl
  | cons e updates ih =>
    rw [List.map_cons, IndexMap.get_cons, IndexMap.get_cons, ih]
    split <;> rfl

/-- A tag that is both set and removed is removed. -/
theorem get_tagRequests {updates : IndexMap String String} (hn : updates.keys.Nodup)
    (removals : List String) (key : String) :
    (tagRequests updates removals).get key =
      if key ∈ removals then some none else (updates.get key).map some := by
  have hk : IndexMap.keys (updates.map fun e ↦ (e.1, some e.2)) = updates.keys := by
    simp [IndexMap.keys, Function.comp_def]
  rw [tagRequests, get_foldl_insert_none, IndexMap.get_insertAll (hk ▸ hn), get_map_some,
    IndexMap.get_nil, Option.or_none]

end PatchRequest

/-! ### What changes -/

namespace MetadataPatch

variable {patch : MetadataPatch} {metadata : SessionMetadata}

theorem tag_eq_getD (m : SessionMetadata) (key : String) :
    m.tag key = (m.tags.getD []).get key := by
  rw [SessionMetadata.tag]
  cases m.tags <;> rfl

/-- The changed tags are those that have another value afterwards. -/
theorem mem_changedTags (previous : IndexMap String String) (key : String) :
    key ∈ (patch.changedTags previous).keys ↔
      previous.get key ≠ (patch.nextTags previous).get key := by
  rw [get_nextTags]
  unfold changedTags
  have hn := patch.nodup
  generalize patch.tags.getD [] = requests at hn
  constructor
  · intro h
    obtain ⟨e, he, rfl⟩ := List.mem_map.mp h
    obtain ⟨hm, hne⟩ := List.mem_filter.mp he
    rw [IndexMap.get_of_mem hn hm]
    simpa using hne
  · intro h
    cases hg : requests.get key with
    | none =>
      rw [hg] at h
      exact absurd rfl h
    | some v =>
      rw [hg] at h
      have hm := IndexMap.mem_of_get hg
      exact List.mem_map.mpr ⟨(key, v), List.mem_filter.mpr ⟨hm, by simpa using h⟩, rfl⟩

theorem retags_iff :
    patch.retags metadata = true ↔
      ∃ key, metadata.tag key ≠ (patch.patched metadata).tag key := by
  have hk : ∀ key, key ∈ (patch.changedTags (metadata.tags.getD [])).keys ↔
      metadata.tag key ≠ (patch.patched metadata).tag key := by
    intro key
    rw [mem_changedTags, tag_patched, get_nextTags, tag_eq_getD]
  simp only [← hk]
  unfold retags
  cases patch.changedTags (metadata.tags.getD []) with
  | nil => simp [IndexMap.keys]
  | cons e changed => exact ⟨fun _ ↦ ⟨e.1, List.mem_cons_self⟩, fun _ ↦ rfl⟩

theorem renames_iff :
    patch.renames metadata = true ↔
      metadata.displayName ≠ (patch.patched metadata).displayName := by
  rw [displayName_patched]
  unfold renames
  cases patch.displayName with
  | none => simp
  | some requested => simp

end MetadataPatch

/-! ### Snapshots -/

namespace MetadataChangeSnapshot

/-- The display name of the state that a snapshot is applied to. -/
def applyName (s : MetadataChangeSnapshot) (name : Option String) : Option String :=
  s.displayName.getD name

/-- A tag of the state that a snapshot is applied to. -/
def applyTag (s : MetadataChangeSnapshot) (key : String) (value : Option String) :
    Option String :=
  ((s.tags.getD []).get key).getD value

/-- A snapshot of a record has the display name and the tags that two records differ in, and
no other. -/
structure Shows (s : MetadataChangeSnapshot) (before after m : SessionMetadata) : Prop where
  displayName : s.displayName =
    if before.displayName = after.displayName then none else some m.displayName
  tag : ∀ key, (s.tags.getD []).get key =
    if before.tag key = after.tag key then none else some (m.tag key)
  present : s.tags.isSome = true ↔ ∃ key, before.tag key ≠ after.tag key
  sorted : (s.tags.getD []).keys.Pairwise (· < ·)

variable {s : MetadataChangeSnapshot} {before after : SessionMetadata}

/-- A snapshot of the new record makes it of the previous one. -/
theorem Shows.apply (h : s.Shows before after after) :
    s.applyName before.displayName = after.displayName ∧
      ∀ key, s.applyTag key (before.tag key) = after.tag key := by
  refine ⟨?_, fun key ↦ ?_⟩
  · rw [applyName, h.displayName]
    split
    · next he => exact he
    · rfl
  · rw [applyTag, h.tag]
    split
    · next he => exact he
    · rfl

/-- A snapshot sees a record by its display name and tags. -/
theorem Shows.congr {m n after' : SessionMetadata} (h : s.Shows before after m)
    (hd : after'.displayName = after.displayName) (ht : ∀ key, after'.tag key = after.tag key)
    (hmd : n.displayName = m.displayName) (hmt : ∀ key, n.tag key = m.tag key) :
    s.Shows before after' n where
  displayName := by rw [hd, hmd, h.displayName]
  tag key := by rw [ht, hmt, h.tag]
  present := by
    simp only [ht]
    exact h.present
  sorted := h.sorted

end MetadataChangeSnapshot

private theorem get_snapshot (keys : List String) (m : IndexMap String String) (key : String) :
    IndexMap.get (keys.map fun k ↦ (k, m.get k)) key =
      if key ∈ keys then some (m.get key) else none := by
  induction keys with
  | nil => rfl
  | cons k keys ih =>
    rw [List.map_cons, IndexMap.get_cons, ih]
    by_cases hk : k = key
    · rw [if_pos hk, if_pos (List.mem_cons.mpr (.inl hk.symm)), hk]
    · rw [if_neg hk]
      simp [Ne.symm hk]

private theorem keys_snapshot (keys : List String) (m : IndexMap String String) :
    IndexMap.keys (keys.map fun k ↦ (k, m.get k)) = keys := by
  simp [IndexMap.keys, Function.comp_def]

namespace MetadataPatch

variable (patch : MetadataPatch) (metadata : SessionMetadata)

/-- A snapshot of some tags and a display name, if these are changed. -/
private theorem shows_of_tags {m : SessionMetadata} {name : Option (Option String)}
    {tags : IndexMap String String}
    (hname : patch.renames metadata = true → name = some m.displayName)
    (htags : ∀ key, tags.get key = m.tag key) :
    MetadataChangeSnapshot.Shows
      ⟨if patch.renames metadata then name else none, if patch.retags metadata then
        some ((patch.changedTags (metadata.tags.getD [])).keys.mergeSort.map fun key ↦
          (key, tags.get key)) else none⟩
      metadata (patch.patched metadata) m := by
  have hkeys : ∀ key, key ∈ (patch.changedTags (metadata.tags.getD [])).keys.mergeSort ↔
      metadata.tag key ≠ (patch.patched metadata).tag key := by
    intro key
    rw [List.mem_mergeSort, mem_changedTags, tag_patched, get_nextTags, tag_eq_getD]
  have hr : patch.renames metadata = true ↔ _ := renames_iff
  have ht : patch.retags metadata = true ↔ _ := retags_iff
  refine ⟨?_, fun key ↦ ?_, ?_, ?_⟩
  · dsimp only
    split
    · next h => rw [hname h, if_neg (hr.mp h)]
    · next h => rw [if_pos (not_not.mp fun hn ↦ h (hr.mpr hn))]
  · dsimp only
    split
    · rw [Option.getD_some, get_snapshot, htags]
      by_cases hk : metadata.tag key = (patch.patched metadata).tag key
      · rw [if_pos hk, if_neg (fun hm ↦ (hkeys key).mp hm hk)]
      · rw [if_neg hk, if_pos ((hkeys key).mpr hk)]
    · next h =>
      have hk : metadata.tag key = (patch.patched metadata).tag key :=
        not_not.mp fun hn ↦ h (ht.mpr ⟨key, hn⟩)
      rw [if_pos hk]
      rfl
  · dsimp only
    rw [← ht]
    split
    · next h => simp [h]
    · next h => simp [h]
  · dsimp only
    split
    · rw [Option.getD_some, keys_snapshot]
      have hn : (patch.changedTags (metadata.tags.getD [])).keys.Nodup :=
        patch.nodup.sublist (List.filter_sublist.map _)
      have hne := (List.mergeSort_perm _ (fun a b : String ↦ decide (a ≤ b))).nodup_iff.mpr hn
      exact (List.pairwise_mergeSort' (· ≤ ·) _).imp₂ (fun _ _ ↦ lt_of_le_of_ne) hne
    · exact .nil

/-- The snapshots of the closure are those of its record and the patched one. -/
theorem state_shows :
    (patch.state metadata).previous.Shows metadata (patch.patched metadata) metadata ∧
      (patch.state metadata).value.Shows metadata (patch.patched metadata)
        (patch.patched metadata) := by
  refine ⟨shows_of_tags patch metadata (fun _ ↦ rfl) fun key ↦ (tag_eq_getD _ _).symm,
    shows_of_tags patch metadata (fun h ↦ ?_) fun key ↦ ?_⟩
  · rw [displayName_patched]
    unfold renames at h
    cases hd : patch.displayName with
    | none => simp [hd] at h
    | some requested => rfl
  · rw [get_nextTags, tag_patched, tag_eq_getD]

/-- The patch has nothing to change of a record with the display name and the tags that it
leaves. -/
theorem mutate_again {m : SessionMetadata}
    (hd : m.displayName = (patch.patched metadata).displayName)
    (ht : ∀ key, m.tag key = (patch.patched metadata).tag key) :
    patch.mutate m = none ∧ (patch.state m).error = none := by
  have hr : patch.renames m = false := by
    rw [← Bool.not_eq_true, renames_iff, displayName_patched, hd, displayName_patched]
    cases patch.displayName <;> simp
  have htags : patch.retags m = false := by
    rw [← Bool.not_eq_true, retags_iff]
    rintro ⟨key, hk⟩
    rw [tag_patched, ht, tag_patched] at hk
    cases h : (patch.tags.getD []).get key with
    | none =>
      rw [h] at hk
      exact hk rfl
    | some v =>
      rw [h] at hk
      exact hk rfl
  unfold mutate state
  rw [hr, htags]
  exact ⟨rfl, rfl⟩

/-- A closure that changes the record changes its display name or a tag. -/
theorem differ_of_mutate (hm : (patch.mutate metadata).isSome = true) :
    metadata.displayName ≠ (patch.patched metadata).displayName ∨
      ∃ key, metadata.tag key ≠ (patch.patched metadata).tag key := by
  unfold mutate at hm
  split at hm
  · cases hm
  next h =>
  rw [Bool.not_eq_true', Bool.not_eq_false, Bool.or_eq_true] at h
  exact h.imp renames_iff.mp retags_iff.mp

end MetadataPatch

/-! ### What is published -/

theorem tag_eq_of_agree {m n : SessionMetadata} (h : m.agree n .tags = true) (key : String) :
    m.tag key = n.tag key := by
  have hw : ∀ k : SessionMetadata, (k.written .tags).bind (·.get key) =
      (k.tag key).map .string := by
    intro k
    refine get_of_read (Field.tags.codec.read_write (k.field .tags) fun hw ↦ ?_) key
    cases written_eq_null (m := k) hw
  have hb : ∀ a : Option Json,
      (a.map Json.normal).bind (·.get key) = (a.bind (·.get key)).map Json.normal := by
    intro a
    cases a with
    | none => rfl
    | some v => exact Json.get_normal v key
  rw [agree, same, decide_eq_true_iff] at h
  have hg := congrArg (Option.bind · (·.get key)) h
  rw [hb, hb, hw, hw] at hg
  cases hm : m.tag key <;> cases hn : n.tag key <;> simp_all [Json.normal]

private theorem recovery_patched (patch : MetadataPatch) (m : SessionMetadata) :
    (patch.patched m).recovery = m.recovery := by
  have hd : ∀ (n : SessionMetadata) value, (n.set .displayName value).recovery = n.recovery :=
    fun n value ↦ n.field_set_of_ne (f := .displayName) (g := .recovery) Field.noConfusion value
  have ht : ∀ (n : SessionMetadata) value, (n.set .tags value).recovery = n.recovery :=
    fun n value ↦ n.field_set_of_ne (f := .tags) (g := .recovery) Field.noConfusion value
  unfold MetadataPatch.patched
  dsimp only
  split <;> split <;> simp only [hd, ht]

/-- The published record is read back with the display name and the tags of the patched
one. -/
theorem fromMap_patched {raw : JsonMap} {before : SessionMetadata} (patch : MetadataPatch)
    (hb : fromMap raw = some before) :
    ∃ m, fromMap (applyMetadataDiff before (patch.patched before) raw) = some m ∧
      m.displayName = (patch.patched before).displayName ∧
      ∀ key, m.tag key = (patch.patched before).tag key := by
  obtain ⟨hal, hrec⟩ : before.plain :=
    plain_of_equal hb ⟨fun f ↦ same_refl _, fun key ↦ same_refl _⟩
  have hp : (patch.patched before).plain := by
    refine ⟨?_, recovery_patched patch before ▸ hrec⟩
    unfold aliases at hal ⊢
    rwa [MetadataPatch.extra_patched]
  obtain ⟨m, hm, he⟩ := fromMap_published hb hp
  exact ⟨m, hm, displayName_eq_of_agree (he.1 .displayName), tag_eq_of_agree (he.1 .tags)⟩

/-- What a patch can come to: it publishes and tells, or it does neither and leaves a record
that it has nothing to change of. -/
private theorem applyMetadataPatch_cases (serde : SerdeJson) (id : String)
    (patch : MetadataPatch) (event : MetadataPatchEvent) (eventLock : Except String Unit)
    (io : MutateIo) (file : Option Bytes) :
    (∃ p, prepare serde ⟨none, none⟩ patch.mutate file = .ok p ∧ patch.validate = .ok () ∧
        applyMetadataPatch serde id patch event eventLock io file =
          ⟨.ok (true, (fromMap p.published).getD p.after),
            some (MetadataPatch.notice event (patch.state p.before)),
            some (serde.prettyJson p.published)⟩) ∨
      ∃ result, applyMetadataPatch serde id patch event eventLock io file =
          ⟨result, none, none⟩ ∧
        ∀ changed m, result = .ok (changed, m) → patch.validate = .ok () ∧
          recordAt serde file = some m ∧ patch.mutate m = none ∧
          (patch.state m).error = none := by
  unfold applyMetadataPatch
  cases hv : patch.validate with
  | error e => exact .inr ⟨_, rfl, fun _ _ h ↦ (nomatch h)⟩
  | ok u =>
    dsimp only
    cases eventLock with
    | error e => exact .inr ⟨_, rfl, fun _ _ h ↦ (nomatch h)⟩
    | ok u =>
      dsimp only
      rw [mutateMetadataUnderLock_eq]
      split
      · exact .inr ⟨_, rfl, fun _ _ h ↦ (nomatch h)⟩
      cases hp : prepare serde ⟨none, none⟩ patch.mutate file with
      | error status =>
        dsimp only
        by_cases hs : status.settles = true
        · obtain ⟨raw, before, hr, hb, -, hm, rfl⟩ := prepare_error hp hs
          refine .inr ⟨_, rfl, fun changed m h ↦ ?_⟩
          unfold MetadataPatch.result at h
          dsimp only at h
          cases he : (patch.state before).error with
          | some e =>
            rw [he] at h
            cases h
          | none =>
            rw [he] at h
            cases h
            refine ⟨rfl, ?_, hm, he⟩
            rw [recordAt, hr, Option.bind_some, hb]
        · refine .inr ⟨patch.result id status, ?_, fun changed m h ↦ ?_⟩
          · cases status <;> first | rfl | exact absurd rfl hs
          · cases status <;> first | exact absurd rfl hs | cases h
      | ok p =>
        obtain ⟨hr, hb, -, -⟩ := prepare_ok hp
        dsimp only
        split
        · exact .inr ⟨_, rfl, fun _ _ h ↦ (nomatch h)⟩
        split
        · exact .inr ⟨_, rfl, fun _ _ h ↦ (nomatch h)⟩
        refine .inl ⟨p, rfl, rfl, ?_⟩
        rw [recordAt, hr, Option.bind_some, hb]
        rfl


/-! ### The event and the change -/

namespace PatchRequest

/-- What the event of a call says of the record before and after: `metadata_change` has what
differs, and its value makes the new state of the previous one; `display_name_change` has both
names; `tags_change` has all tags of both. -/
def Describes (before after : SessionMetadata) : PatchNotice → Prop
  | .metadataChange previous value =>
    previous.Shows before after before ∧ value.Shows before after after ∧
      value.applyName before.displayName = after.displayName ∧
      ∀ key, value.applyTag key (before.tag key) = after.tag key
  | .displayNameChange previous value =>
    previous = before.displayName ∧ value = after.displayName ∧
      ∀ key, before.tag key = after.tag key
  | .tagsChange previous value =>
    before.displayName = after.displayName ∧
      ∀ key, previous.get key = before.tag key ∧ value.get key = after.tag key

/-- A record has what a call asked for, and otherwise what was there. -/
def Applied (before after : SessionMetadata) : PatchRequest → Prop
  | patch p =>
    after.displayName = p.displayName.getD before.displayName ∧
      ∀ key, after.tag key = ((p.tags.getD []).get key).getD (before.tag key)
  | setDisplayName displayName => after.displayName = displayName.filter (· ≠ "")
  | updateTags updates _ removals => ∀ key, after.tag key =
    if key ∈ removals then none else (updates.get key).or (before.tag key)

/-- Whether two records differ in what is presented. -/
def Differ (before after : SessionMetadata) : Prop :=
  before.displayName ≠ after.displayName ∨ ∃ key, before.tag key ≠ after.tag key

/-- What the call writes is read back as it was. -/
def ReadsBack (serde : SerdeJson) (q : PatchRequest) (file : Option Bytes) : Prop :=
  ∀ p, prepare serde ⟨none, none⟩ q.asPatch.mutate file = .ok p →
    serde.fromSlice (serde.prettyJson p.published) = some (.object p.published)

variable {serde : SerdeJson} {q : PatchRequest}

theorem applied_patched (q : PatchRequest) {before m : SessionMetadata}
    (hd : m.displayName = (q.asPatch.patched before).displayName)
    (ht : ∀ key, m.tag key = (q.asPatch.patched before).tag key) : q.Applied before m := by
  rw [MetadataPatch.displayName_patched] at hd
  simp only [MetadataPatch.tag_patched] at ht
  cases q with
  | patch p => exact ⟨hd, ht⟩
  | setDisplayName displayName => exact hd
  | updateTags updates hn removals =>
    intro key
    rw [ht, asPatch, Option.getD_some, get_tagRequests hn]
    split
    · rfl
    · cases updates.get key <;> rfl

theorem describes_patched (q : PatchRequest) {before m : SessionMetadata}
    (hc : (q.asPatch.mutate before).isSome = true)
    (hd : m.displayName = (q.asPatch.patched before).displayName)
    (ht : ∀ key, m.tag key = (q.asPatch.patched before).tag key) :
    Describes before m (MetadataPatch.notice q.event (q.asPatch.state before)) := by
  obtain ⟨hp, hv⟩ := MetadataPatch.state_shows q.asPatch before
  cases q with
  | patch p =>
    have hv' := hv.congr hd ht hd ht
    exact ⟨hp.congr hd ht rfl fun _ ↦ rfl, hv', hv'.apply⟩
  | setDisplayName displayName =>
    have hr : before.displayName ≠
        ((setDisplayName displayName).asPatch.patched before).displayName := by
      obtain hr | ⟨key, hk⟩ := MetadataPatch.differ_of_mutate _ before hc
      · exact hr
      · rw [MetadataPatch.tag_patched] at hk
        exact absurd rfl hk
    refine ⟨?_, ?_, fun key ↦ ?_⟩
    · rw [hp.displayName, if_neg hr]
      rfl
    · rw [hv.displayName, if_neg hr, hd]
      rfl
    · rw [ht, MetadataPatch.tag_patched]
      rfl
  | updateTags updates hn removals =>
    refine ⟨?_, fun key ↦ ⟨(MetadataPatch.tag_eq_getD before key).symm, ?_⟩⟩
    · rw [hd, MetadataPatch.displayName_patched]
      rfl
    · rw [ht, MetadataPatch.tag_patched, MetadataPatch.tag_eq_getD]
      exact MetadataPatch.get_nextTags ..

/-- The event of a call is appended exactly when the record that is then in the file differs
from the one before, and without an event nothing is written; it tells of these two records,
and the record has what was asked for. The same call again changes nothing and appends no
event. -/
structure Told (serde : SerdeJson) (id : String) (q : PatchRequest) (file : Option Bytes)
    (a : PatchRun) : Prop where
  silent : a.emitted = none → a.wrote = none
  emitted : a.emitted.isSome = true ↔ ∃ before after, recordAt serde file = some before ∧
    recordAt serde (a.wrote.or file) = some after ∧ Differ before after
  exact : ∀ notice, a.emitted = some notice → ∃ before after,
    recordAt serde file = some before ∧ recordAt serde (a.wrote.or file) = some after ∧
      a.result = .ok (true, after) ∧ Describes before after notice ∧ q.Applied before after
  again : ∀ changed m, a.result = .ok (changed, m) →
    recordAt serde (a.wrote.or file) = some m ∧ ∀ io : MutateIo, io.locked = true →
      q.run serde id (.ok ()) io (a.wrote.or file) = ⟨.ok (false, m), none, none⟩

/-- A call on a file whose record has nothing left to change. -/
private theorem run_again {id : String} {file : Option Bytes} {m : SessionMetadata}
    (hr : recordAt serde file = some m) (hv : q.asPatch.validate = .ok ())
    (hm : q.asPatch.mutate m = none) (he : (q.asPatch.state m).error = none) {io : MutateIo}
    (hl : io.locked = true) :
    q.run serde id (.ok ()) io file = ⟨.ok (false, m), none, none⟩ := by
  obtain ⟨raw, hraw, hb⟩ := Option.bind_eq_some_iff.mp hr
  have hp := @prepare_of_declined _ ⟨none, none⟩ _ _ _ _ hraw hb rfl hm
  have hres : q.asPatch.result id (.unchanged m) = .ok (false, m) := by
    unfold MetadataPatch.result
    dsimp only
    rw [he]
  unfold run applyMetadataPatch
  rw [hv]
  dsimp only
  rw [mutateMetadataUnderLock_eq, hl, hp]
  exact congrArg (fun r ↦ PatchRun.mk r none none) hres

/-- Every patch tells exactly what it changes. -/
theorem run_told (id : String) (eventLock : Except String Unit) (io : MutateIo)
    {file : Option Bytes} (hs : ReadsBack serde q file) :
    Told serde id q file (q.run serde id eventLock io file) := by
  obtain ⟨p, hp, hv, ha⟩ | ⟨result, ha, hres⟩ :=
    applyMetadataPatch_cases serde id q.asPatch q.event eventLock io file
  · obtain ⟨hraw, hb, -, hm⟩ := prepare_ok hp
    have hafter : p.after = q.asPatch.patched p.before := MetadataPatch.mutate_eq_some hm
    obtain ⟨m, hpub, hd, ht⟩ := fromMap_patched q.asPatch hb
    rw [← hafter] at hpub
    have hseen : recordAt serde file = some p.before := by
      rw [recordAt, hraw, Option.bind_some, hb]
    have hleft : recordAt serde (some (serde.prettyJson p.published)) = some m := by
      rw [recordAt, readMetadataMap, Option.bind_some, hs p hp]
      exact hpub
    have hsome : (q.asPatch.mutate p.before).isSome = true := by rw [hm]; rfl
    have hrun : q.run serde id eventLock io file = ⟨.ok (true, m),
        some (MetadataPatch.notice q.event (q.asPatch.state p.before)),
        some (serde.prettyJson p.published)⟩ := by
      rw [run, ha, Prepared.published, hpub]
      rfl
    rw [hrun]
    refine ⟨fun h ↦ (by cases h), ⟨fun _ ↦ ⟨p.before, m, hseen, hleft, ?_⟩, fun _ ↦ rfl⟩,
      fun notice hn ↦ ?_, fun changed m' hres ↦ ?_⟩
    · unfold Differ
      simp only [hd, ht]
      exact MetadataPatch.differ_of_mutate _ _ hsome
    · obtain rfl := Option.some.inj hn
      exact ⟨p.before, m, hseen, hleft, rfl, describes_patched q hsome hd ht,
        applied_patched q hd ht⟩
    · cases hres
      obtain ⟨hm', he'⟩ := MetadataPatch.mutate_again q.asPatch p.before hd ht
      exact ⟨hleft, fun io' hl ↦ run_again hleft hv hm' he' hl⟩
  · have hrun : q.run serde id eventLock io file = ⟨result, none, none⟩ := ha
    rw [hrun]
    refine ⟨fun _ ↦ rfl, ⟨fun h ↦ (by cases h), ?_⟩, fun notice hn ↦ (by cases hn),
      fun changed m hok ↦ ?_⟩
    · rintro ⟨before, after, hb, ha', hne⟩
      obtain rfl := Option.some.inj (hb.symm.trans ha')
      obtain hne | ⟨key, hne⟩ := hne
      · exact absurd rfl hne
      · exact absurd rfl hne
    · obtain ⟨hv, hrec, hm, he⟩ := hres changed m hok
      exact ⟨hrec, fun io' hl ↦ run_again hrec hv hm he hl⟩

end PatchRequest

/-! ### A tag that is added -/

/-- A record with one tag. -/
def roleOnly : JsonMap := [("tags", .object [("role", .string "a")])]

/-- The record with another tag. -/
def roleAndTeam : JsonMap :=
  [("tags", .object [("role", .string "a"), ("team", .string "x")])]

/-- What is written of a record that has nothing but tags. -/
def defaults : JsonMap :=
  [("command", .string ""), ("args", .array []), ("displayCommand", .string ""),
    ("cwd", .string ""), ("createdAt", .string "")]

/-- A parser and printer that know these two records. -/
def teamJson : SerdeJson where
  fromSlice b := if b = [0x61] then some (.object roleOnly)
    else if b = [0x62] then some (.object roleAndTeam) else none
  prettyJson map := if map = roleAndTeam then [0x62] else [0x61]

/-- The record of `roleOnly`. -/
def roleRecord : SessionMetadata := (fromMap roleOnly).get (by decide)

/-- `tag` with the other tag. -/
def addTeam : PatchRequest := .updateTags [("team", "x")] (by decide) []

/-- The record with both. -/
def teamRecord : SessionMetadata := (fromMap roleAndTeam).get (by decide)

private theorem mutate_addTeam :
    addTeam.asPatch.mutate roleRecord = some (addTeam.asPatch.patched roleRecord) := by
  unfold MetadataPatch.mutate
  rw [if_neg (by decide), if_neg (by decide)]

private theorem read_roleOnly :
    readMetadataMap teamJson (some [0x61]) = some roleOnly ∧
      fromMap roleOnly = some roleRecord :=
  ⟨by decide, (Option.some_get _).symm⟩

private theorem prepare_addTeam :
    prepare teamJson ⟨none, none⟩ addTeam.asPatch.mutate (some [0x61]) =
      .ok ⟨roleOnly, roleRecord, addTeam.asPatch.patched roleRecord⟩ :=
  prepare_of_keepsPublication read_roleOnly.1 read_roleOnly.2 (by decide) mutate_addTeam
    (by decide)

private theorem published_addTeam :
    Prepared.published ⟨roleOnly, roleRecord, addTeam.asPatch.patched roleRecord⟩ =
      roleAndTeam := by
  have hb : roleRecord.toMap = defaults ++ roleOnly := by decide +kernel
  have ha : (addTeam.asPatch.patched roleRecord).toMap = defaults ++ roleAndTeam := by
    decide +kernel
  have hs : same (some (.object [("role", .string "a")]))
      (some (.object [("role", .string "a"), ("team", .string "x")])) = false := by
    simp [same, Json.normal, Json.normalFields, List.mergeSort,
      List.MergeSort.Internal.splitInTwo]
  have hsame : (defaults.filter fun e ↦
      !same (IndexMap.get (defaults ++ roleOnly) e.1) (some e.2)) = [] := by decide +kernel
  have htags : IndexMap.get (defaults ++ roleOnly) "tags" =
      some (.object [("role", .string "a")]) := by decide
  have hc : roleRecord.changes (addTeam.asPatch.patched roleRecord) = roleAndTeam := by
    rw [changes, hb, ha, List.filter_append, hsame, roleAndTeam, List.filter_cons, htags, hs]
    rfl
  have hr : roleRecord.removals (addTeam.asPatch.patched roleRecord) = [] := by
    rw [removals, hb, ha]
    decide +kernel
  rw [Prepared.published, applyMetadataDiff, hc, hr]
  decide

private theorem readsBack_addTeam : addTeam.ReadsBack teamJson (some [0x61]) := by
  intro p hp
  obtain rfl := Except.ok.inj (prepare_addTeam.symm.trans hp)
  rw [published_addTeam]
  decide

/-- The patch that adds a tag tells of it, and again does nothing. -/
theorem run_told_addTeam :
    addTeam.Told teamJson "s" (some [0x61])
      (addTeam.run teamJson "s" (.ok ()) ⟨true, some [0x61], true⟩ (some [0x61])) :=
  PatchRequest.run_told "s" (.ok ()) _ readsBack_addTeam

/-- The tags that an event shows. -/
def PatchNotice.tagKeys : PatchNotice → List String
  | .metadataChange previous value =>
    (previous.tags.getD []).keys ++ (value.tags.getD []).keys
  | .displayNameChange _ _ => []
  | .tagsChange previous value => previous.keys ++ value.keys

/-- The event of `tag` shows tags that do not change. -/
theorem tagKeys_changed_refuted :
    ¬ ∀ (serde : SerdeJson) (q : PatchRequest) (id : String) (io : MutateIo)
        (file : Option Bytes), q.ReadsBack serde file →
      ∀ notice, (q.run serde id (.ok ()) io file).emitted = some notice →
        ∀ before after, recordAt serde file = some before →
          recordAt serde ((q.run serde id (.ok ()) io file).wrote.or file) = some after →
            ∀ key ∈ notice.tagKeys, before.tag key ≠ after.tag key := by
  intro hall
  have hlock := mutateMetadataUnderLock_of_keepsPublication ⟨none, none⟩ read_roleOnly.1
    read_roleOnly.2 (by decide) mutate_addTeam (by decide)
  have hpub := published_addTeam
  unfold Prepared.published at hpub
  dsimp only at hpub
  rw [hpub] at hlock
  have hrun : addTeam.run teamJson "s" (.ok ()) ⟨true, some [0x61], true⟩ (some [0x61]) =
      ⟨.ok (true, (fromMap roleAndTeam).getD (addTeam.asPatch.patched roleRecord)),
        some (MetadataPatch.notice .tagsChange (addTeam.asPatch.state roleRecord)),
        some [0x62]⟩ := by
    unfold PatchRequest.run applyMetadataPatch
    rw [hlock]
    rfl
  have hkey := hall teamJson addTeam "s" ⟨true, some [0x61], true⟩ (some [0x61])
    readsBack_addTeam (MetadataPatch.notice .tagsChange (addTeam.asPatch.state roleRecord))
    (by rw [hrun]) roleRecord teamRecord read_roleOnly.2
    (by rw [hrun]; exact (Option.some_get _).symm) "role" (by decide)
  exact hkey (by decide)

end PtySpec.Metadata
