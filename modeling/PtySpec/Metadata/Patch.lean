import PtySpec.Metadata.Mutate

/-!
# Tag compare-and-set and presentation patches

Model of `compare_and_set_tag_value` and `apply_metadata_patch_by_id_with_wait`,
`crates/pty-core/src/registry/mutate.rs:295-566`: the closure that each gives to the locked
mutation, and the answer it makes of the mutation's status.
-/

namespace PtySpec.Metadata

open Lib

/-! ### Display names -/

/-- `is_js_whitespace`, `names.rs:83`. -/
def isJsWhitespace (c : Char) : Bool :=
  [0x9, 0xA, 0xB, 0xC, 0xD, 0x20, 0xA0, 0x1680, 0x2028, 0x2029, 0x202F, 0x205F, 0x3000,
    0xFEFF].contains c.toNat || (0x2000 ≤ c.toNat && c.toNat ≤ 0x200A)

/-- `js_trim`, `names.rs:106`. -/
def jsTrim (s : String) : String :=
  .ofList (((s.toList.dropWhile isJsWhitespace).reverse.dropWhile isJsWhitespace).reverse)

/-- `char::is_control`: the category Cc. -/
def isControl (c : Char) : Bool := c.toNat < 0x20 || (0x7F ≤ c.toNat && c.toNat < 0xA0)

/-- `validate_display_name`, `names.rs:60`. -/
def validateDisplayName (name : String) : Except String Unit :=
  if name = "" then .error "Display name cannot be empty."
  else if name ≠ jsTrim name then .error "Display name must be trimmed."
  else if 160 < name.toList.length then
    .error "Display name too long (max 160 Unicode scalars)."
  else if name.toList.any (fun c ↦ isControl c || c.toNat = 0x2028 || c.toNat = 0x2029) then
    .error "Display name must be single-line and contain no control characters."
  else .ok ()

/-! ### Records with a field replaced -/

namespace SessionMetadata

/-- A record with another value of a field. -/
def set (m : SessionMetadata) (f : Field) (value : f.Ty) : SessionMetadata :=
  { m with field := Function.update m.field f value }

/-- `display_name`. -/
def displayName (m : SessionMetadata) : Option String := m.field .displayName

/-- `tags.as_ref().and_then(|tags| tags.get(tag))`. -/
def tag (m : SessionMetadata) (key : String) : Option String := m.tags.bind (·.get key)

variable (m : SessionMetadata)

theorem tag_eq (key : String) : m.tag key = (m.tags.getD []).get key := by
  rw [tag]
  cases m.tags <;> rfl

@[simp] theorem field_set (f : Field) (value : f.Ty) : (m.set f value).field f = value :=
  Function.update_self ..

theorem field_set_of_ne {f g : Field} (h : g ≠ f) (value : f.Ty) :
    (m.set f value).field g = m.field g :=
  Function.update_of_ne h ..

@[simp] theorem extra_set (f : Field) (value : f.Ty) : (m.set f value).extra = m.extra := rfl

@[simp] theorem tags_set (value : Option (IndexMap String String)) :
    (m.set .tags value).tags = value :=
  m.field_set .tags value

@[simp] theorem tags_set_displayName (value : Option String) :
    (m.set .displayName value).tags = m.tags :=
  m.field_set_of_ne (f := .displayName) (g := .tags) Field.noConfusion value

@[simp] theorem displayName_set (value : Option String) :
    (m.set .displayName value).displayName = value :=
  m.field_set .displayName value

@[simp] theorem displayName_set_tags (value : Option (IndexMap String String)) :
    (m.set .tags value).displayName = m.displayName :=
  m.field_set_of_ne (f := .tags) (g := .displayName) Field.noConfusion value

end SessionMetadata

/-! ### Compare-and-set -/

/-- `TagCompareAndSetRequest`, `mutate.rs:264`. -/
structure TagCompareAndSetRequest where
  expectedGeneration : String
  tag : String
  expectedValue : String
  value : String
  deriving DecidableEq, Repr

/-- `TagCompareAndSetResult`, `mutate.rs:279`. -/
inductive TagCompareAndSetResult where
  | changed (value : String)
  | unchanged (value : String)
  | valueMismatch (value : Option String)
  | busy
  | missing
  | generationMismatch
  | stale
  deriving DecidableEq, Repr

namespace TagCompareAndSetRequest

/-- The guard on the generation, `mutate.rs:327`. -/
def options (q : TagCompareAndSetRequest) : MutateOptions := ⟨some q.expectedGeneration, none⟩

/-- The closure, `mutate.rs:307`. -/
def mutate (q : TagCompareAndSetRequest) (metadata : SessionMetadata) :
    Option SessionMetadata :=
  if metadata.tag q.tag ≠ some q.expectedValue then none
  else if metadata.tag q.tag = some q.value then none
  else some (metadata.set .tags (some ((metadata.tags.getD []).insert q.tag q.value)))

/-- What `compare_and_set_tag_value` makes of the status, `mutate.rs:332`; `current_value` and
`matched` are what the closure saw. -/
def result (q : TagCompareAndSetRequest) : MutateStatus → TagCompareAndSetResult
  | .changed _ => .changed q.value
  | .unchanged before =>
    if before.tag q.tag = some q.expectedValue then .unchanged q.value
    else .valueMismatch (before.tag q.tag)
  | .busy => .busy
  | .missing => .missing
  | .generationMismatch => .generationMismatch
  | .stale => .stale

variable {q : TagCompareAndSetRequest}

/-- The closure changes the record exactly when the tag has the expected value and that is
not the new one. -/
theorem mutate_isSome (before : SessionMetadata) :
    (q.mutate before).isSome = true ↔
      before.tag q.tag = some q.expectedValue ∧ q.expectedValue ≠ q.value := by
  unfold mutate
  split
  · next h => simp [h]
  · next h =>
    rw [not_not] at h
    rw [h]
    split
    · next hv => simpa using hv
    · next hv => simpa using fun he ↦ hv (congrArg some he)

theorem mutate_eq_some {before after : SessionMetadata} (h : q.mutate before = some after) :
    after = before.set .tags (some ((before.tags.getD []).insert q.tag q.value)) := by
  unfold mutate at h
  split at h
  · cases h
  split at h
  · cases h
  · exact (Option.some.inj h).symm

/-- The tag has the new value afterwards, and the others have what they had. -/
theorem tag_mutate {before after : SessionMetadata} (h : q.mutate before = some after)
    (key : String) :
    after.tag key = if q.tag = key then some q.value else before.tag key := by
  rw [mutate_eq_some h, SessionMetadata.tag, SessionMetadata.tags_set, Option.bind_some,
    IndexMap.get_insert]
  unfold SessionMetadata.tag
  cases before.tags <;> rfl

end TagCompareAndSetRequest

/-! ### Presentation patches -/

/-- `MetadataPatch`, `mutate.rs:353`: `some none` clears the display name, `none` removes a
tag. -/
structure MetadataPatch where
  displayName : Option (Option String)
  tags : Option (IndexMap String (Option String))
  nodup : (tags.getD []).keys.Nodup

/-- `MetadataChangeSnapshot`, `mutate.rs:439`. -/
structure MetadataChangeSnapshot where
  displayName : Option (Option String)
  tags : Option (IndexMap String (Option String))

/-- `MetadataPatchEvent`, `mutate.rs:448`. -/
inductive MetadataPatchEvent where
  | metadataChange
  | displayNameChange
  | tagsChange
  deriving DecidableEq, Repr

/-- What the event of a patch says. -/
inductive PatchNotice where
  | metadataChange (previous value : MetadataChangeSnapshot)
  | displayNameChange (previous value : Option String)
  | tagsChange (previous value : IndexMap String String)

/-- `PatchState`, `mutate.rs:482`. -/
structure PatchState where
  previousTags : IndexMap String String
  nextTags : IndexMap String String
  previous : MetadataChangeSnapshot
  value : MetadataChangeSnapshot
  error : Option String

namespace MetadataPatch

/-- `MetadataPatch::validate`, `mutate.rs:413`. -/
def validate (patch : MetadataPatch) : Except String Unit :=
  match patch.displayName with
  | some (some dn) =>
    match validateDisplayName dn with
    | .error e => .error s!"Invalid displayName: {e}"
    | .ok () => keys
  | _ => keys
where
  /-- The check on tag keys. -/
  keys : Except String Unit :=
    if (patch.tags.getD []).keys.any (· = "") then
      .error "Metadata patch tag keys must be non-empty."
    else .ok ()

/-- The requested tags that are not what the record has, `mutate.rs:519`. -/
def changedTags (patch : MetadataPatch) (previous : IndexMap String String) :
    IndexMap String (Option String) :=
  (patch.tags.getD []).filter fun e ↦ previous.get e.1 ≠ e.2

/-- One requested tag, set or removed. -/
def setTag (tags : IndexMap String String) (e : String × Option String) :
    IndexMap String String :=
  match e.2 with
  | none => tags.remove e.1
  | some v => tags.insert e.1 v

/-- `next_tags` after the requested changes. -/
def nextTags (patch : MetadataPatch) (previous : IndexMap String String) :
    IndexMap String String :=
  (patch.changedTags previous).foldl setTag previous

/-- Whether the display name is changed. -/
def renames (patch : MetadataPatch) (metadata : SessionMetadata) : Bool :=
  patch.displayName.any (metadata.displayName ≠ ·)

/-- Whether a tag is changed. -/
def retags (patch : MetadataPatch) (metadata : SessionMetadata) : Bool :=
  !(patch.changedTags (metadata.tags.getD [])).isEmpty

/-- The record with the patch. -/
def patched (patch : MetadataPatch) (metadata : SessionMetadata) : SessionMetadata :=
  let named := if patch.renames metadata then
      metadata.set .displayName (patch.displayName.getD none) else metadata
  if patch.retags metadata then
    let next := patch.nextTags (metadata.tags.getD [])
    named.set .tags (if next.isEmpty then none else some next)
  else named

/-- The error in the patched record, `mutate.rs:548`. -/
def resultError (metadata : SessionMetadata) : Option String :=
  match metadata.displayName.map validateDisplayName with
  | some (.error e) => some e
  | _ =>
    if (metadata.tags.getD []).keys.any (· = "") then
      some "Resulting metadata contains an empty tag key."
    else none

/-- What the closure leaves in its state, `mutate.rs:500`. -/
def state (patch : MetadataPatch) (metadata : SessionMetadata) : PatchState :=
  let previousTags := metadata.tags.getD []
  let nextTags := patch.nextTags previousTags
  let keys := (patch.changedTags previousTags).keys.mergeSort
  let tags (m : IndexMap String String) := if patch.retags metadata then
    some (keys.map fun key ↦ (key, m.get key)) else none
  let renames := patch.renames metadata
  { previousTags := previousTags
    nextTags := nextTags
    previous := ⟨if renames then some metadata.displayName else none, tags previousTags⟩
    value := ⟨if renames then patch.displayName else none, tags nextTags⟩
    error := if renames || patch.retags metadata then resultError (patch.patched metadata)
      else none }

/-- The closure, `mutate.rs:500`. -/
def mutate (patch : MetadataPatch) (metadata : SessionMetadata) : Option SessionMetadata :=
  if !(patch.renames metadata || patch.retags metadata) then none
  else if (resultError (patch.patched metadata)).isSome then none
  else some (patch.patched metadata)

/-- The event that follows a change, `mutate.rs:563`. -/
def notice (event : MetadataPatchEvent) (st : PatchState) : PatchNotice :=
  match event with
  | .metadataChange => .metadataChange st.previous st.value
  | .displayNameChange =>
    .displayNameChange (st.previous.displayName.getD none) (st.value.displayName.getD none)
  | .tagsChange => .tagsChange st.previousTags st.nextTags

/-- `MetadataPatchResult`, `mutate.rs:429`: whether the record was changed, and the record. -/
abbrev Result := Except String (Bool × SessionMetadata)

/-- `metadata_busy_message`, `lock.rs:41`. -/
def busyMessage (id : String) : String :=
  s!"Session id \"{id}\" metadata is busy. Retry the operation."

/-- What `apply_metadata_patch_by_id_with_wait` makes of the status, `mutate.rs:584`. -/
def result (patch : MetadataPatch) (id : String) : MutateStatus → Result
  | .busy => .error (busyMessage id)
  | .missing => .error s!"Session id \"{id}\" not found."
  | .stale | .generationMismatch =>
    .error s!"Session id \"{id}\" metadata changed during the operation. Retry it."
  | .unchanged before =>
    match (patch.state before).error with
    | some e => .error e
    | none => .ok (false, before)
  | .changed after => .ok (true, after)

private theorem get_foldl_setTag {entries : IndexMap String (Option String)}
    (hn : entries.keys.Nodup) (tags : IndexMap String String) (key : String) :
    IndexMap.get (entries.foldl setTag tags) key =
      (entries.get key).getD (tags.get key) := by
  induction entries generalizing tags with
  | nil => rfl
  | cons e entries ih =>
    obtain ⟨k, v⟩ := e
    have hn' : k ∉ IndexMap.keys entries ∧ (IndexMap.keys entries).Nodup :=
      List.nodup_cons.mp hn
    have hs : (setTag tags (k, v)).get key = if k = key then v else tags.get key := by
      cases v with
      | none => exact IndexMap.get_remove ..
      | some v => exact IndexMap.get_insert ..
    rw [List.foldl_cons, ih hn'.2, IndexMap.get_cons, hs]
    split
    · next he =>
      have hg : IndexMap.get entries key = none := by
        rw [← he]
        simpa [IndexMap.mem_keys_iff] using hn'.1
      rw [hg]
      rfl
    · rfl

private theorem get_changedTags (patch : MetadataPatch) (previous : IndexMap String String)
    (key : String) :
    ((patch.changedTags previous).get key).getD (previous.get key) =
      ((patch.tags.getD []).get key).getD (previous.get key) := by
  have hn := patch.nodup
  unfold changedTags
  generalize patch.tags.getD [] = entries at hn
  induction entries with
  | nil => rfl
  | cons e entries ih =>
    have hn' : e.1 ∉ IndexMap.keys entries ∧ (IndexMap.keys entries).Nodup :=
      List.nodup_cons.mp hn
    rw [List.filter_cons, IndexMap.get_cons]
    by_cases he : e.1 = key
    · rw [if_pos he]
      split
      · rw [IndexMap.get_cons, if_pos he]
      · next hs =>
        have hv : previous.get e.1 = e.2 := by simpa using hs
        have hg : IndexMap.get entries key = none := by
          rw [← he]
          simpa [IndexMap.mem_keys_iff] using hn'.1
        rw [ih hn'.2, hg, ← he, hv]
        rfl
    · rw [if_neg he, ← ih hn'.2]
      split
      · rw [IndexMap.get_cons, if_neg he]
      · rfl

/-- A tag has its requested value afterwards, and one that was not named what it had. -/
theorem get_nextTags (patch : MetadataPatch) (previous : IndexMap String String)
    (key : String) :
    (patch.nextTags previous).get key =
      ((patch.tags.getD []).get key).getD (previous.get key) := by
  have hn : (patch.changedTags previous).keys.Nodup :=
    patch.nodup.sublist (List.filter_sublist.map _)
  rw [nextTags, get_foldl_setTag hn, get_changedTags]

variable {patch : MetadataPatch}

theorem mutate_eq_some {before after : SessionMetadata} (h : patch.mutate before = some after) :
    after = patch.patched before := by
  unfold mutate at h
  split at h
  · cases h
  split at h
  · cases h
  · exact (Option.some.inj h).symm

private theorem tags_named (metadata : SessionMetadata) :
    (if patch.renames metadata then
      metadata.set .displayName (patch.displayName.getD none) else metadata).tags =
      metadata.tags := by
  split
  · exact metadata.tags_set_displayName _
  · rfl

/-- The patched record has the requested tags. -/
theorem tag_patched (metadata : SessionMetadata) (key : String) :
    (patch.patched metadata).tag key =
      ((patch.tags.getD []).get key).getD (metadata.tag key) := by
  have hg : metadata.tag key = (metadata.tags.getD []).get key := by
    rw [SessionMetadata.tag]
    cases metadata.tags <;> rfl
  rw [hg, ← get_nextTags]
  unfold patched SessionMetadata.tag
  dsimp only
  split
  · rw [SessionMetadata.tags_set]
    split
    · next he =>
      rw [List.isEmpty_iff.mp he]
      rfl
    · rfl
  · next hr =>
    have he : patch.changedTags (metadata.tags.getD []) = [] := by
      simpa [retags] using hr
    rw [tags_named, nextTags, he]
    exact hg

/-- The patched record has the requested display name. -/
theorem displayName_patched (metadata : SessionMetadata) :
    (patch.patched metadata).displayName =
      patch.displayName.getD metadata.displayName := by
  have hn : (if patch.renames metadata then
      metadata.set .displayName (patch.displayName.getD none) else metadata).displayName =
      patch.displayName.getD metadata.displayName := by
    unfold renames
    cases hd : patch.displayName with
    | none => rfl
    | some requested =>
      split
      · exact metadata.displayName_set _
      · next h => simpa using h
  unfold patched
  dsimp only
  split
  · rw [SessionMetadata.displayName_set_tags, hn]
  · exact hn

/-- The extra keys are those of the record. -/
theorem extra_patched (metadata : SessionMetadata) :
    (patch.patched metadata).extra = metadata.extra := by
  unfold patched
  dsimp only
  split <;> split <;> rfl

end MetadataPatch
end PtySpec.Metadata
