import PtySpec.Lifecycle.Gc
import PtySpec.Metadata.Notice

/-!
# The tags of a manifest

Model of the tag sync of `pty up`, `crates/pty/src/cli/up.rs:134-217`: a running session that is
bound to a manifest entry takes the entry's tags, and the keys that the manifest gave it before
are remembered in a tag.
-/

namespace PtySpec.Cli

open Lib Metadata
open Events (isWhitespace)
open Lifecycle (PtySessionDef TagMap previousKeys)

/-! ### The sync -/

/-- The tags that bind a session to a manifest entry, `up.rs:142-144`. -/
def bindingKeys : List String := ["ptyfile", "ptyfile.session", "ptyfile.tags"]

/-- `GC_BOOKKEEPING_KEYS`, `tags.rs:160`. -/
def gcBookkeepingKeys : List String :=
  ["strategy.status", "strategy.consecutive-fast-fails", "strategy.last-respawn-at",
    "strategy.command-hash", "retention.lost-at"]

/-- `user_toml_keys`, `up.rs:134-140`. -/
def userTomlKeys (session : PtySessionDef) : List String :=
  (session.tags.getD []).keys.insertionSort (· ≤ ·)

/-- `toml_tags`, `up.rs:141-144`. -/
def tomlTags (tomlPath : String) (session : PtySessionDef) : TagMap :=
  (((session.tags.getD []).insert "ptyfile" tomlPath).insert "ptyfile.session"
    session.shortName).insert "ptyfile.tags" (",".intercalate (userTomlKeys session))

/-- `find_bound` of one session, `up.rs:70-77`. -/
def isBound (tomlPath shortName : String) (metadata : SessionMetadata) : Bool :=
  metadata.tag "ptyfile" == some tomlPath && metadata.tag "ptyfile.session" == some shortName

/-- `updates`, `up.rs:166`. -/
def tagUpdates (toml current : TagMap) : TagMap := toml.filter fun e ↦ current.get e.1 ≠ some e.2

/-- `removals`, `up.rs:171-186`. -/
def tagRemovals (userKeys : List String) (current : TagMap) : List String :=
  gcBookkeepingKeys.foldl
    (fun removals key ↦
      if (current.get key).isSome && !removals.contains key then removals ++ [key] else removals)
    ((previousKeys current).filter (· ∉ userKeys))

/-- `update_tags` of a record that is not held, `mutate.rs:657`. -/
def updateTags (name : String) (updates : TagMap) (removals : List String)
    (metadata : SessionMetadata) : MetadataPatch.Result :=
  let patch : MetadataPatch := ⟨none, some (PatchRequest.tagRequests updates removals),
    PatchRequest.nodup_tagRequests updates removals⟩
  match patch.validate with
  | .error e => .error e
  | .ok () => patch.result name
    (match patch.mutate metadata with
    | some after => .changed after
    | none => .unchanged metadata)

/-- What the sync prints as changed, `up.rs:191-200`. -/
def changedTags (updates : TagMap) (removals : List String) : List String :=
  (updates.filter (·.1 ∉ bindingKeys)).map (fun e ↦ s!"{e.1}={e.2}") ++
    removals.map fun key ↦ s!"-{key}"

/-- What the sync prints, `up.rs:201-213`. -/
def alreadyRunning (label : String) (changed : List String) : String :=
  if changed = [] then s!"  ● {label} (already running)"
  else s!"  ● {label} (already running, updated tags: " ++ ", ".intercalate changed ++ ")"

/-- The sync of a bound session that runs, `up.rs:155-216`. -/
def syncBound (tomlPath name label : String) (session : PtySessionDef)
    (metadata : SessionMetadata) : SessionMetadata × String :=
  let current := metadata.tags.getD []
  let updates := tagUpdates (tomlTags tomlPath session) current
  let removals := tagRemovals (userTomlKeys session) current
  if updates.isEmpty && removals.isEmpty then (metadata, alreadyRunning label [])
  else
    match updateTags name updates removals metadata with
    | .ok (_, after) => (after, alreadyRunning label (changedTags updates removals))
    | .error _ => (metadata, alreadyRunning label [])

/-! ### Keys in a tag -/

/-- A key that a manifest may give: one that the `ptyfile.tags` tag can hold, and none that `pty`
writes itself. -/
structure PlainKey (key : String) : Prop where
  nonempty : key ≠ ""
  comma : ',' ∉ key.toList
  trimmed : (key.toList.dropWhile isWhitespace).rdropWhile isWhitespace = key.toList
  binding : key ∉ bindingKeys
  bookkeeping : key ∉ gcBookkeepingKeys

private theorem nonempty_toList {key : String} (h : key ≠ "") : key.toList ≠ [] :=
  fun he ↦ h (String.toList_eq_nil_iff.mp he)

/-- Plain keys that were joined in the tag are read from it again. -/
theorem previousKeys_intercalate {keys : List String} (h : ∀ key ∈ keys, PlainKey key)
    {tags : TagMap} (ht : tags.get "ptyfile.tags" = some (",".intercalate keys)) :
    previousKeys tags = keys := by
  have hsplit : keys ≠ [] → (",".intercalate keys).toList.splitOn ',' = keys.map String.toList := by
    intro hne
    rw [String.toList_intercalate]
    refine List.splitOn_intercalate ',' (fun l hl ↦ ?_) (by simpa using hne)
    obtain ⟨key, hk, rfl⟩ := List.mem_map.mp hl
    exact (h key hk).comma
  rw [previousKeys, ht, Option.getD_some]
  by_cases hne : keys = []
  · subst hne
    decide
  · rw [hsplit hne, List.map_map, List.filterMap_map]
    conv_rhs => rw [← List.filterMap_some (l := keys)]
    refine List.filterMap_congr fun key hk ↦ ?_
    simp only [Function.comp_def, (h key hk).trimmed, if_neg (nonempty_toList (h key hk).nonempty),
      String.ofList_toList]

theorem mem_userTomlKeys {session : PtySessionDef} {key : String} :
    key ∈ userTomlKeys session ↔ key ∈ (session.tags.getD []).keys := by
  rw [userTomlKeys, List.mem_insertionSort]

theorem mem_tagRemovals {userKeys : List String} {current : TagMap} {key : String} :
    key ∈ tagRemovals userKeys current ↔
      (key ∈ previousKeys current ∧ key ∉ userKeys) ∨
        (key ∈ gcBookkeepingKeys ∧ (current.get key).isSome = true) := by
  have hfold (gc removals : List String) : key ∈ gc.foldl (fun removals key ↦
      if (current.get key).isSome && !removals.contains key then removals ++ [key]
      else removals) removals ↔
      key ∈ removals ∨ (key ∈ gc ∧ (current.get key).isSome = true) := by
    induction gc generalizing removals with
    | nil => simp
    | cons k gc ih =>
      rw [List.foldl_cons, ih]
      split
      · next h =>
        rw [Bool.and_eq_true] at h
        simp only [List.mem_append, List.mem_cons, List.not_mem_nil, or_false]
        constructor
        · rintro ((h' | rfl) | h')
          · exact .inl h'
          · exact .inr ⟨.inl rfl, h.1⟩
          · exact .inr ⟨.inr h'.1, h'.2⟩
        · rintro (h' | ⟨rfl | h', hs⟩)
          · exact .inl (.inl h')
          · exact .inl (.inr rfl)
          · exact .inr ⟨h', hs⟩
      · next h =>
        simp only [List.mem_cons]
        constructor
        · rintro (h' | h')
          · exact .inl h'
          · exact .inr ⟨.inr h'.1, h'.2⟩
        · rintro (h' | ⟨rfl | h', hs⟩)
          · exact .inl h'
          · refine .inl (by_contra fun hn ↦ h ?_)
            simp [hs, hn]
          · exact .inr ⟨h', hs⟩
  rw [tagRemovals, hfold, List.mem_filter, decide_eq_true_eq]

/-! ### One sync -/

/-- What a record may be: its name is a display name, and no tag has an empty key. -/
structure WellFormed (metadata : SessionMetadata) : Prop where
  named : ∀ dn, metadata.displayName = some dn → validateDisplayName dn = .ok ()
  keyed : metadata.tag "" = none

private theorem any_empty {tags : TagMap} :
    tags.keys.any (· = "") = true ↔ (tags.get "").isSome = true := by
  rw [← IndexMap.mem_keys_iff, List.any_eq_true]
  simp

/-- Tags with keys that are not empty are set and removed. -/
theorem updateTags_spec (name : String) {updates : TagMap} (hn : updates.keys.Nodup)
    {removals : List String} {metadata : SessionMetadata} (hw : WellFormed metadata)
    (hu : "" ∉ updates.keys) (hr : "" ∉ removals) :
    ∃ changed after, updateTags name updates removals metadata = .ok (changed, after) ∧
      WellFormed after ∧ ∀ key, after.tag key =
        if key ∈ removals then none else (updates.get key).or (metadata.tag key) := by
  have hrequest := PatchRequest.get_tagRequests hn removals
  have hnodup := PatchRequest.nodup_tagRequests updates removals
  generalize hp : (⟨none, some (PatchRequest.tagRequests updates removals), hnodup⟩ :
    MetadataPatch) = patch
  have htags : patch.tags.getD [] = PatchRequest.tagRequests updates removals := by rw [← hp]; rfl
  have hname : patch.displayName = none := by rw [← hp]
  have htag (key : String) : (patch.patched metadata).tag key =
      if key ∈ removals then none else (updates.get key).or (metadata.tag key) := by
    rw [MetadataPatch.tag_patched, htags, hrequest]
    split
    · rfl
    · cases updates.get key <;> rfl
  have hempty : IndexMap.get (patch.tags.getD []) "" = none := by
    rw [htags, hrequest, if_neg hr]
    rw [IndexMap.mem_keys_iff, Option.not_isSome_iff_eq_none] at hu
    rw [hu]
    rfl
  have hvalid : patch.validate = .ok () := by
    rw [MetadataPatch.validate, hname]
    refine if_neg ?_
    rw [List.any_eq_true]
    rintro ⟨key, hk, he⟩
    rw [decide_eq_true_eq] at he
    rw [he, IndexMap.mem_keys_iff, hempty] at hk
    cases hk
  have hwell : WellFormed (patch.patched metadata) := by
    refine ⟨fun dn hdn ↦ hw.named dn ?_, ?_⟩
    · rwa [MetadataPatch.displayName_patched, hname] at hdn
    · rw [MetadataPatch.tag_patched, hempty]
      exact hw.keyed
  have herror {m : SessionMetadata} (hm : WellFormed m) : MetadataPatch.resultError m = none := by
    have hkeys : ¬(m.tags.getD []).keys.any (· = "") = true := by
      rw [any_empty, ← MetadataPatch.tag_eq_getD, hm.keyed]
      exact Bool.false_ne_true
    unfold MetadataPatch.resultError
    cases hdn : m.displayName with
    | none => exact if_neg hkeys
    | some dn =>
      rw [Option.map_some, hm.named dn hdn]
      exact if_neg hkeys
  have hupdate : updateTags name updates removals metadata = patch.result name
      (match patch.mutate metadata with
      | some after => .changed after
      | none => .unchanged metadata) := by
    rw [updateTags, hp, hvalid]
  rw [hupdate, MetadataPatch.mutate, herror hwell]
  by_cases hc : (!(patch.renames metadata || patch.retags metadata)) = true
  · have hnothing : patch.renames metadata = false ∧ patch.retags metadata = false := by
      simpa using hc
    have hsame : patch.patched metadata = metadata := by
      simp [MetadataPatch.patched, hnothing.1, hnothing.2]
    rw [hsame] at htag
    refine ⟨false, metadata, ?_, hw, htag⟩
    rw [if_pos hc]
    simp [MetadataPatch.result, MetadataPatch.state, hnothing.1, hnothing.2]
  · rw [if_neg hc]
    exact ⟨true, patch.patched metadata, rfl, hwell, htag⟩

theorem nodup_tomlTags (tomlPath : String) (session : PtySessionDef) :
    (tomlTags tomlPath session).keys.Nodup := by
  have hn : (session.tags.getD []).keys.Nodup := by
    cases ht : session.tags with
    | none => exact List.nodup_nil
    | some tags => exact session.nodup tags ht
  exact IndexMap.nodup_insert (IndexMap.nodup_insert (IndexMap.nodup_insert hn _ _) _ _) _ _

theorem get_tomlTags (tomlPath : String) (session : PtySessionDef) (key : String) :
    (tomlTags tomlPath session).get key =
      if key = "ptyfile.tags" then some (",".intercalate (userTomlKeys session))
      else if key = "ptyfile.session" then some session.shortName
      else if key = "ptyfile" then some tomlPath
      else (session.tags.getD []).get key := by
  rw [tomlTags, IndexMap.get_insert, IndexMap.get_insert, IndexMap.get_insert]
  simp only [eq_comm]

theorem mem_tomlTags (tomlPath : String) {session : PtySessionDef} {key : String} :
    key ∈ (tomlTags tomlPath session).keys ↔
      key ∈ bindingKeys ∨ key ∈ (session.tags.getD []).keys := by
  rw [IndexMap.mem_keys_iff, get_tomlTags, IndexMap.mem_keys_iff]
  simp only [bindingKeys, List.mem_cons, List.not_mem_nil, or_false]
  split_ifs <;> simp_all

private theorem keys_tagUpdates (toml current : TagMap) :
    (tagUpdates toml current).keys.Sublist toml.keys := List.filter_sublist.map _

/-- The updates and what was there make up what the manifest asks for. -/
private theorem get_tagUpdates {toml : TagMap} (hn : toml.keys.Nodup) (current : TagMap)
    (key : String) :
    ((tagUpdates toml current).get key).or (current.get key) =
      (toml.get key).or (current.get key) := by
  have hmem {e : String × String} (h : e ∈ tagUpdates toml current) :
      e ∈ toml ∧ current.get e.1 ≠ some e.2 := by
    rw [tagUpdates, List.mem_filter, decide_eq_true_eq] at h
    exact h
  cases hu : (tagUpdates toml current).get key with
  | some v =>
    have ht := IndexMap.get_of_mem hn (hmem (IndexMap.mem_of_get hu)).1
    rw [ht]
  | none =>
    cases ht : toml.get key with
    | none => rfl
    | some v =>
      by_cases hc : current.get key = some v
      · rw [hc]
        rfl
      · have hin : (key, v) ∈ tagUpdates toml current := by
          rw [tagUpdates, List.mem_filter, decide_eq_true_eq]
          exact ⟨IndexMap.mem_of_get ht, hc⟩
        have hg := IndexMap.get_of_mem (hn.sublist (keys_tagUpdates toml current)) hin
        rw [hu] at hg
        cases hg

/-- A synced record has the entry's tags and the three that bind it. Of the others it loses those
that the manifest gave it before and the bookkeeping. -/
theorem syncBound_spec (tomlPath name label : String) {session : PtySessionDef}
    {metadata : SessionMetadata} (hw : WellFormed metadata)
    (hs : ∀ key ∈ (session.tags.getD []).keys, PlainKey key) {declared : List String}
    (hd : ∀ key ∈ declared, PlainKey key)
    (ht : metadata.tag "ptyfile.tags" = some (",".intercalate declared)) :
    WellFormed (syncBound tomlPath name label session metadata).1 ∧
      ∀ key, (syncBound tomlPath name label session metadata).1.tag key =
        ((tomlTags tomlPath session).get key).or
          (if key ∈ declared ∨ key ∈ gcBookkeepingKeys then none else metadata.tag key) := by
  rw [MetadataPatch.tag_eq_getD] at ht
  have hprevious := previousKeys_intercalate hd ht
  -- What is removed is not among what is set.
  have hremoved (key : String) :
      key ∈ tagRemovals (userTomlKeys session) (metadata.tags.getD []) ↔
        (key ∈ declared ∧ key ∉ (session.tags.getD []).keys) ∨
          (key ∈ gcBookkeepingKeys ∧ (metadata.tag key).isSome = true) := by
    rw [mem_tagRemovals, hprevious, mem_userTomlKeys, ← MetadataPatch.tag_eq_getD]
  have hset {key : String} (h : key ∈ (tomlTags tomlPath session).keys) :
      key ∉ tagRemovals (userTomlKeys session) (metadata.tags.getD []) := by
    have hgc : ∀ key ∈ bindingKeys, key ∉ gcBookkeepingKeys := by decide
    rw [hremoved]
    rintro (⟨hdecl, hnot⟩ | ⟨hbook, -⟩)
    · exact ((mem_tomlTags tomlPath).mp h).elim (hd key hdecl).binding hnot
    · exact ((mem_tomlTags tomlPath).mp h).elim (fun hb ↦ hgc key hb hbook)
        fun hk ↦ (hs key hk).bookkeeping hbook
  have hformula {after : SessionMetadata} (h : ∀ key, after.tag key =
      if key ∈ tagRemovals (userTomlKeys session) (metadata.tags.getD []) then none
      else ((tagUpdates (tomlTags tomlPath session) (metadata.tags.getD [])).get key).or
        (metadata.tag key)) (key : String) :
      after.tag key = ((tomlTags tomlPath session).get key).or
        (if key ∈ declared ∨ key ∈ gcBookkeepingKeys then none else metadata.tag key) := by
    have hupdate := get_tagUpdates (nodup_tomlTags tomlPath session) (metadata.tags.getD []) key
    rw [← MetadataPatch.tag_eq_getD] at hupdate
    rw [h, hupdate]
    cases hget : (tomlTags tomlPath session).get key with
    | some v =>
      rw [if_neg (hset (IndexMap.mem_keys_iff.mpr (hget ▸ rfl)))]
      rfl
    | none =>
      have hnot : key ∉ (session.tags.getD []).keys := fun hk ↦ by
        have hsome := (mem_tomlTags tomlPath).mpr (.inr hk)
        rw [IndexMap.mem_keys_iff, hget] at hsome
        cases hsome
      rw [if_congr (hremoved key) rfl rfl, Option.none_or, Option.none_or]
      cases hm : metadata.tag key with
      | none => simp
      | some v => simp [hnot]
  unfold syncBound
  dsimp only
  split
  · next hnone =>
    rw [Bool.and_eq_true, List.isEmpty_iff, List.isEmpty_iff] at hnone
    refine ⟨hw, hformula fun key ↦ ?_⟩
    rw [hnone.1, hnone.2, if_neg List.not_mem_nil]
    rfl
  · have hu : "" ∉ (tagUpdates (tomlTags tomlPath session) (metadata.tags.getD [])).keys := by
      intro h
      obtain hk | hk := (mem_tomlTags tomlPath).mp ((keys_tagUpdates _ _).subset h)
      · exact absurd hk (by decide)
      · exact (hs "" hk).nonempty rfl
    have hr : "" ∉ tagRemovals (userTomlKeys session) (metadata.tags.getD []) := by
      rw [hremoved]
      rintro (⟨hdecl, -⟩ | ⟨hbook, -⟩)
      · exact (hd "" hdecl).nonempty rfl
      · exact absurd hbook (by decide)
    obtain ⟨changed, after, ha, hwell, htag⟩ := updateTags_spec name
      ((nodup_tomlTags tomlPath session).sublist (keys_tagUpdates _ _)) hw hu hr
    rw [show updateTags name (tagUpdates (tomlTags tomlPath session) (metadata.tags.getD []))
      (tagRemovals (userTomlKeys session) (metadata.tags.getD [])) metadata =
        .ok (changed, after) from ha]
    exact ⟨hwell, hformula htag⟩

/-- A record whose tags are what the sync asks for is left as it is. -/
theorem syncBound_idle (tomlPath name label : String) {session : PtySessionDef}
    {metadata : SessionMetadata} (declared : List String)
    (hd : ∀ key ∈ declared, PlainKey key) (hsub : declared ⊆ (session.tags.getD []).keys)
    (ht : metadata.tag "ptyfile.tags" = some (",".intercalate declared))
    (hset : ∀ key ∈ (tomlTags tomlPath session).keys,
      metadata.tag key = (tomlTags tomlPath session).get key)
    (hbook : ∀ key ∈ gcBookkeepingKeys, metadata.tag key = none) :
    syncBound tomlPath name label session metadata = (metadata, alreadyRunning label []) := by
  rw [MetadataPatch.tag_eq_getD] at ht
  have hremovals : tagRemovals (userTomlKeys session) (metadata.tags.getD []) = [] := by
    rw [List.eq_nil_iff_forall_not_mem]
    intro key hk
    rw [mem_tagRemovals, previousKeys_intercalate hd ht, mem_userTomlKeys,
      ← MetadataPatch.tag_eq_getD] at hk
    obtain ⟨hdecl, hnot⟩ | ⟨hk, hs⟩ := hk
    · exact hnot (hsub hdecl)
    · rw [hbook key hk] at hs
      cases hs
  have hupdates : tagUpdates (tomlTags tomlPath session) (metadata.tags.getD []) = [] := by
    rw [tagUpdates, List.filter_eq_nil_iff]
    intro e he
    have hkey : e.1 ∈ (tomlTags tomlPath session).keys := List.mem_map_of_mem he
    have hget := hset e.1 hkey
    rw [IndexMap.get_of_mem (nodup_tomlTags tomlPath session) he,
      MetadataPatch.tag_eq_getD] at hget
    simpa using hget
  unfold syncBound
  dsimp only
  rw [hremovals, hupdates]
  rfl

/-! ### Runs -/

/-- A manifest's entry for a session. -/
structure Entry (shortName : String) where
  session : PtySessionDef
  bound : session.shortName = shortName
  plain : ∀ key ∈ (session.tags.getD []).keys, PlainKey key

/-- The keys that the entry declares. -/
def Entry.keys {shortName : String} (entry : Entry shortName) : List String :=
  (entry.session.tags.getD []).keys

/-- Tags that are set and removed by hand, `pty tag`, and not those that bind the session. -/
structure TagEdit where
  updates : TagMap
  removals : List String
  nodup : updates.keys.Nodup
  allowed : ∀ key ∈ updates.keys ++ removals, key ≠ "" ∧ key ∉ bindingKeys

/-- What happens to a session that runs. -/
inductive UpEvent (shortName : String) where
  | up (entry : Entry shortName)
  | tag (edit : TagEdit)

/-- One of them; an update that fails leaves the record as it was. -/
def step (tomlPath name label : String) {shortName : String} (metadata : SessionMetadata) :
    UpEvent shortName → SessionMetadata
  | .up entry =>
    if isBound tomlPath shortName metadata then
      (syncBound tomlPath name label entry.session metadata).1
    else metadata
  | .tag edit =>
    match updateTags name edit.updates edit.removals metadata with
    | .ok (_, after) => after
    | .error _ => metadata

/-- One after the other. -/
def run (tomlPath name label : String) {shortName : String} (metadata : SessionMetadata)
    (events : List (UpEvent shortName)) : SessionMetadata :=
  events.foldl (step tomlPath name label) metadata

/-- Who gave a session its tags: the keys that the manifest declared last, and the tags that were
set by hand when it did not and that it did not declare since. -/
structure Ledger where
  declared : List String
  hand : String → Option String

/-- The ledger of a session that was started from an entry. -/
def Ledger.start {shortName : String} (entry : Entry shortName) : Ledger :=
  ⟨entry.keys, fun _ ↦ none⟩

/-- A sync takes what the entry declares over and forgets the bookkeeping; by hand only what the
manifest does not declare is set and removed. -/
def Ledger.step {shortName : String} (l : Ledger) : UpEvent shortName → Ledger
  | .up entry => ⟨entry.keys, fun key ↦
      if key ∈ entry.keys ∨ key ∈ gcBookkeepingKeys then none else l.hand key⟩
  | .tag edit => ⟨l.declared, fun key ↦
      if key ∈ l.declared then none
      else if key ∈ edit.removals then none
      else (edit.updates.get key).or (l.hand key)⟩

/-- The ledger after a run. -/
def Ledger.run {shortName : String} (l : Ledger) (events : List (UpEvent shortName)) : Ledger :=
  events.foldl Ledger.step l

/-- A session as `pty up` starts it from an entry, `up.rs:304-306`. -/
structure Started (tomlPath : String) {shortName : String} (entry : Entry shortName)
    (metadata : SessionMetadata) : Prop where
  tags : metadata.tags = some (tomlTags tomlPath entry.session)
  named : ∀ dn, metadata.displayName = some dn → validateDisplayName dn = .ok ()

/-- The record has what the ledger says. -/
private structure Matches (tomlPath shortName : String) (metadata : SessionMetadata) (l : Ledger) :
    Prop where
  well : WellFormed metadata
  path : metadata.tag "ptyfile" = some tomlPath
  session : metadata.tag "ptyfile.session" = some shortName
  recorded : ∃ keys, (∀ key, key ∈ keys ↔ key ∈ l.declared) ∧
    metadata.tag "ptyfile.tags" = some (",".intercalate keys)
  plain : ∀ key ∈ l.declared, PlainKey key
  owned : ∀ key ∈ l.declared, l.hand key = none
  hand : ∀ key, key ∉ l.declared → key ∉ bindingKeys → metadata.tag key = l.hand key

section

variable {tomlPath name label shortName : String} {metadata : SessionMetadata} {l : Ledger}

private theorem tomlTags_binding (tomlPath : String) (entry : Entry shortName) :
    (tomlTags tomlPath entry.session).get "ptyfile" = some tomlPath ∧
      (tomlTags tomlPath entry.session).get "ptyfile.session" = some shortName ∧
      (tomlTags tomlPath entry.session).get "ptyfile.tags" =
        some (",".intercalate (userTomlKeys entry.session)) := by
  simp [get_tomlTags, entry.bound]

private theorem tomlTags_plain (entry : Entry shortName) {key : String} (h : key ∉ bindingKeys) :
    (tomlTags tomlPath entry.session).get key = (entry.session.tags.getD []).get key := by
  simp only [bindingKeys, List.mem_cons, List.not_mem_nil, or_false, not_or] at h
  rw [get_tomlTags, if_neg h.2.2, if_neg h.2.1, if_neg h.1]

private theorem Started.matches {entry : Entry shortName}
    (h : Started tomlPath entry metadata) :
    Matches tomlPath shortName metadata (.start entry) := by
  have htag (key : String) : metadata.tag key = (tomlTags tomlPath entry.session).get key := by
    rw [SessionMetadata.tag, h.tags]
    rfl
  obtain ⟨hpath, hsession, htags⟩ := tomlTags_binding tomlPath entry
  refine ⟨⟨h.named, ?_⟩, (htag _).trans hpath, (htag _).trans hsession,
    ⟨_, fun _ ↦ mem_userTomlKeys, (htag _).trans htags⟩, entry.plain, fun _ _ ↦ rfl, ?_⟩
  · rw [htag, tomlTags_plain entry (by decide), ← Option.not_isSome_iff_eq_none,
      ← IndexMap.mem_keys_iff]
    exact fun hk ↦ (entry.plain "" hk).nonempty rfl
  · intro key hk hb
    rw [htag, tomlTags_plain entry hb]
    change key ∉ entry.keys at hk
    rwa [Entry.keys, IndexMap.mem_keys_iff, Option.not_isSome_iff_eq_none] at hk

private theorem Matches.isBound (h : Matches tomlPath shortName metadata l) :
    isBound tomlPath shortName metadata = true := by
  rw [Cli.isBound, h.path, h.session, beq_self_eq_true, beq_self_eq_true]
  rfl

/-- What a sync makes of the tags. -/
private theorem Matches.tag_up (name label : String) (h : Matches tomlPath shortName metadata l)
    (entry : Entry shortName) :
    WellFormed (step tomlPath name label metadata (.up entry)) ∧
      ∀ key, (step tomlPath name label metadata (.up entry)).tag key =
        ((tomlTags tomlPath entry.session).get key).or
          (if key ∈ l.declared ∨ key ∈ gcBookkeepingKeys then none else metadata.tag key) := by
  obtain ⟨keys, hkeys, htags⟩ := h.recorded
  have hspec := syncBound_spec tomlPath name label h.well entry.plain
    (fun key hk ↦ h.plain key ((hkeys key).mp hk)) htags
  have hstep : step tomlPath name label metadata (.up entry) =
      (syncBound tomlPath name label entry.session metadata).1 := if_pos h.isBound
  rw [hstep]
  refine ⟨hspec.1, fun key ↦ ?_⟩
  rw [hspec.2, if_congr (or_congr_left (hkeys key)) rfl rfl]

private theorem Matches.up (h : Matches tomlPath shortName metadata l) (entry : Entry shortName) :
    Matches tomlPath shortName (step tomlPath name label metadata (.up entry))
      (l.step (.up entry)) := by
  obtain ⟨hwell, htag⟩ := h.tag_up name label entry
  obtain ⟨hpath, hsession, htags⟩ := tomlTags_binding tomlPath entry
  refine ⟨hwell, ?_, ?_, ⟨userTomlKeys entry.session, fun _ ↦ mem_userTomlKeys, ?_⟩,
    entry.plain, ?_, ?_⟩
  · rw [htag, hpath]
    rfl
  · rw [htag, hsession]
    rfl
  · rw [htag, htags]
    rfl
  · intro key hk
    exact if_pos (.inl hk)
  · intro key hk hb
    change key ∉ entry.keys at hk
    have hnone : (entry.session.tags.getD []).get key = none := by
      rwa [Entry.keys, IndexMap.mem_keys_iff, Option.not_isSome_iff_eq_none] at hk
    change _ = if key ∈ entry.keys ∨ key ∈ gcBookkeepingKeys then none else l.hand key
    rw [htag, tomlTags_plain entry hb, hnone, Option.none_or]
    by_cases hgc : key ∈ gcBookkeepingKeys
    · rw [if_pos (.inr hgc), if_pos (.inr hgc)]
    · rw [if_neg (not_or.mpr ⟨hk, hgc⟩)]
      by_cases hd : key ∈ l.declared
      · rw [if_pos (.inl hd), h.owned key hd]
      · rw [if_neg (not_or.mpr ⟨hd, hgc⟩), h.hand key hd hb]

private theorem Matches.edit (h : Matches tomlPath shortName metadata l) (edit : TagEdit) :
    Matches tomlPath shortName
      (step tomlPath name label metadata (.tag edit : UpEvent shortName))
      (l.step (.tag edit : UpEvent shortName)) := by
  obtain ⟨changed, after, ha, hwell, htag⟩ := updateTags_spec name edit.nodup h.well
    (fun hu ↦ (edit.allowed "" (List.mem_append_left _ hu)).1 rfl)
    (fun hr ↦ (edit.allowed "" (List.mem_append_right _ hr)).1 rfl)
  have hstep : step tomlPath name label metadata (.tag edit : UpEvent shortName) = after := by
    rw [step, ha]
  have hbinding {key : String} (hk : key ∈ bindingKeys) : after.tag key = metadata.tag key := by
    have hu : edit.updates.get key = none := by
      rw [← Option.not_isSome_iff_eq_none, ← IndexMap.mem_keys_iff]
      exact fun hu ↦ (edit.allowed key (List.mem_append_left _ hu)).2 hk
    have hr : key ∉ edit.removals := fun hr ↦
      (edit.allowed key (List.mem_append_right _ hr)).2 hk
    rw [htag, if_neg hr, hu, Option.none_or]
  rw [hstep]
  refine ⟨hwell, (hbinding (by decide)).trans h.path, (hbinding (by decide)).trans h.session,
    ?_, h.plain, fun key hk ↦ if_pos hk, ?_⟩
  · obtain ⟨keys, hkeys, ht⟩ := h.recorded
    exact ⟨keys, hkeys, (hbinding (by decide)).trans ht⟩
  · intro key hk hb
    change key ∉ l.declared at hk
    change _ = if key ∈ l.declared then none else if key ∈ edit.removals then none
      else (edit.updates.get key).or (l.hand key)
    rw [htag, if_neg hk, h.hand key hk hb]

private theorem Matches.run (h : Matches tomlPath shortName metadata l)
    (events : List (UpEvent shortName)) :
    Matches tomlPath shortName (run tomlPath name label metadata events) (l.run events) := by
  induction events generalizing metadata l with
  | nil => exact h
  | cons event events ih =>
    cases event with
    | up entry => exact ih (h.up entry)
    | tag edit => exact ih (h.edit edit)

end

/-- After a sync the tags of a session are its entry's, the three that bind it and those that were
set by hand; a key that the entry no longer declares is gone, and another sync with the same entry
changes nothing. -/
theorem up_syncs (tomlPath name label shortName : String) (first : Entry shortName)
    (started : SessionMetadata) (hs : Started tomlPath first started)
    (events : List (UpEvent shortName)) (entry : Entry shortName) :
    let before := run tomlPath name label started events
    let ledger := (Ledger.start first).run events
    let after := step tomlPath name label before (.up entry)
    (after.tag "ptyfile" = some tomlPath ∧ after.tag "ptyfile.session" = some shortName ∧
      after.tag "ptyfile.tags" = some (",".intercalate (userTomlKeys entry.session))) ∧
    (∀ key, key ∉ bindingKeys → after.tag key =
      ((entry.session.tags.getD []).get key).or
        (if key ∈ gcBookkeepingKeys then none else ledger.hand key)) ∧
    (∀ key ∈ ledger.declared, key ∉ entry.keys → after.tag key = none) ∧
    isBound tomlPath shortName after = true ∧
    syncBound tomlPath name label entry.session after = (after, alreadyRunning label []) := by
  intro before ledger after
  have hbefore : Matches tomlPath shortName before ledger := hs.matches.run events
  have hafter : Matches tomlPath shortName after (ledger.step (.up entry)) := hbefore.up entry
  obtain ⟨-, htag⟩ := hbefore.tag_up name label entry
  obtain ⟨hpath, hsession, htags⟩ := tomlTags_binding tomlPath entry
  have hthree : after.tag "ptyfile.tags" = some (",".intercalate (userTomlKeys entry.session)) := by
    rw [htag, htags]
    rfl
  have hrest : ∀ key, key ∉ bindingKeys → after.tag key =
      ((entry.session.tags.getD []).get key).or
        (if key ∈ gcBookkeepingKeys then none else ledger.hand key) := by
    intro key hb
    rw [htag, tomlTags_plain entry hb]
    congr 1
    by_cases hgc : key ∈ gcBookkeepingKeys
    · rw [if_pos (.inr hgc), if_pos hgc]
    · rw [if_neg hgc]
      by_cases hd : key ∈ ledger.declared
      · rw [if_pos (.inl hd), hbefore.owned key hd]
      · rw [if_neg (not_or.mpr ⟨hd, hgc⟩), hbefore.hand key hd hb]
  refine ⟨⟨hafter.path, hafter.session, hthree⟩, hrest, ?_, hafter.isBound, ?_⟩
  · intro key hd hk
    have hb := (hbefore.plain key hd).binding
    rw [hrest key hb, if_neg (hbefore.plain key hd).bookkeeping, hbefore.owned key hd]
    rw [Entry.keys, IndexMap.mem_keys_iff, Option.not_isSome_iff_eq_none] at hk
    rw [hk]
    rfl
  · refine syncBound_idle tomlPath name label (userTomlKeys entry.session)
      (fun key hk ↦ entry.plain key (mem_userTomlKeys.mp hk)) (fun key hk ↦ mem_userTomlKeys.mp hk)
      hthree ?_ ?_
    · intro key hk
      rw [IndexMap.mem_keys_iff, Option.isSome_iff_exists] at hk
      obtain ⟨v, hv⟩ := hk
      rw [htag, hv]
      rfl
    · intro key hgc
      have hb : ∀ key ∈ gcBookkeepingKeys, key ∉ bindingKeys := by decide
      rw [hrest key (hb key hgc), if_pos hgc, Option.or_none, ← Option.not_isSome_iff_eq_none,
        ← IndexMap.mem_keys_iff]
      exact fun hk ↦ (entry.plain key hk).bookkeeping hgc

/-- The record of a session that was started from an entry, with its tags and nothing else. -/
def startedRecord (tomlPath : String) {shortName : String} (entry : Entry shortName) :
    SessionMetadata :=
  ((SessionMetadata.fromMap []).get (by decide)).set .tags (some (tomlTags tomlPath entry.session))

private theorem started_startedRecord (tomlPath : String) {shortName : String}
    (entry : Entry shortName) : Started tomlPath entry (startedRecord tomlPath entry) :=
  ⟨SessionMetadata.tags_set .., fun _ h ↦ (by
    rw [startedRecord, SessionMetadata.displayName_set_tags] at h
    cases h)⟩

/-- A manifest's entry for `web` that declares its role. -/
def roleEntry : Entry "web" where
  session := ⟨"web", "cat", none, some [("role", "server")], none, fun _ h ↦ (by cases h; decide)⟩
  bound := rfl
  plain key hk := by
    obtain rfl := List.mem_singleton.mp hk
    constructor <;> decide

/-- The entry without tags. -/
def bareEntry : Entry "web" where
  session := ⟨"web", "cat", none, none, none, fun _ h ↦ (by cases h)⟩
  bound := rfl
  plain _ hk := by cases hk

/-- The role that the manifest drops goes, the tag that was set by hand stays. -/
theorem up_syncs_role :
    let after := run "/p/pty.toml" "id" "web" (startedRecord "/p/pty.toml" roleEntry)
      [.tag ⟨[("custom", "yes")], [], by decide, by decide⟩, .up bareEntry]
    after.tag "role" = none ∧ after.tag "custom" = some "yes" ∧
      syncBound "/p/pty.toml" "id" "web" bareEntry.session after =
        (after, "  ● web (already running)") := by
  obtain ⟨-, hrest, hgone, -, hidle⟩ := up_syncs "/p/pty.toml" "id" "web" "web" roleEntry _
    (started_startedRecord _ _) [.tag ⟨[("custom", "yes")], [], by decide, by decide⟩] bareEntry
  exact ⟨hgone "role" (by decide) (by decide), (hrest "custom" (by decide)).trans (by decide),
    hidle⟩

/-- A tag that is set by hand and that no manifest declares is not always kept: the sync drops the
bookkeeping. And one that is kept may have been declared: what a manifest dropped and a hand set
again is a hand's. -/
theorem handOnly_refuted :
    (¬∀ (tomlPath name label shortName : String) (entry : Entry shortName)
      (started : SessionMetadata), Started tomlPath entry started →
      ∀ (edit : TagEdit) (key value : String), key ∉ entry.keys → key ∉ edit.removals →
        edit.updates.get key = some value →
        (run tomlPath name label started [.tag edit, .up entry]).tag key = some value) ∧
    ¬∀ (tomlPath name label shortName : String) (first entry : Entry shortName)
      (started : SessionMetadata), Started tomlPath first started →
      ∀ (edit : TagEdit) (key : String), key ∈ first.keys → key ∉ entry.keys →
        (run tomlPath name label started [.up entry, .tag edit, .up entry]).tag key = none := by
  constructor
  · intro h
    have hs := started_startedRecord "/p/pty.toml" bareEntry
    have hkept := h _ "id" "web" _ _ _ hs
      ⟨[("strategy.status", "flapping")], [], by decide, by decide⟩ "strategy.status" "flapping"
      (by decide) (by decide) (by decide)
    have hedited : Matches "/p/pty.toml" "web" (run "/p/pty.toml" "id" "web"
        (startedRecord "/p/pty.toml" bareEntry)
        [.tag ⟨[("strategy.status", "flapping")], [], by decide, by decide⟩]) _ :=
      hs.matches.run _
    have htag := (hedited.tag_up "id" "web" bareEntry).2 "strategy.status"
    rw [if_pos (.inr (by decide))] at htag
    have hnone := htag.symm.trans hkept
    revert hnone
    decide
  · intro h
    have hs := started_startedRecord "/p/pty.toml" roleEntry
    have hgone := h _ "id" "web" _ _ bareEntry _ hs
      ⟨[("role", "other")], [], by decide, by decide⟩ "role" (by decide) (by decide)
    have hrun : Matches "/p/pty.toml" "web" (run "/p/pty.toml" "id" "web"
        (startedRecord "/p/pty.toml" roleEntry) [.up bareEntry,
          .tag ⟨[("role", "other")], [], by decide, by decide⟩, .up bareEntry]) _ :=
      hs.matches.run _
    have hsome := hgone.symm.trans (hrun.hand "role" (by decide) (by decide))
    revert hsome
    decide

end PtySpec.Cli
