import PtySpec.Lifecycle.Gc
import PtySpec.Metadata.Notice

/-!
# A failed respawn keeps its session

What is on disk once a respawn has failed: the record that was there, the one the new daemon
published, or the one that is put back for the next run.
-/

namespace PtySpec.Lifecycle

open Lib Metadata

/-! ### Published records read back -/

private theorem mem_publicationOrder (f : Field) : f ∈ publicationOrder := by
  cases f <;> decide

private theorem nodup_publicationOrder : (publicationOrder.map Field.key).Nodup := by
  decide

private theorem get_publicationMap {m : SessionMetadata} {f : Field}
    (hx : m.extra.get f.key = none) : (publicationMap m).get f.key = publicationValue m f := by
  rw [publicationMap, IndexMap.get_insertAll m.nodup, hx, Field.get_filterMap,
    if_pos (mem_publicationOrder f)]
  rfl

private theorem nodup_publicationMap (m : SessionMetadata) : (publicationMap m).keys.Nodup :=
  IndexMap.nodup_insertAll (Field.nodup_filterMap _ nodup_publicationOrder) m.extra

private theorem read_written (m : SessionMetadata) (f : Field) :
    (f.codec.read (m.written f)).isSome := by
  by_cases hw : m.written f = some .null
  · obtain rfl := written_eq_null hw
    rw [hw]
    rfl
  · rw [show f.codec.read (m.written f) = some (m.field f) from f.codec.read_write _ hw]
    rfl

private theorem read_publicationValue (m : SessionMetadata) (f : Field) :
    (f.codec.read (publicationValue m f)).isSome := by
  unfold publicationValue
  split
  · next h =>
    subst h
    rfl
  · split
    · exact read_written m f
    · cases f <;> rfl

private theorem read_tags (m : SessionMetadata) (key : String) :
    (Field.tags.codec.read (publicationValue m .tags)).map (fun t ↦ t.bind (·.get key)) =
      some (m.tag key) := by
  have hp : publicationValue m .tags =
      if m.field .tags != some [] then m.written .tags else none := rfl
  rw [hp, SessionMetadata.tag, SessionMetadata.tags]
  split
  · next h =>
    have hw : m.written .tags ≠ some .null := fun hw ↦ by cases written_eq_null hw
    rw [show Field.tags.codec.read (m.written .tags) = some (m.field .tags) from
      Field.tags.codec.read_write _ hw]
    rfl
  · next h =>
    have ht : m.field .tags = some [] := by simpa using h
    rw [ht]
    rfl

/-- A published record reads back with its command, arguments and tags. -/
theorem readMetadata_publicationMap {m : SessionMetadata}
    (hx : ∀ f : Field, m.extra.get f.key = none) :
    ∃ r, readMetadata (some (publicationMap m)) = some r ∧
      r.field .command = m.field .command ∧ r.field .args = m.field .args ∧
      ∀ key, r.tag key = m.tag key := by
  have hr : ∀ f : Field, (f.codec.read ((publicationMap m).get f.key)).isSome := by
    intro f
    rw [get_publicationMap (hx f)]
    exact read_publicationValue m f
  obtain ⟨r, hr⟩ : ∃ r, SessionMetadata.fromMap (publicationMap m) = some r := by
    unfold SessionMetadata.fromMap
    rw [dif_pos ⟨nodup_publicationMap m, fun f _ ↦ hr f⟩]
    exact ⟨_, rfl⟩
  have hf : ∀ f : Field, f.codec.read (publicationValue m f) = some (r.field f) := by
    intro f
    rw [← get_publicationMap (hx f)]
    exact (SessionMetadata.fromMap_eq_some.mp hr).2.1 f
  refine ⟨r, hr, ?_, ?_, fun key ↦ ?_⟩
  · exact (Option.some_inj.mp (hf .command)).symm
  · have ha : Field.args.codec.read (publicationValue m .args) = some (m.field .args) :=
      Kind.strings.ofJson_toJson (m.field .args)
    exact Option.some_inj.mp ((hf .args).symm.trans ha)
  · have ht := read_tags m key
    rw [hf .tags] at ht
    exact Option.some_inj.mp ht

/-! ### What a failed launch leaves -/

theorem tag_published (params : SpawnParams) (b : Birth) (key : String) :
    (published params b).tag key = params.tags.get key := by
  change Option.bind (if params.tags = [] then none else some params.tags) _ = _
  split
  · next h =>
    rw [h]
    rfl
  · rfl

/-- A record whose tags were added to is read back with its tags. -/
theorem fromMap_withBookkeeping {raw : JsonMap} {before : SessionMetadata}
    (hb : SessionMetadata.fromMap raw = some before) (bookkeeping : TagMap) :
    ∃ m, SessionMetadata.fromMap
        (applyMetadataDiff before (withBookkeeping before bookkeeping) raw) = some m ∧
      ∀ key, m.tag key = (withBookkeeping before bookkeeping).tag key := by
  obtain ⟨hal, hrec⟩ : before.plain :=
    plain_of_equal hb ⟨fun f ↦ SessionMetadata.same_refl _, fun key ↦ SessionMetadata.same_refl _⟩
  have hp : (withBookkeeping before bookkeeping).plain :=
    ⟨hal, (before.field_set_of_ne (f := .tags) (g := .recovery) (by decide) _).trans_ne hrec⟩
  obtain ⟨m, hm, he⟩ := fromMap_published hb hp
  exact ⟨m, hm, tag_eq_of_agree (he.1 .tags)⟩

theorem tag_withBookkeeping {before : SessionMetadata} {bookkeeping : TagMap}
    (hn : bookkeeping.keys.Nodup) (key : String) :
    (withBookkeeping before bookkeeping).tag key = (bookkeeping.get key).or (before.tag key) := by
  rw [withBookkeeping, SessionMetadata.tag, SessionMetadata.tags_set, Option.bind_some,
    IndexMap.get_insertAll hn, SessionMetadata.tag]
  cases before.tags <;> rfl

private theorem tag_retryMeta (current : SessionMetadata) (tags : TagMap) (key : String) :
    (retryMeta current tags).tag key = tags.get key := by
  rw [retryMeta, SessionMetadata.tag, SessionMetadata.tags_set]
  split
  · next h =>
    rw [h]
    rfl
  · rfl

/-- Once the old files are gone, a record is there unless the one put back cannot be
written. -/
private theorem cleanupAndSpawn_keeps {s : Surroundings} {current : SessionMetadata}
    {record : Option JsonMap} (hc : readMetadata record = some current) (params : SpawnParams)
    {error : String} (hf : s.launch.result = .error error)
    (hw : s.writeRetry = true ∨ s.launch.birth.isSome) :
    (cleanupAndSpawn s current params record).2 = record ∨
      ∃ kept, readMetadata (cleanupAndSpawn s current params record).2 = some kept ∧
        (kept.field .command = current.field .command ∧
            kept.field .args = current.field .args ∨
          kept.field .command = params.command ∧ kept.field .args = params.args) ∧
        ∀ key, kept.tag key = params.tags.get key := by
  have hp : ∀ b, ∃ kept, readMetadata (some (publicationMap (published params b))) = some kept ∧
      (kept.field .command = current.field .command ∧ kept.field .args = current.field .args ∨
        kept.field .command = params.command ∧ kept.field .args = params.args) ∧
      ∀ key, kept.tag key = params.tags.get key := by
    intro b
    obtain ⟨r, hr, hcmd, hargs, ht⟩ :=
      readMetadata_publicationMap (m := published params b) (fun _ ↦ rfl)
    exact ⟨r, hr, .inr ⟨hcmd, hargs⟩, fun key ↦ (ht key).trans (tag_published params b key)⟩
  unfold cleanupAndSpawn
  simp only [hf]
  cases s.launch.late with
  | some b => exact .inr (hp b)
  | none =>
    cases hb : s.launch.birth with
    | some b =>
      obtain ⟨r, hr, h⟩ := hp b
      refine .inr ⟨r, ?_, h⟩
      simp only [hr, Option.isNone_some, Bool.false_eq_true, false_and, if_false]
    | none =>
      have hwrite : s.writeRetry = true := hw.resolve_right (by simp [hb])
      cases hu : s.unlinked with
      | false =>
        refine .inl ?_
        simp only [Bool.false_eq_true, if_false, hc, Option.isNone_some, false_and]
      | true =>
        have hx : ∀ f : Field, (retryMeta current params.tags).extra.get f.key = none := by
          obtain ⟨raw, -, hraw⟩ := Option.bind_eq_some_iff.mp hc
          intro f
          change current.extra.get f.key = none
          exact extra_of_fromMap hraw f
        obtain ⟨r, hr, hcmd, hargs, ht⟩ := readMetadata_publicationMap hx
        refine .inr ⟨r, ?_, .inl ⟨hcmd.trans ?_, hargs.trans ?_⟩, fun key ↦
          (ht key).trans (tag_retryMeta current params.tags key)⟩
        · simpa [readMetadata, hwrite] using hr
        · exact current.field_set_of_ne (g := .command) (f := .tags) (by decide) _
        · exact current.field_set_of_ne (g := .args) (f := .tags) (by decide) _

/-! ### The strategy -/

/-- The strategy that a record has once its manifest is read again: the one declared there,
or its own if the manifest did not declare it before. -/
def declaredStrategy (readPtyFile : String → Option PtyFile) (current : SessionMetadata) :
    Option String :=
  match manifestEntry readPtyFile (current.tags.getD []) with
  | none => current.tag "strategy"
  | some (_, _, session) =>
    ((session.tags.getD []).get "strategy").or
      (if "strategy" ∈ previousKeys (current.tags.getD []) then none else current.tag "strategy")

private theorem get_overlayTags {tags : TagMap} {manifest : Option TagMap}
    (hn : ∀ m ∈ manifest, m.keys.Nodup) (path shortName : String) :
    (overlayTags tags path shortName manifest).get "strategy" =
      ((manifest.getD []).get "strategy").or
        (if "strategy" ∈ previousKeys tags then none else tags.get "strategy") := by
  have hn' : (manifest.getD []).keys.Nodup := by
    cases manifest with
    | none => exact List.nodup_nil
    | some m => exact hn m rfl
  unfold overlayTags
  simp only [IndexMap.get_insert, String.reduceEq, if_false]
  rw [IndexMap.get_insertAll hn', IndexMap.get_removeAll]
  cases hg : (manifest.getD []).get "strategy" with
  | some v => rfl
  | none =>
    have hm : "strategy" ∉ ((manifest.getD []).map (·.1)).insertionSort (· ≤ ·) := by
      rw [List.mem_insertionSort]
      change "strategy" ∉ (manifest.getD []).keys
      rw [IndexMap.mem_keys_iff, hg]
      exact Bool.false_ne_true
    simp [List.mem_filter, hm]

/-- A respawn carries the declared strategy. -/
theorem strategy_respawnParams {readPtyFile : String → Option PtyFile}
    {terminal : UInt16 × UInt16} {name : String} {current : SessionMetadata}
    {params : SpawnParams} {reread : Bool}
    (h : respawnParams readPtyFile terminal name current = .ok (params, reread)) :
    params.tags.get "strategy" = declaredStrategy readPtyFile current := by
  have hr : ∀ tags : TagMap, (tags.remove "strategy.status").get "strategy" =
      tags.get "strategy" := by
    intro tags
    rw [IndexMap.get_remove, if_neg (by decide)]
  unfold respawnParams at h
  unfold declaredStrategy
  dsimp only at h
  split at h
  · next hm =>
    have hm' : manifestEntry readPtyFile (current.tags.getD []) = none := hm
    cases h
    rw [hm']
    exact (hr _).trans (current.tag_eq "strategy").symm
  · next path file session hm =>
    have hm' : manifestEntry readPtyFile (current.tags.getD []) = some (path, file, session) := hm
    rw [hm']
    split at h
    · cases h
    · cases h
      refine (hr _).trans ?_
      rw [SessionMetadata.tag_eq]
      exact get_overlayTags session.nodup path session.shortName

private theorem get_respawnBookkeeping (nowMs counter : Int) (hash : String) (tags : TagMap) :
    (tags.insertAll (respawnBookkeeping nowMs hash counter)).get "strategy" =
      tags.get "strategy" := by
  simp [respawnBookkeeping, IndexMap.insertAll, IndexMap.get_insert]

theorem bookkeeping_of_respawn {sha256 : List UInt8 → List Char} {m : SessionMetadata}
    {command : String} {args : List String} {nowMs : Int} {globalWindow globalLimit : Option Int}
    (h : (classifyFlapping sha256 m command args nowMs globalWindow globalLimit).action =
      .respawn) :
    ∃ hash counter,
      (classifyFlapping sha256 m command args nowMs globalWindow globalLimit).bookkeeping =
        respawnBookkeeping nowMs hash counter := by
  unfold classifyFlapping at h ⊢
  dsimp only at h ⊢
  split
  · next hs =>
    rw [if_pos hs] at h
    cases h
  · next hs =>
    rw [if_neg hs] at h
    split
    · next hl =>
      rw [if_pos hl] at h
      cases h
    · exact ⟨_, _, rfl⟩

theorem prepareRespawn_ok {s : Surroundings} {params params' : SpawnParams}
    {bookkeeping : TagMap} (h : prepareRespawn s params bookkeeping = .ok params') :
    params' = { params with tags := params.tags.insertAll bookkeeping } := by
  unfold prepareRespawn at h
  cases hd : s.daemonExecutable with
  | false =>
    rw [hd] at h
    cases h
  | true =>
    rw [hd] at h
    cases hp : s.prepareDaemon params with
    | error e =>
      rw [hp] at h
      cases h
    | ok _ =>
      cases hr : s.resolveCommand params.command with
      | error e =>
        rw [hp, hr] at h
        cases h
      | ok _ =>
        cases hg : s.delegate with
        | error e =>
          rw [hp, hr, hg] at h
          cases h
        | ok _ =>
          rw [hp, hr, hg] at h
          cases h
          rfl

/-- Where a reconciliation can fail: before anything was touched, or once the old files are
gone. -/
private theorem reconcilePermanent_failed {sha256 : List UInt8 → List Char} {s : Surroundings}
    {name : String} {observed : Option SessionMetadata} {globalWindow globalLimit : Option Int}
    {record : Option JsonMap} {current : SessionMetadata}
    (hc : readMetadata record = some current) {error : String}
    (hf : (reconcilePermanent sha256 s name observed globalWindow globalLimit record).1 =
      .failed error) :
    isPermanent current = true ∧
      ((reconcilePermanent sha256 s name observed globalWindow globalLimit record).2 = record ∨
        ∃ params reread nowMs hash counter,
          respawnParams s.readPtyFile s.terminal name current = .ok (params, reread) ∧
          s.launch.result = .error error ∧
          (reconcilePermanent sha256 s name observed globalWindow globalLimit record).2 =
            (cleanupAndSpawn s current
              { params with tags := params.tags.insertAll (respawnBookkeeping nowMs hash counter) }
              record).2) := by
  unfold reconcilePermanent at hf ⊢
  split at hf
  · cases hf
  · next hl =>
    rw [if_neg hl]
    simp only [hc] at hf ⊢
    split at hf
    · cases hf
    · next ho =>
      rw [if_neg ho]
      have hp : isPermanent current = true := by
        simp only [Bool.or_eq_true, Bool.not_eq_true', not_or, Bool.not_eq_false] at ho
        exact ho.1.2
      refine ⟨hp, ?_⟩
      cases hr : respawnParams s.readPtyFile s.terminal name current with
      | error e => exact .inl rfl
      | ok r =>
        obtain ⟨params, reread⟩ := r
        simp only [hr] at hf ⊢
        cases hk : s.checkPublication params with
        | error e => exact .inl rfl
        | ok _ =>
          simp only [hk] at hf ⊢
          cases hd : (classifyFlapping sha256 current params.command params.args s.nowMs
              globalWindow globalLimit).action with
          | skip =>
            simp only [hd] at hf
            cases hf
          | flap =>
            simp only [hd] at hf
            unfold recordFlap at hf
            repeat' split at hf
            all_goals cases hf
          | respawn =>
            simp only [hd] at hf ⊢
            cases hpr : prepareRespawn s params (classifyFlapping sha256 current params.command
                params.args s.nowMs globalWindow globalLimit).bookkeeping with
            | error e => exact .inl rfl
            | ok params' =>
              obtain ⟨hash, counter, hb⟩ := bookkeeping_of_respawn hd
              simp only [hpr] at hf ⊢
              rw [hb] at hpr
              obtain rfl := prepareRespawn_ok hpr
              refine .inr ⟨params, reread, s.nowMs, hash, counter, rfl, ?_⟩
              cases hres : s.launch.result with
              | ok _ =>
                simp only [cleanupAndSpawn, hres] at hf
                cases hf
              | error e =>
                simp only [cleanupAndSpawn, hres] at hf ⊢
                cases hf
                exact ⟨rfl, trivial⟩

/-- A permanent session of a manifest. -/
def boundRecord : JsonMap :=
  [("generation", .string "g1"), ("command", .string "serve"),
    ("tags", .object [("strategy", .string "permanent"), ("ptyfile", .string "/srv/pty.toml"),
      ("ptyfile.session", .string "web"), ("ptyfile.tags", .string "strategy")])]

/-- What `boundRecord` reads as. -/
def boundMeta : SessionMetadata := (SessionMetadata.fromMap boundRecord).get (by decide)

/-- A manifest whose session declares these tags. -/
def manifestOf (tags : Option TagMap) (hn : ∀ manifest ∈ tags, manifest.keys.Nodup) : PtyFile :=
  ⟨"/srv", [⟨"web", "serve", none, tags, none, hn⟩]⟩

/-- Surroundings in which all goes well but the launch. -/
def launchFails (readPtyFile : String → Option PtyFile) : Surroundings where
  eventLock := true
  creationLock := true
  ownerLost := true
  readPtyFile := readPtyFile
  terminal := (24, 80)
  checkPublication _ := .ok ()
  nowMs := 0
  writeFlap := true
  daemonExecutable := true
  prepareDaemon _ := .ok ()
  resolveCommand _ := .ok ()
  delegate := .ok ()
  unlinked := true
  launch := ⟨none, .error "failed to start daemon", none, by simp⟩
  writeRetry := true

end PtySpec.Lifecycle
