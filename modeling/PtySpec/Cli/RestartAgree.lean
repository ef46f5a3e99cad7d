import PtySpec.Cli.Restart
import PtySpec.Lifecycle.Respawn

/-!
# The manual restarts compared

What the three restarts launch differs in the bookkeeping of `pty gc` only, which two of them
leave out; a session without it is respawned by the next gc that finds it stopped.
-/

namespace PtySpec.Cli.Restart

open Lib Metadata
open Lifecycle (TagMap SpawnParams Birth classifyFlapping published publicationMap readMetadata
  positiveTag effectiveLimit nextCounter commandChanged wasFast FlappingAction)

/-! ### Tags without bookkeeping -/

/-- A record without a tag that `pty gc` or the retention sweep writes. -/
def Unmarked (metadata : SessionMetadata) : Prop :=
  ∀ key ∈ gcBookkeepingKeys, metadata.tag key = none

private theorem stripGcBookkeeping_getD (tags : Option TagMap) :
    (stripGcBookkeeping tags).getD [] =
      (tags.getD []).filter fun e ↦ e.1 ∉ gcBookkeepingKeys := by
  rcases tags with - | - | ⟨e, tags⟩
  · rfl
  · rfl
  · rw [Option.getD_some]
    unfold stripGcBookkeeping
    dsimp only
    split
    · next h => exact (List.isEmpty_iff.mp h).symm
    · rfl

theorem tags_restartParams (seat : Seat) (name : String) (metadata : SessionMetadata) :
    (restartParams seat name metadata).tags =
      (metadata.tags.getD []).filter fun e ↦ e.1 ∉ gcBookkeepingKeys :=
  stripGcBookkeeping_getD metadata.tags

private theorem unmarked_iff (metadata : SessionMetadata) :
    Unmarked metadata ↔ ∀ e ∈ metadata.tags.getD [], e.1 ∉ gcBookkeepingKeys := by
  constructor
  · intro h e he hk
    have hkey : e.1 ∈ IndexMap.keys (metadata.tags.getD []) := List.mem_map_of_mem he
    rw [IndexMap.mem_keys_iff, ← SessionMetadata.tag_eq, h e.1 hk] at hkey
    cases hkey
  · intro h key hk
    rw [SessionMetadata.tag_eq]
    cases hg : IndexMap.get (metadata.tags.getD []) key with
    | none => rfl
    | some value => exact absurd hk (h _ (IndexMap.mem_of_get hg))

/-- The launch parameters of attach are those of `pty restart` for an unmarked record only. -/
theorem attachParams_eq_iff (seat : Seat) (name : String) (metadata : SessionMetadata) :
    attachParams seat name metadata = restartParams seat name metadata ↔ Unmarked metadata := by
  rw [unmarked_iff]
  constructor
  · intro h e he hk
    have htags : (attachParams seat name metadata).tags = (restartParams seat name metadata).tags :=
      congrArg (·.tags) h
    rw [tags_restartParams] at htags
    have hall := List.filter_eq_self.mp htags.symm e he
    rw [decide_eq_true_eq] at hall
    exact hall hk
  · intro h
    have htags : metadata.tags.getD [] = (stripGcBookkeeping metadata.tags).getD [] := by
      rw [stripGcBookkeeping_getD]
      exact (List.filter_eq_self.mpr fun e he ↦ decide_eq_true (h e he)).symm
    unfold attachParams restartParams
    rw [htags]

theorem pickerParams_eq (seat : Seat) (name : String) (metadata : SessionMetadata) :
    pickerParams seat name metadata = restartParams seat name metadata := rfl

/-! ### The next gc -/

private theorem effectiveLimit_pos (m : SessionMetadata) (globalLimit : Option Int) :
    0 < effectiveLimit m globalLimit := by
  unfold effectiveLimit
  cases hp : positiveTag m "strategy.fast-fail-limit" with
  | some n => exact of_decide_eq_true (Option.filter_eq_some_iff.mp hp).2
  | none =>
    rw [Option.none_or]
    cases hg : globalLimit.filter (0 < ·) with
    | some n => exact of_decide_eq_true (Option.filter_eq_some_iff.mp hg).2
    | none => decide

/-- A record without bookkeeping is respawned. -/
theorem respawn_of_unmarked {m : SessionMetadata} (h : Unmarked m)
    (sha256 : List UInt8 → List Char) (command : String) (args : List String) (nowMs : Int)
    (globalWindow globalLimit : Option Int) :
    (classifyFlapping sha256 m command args nowMs globalWindow globalLimit).action = .respawn := by
  have hstatus : m.tag "strategy.status" = none := h _ (by decide)
  have hstart : m.tag "strategy.last-respawn-at" = none := h _ (by decide)
  have hhash : m.tag "strategy.command-hash" = none := h _ (by decide)
  have hcounter (hash : String) (window : Int) : nextCounter m hash window = 0 := by
    have hslow : wasFast m window = false := by
      rw [wasFast, hstart]
      rfl
    rw [nextCounter, hslow, commandChanged, hhash]
    rfl
  have hpos := effectiveLimit_pos m globalLimit
  unfold classifyFlapping
  dsimp only
  rw [hstatus, if_neg (by simp), hcounter, if_neg (by omega)]

/-- The record that a launch without bookkeeping publishes has none. -/
theorem unmarked_published {params : SpawnParams}
    (h : ∀ e ∈ params.tags, e.1 ∉ gcBookkeepingKeys) {b : Birth} {record : SessionMetadata}
    (hr : readMetadata (some (publicationMap (published params b))) = some record) :
    Unmarked record := by
  obtain ⟨r, hr', -, -, htag⟩ :=
    Lifecycle.readMetadata_publicationMap (m := published params b) (fun _ ↦ rfl)
  obtain rfl := Option.some_inj.mp (hr.symm.trans hr')
  intro key hk
  rw [htag, Lifecycle.tag_published]
  cases hg : params.tags.get key with
  | none => rfl
  | some value => exact absurd hk (h _ (IndexMap.mem_of_get hg))

/-! ### Agreement -/

/-- The three restarts launch a session with the same parameters, and after each of them the next
gc that finds it stopped respawns it. -/
structure RestartsAgree (sha256 : List UInt8 → List Char) (seat : Seat) (name : String)
    (metadata : SessionMetadata) : Prop where
  attach : attachParams seat name metadata = restartParams seat name metadata
  picker : pickerParams seat name metadata = restartParams seat name metadata
  retried : ∀ params ∈ [restartParams seat name metadata, attachParams seat name metadata,
    pickerParams seat name metadata], ∀ (b : Birth) (record : SessionMetadata),
    readMetadata (some (publicationMap (published params.toSpawnParams b))) = some record →
    ∀ (command : String) (args : List String) (nowMs : Int) (globalWindow globalLimit : Option Int),
      (classifyFlapping sha256 record command args nowMs globalWindow globalLimit).action = .respawn

/-- The restarts agree on a record exactly if it has no tag of gc's bookkeeping. -/
theorem restartsAgree_iff (sha256 : List UInt8 → List Char) (seat : Seat) (name : String)
    (metadata : SessionMetadata) :
    RestartsAgree sha256 seat name metadata ↔ Unmarked metadata := by
  constructor
  · intro h
    exact (attachParams_eq_iff seat name metadata).mp h.attach
  · intro h
    have hattach := (attachParams_eq_iff seat name metadata).mpr h
    have hpicker := pickerParams_eq seat name metadata
    refine ⟨hattach, hpicker, fun params hparams b record hr command args nowMs window limit ↦ ?_⟩
    have heq : params = restartParams seat name metadata := by
      rw [hattach, hpicker] at hparams
      simpa using hparams
    subst heq
    refine respawn_of_unmarked (unmarked_published (fun e he ↦ ?_) hr) sha256 command args nowMs
      window limit
    rw [tags_restartParams] at he
    exact of_decide_eq_true (List.mem_filter.mp he).2

/-- A session that gc has marked as flapping. -/
def flapping : SessionMetadata :=
  published { newParams ⟨(24, 80), "/"⟩ "s" "false" [] with
    tags := [("strategy", "permanent"), ("strategy.status", "flapping")] }
    { generation := "g", daemonPid := 7, daemonStartToken := "t", daemonBootId := "b"
      createdAt := "2026-01-01T00:00:00.000Z", sessionEnv := none, exitCode := some 1
      exitedAt := some "2026-01-01T00:00:01.000Z", lastLines := none }

/-- After the restart in attach gc skips a session that it had marked as flapping. -/
theorem restartsAgree_refuted :
    (∀ (b : Birth) (record : SessionMetadata), readMetadata (some (publicationMap
      (published (attachParams ⟨(24, 80), "/"⟩ "s" flapping).toSpawnParams b))) = some record →
      ∀ sha256 command args nowMs window limit,
        (classifyFlapping sha256 record command args nowMs window limit).action = .skip) ∧
    ¬∀ sha256 seat name metadata, RestartsAgree sha256 seat name metadata := by
  refine ⟨fun b record hr sha256 command args nowMs window limit ↦ ?_, fun h ↦ ?_⟩
  · obtain ⟨r, hr', -, -, htag⟩ := Lifecycle.readMetadata_publicationMap
      (m := published (attachParams ⟨(24, 80), "/"⟩ "s" flapping).toSpawnParams b) (fun _ ↦ rfl)
    obtain rfl := Option.some_inj.mp (hr.symm.trans hr')
    have hstatus : record.tag "strategy.status" = some "flapping" := by
      rw [htag, Lifecycle.tag_published]
      decide
    have hhash : record.tag "strategy.command-hash" = none := by
      rw [htag, Lifecycle.tag_published]
      decide
    have hsame (hash : String) : commandChanged record hash = false := by
      rw [commandChanged, hhash]
      rfl
    unfold classifyFlapping
    dsimp only
    rw [if_pos ⟨hstatus, hsame _⟩]
  · have hparams := (h (fun _ ↦ []) ⟨(24, 80), "/"⟩ "s" flapping).attach
    have htags := congrArg (fun params ↦ params.tags.get "strategy.status") hparams
    revert htags
    decide

end PtySpec.Cli.Restart
