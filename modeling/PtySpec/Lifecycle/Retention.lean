import PtySpec.Lib.Trace
import PtySpec.Lifecycle.Respawn
import PtySpec.Listing.Scan

/-!
# Retention of finished records

Model of `sweep_finished_gated` and what it calls, `crates/pty-lifecycle/src/retention.rs:68-218`,
and of several sweeps of one root among tag edits and launches. A sweep reads the clock and
the listing once; each turn of its loop then works on one record under the record's two locks,
which the other writers take too, so that a turn is one step. The gate is of the process, and
each process runs one sweep.
-/

namespace PtySpec.Lifecycle

open Lib Metadata
open Registry (Text iso8601FromEpochMs parseIso8601Ms)
open Listing (DaemonIdentityCheck SessionInfo SessionStatus)

/-! ### Tags -/

/-- `KEEP_FALSEY`, `tags.rs:66`. -/
def keepFalsey : List String := ["false", "0", "no", "off"]

/-- `reads_as_no`, `tags.rs:68`. Only ASCII letters lower to the letters of these words. -/
def readsAsNo (raw : String) : Bool :=
  keepFalsey.contains (String.ofList ((jsTrim raw).toList.map Char.toLower))

/-- `is_keep_requested`, `tags.rs:78`. -/
def isKeepRequested (m : SessionMetadata) : Bool :=
  match m.tag "keep" with
  | none => false
  | some raw => !readsAsNo raw

/-- `RETENTION_LOST_AT_TAG`, `tags.rs:174`. -/
def retentionLostAtTag : String := "retention.lost-at"

/-- The stamp that a record has. -/
def recordStamp (record : Option JsonMap) : Option String :=
  (readMetadata record).bind fun m ↦ m.tag retentionLostAtTag

/-! ### The decision -/

/-- `Action`, `retention.rs:100`. -/
inductive Action where
  | stamp
  | remove
  deriving DecidableEq, Repr

/-- `Anchor`, `retention.rs:130`. -/
inductive Anchor where
  | at (lostAt : Int)
  | unstamped
  | unaged
  deriving DecidableEq, Repr

/-- `exitedAt`, where it is not empty. -/
def exitedAt (m : SessionMetadata) : Option String := (m.field .exitedAt).filter (· ≠ "")

/-- `loss_anchor`, `retention.rs:143`. -/
def lossAnchor (m : SessionMetadata) : Anchor :=
  match exitedAt m with
  | some text => ((parseIso8601Ms text).map .at).getD .unaged
  | none =>
    match parseIso8601Ms (m.field .createdAt) with
    | none => .unaged
    | some createdAt =>
      match (m.tag retentionLostAtTag).bind parseIso8601Ms with
      | some lostAt => if createdAt ≤ lostAt then .at lostAt else .unstamped
      | none => .unstamped

/-- The window of a record: `keep` holds it for the longer of two. -/
def windowOf (m : SessionMetadata) (windowMs keepMaxAgeMs : Int) : Int :=
  if isKeepRequested m then max windowMs keepMaxAgeMs else windowMs

/-- `decide`, `retention.rs:110`. -/
def decideAction (m : SessionMetadata) (nowMs windowMs keepMaxAgeMs : Int) : Option Action :=
  match lossAnchor m with
  | .unstamped => some .stamp
  | .at lostAt => if windowOf m windowMs keepMaxAgeMs ≤ nowMs - lostAt then some .remove else none
  | .unaged => none

/-! ### One record -/

/-- `known_owner_lost`, `gc.rs:854`. -/
def knownOwnerLost (check : DaemonIdentityCheck) : Bool := check = .gone ∨ check = .mismatch

/-- `removable_finished`, `gc.rs:379`, with what `daemon_identity` answers. -/
def removableFinished (s : SessionInfo) (check : DaemonIdentityCheck) : Option SessionMetadata :=
  (s.metadata.filter fun _ ↦ s.status ≠ .running).filter fun m ↦
    knownOwnerLost check && !isPermanent m

/-- What a turn finds under the locks: whether it has both of them, what `daemon_identity`
answers there, whether the record's file is unlinked, and whether one is written. -/
structure ActIo where
  locked : Bool
  identity : DaemonIdentityCheck
  unlinked : Bool
  written : Bool
  deriving DecidableEq, Repr

/-- The record with the stamp, `retention.rs:206-212`. -/
def stamped (m : SessionMetadata) (nowMs : Int) : SessionMetadata :=
  withBookkeeping m [(retentionLostAtTag, iso8601FromEpochMs nowMs)]

/-- `act`, `retention.rs:176`: its answer, and the record that is left. -/
def act (observed : SessionInfo) (action : Action) (nowMs windowMs keepMaxAgeMs : Int)
    (io : ActIo) (record : Option JsonMap) : Bool × Option JsonMap :=
  match observed.metadata with
  | none => (false, record)
  | some seen =>
    if io.locked = false then (false, record)
    else
      match record with
      | none => (false, record)
      | some raw =>
        match SessionMetadata.fromMap raw with
        | none => (false, record)
        | some current =>
          if metadataMatchesObservation seen current = false ∨
              knownOwnerLost io.identity = false ∨ isPermanent current = true ∨
              decideAction current nowMs windowMs keepMaxAgeMs ≠ some action then
            (false, record)
          else
            match action with
            | .remove => (true, if io.unlinked then none else record)
            | .stamp =>
              if io.written then
                (true, some (applyMetadataDiff current (stamped current nowMs) raw))
              else (false, record)

/-- `gated`, `retention.rs:163`. -/
def gated {α : Type} (stopped : Bool) (work : α) : Option α := if stopped then none else some work

/-! ### A sweep -/

/-- `MAX_ACTIONS_PER_SWEEP`, `retention.rs:23`. -/
def maxActionsPerSweep : Nat := 256

/-- `RetentionResult`, `retention.rs:32`. -/
structure RetentionResult where
  removed : List Text
  stamped : List Text
  deriving DecidableEq, Repr

/-- The records that a sweep has counted. -/
def RetentionResult.actions (r : RetentionResult) : Nat := r.removed.length + r.stamped.length

/-- A record is counted, `retention.rs:90-91`. -/
def RetentionResult.add (r : RetentionResult) (action : Action) (name : Text) : RetentionResult :=
  match action with
  | .stamp => { r with stamped := r.stamped ++ [name] }
  | .remove => { r with removed := r.removed ++ [name] }

/-- A sweep in its loop, and the gate of its process. -/
structure Sweep where
  nowMs : Int
  windowMs : Int
  keepMaxAgeMs : Int
  remaining : List SessionInfo
  result : RetentionResult
  stopped : Bool

namespace Sweep

/-- `sweep_finished_gated`, `retention.rs:68`, up to its loop. -/
def start (nowMs windowMs keepMaxAgeMs : Int) (listing : List SessionInfo) : Sweep where
  nowMs := nowMs
  windowMs := windowMs
  keepMaxAgeMs := keepMaxAgeMs
  remaining := if windowMs ≤ 0 then [] else listing
  result := ⟨[], []⟩
  stopped := false

/-- The record that the loop comes to, with the action that the listing asks for. -/
def wants (s : Sweep) (session : SessionInfo) (scan : DaemonIdentityCheck) : Option Action :=
  (removableFinished session scan).bind fun m ↦
    decideAction m s.nowMs s.windowMs s.keepMaxAgeMs

/-- One turn of the loop, `retention.rs:78-94`: the sweep after it, and the record under the
name that it came to. -/
def turn (s : Sweep) (scan : DaemonIdentityCheck) (io : ActIo) (session : SessionInfo)
    (rest : List SessionInfo) (record : Option JsonMap) : Sweep × Option JsonMap :=
  if maxActionsPerSweep ≤ s.result.actions then ({ s with remaining := [] }, record)
  else
    match s.wants session scan with
    | none => ({ s with remaining := rest }, record)
    | some action =>
      match gated s.stopped (act session action s.nowMs s.windowMs s.keepMaxAgeMs io record) with
      | none => ({ s with remaining := [] }, record)
      | some (true, left) =>
        ({ s with remaining := rest, result := s.result.add action session.name }, left)
      | some (false, left) => ({ s with remaining := rest }, left)

end Sweep

/-! ### A root with several sweeps -/

/-- A tag edit: what `patch` makes of a record, `mutate.rs:151`. -/
def editTags (patch : MetadataPatch) (record : Option JsonMap) : Option JsonMap :=
  match record with
  | none => none
  | some raw =>
    match SessionMetadata.fromMap raw with
    | none => record
    | some before =>
      match patch.mutate before with
      | none => record
      | some after =>
        if keepsPublication before after then some (applyMetadataDiff before after raw) else record

/-- The records of a root, and the sweeps that were started on it, in their order. -/
structure World where
  records : Text → Option JsonMap
  sweeps : List Sweep

/-- What happens on a root: a sweep starts, takes a turn or is stopped, tags are edited, or a
record is published or removed by something else, as at a launch or an exit. -/
inductive Event where
  | start (nowMs windowMs keepMaxAgeMs : Int) (listing : List SessionInfo)
  | turn (sweep : Nat) (scan : DaemonIdentityCheck) (io : ActIo)
  | stop (sweep : Nat)
  | edit (name : Text) (patch : MetadataPatch)
  | rewrite (name : Text) (record : Option JsonMap)

namespace World

/-- A root with these records, and no sweep yet. -/
def start (records : Text → Option JsonMap) : World := ⟨records, []⟩

/-- One event. -/
def step (w : World) : Event → Option World
  | .start nowMs windowMs keepMaxAgeMs listing =>
    some { w with sweeps := w.sweeps ++ [.start nowMs windowMs keepMaxAgeMs listing] }
  | .turn i scan io =>
    match w.sweeps[i]? with
    | none => none
    | some s =>
      match s.remaining with
      | [] => none
      | session :: rest =>
        let (s', record) := s.turn scan io session rest (w.records session.name)
        some ⟨Function.update w.records session.name record, w.sweeps.set i s'⟩
  | .stop i =>
    (w.sweeps[i]?).map fun s ↦ { w with sweeps := w.sweeps.set i { s with stopped := true } }
  | .edit name patch =>
    some { w with records := Function.update w.records name (editTags patch (w.records name)) }
  | .rewrite name record => some { w with records := Function.update w.records name record }

/-- The stamp that the record of a name has. -/
def stampOf (w : World) (name : Text) : Option String := recordStamp (w.records name)

end World

/-! ### What a decision says -/

/-- A record has been dead for its window, counted from `lostAt`: the time of its exit, or a
stamp that is not older than the record. -/
structure Due (m : SessionMetadata) (nowMs windowMs keepMaxAgeMs lostAt : Int) : Prop where
  window : lostAt + windowMs ≤ nowMs
  keep : isKeepRequested m = true → lostAt + keepMaxAgeMs ≤ nowMs
  exited : ∀ text, exitedAt m = some text → parseIso8601Ms text = some lostAt
  vanished : exitedAt m = none → ∃ stamp createdAt,
    m.tag retentionLostAtTag = some stamp ∧ parseIso8601Ms stamp = some lostAt ∧
      parseIso8601Ms (m.field .createdAt) = some createdAt ∧ createdAt ≤ lostAt

private theorem lossAnchor_at {m : SessionMetadata} {lostAt : Int}
    (h : lossAnchor m = .at lostAt) :
    (∀ text, exitedAt m = some text → parseIso8601Ms text = some lostAt) ∧
      (exitedAt m = none → ∃ stamp createdAt,
        m.tag retentionLostAtTag = some stamp ∧ parseIso8601Ms stamp = some lostAt ∧
          parseIso8601Ms (m.field .createdAt) = some createdAt ∧ createdAt ≤ lostAt) := by
  unfold lossAnchor at h
  cases he : exitedAt m with
  | some text =>
    rw [he] at h
    dsimp only at h
    cases hp : parseIso8601Ms text with
    | none =>
      rw [hp] at h
      cases h
    | some t =>
      rw [hp] at h
      cases h
      refine ⟨fun text' ht ↦ ?_, fun ht ↦ by cases ht⟩
      cases ht
      exact hp
  | none =>
    rw [he] at h
    dsimp only at h
    refine ⟨fun text ht ↦ (by cases ht), fun _ ↦ ?_⟩
    cases hc : parseIso8601Ms (m.field .createdAt) with
    | none =>
      rw [hc] at h
      cases h
    | some createdAt =>
      rw [hc] at h
      dsimp only at h
      split at h
      · next t hs =>
        split at h
        · next hle =>
          cases h
          obtain ⟨stamp, ht, hp⟩ := Option.bind_eq_some_iff.mp hs
          exact ⟨stamp, createdAt, ht, hp, rfl, hle⟩
        · cases h
      · cases h

/-- A record is removed only when it is due. -/
theorem due_of_remove {m : SessionMetadata} {nowMs windowMs keepMaxAgeMs : Int}
    (h : decideAction m nowMs windowMs keepMaxAgeMs = some .remove) :
    ∃ lostAt, Due m nowMs windowMs keepMaxAgeMs lostAt := by
  unfold decideAction at h
  split at h
  · cases h
  · next lostAt ha =>
    split at h
    · next hw =>
      obtain ⟨hexited, hvanished⟩ := lossAnchor_at ha
      unfold windowOf at hw
      refine ⟨lostAt, ⟨?_, fun hk ↦ ?_, hexited, hvanished⟩⟩
      · split at hw <;> omega
      · rw [if_pos hk] at hw
        omega
    · cases h
  · cases h

end PtySpec.Lifecycle
