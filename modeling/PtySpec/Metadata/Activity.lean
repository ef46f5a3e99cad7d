import PtySpec.Metadata.Linear

/-!
# Output activity

Model of `crates/pty-core/src/registry/activity.rs`: the sidecar with the newest output stamp
of a running daemon, the exit record that takes over from it, the cleanup and the launch of a
replacement, and readers that read the record and then the sidecar. Both files are what they
parse to; a lock's section is one step for each file operation in it.
-/

namespace PtySpec.Metadata

open Lib SessionMetadata

/-- `OutputActivity`, `activity.rs:28`. -/
structure OutputActivity where
  generation : String
  lastOutputAtMs : Int64
  deriving DecidableEq, Repr

namespace SessionMetadata

/-- `has_exited`, `metadata.rs:139`. -/
def hasExited (m : SessionMetadata) : Bool := (m.field .exitedAt).isSome

/-- `last_output_at_ms`. -/
def lastOutputAtMs (m : SessionMetadata) : Option Int64 := m.field .lastOutputAtMs

end SessionMetadata

/-- `newest_output_at_ms`, `activity.rs:143`. -/
def newestOutputAtMs (metadata : SessionMetadata) (sidecar : Option OutputActivity) :
    Option Int64 :=
  match sidecar with
  | some activity =>
    if !metadata.hasExited && metadata.generation == some activity.generation then
      some activity.lastOutputAtMs
    else metadata.lastOutputAtMs
  | none => metadata.lastOutputAtMs

/-- `last_output_at_ms_in`, `activity.rs:130`. -/
def lastOutputAtMsIn (metadata : SessionMetadata) (sidecar : Option OutputActivity) :
    Option Int64 :=
  newestOutputAtMs metadata (if metadata.hasExited then none else sidecar)

/-! ### Mutations of a parsed record -/

/-- The guards, the closure and the checks of a mutation on a parsed record,
`mutate.rs:170-243`: the status that ends it, or the record it had and what is to replace it. -/
def checkRecord (options : MutateOptions)
    (mutate : SessionMetadata → Option SessionMetadata) (record : Option SessionMetadata) :
    Except MutateStatus (SessionMetadata × Option SessionMetadata) :=
  match record with
  | none => .error .missing
  | some before =>
    if !guardsHold options before then .error .generationMismatch
    else match mutate before with
      | none => .ok (before, none)
      | some after =>
        if !keepsPublication before after then .error .generationMismatch
        else .ok (before, some after)

theorem checkRecord_ok {options : MutateOptions}
    {mutate : SessionMetadata → Option SessionMetadata} {record : Option SessionMetadata}
    {before : SessionMetadata} {after : Option SessionMetadata}
    (h : checkRecord options mutate record = .ok (before, after)) :
    record = some before ∧ guardsHold options before = true ∧ mutate before = after := by
  unfold checkRecord at h
  split at h
  · cases h
  split at h
  · cases h
  next hg =>
  rw [Bool.not_eq_true', Bool.not_eq_false] at hg
  split at h
  · next hm =>
    cases h
    exact ⟨rfl, hg, hm⟩
  split at h
  · cases h
  · next hm _ =>
    cases h
    exact ⟨rfl, hg, hm⟩

/-- The guard on a generation. -/
def ownedBy (generation : String) : MutateOptions := ⟨some generation, none⟩

theorem generation_of_ownedBy {g : String} {m : SessionMetadata}
    (h : guardsHold (ownedBy g) m = true) : m.generation = some g := by
  simpa [guardsHold, ownedBy] using h

/-! ### The exit record -/

/-- What a daemon puts into the record at its exit, `lifecycle.rs:1596`. -/
structure ExitFacts where
  code : Int32
  now : String
  lastLines : List String
  lastOutput : Option Int64

namespace ExitFacts

/-- The record with the exit. -/
def recorded (facts : ExitFacts) (m : SessionMetadata) : SessionMetadata :=
  (((m.set .exitCode (some facts.code)).set .exitedAt
    ((m.field .exitedAt).or (some facts.now))).set .lastLines (some facts.lastLines)).set
      .lastOutputAtMs (facts.lastOutput.or m.lastOutputAtMs)

/-- The closure of `save_exit_metadata`, `lifecycle.rs:1607`. -/
def mutate (facts : ExitFacts) (m : SessionMetadata) : Option SessionMetadata :=
  if m.field .exitCode ≠ some facts.code ∨ m.hasExited = false ∨
      m.field .lastLines ≠ some facts.lastLines ∨
      facts.lastOutput.any (m.lastOutputAtMs ≠ some ·) = true then
    some (facts.recorded m)
  else none

variable (facts : ExitFacts) (m : SessionMetadata)

@[simp] theorem generation_recorded : (facts.recorded m).generation = m.generation := rfl

@[simp] theorem hasExited_recorded : (facts.recorded m).hasExited = true := by
  change ((m.field .exitedAt).or (some facts.now)).isSome = true
  rw [Option.isSome_or, Option.isSome_some, Bool.or_true]

@[simp] theorem lastOutputAtMs_recorded :
    (facts.recorded m).lastOutputAtMs = facts.lastOutput.or m.lastOutputAtMs := rfl

variable {facts m}

theorem mutate_eq_some {after : SessionMetadata} (h : facts.mutate m = some after) :
    after = facts.recorded m := by
  unfold mutate at h
  split at h
  · exact (Option.some.inj h).symm
  · cases h

/-- A record that is left has the exit already, with the stamp. -/
theorem mutate_eq_none (h : facts.mutate m = none) :
    m.hasExited = true ∧ facts.lastOutput.or m.lastOutputAtMs = m.lastOutputAtMs := by
  unfold mutate at h
  split at h
  · cases h
  next hn =>
  simp only [not_or, Bool.not_eq_false] at hn
  refine ⟨hn.2.1, ?_⟩
  have ho := hn.2.2.2
  cases hl : facts.lastOutput with
  | none => rfl
  | some stamp =>
    rw [hl, Option.any_some, decide_eq_true_iff, not_not] at ho
    exact ho.symm

end ExitFacts

end PtySpec.Metadata
