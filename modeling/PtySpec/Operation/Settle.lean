import PtySpec.Operation.Frames
import PtySpec.Operation.Process
import PtySpec.Operation.Store

/-!
# Settling an operation

Model of `settle` and its evidence helpers in
`crates/pty-core/src/operation/settle.rs:21-653`. One verdict reads each source once:
the lock, the record, the process table, the boot identity, the argv scan and the
registry inventory. The sources are the fields of `Evidence`.
-/

namespace PtySpec.Operation

/-- The metadata field a launch-operation daemon adds to its session record, `settle.rs:26`. -/
def MARKER_FIELD : String := "launchOperation"

/-- The option that is every participant's birth marker, `settle.rs:29`. -/
def MARKER_OPTION : String := "--launch-operation"

/-- `argv_carries_marker`, `settle.rs:35`. -/
def argvCarriesMarker (argv : List String) (digest : String) : Bool :=
  let options := (argv.drop 1).takeWhile (· != "--")
  match options.dropWhile fun arg ↦ !(arg == "run" || arg == "__daemon") with
  | [] => false
  | _ :: rest => (rest.zip (rest.drop 1)).any fun p ↦ p.1 == MARKER_OPTION && p.2 == digest

/-! ### Occupancy -/

/-- What the registry holds for one session id, `settle.rs:53`. -/
inductive Occupancy where
  | absent
  | live (incarnation : Option String)
  | ended (incarnation : Option String)
  | unreadable (path : String)
  deriving DecidableEq, Repr

/-- `occupancy_rule`, `settle.rs:109`: the ended predecessor that may be cleared, if any. -/
def occupancyRule (occupancy : Occupancy) (expectedIncarnation : Option String) :
    Except (Cause × String) (Option String) :=
  match occupancy with
  | .absent => .ok none
  | .unreadable path => .error (.occupied, "unreadable:" ++ path)
  | .live incarnation => .error (.occupied, "live:" ++ incarnation.getD "unknown")
  | .ended incarnation =>
    match expectedIncarnation, incarnation with
    | some expected, some found =>
      if expected = found then .ok (some found)
      else .error (.predecessorMismatch, "ended:" ++ found)
    | _, found => .error (.predecessorMismatch, "ended:" ++ found.getD "unknown")

/-! ### The sources -/

/-- `SessionStatus`, `list.rs:27`. -/
inductive SessionStatus where
  | running
  | exited
  | vanished
  deriving DecidableEq, Repr

/-- `SessionStatus::as_str`, `list.rs:38`. -/
def SessionStatus.asStr : SessionStatus → String
  | running => "running"
  | exited => "exited"
  | vanished => "vanished"

/-- The fields of a session's metadata that a verdict reads, `metadata.rs:34`. -/
structure SessionMetadata where
  generation : Option String
  daemonPid : Option Int32
  createdAt : String
  extra : List (String × Value)
  deriving DecidableEq, Repr

/-- `incarnation_of`, `settle.rs:65`: `<daemonPid>:<createdAt>`. -/
def incarnationOf (m : SessionMetadata) : Option String :=
  match m.daemonPid.filter (0 < ·) with
  | none => none
  | some pid => if m.createdAt = "" then none else some (toString pid ++ ":" ++ m.createdAt)

/-- The fields of a listed session that a verdict reads, `list.rs:62`. -/
structure SessionInfo where
  name : String
  status : SessionStatus
  metadata : Option SessionMetadata
  deriving DecidableEq, Repr

/-- `Inventory`, `list.rs:119`: a strict listing is complete when it met no error. -/
structure Inventory where
  root : String
  complete : Bool
  entries : List SessionInfo
  errors : List Value
  deriving DecidableEq, Repr

/-- One live process of the scanned uid, `argv.rs:22`. -/
structure ArgvRow where
  pid : Int32
  identity : Option String
  argv : List String
  deriving DecidableEq, Repr

/-- One pass over the argument vectors of one uid, `argv.rs:30`. -/
structure ArgvScan where
  uid : UInt32
  source : String
  readable : Bool
  complete : Bool
  zombies : Nat
  kernelThreads : Nat
  unreadable : List Int32
  rows : List ArgvRow
  deriving DecidableEq, Repr

/-- `ArgvScan::is_whole`, `argv.rs:69`. -/
def ArgvScan.isWhole (s : ArgvScan) : Bool := s.readable && s.complete && s.unreadable.isEmpty

/-- One try of `OperationLock::shared_now`, `record.rs:874`. -/
inductive SharedLock where
  | taken
  | refused
  | missing
  | failed (error : String)
  deriving DecidableEq, Repr

/-- Everything one `settle` reads. `shared n` and `holder n` are the answers of its
`n`-th try for the lock, `recordOwner` the uid that owns the record's file. -/
structure Evidence where
  shared : Nat → SharedLock
  holder : Nat → Option Int32
  read : Except ReadError (Option OperationRecord)
  table : ProcTable
  boot : Option String
  recordOwner : Option UInt32
  getuid : UInt32
  scan : UInt32 → ArgvScan
  inventory : Inventory
  recordPath : String
  rootIdentity : Value
  observedAt : String

/-! ### Components and verdicts -/

/-- `Status`, `settle.rs:137`. -/
inductive Status where
  | verified
  | pending
  | unknown
  deriving DecidableEq, Repr

/-- `Status::as_str`, `settle.rs:144`. -/
def Status.asStr : Status → String
  | verified => "verified"
  | pending => "pending"
  | unknown => "unknown"

/-- `Component`, `settle.rs:153`. -/
structure Component where
  name : String
  status : Status
  detail : Value

/-- `Component::json`, `settle.rs:160`. -/
def Component.json (c : Component) : Value :=
  .object [("name", .string c.name), ("status", .string c.status.asStr), ("detail", c.detail)]

/-- `RequestKind`, `settle.rs:131`. -/
inductive RequestKind where
  | settle
  | retire
  deriving DecidableEq, Repr

/-- `Verdict`, `settle.rs:167`. -/
structure Verdict where
  verdict : String
  kind : Option String
  noFurtherEffects : Bool
  json : Value

/-- `Snapshot`, `settle.rs:175`: what a verdict answers. -/
structure Snapshot where
  operationId : String
  envelopeSha256 : String
  request : RequestKind × Option String
  deriving DecidableEq, Repr

/-- The record's part of a verdict's JSON, `settle.rs:194`. -/
def OperationRecord.verdictJson (r : OperationRecord) : Value :=
  .object [("schema", .string r.schema), ("revision", .nat r.revision),
    ("state", .string r.state.asStr), ("phase", .string r.phase.asStr),
    ("decision", .opt Decision.json r.decision), ("writer", r.writer.json),
    ("retirement", .opt Retirement.json r.retirement),
    ("transfer", .opt Transfer.json r.transfer)]

/-- `Snapshot::finish`, `settle.rs:183`. -/
def Snapshot.finish (snap : Snapshot) (e : Evidence) (verdict : String) (kind : Option String)
    (noFurtherEffects : Bool) (record : Option OperationRecord) (components : List Component) :
    Verdict where
  verdict := verdict
  kind := kind
  noFurtherEffects := noFurtherEffects
  json := .object [("verdictVersion", .nat 1), ("verdict", .string verdict),
    ("kind", .ofOption kind), ("noFurtherEffects", .bool noFurtherEffects),
    ("root", e.rootIdentity), ("record", .opt OperationRecord.verdictJson record),
    ("operationId", .string snap.operationId), ("envelopeSha256", .string snap.envelopeSha256),
    ("envelope", .opt (·.envelope) record),
    ("incarnation", .opt (fun r ↦ .opt Incarnation.json r.incarnation) record),
    ("request", .object [
      ("kind", .string (match snap.request.1 with | .settle => "settle" | .retire => "retire")),
      ("requestId", .ofOption snap.request.2)]),
    ("components", .array (components.map Component.json)),
    ("observedAt", .string e.observedAt)]

/-- `liveness_json`, `settle.rs:489`. -/
def livenessJson : Liveness → String
  | .live => "live"
  | .gone => "gone"
  | .unknown reason => reason

/-- `scan_uid`, `settle.rs:479`: the launcher's uid, else the owner of the record's file. -/
def scanUid (e : Evidence) (record : OperationRecord) : UInt32 :=
  match record.participants.launcher with
  | some launcher => launcher.uid
  | none => e.recordOwner.getD e.getuid

/-- The status of one process: only a gone one is verified. -/
def Liveness.status : Liveness → Status
  | .gone => .verified
  | .live => .pending
  | .unknown _ => .unknown

/-- `writer_component`, `settle.rs:497`. -/
def writerComponent (record : OperationRecord) (table : ProcTable) (boot : Option String) :
    Component :=
  match record.writer.id.filter fun _ ↦ record.writer.role != .none with
  | none => ⟨"writer", .verified, .object [("role", .string "none")]⟩
  | some id =>
    let liveness := id.liveness table boot
    ⟨"writer", liveness.status, .object [("role", .string record.writer.role.asStr),
      ("pid", .nat id.pid.toNat), ("startToken", .string id.startToken),
      ("status", .string (livenessJson liveness))]⟩

/-- The ids `participants_component` looks at, with their roles, `settle.rs:534`. -/
def participantIds (record : OperationRecord) : List (String × ProcessId) :=
  [("launcher", record.participants.launcher), ("producer", record.participants.producer),
    ("child", record.participants.child), ("daemon", record.incarnation.map (·.daemon)),
    ("child", record.incarnation.bind (·.child))].filterMap fun p ↦ p.2.map (p.1, ·)

/-- The first entry of each id, in order: `seen` in `settle.rs:546`. -/
def firstSeen (ids : List (String × ProcessId)) : List (String × ProcessId) :=
  (ids.foldl (fun (acc : List (String × ProcessId) × List ProcessId) p ↦
    if acc.2.contains p.2 then acc else (acc.1 ++ [p], acc.2 ++ [p.2])) ([], [])).1

/-- One step of the status loop of `participants_component`, `settle.rs:556`. -/
def participantStatus (status : Status) (liveness : Liveness) : Status :=
  match liveness with
  | .live => .pending
  | .unknown _ => if status = .verified then .unknown else status
  | .gone => status

/-- `participants_component`, `settle.rs:525`. -/
def participantsComponent (record : OperationRecord) (table : ProcTable) (boot : Option String) :
    Component :=
  let ids := firstSeen (participantIds record)
  ⟨"participants", ids.foldl (fun s p ↦ participantStatus s (p.2.liveness table boot)) .verified,
    .object [("tableComplete", .bool table.isComplete),
      ("participants", .array (ids.map fun p ↦ .object [("role", .string p.1),
        ("pid", .nat p.2.pid.toNat), ("startToken", .string p.2.startToken),
        ("status", .string (livenessJson (p.2.liveness table boot)))]))]⟩

/-- `marker_component`, `settle.rs:573`. -/
def markerComponent (scan : ArgvScan) (digest : String) : Component :=
  let found := scan.rows.filter fun row ↦ argvCarriesMarker row.argv digest
  ⟨"marker-scan",
    if found ≠ [] then .pending else if !scan.isWhole then .unknown else .verified,
    .object [("uid", .nat scan.uid.toNat), ("source", .string scan.source),
      ("readable", .bool scan.readable), ("complete", .bool scan.complete),
      ("rows", .nat scan.rows.length), ("zombies", .nat scan.zombies),
      ("kernelThreads", .nat scan.kernelThreads),
      ("unreadable", .array (scan.unreadable.map fun pid ↦ .number pid.toInt)),
      ("matches", .array (found.map fun row ↦
        .object [("pid", .number row.pid.toInt), ("startToken", .ofOption row.identity)]))]⟩

/-- The session's metadata names the operation's digest, `settle.rs:622`. -/
def SessionMetadata.carries (m : SessionMetadata) (digest : String) : Bool :=
  (((Value.object m.extra).get MARKER_FIELD).bind fun marker ↦
    (marker.get "digest").bind Value.asStr) == some digest

/-- The session is the incarnation the record names, `settle.rs:632`. -/
def SessionMetadata.recorded (m : SessionMetadata) (record : OperationRecord) : Bool :=
  record.incarnation.any fun inc ↦
    incarnationOf m == some inc.id && m.generation == some inc.generation

/-- One step of the status loop of `registry_component`, `settle.rs:636`. -/
def rowStatus (record : OperationRecord) (status : Status) (entry : SessionInfo)
    (m : SessionMetadata) : Status :=
  if !m.recorded record then .unknown
  else if entry.status = .running ∧ record.state ≠ .transferred ∧ status = .verified then .pending
  else status

/-- `registry_component`, `settle.rs:604`. -/
def registryComponent (inventory : Inventory) (digest : String) (record : OperationRecord) :
    Component :=
  if !inventory.complete then
    ⟨"registry", .unknown, .object [("errors", .array inventory.errors)]⟩
  else
    let carriers := inventory.entries.filterMap fun entry ↦
      (entry.metadata.filter (·.carries digest)).map (entry, ·)
    ⟨"registry", carriers.foldl (fun s p ↦ rowStatus record s p.1 p.2) .verified,
      .object [("root", .string inventory.root),
        ("rows", .array (carriers.map fun p ↦ .object [("name", .string p.1.name),
          ("incarnation", .ofOption (incarnationOf p.2)), ("generation", .ofOption p.2.generation),
          ("status", .string p.1.status.asStr), ("recorded", .bool (p.2.recorded record))]))]⟩

/-! ### The verdict -/

/-- How often `settle` tries the lock when its holder is already gone, `settle.rs:268`. -/
def WRITER_RELEASE_RETRIES : Nat := 8

/-- What the loop over the lock comes to, `settle.rs:287`. -/
inductive LockOutcome where
  | held
  | refused (holder : Option Int32)
  | missing
  | failed (error : String)
  deriving DecidableEq, Repr

/-- The loop over the lock, from its `n`-th try on. -/
def takeShared (e : Evidence) : Nat → Nat → LockOutcome
  | 0, _ => .refused none
  | fuel + 1, n =>
    match e.shared n with
    | .missing => .missing
    | .failed error => .failed error
    | .taken => .held
    | .refused =>
      match e.holder n with
      | some pid => .refused (some pid)
      | none => takeShared e fuel (n + 1)

/-- The `record` component, `settle.rs:325`. -/
def recordComponent (e : Evidence) (snap : Snapshot) : Component :=
  match e.read with
  | .ok (some record) =>
    if record.operationId = snap.operationId ∧ record.envelopeSha256 = snap.envelopeSha256 then
      ⟨"record", .verified,
        .object [("path", .string e.recordPath), ("revision", .nat record.revision)]⟩
    else
      ⟨"record", .unknown, .object [("reason", .string "record-mismatch"),
        ("operationId", .string record.operationId),
        ("envelopeSha256", .string record.envelopeSha256)]⟩
  | .ok none =>
    ⟨"record", .unknown,
      .object [("reason", .string "record-missing"), ("path", .string e.recordPath)]⟩
  | .error (.io path error) | .error (.malformed path error) =>
    ⟨"record", .unknown, .object [("reason", .string "record-unreadable"),
      ("error", .string (path ++ ": " ++ error))]⟩

/-- The record that was read, `settle.rs:321`. -/
def Evidence.record (e : Evidence) : Option OperationRecord :=
  match e.read with
  | .ok (some record) => some record
  | _ => none

/-- `durable_end`, `settle.rs:404`: nothing later can come of this record. -/
def OperationRecord.durableEnd (r : OperationRecord) : Bool :=
  match r.state with
  | .cancelled => r.cause.any (· != .launch)
  | .launched => r.retirementPhase == some .verified
  | _ => false

/-- The components of a record that was read and matches, `settle.rs:392`. -/
def components (e : Evidence) (snap : Snapshot) (digest : String) (record : OperationRecord) :
    List Component :=
  [recordComponent e snap, writerComponent record e.table e.boot,
    participantsComponent record e.table e.boot,
    markerComponent (e.scan (scanUid e record)) digest,
    registryComponent e.inventory digest record]

/-- `no_further_effects`, `settle.rs:417`. -/
def noFurtherEffects (e : Evidence) (snap : Snapshot) (digest : String)
    (record : OperationRecord) : Bool :=
  record.durableEnd && ((components e snap digest record).drop 1).all (·.status == .verified)

/-- The end of `settle`, once the record matches and every source was read,
`settle.rs:422`. -/
def settleRecord (e : Evidence) (snap : Snapshot) (digest : String) (record : OperationRecord) :
    Verdict :=
  let components := components e snap digest record
  let noFurtherEffects := noFurtherEffects e snap digest record
  if record.state = .transferred then
    snap.finish e "transferred" none false (some record) components
  else
    match components.find? (·.status == .pending) with
    | some c => snap.finish e "live" (some c.name) noFurtherEffects (some record) components
    | none =>
      match components.find? (·.status == .unknown) with
      | some c => snap.finish e "unknown" (some c.name) noFurtherEffects (some record) components
      | none =>
        match record.state with
        | .reserved | .pending =>
          snap.finish e "retire-required" (some record.state.asStr) false (some record) components
        | .cancelled =>
          if record.durableEnd then
            snap.finish e "closed" (some "never-launched") noFurtherEffects (some record) components
          else
            snap.finish e "unknown" (some "record") false (some record) components
        | .launched =>
          if record.durableEnd then
            snap.finish e "closed" (some "retired") noFurtherEffects (some record) components
          else
            snap.finish e "retire-required" (some "launched") false (some record) components
        | .transferred => snap.finish e "unknown" (some "record") false (some record) components

/-- `settle`, `settle.rs:271`. -/
def settle (e : Evidence) (snap : Snapshot) (digest : String) : Verdict :=
  match takeShared e WRITER_RELEASE_RETRIES 0 with
  | .missing =>
    snap.finish e "unknown" (some "record-missing") false none
      [⟨"record", .unknown,
        .object [("reason", .string "record-missing"), ("path", .string e.recordPath)]⟩]
  | .failed error =>
    snap.finish e "unknown" (some "writer") false none
      [⟨"writer", .unknown,
        .object [("lock", .string "unavailable"), ("error", .string error)]⟩]
  | .refused holder =>
    snap.finish e "live" (some "writer") false e.record
      [recordComponent e snap, ⟨"writer", .pending, .object [("holdsLock", .bool true),
        ("role", .opt (fun r ↦ .string r.writer.role.asStr) e.record),
        ("holderPid", .opt (fun pid ↦ .number pid.toInt) holder)]⟩]
  | .held =>
    match e.record.filter fun _ ↦ (recordComponent e snap).status == .verified with
    | none =>
      snap.finish e "unknown"
        (some ((((recordComponent e snap).detail.get "reason").bind Value.asStr).getD "record"))
        false e.record [recordComponent e snap]
    | some record => settleRecord e snap digest record

/-! ### When each component is verified -/

/-- A writer is verified exactly when the record names none that may write, or the one
it names is gone. -/
theorem writerComponent_verified_iff (record : OperationRecord) (table : ProcTable)
    (boot : Option String) :
    (writerComponent record table boot).status = .verified ↔
      ∀ id, record.writer.id = some id → record.writer.role ≠ .none →
        id.liveness table boot = .gone := by
  unfold writerComponent
  cases hid : record.writer.id with
  | none => simp
  | some id =>
    cases hrole : record.writer.role <;> cases hl : id.liveness table boot <;>
      simp [Option.filter, Liveness.status, hl]

private theorem participantStatus_verified_iff (s : Status) (l : Liveness) :
    participantStatus s l = .verified ↔ s = .verified ∧ l = .gone := by
  cases s <;> cases l <;> simp [participantStatus]

private theorem foldl_verified_iff {α : Type} (f : Status → α → Status) (P : α → Prop)
    (hf : ∀ s a, f s a = .verified ↔ s = .verified ∧ P a) (s : Status) (xs : List α) :
    xs.foldl f s = .verified ↔ s = .verified ∧ ∀ a ∈ xs, P a := by
  induction xs generalizing s with
  | nil => simp
  | cons a xs ih => rw [List.foldl_cons, ih, hf, and_assoc, List.forall_mem_cons]

private theorem mem_firstSeen (ids : List (String × ProcessId)) (id : ProcessId) :
    (∃ p ∈ firstSeen ids, p.2 = id) ↔ ∃ p ∈ ids, p.2 = id := by
  -- the second list of the loop holds exactly the ids of the first
  suffices h : ∀ (ids : List (String × ProcessId))
      (acc : List (String × ProcessId) × List ProcessId),
      (∀ id, id ∈ acc.2 ↔ ∃ p ∈ acc.1, p.2 = id) →
      ∀ id, (∃ p ∈ (ids.foldl (fun (acc : List (String × ProcessId) × List ProcessId) p ↦
          if acc.2.contains p.2 then acc else (acc.1 ++ [p], acc.2 ++ [p.2])) acc).1, p.2 = id) ↔
        (∃ p ∈ acc.1, p.2 = id) ∨ ∃ p ∈ ids, p.2 = id by
    have := h ids ([], []) (by simp) id
    simpa [firstSeen] using this
  intro ids
  induction ids with
  | nil => intro acc _ id; simp
  | cons q ids ih =>
    intro acc hacc id
    rw [List.foldl_cons]
    split
    · next hc =>
      rw [ih acc hacc id]
      have hq : ∃ p ∈ acc.1, p.2 = q.2 := (hacc q.2).mp (by simpa using hc)
      constructor
      · rintro (h | ⟨p, hp, rfl⟩)
        · exact .inl h
        · exact .inr ⟨p, List.mem_cons_of_mem q hp, rfl⟩
      · rintro (h | ⟨p, hp, rfl⟩)
        · exact .inl h
        · rcases List.mem_cons.mp hp with rfl | hp
          · exact .inl hq
          · exact .inr ⟨p, hp, rfl⟩
    · next hc =>
      rw [ih _ (fun id ↦ by simp [hacc id, eq_comm]) id]
      simp only [List.mem_append, List.mem_cons, List.not_mem_nil, or_false, or_assoc,
        or_and_right, exists_or, exists_eq_left]

/-- The participants are verified exactly when each of them is gone. -/
theorem participantsComponent_verified_iff (record : OperationRecord) (table : ProcTable)
    (boot : Option String) :
    (participantsComponent record table boot).status = .verified ↔
      ∀ p ∈ participantIds record, p.2.liveness table boot = .gone := by
  have hf := foldl_verified_iff
    (fun s (p : String × ProcessId) ↦ participantStatus s (p.2.liveness table boot))
    (fun p ↦ p.2.liveness table boot = .gone)
    (fun s p ↦ participantStatus_verified_iff s _) .verified (firstSeen (participantIds record))
  refine hf.trans ⟨fun ⟨_, h⟩ p hp ↦ ?_, fun h ↦ ⟨rfl, fun p hp ↦ ?_⟩⟩
  · obtain ⟨q, hq, he⟩ := (mem_firstSeen (participantIds record) p.2).mpr ⟨p, hp, rfl⟩
    exact he ▸ h q hq
  · obtain ⟨q, hq, he⟩ := (mem_firstSeen (participantIds record) p.2).mp ⟨p, hp, rfl⟩
    exact he ▸ h q hq

/-- The scan is verified exactly when it is whole and finds no marker. -/
theorem markerComponent_verified_iff (scan : ArgvScan) (digest : String) :
    (markerComponent scan digest).status = .verified ↔
      scan.isWhole = true ∧ ∀ row ∈ scan.rows, argvCarriesMarker row.argv digest = false := by
  unfold markerComponent
  dsimp only
  split
  · next h =>
    simp only [reduceCtorEq, false_iff]
    rintro ⟨-, hrows⟩
    apply h
    simpa using hrows
  · next h =>
    have hrows : ∀ row ∈ scan.rows, argvCarriesMarker row.argv digest = false := by simpa using h
    cases hw : scan.isWhole with
    | false => simp
    | true => simpa using hrows

/-- A row that carries the digest is harmless: it is the recorded incarnation and it
does not run. -/
def RowHarmless (record : OperationRecord) (entry : SessionInfo) (m : SessionMetadata) : Prop :=
  m.recorded record = true ∧ ¬(entry.status = .running ∧ record.state ≠ .transferred)

private theorem rowStatus_verified_iff (record : OperationRecord) (s : Status)
    (entry : SessionInfo) (m : SessionMetadata) :
    rowStatus record s entry m = .verified ↔ s = .verified ∧ RowHarmless record entry m := by
  unfold rowStatus RowHarmless
  cases hr : m.recorded record with
  | false => simp
  | true =>
    by_cases hs : entry.status = .running ∧ record.state ≠ .transferred
    · by_cases hv : s = .verified <;> simp [hs.1, hs.2, hv]
    · have : ¬(entry.status = .running ∧ record.state ≠ .transferred ∧ s = .verified) :=
        fun h ↦ hs ⟨h.1, h.2.1⟩
      simp [this, hs]

/-- The registry is verified exactly when it was read completely and every row that
carries the digest is harmless. -/
theorem registryComponent_verified_iff (inventory : Inventory) (digest : String)
    (record : OperationRecord) :
    (registryComponent inventory digest record).status = .verified ↔
      inventory.complete = true ∧ ∀ entry ∈ inventory.entries, ∀ m, entry.metadata = some m →
        m.carries digest = true → RowHarmless record entry m := by
  unfold registryComponent
  cases hc : inventory.complete with
  | false => simp
  | true =>
    have hf := foldl_verified_iff (fun s (p : SessionInfo × SessionMetadata) ↦
      rowStatus record s p.1 p.2) (fun p ↦ RowHarmless record p.1 p.2)
      (fun s p ↦ rowStatus_verified_iff record s p.1 p.2) .verified
      (inventory.entries.filterMap fun entry ↦
        (entry.metadata.filter (·.carries digest)).map (entry, ·))
    simp only [Bool.not_true, Bool.false_eq_true, if_false, true_and] at hf ⊢
    rw [hf]
    constructor
    · intro h entry he m hm hcar
      exact h (entry, m) (List.mem_filterMap.mpr ⟨entry, he, by simp [hm, Option.filter, hcar]⟩)
    · intro h p hp
      obtain ⟨entry, he, hp⟩ := List.mem_filterMap.mp hp
      obtain ⟨m, hm, rfl⟩ := Option.map_eq_some_iff.mp hp
      obtain ⟨hm, hcar⟩ := Option.filter_eq_some_iff.mp hm
      exact h entry he m hm hcar

/-! ### When an operation is closed -/

/-- The evidence proves the process gone by its exact identity. -/
def Evidence.Gone (e : Evidence) (id : ProcessId) : Prop :=
  ∃ boot, e.boot = some boot ∧ GoneProof id e.table boot

/-- Every source agrees that nothing of the operation can act any more. -/
structure ClosedBy (e : Evidence) (snap : Snapshot) (digest : String) (record : OperationRecord) :
    Prop where
  lock : takeShared e WRITER_RELEASE_RETRIES 0 = .held
  read : e.read = .ok (some record)
  operationId : record.operationId = snap.operationId
  envelope : record.envelopeSha256 = snap.envelopeSha256
  durableEnd : record.durableEnd = true
  writer : ∀ id, record.writer.id = some id → record.writer.role ≠ .none → e.Gone id
  participants : ∀ p ∈ participantIds record, e.Gone p.2
  scanWhole : (e.scan (scanUid e record)).isWhole = true
  noMarker : ∀ row ∈ (e.scan (scanUid e record)).rows, argvCarriesMarker row.argv digest = false
  inventoryComplete : e.inventory.complete = true
  noCarrier : ∀ entry ∈ e.inventory.entries, ∀ m, entry.metadata = some m →
    m.carries digest = true → m.recorded record = true ∧ entry.status ≠ .running

/-- The verdict is `closed`. -/
def Verdict.Closed (v : Verdict) : Prop := v.verdict = "closed"

private theorem recordComponent_verified_iff (e : Evidence) (snap : Snapshot) :
    (recordComponent e snap).status = .verified ↔
      ∃ record, e.read = .ok (some record) ∧ record.operationId = snap.operationId ∧
        record.envelopeSha256 = snap.envelopeSha256 := by
  unfold recordComponent
  split
  · next record h => split <;> simp_all
  · next h => simp [h]
  · next h => simp [h]
  · next h => simp [h]

private theorem find?_status_eq_none (cs : List Component) (st : Status) :
    cs.find? (·.status == st) = none ↔ ∀ c ∈ cs, c.status ≠ st := by
  simp

private theorem all_verified_iff (cs : List Component) :
    (∀ c ∈ cs, c.status = .verified) ↔
      (∀ c ∈ cs, c.status ≠ .pending) ∧ ∀ c ∈ cs, c.status ≠ .unknown := by
  constructor
  · intro h
    exact ⟨fun c hc ↦ by simp [h c hc], fun c hc ↦ by simp [h c hc]⟩
  · rintro ⟨hp, hu⟩ c hc
    cases hs : c.status with
    | verified => rfl
    | pending => exact absurd hs (hp c hc)
    | unknown => exact absurd hs (hu c hc)

/-- The end of `settle` says closed exactly for a durable end with every component verified,
and then reports no further effects. -/
private theorem settleRecord_closed_iff (e : Evidence) (snap : Snapshot) (digest : String)
    (record : OperationRecord) :
    (settleRecord e snap digest record).Closed ↔
      record.durableEnd = true ∧ ∀ c ∈ components e snap digest record, c.status = .verified := by
  rw [all_verified_iff]
  unfold settleRecord Verdict.Closed
  dsimp only
  split
  · next h => simp [Snapshot.finish, OperationRecord.durableEnd, h]
  · next ht =>
    split
    · next c h =>
      have := List.mem_of_find?_eq_some h
      have hs := List.find?_some h
      simp only [beq_iff_eq] at hs
      simp only [Snapshot.finish, String.reduceEq, false_iff]
      exact fun h ↦ h.2.1 c this hs
    · next hp =>
      rw [find?_status_eq_none] at hp
      split
      · next c h =>
        have := List.mem_of_find?_eq_some h
        have hs := List.find?_some h
        simp only [beq_iff_eq] at hs
        simp only [Snapshot.finish, String.reduceEq, false_iff]
        exact fun h ↦ h.2.2 c this hs
      · next hu =>
        rw [find?_status_eq_none] at hu
        cases hs : record.state <;> cases hd : record.durableEnd <;>
          simp_all [Snapshot.finish, OperationRecord.durableEnd]

private theorem components_verified_iff (e : Evidence) (snap : Snapshot) (digest : String)
    (record : OperationRecord) :
    (∀ c ∈ components e snap digest record, c.status = .verified) ↔
      (recordComponent e snap).status = .verified ∧
        (writerComponent record e.table e.boot).status = .verified ∧
        (participantsComponent record e.table e.boot).status = .verified ∧
        (markerComponent (e.scan (scanUid e record)) digest).status = .verified ∧
        (registryComponent e.inventory digest record).status = .verified := by
  simp [components]

private theorem record_eq_some_iff (e : Evidence) (record : OperationRecord) :
    e.record = some record ↔ e.read = .ok (some record) := by
  unfold Evidence.record
  split <;> simp_all

private theorem rowHarmless_iff {record : OperationRecord} (h : record.durableEnd = true)
    (entry : SessionInfo) (m : SessionMetadata) :
    RowHarmless record entry m ↔ m.recorded record = true ∧ entry.status ≠ .running := by
  have hs : record.state ≠ .transferred := by
    intro hs
    simp [OperationRecord.durableEnd, hs] at h
  simp [RowHarmless, hs]

/-- `settle` says closed exactly when every source agrees. -/
theorem settle_closed_iff (e : Evidence) (snap : Snapshot) (digest : String) :
    (settle e snap digest).Closed ↔ ∃ record, ClosedBy e snap digest record := by
  unfold settle
  cases hl : takeShared e WRITER_RELEASE_RETRIES 0 with
  | missing =>
    simp only [Verdict.Closed, Snapshot.finish, String.reduceEq, false_iff]
    rintro ⟨record, h⟩
    simp [h.lock] at hl
  | failed error =>
    simp only [Verdict.Closed, Snapshot.finish, String.reduceEq, false_iff]
    rintro ⟨record, h⟩
    simp [h.lock] at hl
  | refused holder =>
    simp only [Verdict.Closed, Snapshot.finish, String.reduceEq, false_iff]
    rintro ⟨record, h⟩
    simp [h.lock] at hl
  | held =>
    dsimp only
    split
    · next hnone =>
      simp only [Verdict.Closed, Snapshot.finish, String.reduceEq, false_iff]
      rintro ⟨record, h⟩
      have hv := (recordComponent_verified_iff e snap).mpr
        ⟨record, h.read, h.operationId, h.envelope⟩
      simp [(record_eq_some_iff e record).mpr h.read, Option.filter, hv] at hnone
    · next record hsome =>
      obtain ⟨hrec, hv⟩ := Option.filter_eq_some_iff.mp hsome
      rw [beq_iff_eq, recordComponent_verified_iff] at hv
      obtain ⟨record', hread, hid, hsha⟩ := hv
      have : record' = record := by
        have := (record_eq_some_iff e record).mp hrec
        rw [hread] at this
        simpa using this
      subst this
      rw [settleRecord_closed_iff, components_verified_iff, writerComponent_verified_iff,
        participantsComponent_verified_iff, markerComponent_verified_iff,
        registryComponent_verified_iff]
      simp only [liveness_eq_gone_iff]
      constructor
      · rintro ⟨hd, -, hw, hp, hs, hi, hrows⟩
        simp only [rowHarmless_iff hd] at hrows
        exact ⟨record', hl, hread, hid, hsha, hd, hw, hp, hs.1, hs.2, hi, hrows⟩
      · rintro ⟨record, h⟩
        have : record = record' := by
          have := h.read
          rw [hread] at this
          simpa using this.symm
        subst this
        simp only [rowHarmless_iff h.durableEnd]
        exact ⟨h.durableEnd, (recordComponent_verified_iff e snap).mpr ⟨_, hread, hid, hsha⟩,
          h.writer, h.participants, ⟨h.scanWhole, h.noMarker⟩, h.inventoryComplete, h.noCarrier⟩

/-! ### Less evidence never closes an operation -/

/-- `t'` is `t` read worse: not at all, or with rows, identities and states missing. A
table that misses a row is not complete. -/
structure ProcTable.Degraded (t t' : ProcTable) : Prop where
  readable : t'.readable = true → t.readable = true
  complete : t'.readable = true → t'.complete = true → t.complete = true
  rows : t'.readable = true → ∀ pid row', t'.rows pid = some row' → ∃ row, t.rows pid = some row ∧
    (row'.identity = row.identity ∨ row'.identity = none) ∧
      (row'.state = row.state ∨ row'.state = "")
  absent : t'.readable = true → t'.complete = true → ∀ pid, t'.rows pid = none → t.rows pid = none

/-- `e'` is `e` with pieces of evidence unreadable, incomplete or unknown. -/
structure Degraded (e e' : Evidence) : Prop where
  lock : (e'.shared = e.shared ∧ e'.holder = e.holder) ∨
    ∀ n, e'.shared n = .missing ∨ ∃ error, e'.shared n = .failed error
  read : e'.read = e.read ∨ ∃ error, e'.read = .error error
  table : e.table.Degraded e'.table
  boot : e'.boot = e.boot ∨ e'.boot = none
  scan : ∀ uid, e'.scan uid = e.scan uid ∨ (e'.scan uid).isWhole = false
  inventory : e'.inventory = e.inventory ∨ e'.inventory.complete = false
  recordOwner : e'.recordOwner = e.recordOwner
  getuid : e'.getuid = e.getuid

private theorem Row.isZombie_of_degraded {row row' : Row}
    (h : row'.state = row.state ∨ row'.state = "") (hz : row'.isZombie = true) :
    row.isZombie = true := by
  rcases h with h | h
  · simpa [Row.isZombie, h] using hz
  · simp [Row.isZombie, h] at hz

/-- What a worse table proves gone, the better one proves too. -/
theorem GoneProof.of_degraded {id : ProcessId} {t t' : ProcTable} {boot : String}
    (hd : t.Degraded t') (h : GoneProof id t' boot) : GoneProof id t boot := by
  constructor
  rcases h.proof with h | ⟨hr, row', token, hrow, hid, hg⟩ | ⟨hr, hc, hrow⟩
  · exact .inl h
  · obtain ⟨row, hrow, hid', hs⟩ := hd.rows hr _ _ hrow
    rw [hid] at hid'
    simp only [reduceCtorEq, or_false] at hid'
    exact .inr (.inl ⟨hd.readable hr, row, token, hrow, hid'.symm,
      hg.imp_right (Row.isZombie_of_degraded hs)⟩)
  · exact .inr (.inr ⟨hd.readable hr, hd.complete hr hc, hd.absent hr hc _ hrow⟩)

private theorem Evidence.Gone.of_degraded {e e' : Evidence} (hd : Degraded e e') {id : ProcessId}
    (h : e'.Gone id) : e.Gone id := by
  obtain ⟨boot, hb, hp⟩ := h
  rcases hd.boot with he | he
  · exact ⟨boot, he ▸ hb, hp.of_degraded hd.table⟩
  · rw [he] at hb
    cases hb

private theorem takeShared_held_of_degraded {e e' : Evidence} (hd : Degraded e e') :
    takeShared e' WRITER_RELEASE_RETRIES 0 = .held →
      takeShared e WRITER_RELEASE_RETRIES 0 = .held := by
  rcases hd.lock with ⟨hs, hh⟩ | hf
  · have : ∀ fuel n, takeShared e' fuel n = takeShared e fuel n := by
      intro fuel
      induction fuel with
      | zero => intro n; rfl
      | succ fuel ih => intro n; simp only [takeShared, hs, hh, ih]
    rw [this]
    exact id
  · intro h
    rcases hf 0 with h₀ | ⟨error, h₀⟩ <;> simp [takeShared, WRITER_RELEASE_RETRIES, h₀] at h

private theorem ClosedBy.of_degraded {e e' : Evidence} {snap : Snapshot} {digest : String}
    {record : OperationRecord} (hd : Degraded e e') (h : ClosedBy e' snap digest record) :
    ClosedBy e snap digest record := by
  have hread : e.read = .ok (some record) := by
    rcases hd.read with hr | ⟨error, hr⟩
    · exact hr ▸ h.read
    · have := h.read
      rw [hr] at this
      cases this
  have huid : scanUid e' record = scanUid e record := by
    simp only [scanUid, hd.recordOwner, hd.getuid]
  have hscan : e'.scan (scanUid e' record) = e.scan (scanUid e record) := by
    rcases hd.scan (scanUid e' record) with hs | hs
    · rw [hs, huid]
    · rw [h.scanWhole] at hs
      cases hs
  have hinv : e'.inventory = e.inventory := by
    rcases hd.inventory with hi | hi
    · exact hi
    · rw [h.inventoryComplete] at hi
      cases hi
  exact ⟨takeShared_held_of_degraded hd h.lock, hread, h.operationId, h.envelope, h.durableEnd,
    fun id hid hr ↦ (h.writer id hid hr).of_degraded hd,
    fun p hp ↦ (h.participants p hp).of_degraded hd, hscan ▸ h.scanWhole, hscan ▸ h.noMarker,
    hinv ▸ h.inventoryComplete, hinv ▸ h.noCarrier⟩

/-- A cancelled operation whose launcher ran in an earlier boot, read with `table`. -/
def cancelledEvidence (table : ProcTable) : Evidence where
  shared _ := .taken
  holder _ := none
  read := .ok (some { OperationRecord.reserved ⟨"sha", .null, "op", "rt", none⟩ "t0" with
    state := .cancelled
    phase := .claimed
    participants := { launcher := some ⟨7, "linux:3", "earlier", 501⟩ }
    decision := some ⟨.withdrawn, "t1", none, none⟩ })
  table := table
  boot := some "later"
  recordOwner := some 501
  getuid := 501
  scan uid := ⟨uid, "/proc/<pid>/cmdline", true, true, 0, 0, [],
    [⟨9, some "linux:5", ["pty", "run", "--", "sh"]⟩]⟩
  inventory := ⟨"/r", true, [⟨"s", .exited, some ⟨none, some 4, "t0", []⟩⟩], []⟩
  recordPath := "op.json"
  rootIdentity := .null
  observedAt := "t2"

private theorem cancelledEvidence_closed (table : ProcTable) :
    (settle (cancelledEvidence table) ⟨"op", "sha", .settle, none⟩ "h").Closed := by
  rfl

end PtySpec.Operation
