import PtySpec.Cli.Up

/-!
# The manual restarts

Model of `pty restart`, `crates/pty/src/cli/restart.rs:62-180`, of the restart that `pty attach`
offers, `attach.rs:199-289`, and of the picker's, `interactive/mod.rs:388-423`: what each launches a
recorded session with, and its steps with what they leave of the record. What a step of the
surroundings answers is theirs.
-/

namespace PtySpec.Cli.Restart

open Lib Metadata
open Lifecycle (TagMap SpawnParams Launch applyPersistedLaunchOptions publicationMap published
  readMetadata isPermanent)

/-! ### Launch parameters -/

/-- `SpawnParams` with the variables that are taken from the daemon's environment. -/
structure RestartParams extends SpawnParams where
  scrubEnv : List String

/-- `RESTART_SCRUBBED_ENV`, `cli/mod.rs:111`. -/
def restartScrubbedEnv : List String :=
  ["ST_AGENT", "ST_ROOT", "FRACTAL_AGENT", "FRACTAL_ROOT", "AGENT_TRACE_FILE"]

/-- `strip_gc_bookkeeping`, `tags.rs:199`. -/
def stripGcBookkeeping : Option TagMap → Option TagMap
  | none => none
  | some [] => some []
  | some tags =>
    let out := tags.filter fun e ↦ e.1 ∉ gcBookkeepingKeys
    if out.isEmpty then none else some out

/-- What a launch reads of where it is asked for: the terminal's size and the directory. -/
structure Seat where
  terminal : UInt16 × UInt16
  currentDir : String

/-- `SpawnParams::new`, `launch.rs:72`. -/
def newParams (seat : Seat) (name command : String) (args : List String) : RestartParams where
  name := name
  command := command
  args := args
  displayCommand := " ".intercalate (command :: args)
  cwd := seat.currentDir
  rows := seat.terminal.1
  cols := seat.terminal.2
  ephemeral := false
  tags := []
  publicationBinding := none
  publicationRootId := none
  displayName := none
  isolateEnv := false
  extraEnv := []
  sessionEnv := none
  unsetEnv := []
  env := none
  respawn := false
  scrubEnv := []

/-- What `pty restart` launches, `restart.rs:108-115`. -/
def restartParams (seat : Seat) (name : String) (metadata : SessionMetadata) : RestartParams :=
  let params := newParams seat name (metadata.field .command) (metadata.field .args)
  let params := { params with displayCommand := metadata.field .displayCommand }
  let params := { params with cwd := metadata.field .cwd }
  let params := { params with tags := (stripGcBookkeeping metadata.tags).getD [] }
  let params := { params with displayName := metadata.displayName }
  { params with
    toSpawnParams := applyPersistedLaunchOptions params.toSpawnParams metadata
    scrubEnv := restartScrubbedEnv }

/-- What `handle_dead_session` launches, `attach.rs:233-239`. -/
def attachParams (seat : Seat) (name : String) (metadata : SessionMetadata) : RestartParams :=
  let params := newParams seat name (metadata.field .command) (metadata.field .args)
  let params := { params with displayCommand := metadata.field .displayCommand }
  let params := { params with cwd := metadata.field .cwd }
  let params := { params with tags := metadata.tags.getD [] }
  let params := { params with displayName := metadata.displayName }
  { params with
    toSpawnParams := applyPersistedLaunchOptions params.toSpawnParams metadata
    scrubEnv := restartScrubbedEnv }

/-- What `Picker::restart` launches, `interactive/mod.rs:405-414`. -/
def pickerParams (seat : Seat) (name : String) (metadata : SessionMetadata) : RestartParams :=
  let params := newParams seat name (metadata.field .command) (metadata.field .args)
  let params := { params with displayCommand := metadata.field .displayCommand }
  let params := { params with cwd := metadata.field .cwd }
  let params := { params with tags := (stripGcBookkeeping metadata.tags).getD [] }
  let params := { params with displayName := metadata.displayName }
  { params with
    toSpawnParams := applyPersistedLaunchOptions params.toSpawnParams metadata
    scrubEnv := restartScrubbedEnv }

/-! ### The old daemon -/

/-- What a daemon records of its end, `lifecycle.rs:1596`. -/
structure ExitEvidence where
  exitCode : Int32
  exitedAt : String
  lastLines : List String
  lastOutputAtMs : Option Int64

/-- The record with that, `lifecycle.rs:1608-1628`. -/
def ExitEvidence.recorded (e : ExitEvidence) (m : SessionMetadata) : SessionMetadata :=
  let m := m.set .exitCode (some e.exitCode)
  let m := m.set .exitedAt ((m.field .exitedAt).or (some e.exitedAt))
  let m := m.set .lastLines (some e.lastLines)
  m.set .lastOutputAtMs (e.lastOutputAtMs.or (m.field .lastOutputAtMs))

/-- What the daemon that is recorded still does: it records its end, if it gets to, and it removes
its record, if `reap_at_exit` says so. -/
structure OldDaemon where
  evidence : Option ExitEvidence
  reaps : Bool

/-- A record after a change of what it says. -/
def amend (record : Option JsonMap) (change : SessionMetadata → SessionMetadata) :
    Option JsonMap :=
  record.bind fun raw ↦
    match SessionMetadata.fromMap raw with
    | some m => some (applyMetadataDiff m (change m) raw)
    | none => some raw

/-- The record that is left when the daemon is gone. -/
def OldDaemon.leaves (d : OldDaemon) (record : Option JsonMap) : Option JsonMap :=
  if d.reaps then none
  else
    match d.evidence with
    | some e => amend record e.recorded
    | none => record

/-! ### Steps -/

/-- `ask::Consent`. -/
inductive Consent where
  | yes
  | no
  | noAnswer
deriving DecidableEq, Repr

/-- How a restart comes out. -/
inductive RestartOutcome where
  | restarted
  | declined
  | refused (message : String)
deriving DecidableEq, Repr

/-- `pty_client::stop`, `stop.rs:161`: whether it has dropped the `strategy` tag of a permanent
session in the file, its answer, which says whether the process tree is gone, and what the daemon
does. -/
structure Stop where
  untags : Bool
  result : Except String Bool
  daemon : OldDaemon

/-- The record without the `strategy` tag, `stop.rs:209`. -/
def untagged (m : SessionMetadata) : SessionMetadata :=
  let tags := (m.tags.getD []).remove "strategy"
  m.set .tags (if tags.isEmpty then none else some tags)

/-- The record that a stop leaves. -/
def Stop.leaves (s : Stop) (metadata : SessionMetadata) (record : Option JsonMap) :
    Option JsonMap :=
  s.daemon.leaves (if isPermanent metadata && s.untags then amend record untagged else record)

/-- What a restart leaves on disk: the record that was there, as it is now, or the record of the
daemon that it launched. -/
inductive Left where
  | recorded (record : Option JsonMap)
  | newer (record : JsonMap)

/-- What a restart finds around it: the answers of its steps. -/
structure RestartWorld where
  identityKnown : Bool
  running : Bool
  stateful : Option String
  checkPublication : Except String Unit
  consent : Consent
  checkAnswered : Except String Unit
  prepareDaemon : Except String Unit
  stop : Stop
  ownerLoss : Except String Unit
  finishing : OldDaemon
  eventLock : Except String Unit
  creationLock : Except String Unit
  checkLocked : Except String Unit
  delegate : Except String Unit
  unlinked : Bool
  launch : Launch

/-- The answer to a prompt. -/
def Consent.answer (c : Consent) (message : String) : Except RestartOutcome Unit :=
  match c with
  | .yes => .ok ()
  | .no => .error .declined
  | .noAnswer => .error (.refused message)

/-- A step whose error is the restart's. -/
def step (result : Except String Unit) : Except RestartOutcome Unit := result.mapError .refused

/-- How a path words what it refuses: another's error, and a record that is not the one seen. -/
structure Wording where
  error : String → String
  unreadable : String
  changed : String

/-- In `restart.rs`. -/
def restartWording (name : String) : Wording where
  error := fun e ↦ s!"pty restart: {e}"
  unreadable := s!"Session \"{name}\" metadata became unreadable."
  changed := s!"Session \"{name}\" changed before restart."

/-- In `attach.rs`. -/
def attachWording (name : String) : Wording where
  error := fun e ↦ s!"pty attach: {e}"
  unreadable := s!"Session \"{name}\" metadata became unreadable."
  changed := s!"Session \"{name}\" changed before restart."

/-- In `interactive/mod.rs`; the error of the wait is told as it is. -/
def pickerWording (name : String) : Wording where
  error := fun e ↦ s!"{name}: {e}"
  unreadable := s!"{name}: metadata became unreadable"
  changed := s!"{name}: session changed before restart"

/-- Up to the stop, `restart.rs:87-146`. -/
def beforeRestart (w : RestartWorld) (name : String) (yes : Bool) : Except RestartOutcome Unit := do
  if !w.identityKnown then
    throw (.refused s!"pty restart: Session \"{name}\" daemon identity is unknown.")
  if let some reason := w.stateful then
    throw (.refused s!"Session \"{name}\" looks like a stateful agent ({reason}).")
  step w.checkPublication
  if w.running && !yes then
    w.consent.answer (s!"pty restart: Session \"{name}\" was not restarted: " ++
      "the restart prompt got no answer.")
    step w.checkAnswered
  step w.prepareDaemon

/-- The answer of the stop, `restart.rs:148-163`. -/
def stopped (w : RestartWorld) (name : String) : Except RestartOutcome Unit := do
  match w.stop.result with
  | .error error => throw (.refused s!"pty restart: {error}")
  | .ok true => return
  | .ok false =>
    throw (.refused (s!"pty restart: Session \"{name}\" daemon stopped, but process tree could " ++
      "not be verified empty; not restarted."))

/-- Up to the prompt's answer, `attach.rs:200-262`. -/
def beforeAttach (w : RestartWorld) (name : String) (autoRestart : Bool) :
    Except RestartOutcome Unit := do
  step w.checkPublication
  if !autoRestart then
    w.consent.answer (s!"pty attach: Session \"{name}\" was not restarted: " ++
      "the restart prompt got no answer.")

/-- The locks, and the record under them. -/
def locked (w : RestartWorld) (wording : Wording) (metadata : SessionMetadata)
    (record : Option JsonMap) : Except RestartOutcome Unit := do
  step w.eventLock
  step w.creationLock
  let some current := readMetadata record | throw (.refused wording.unreadable)
  if metadataMatchesObservation metadata current = false then throw (.refused wording.changed)

/-- From the cleanup of the old files on: the answer with the record that is left. -/
def cleanupAndLaunch (w : RestartWorld) (wording : Wording) (params : RestartParams)
    (record : Option JsonMap) : RestartOutcome × Left :=
  let left :=
    match w.launch.birth with
    | some b => .newer (publicationMap (published params.toSpawnParams b))
    | none => .recorded (if w.unlinked then none else record)
  match w.launch.result with
  | .ok _ => (.restarted, left)
  | .error error => (.refused (wording.error error), left)

/-- From the wait for the old daemon on; `waited` is the answer of the wait and `prepared` that of
the steps between the locks and the cleanup. -/
def relaunch (w : RestartWorld) (wording : Wording) (waited prepared : Except RestartOutcome Unit)
    (metadata : SessionMetadata) (params : RestartParams) (record : Option JsonMap) :
    RestartOutcome × Left :=
  let record := w.finishing.leaves record
  match waited >>= fun _ ↦ locked w wording metadata record >>= fun _ ↦ prepared with
  | .error outcome => (outcome, .recorded record)
  | .ok _ => cleanupAndLaunch w wording params record

/-- `pty restart`, `restart.rs:83-180`, of a session with the record `metadata`. -/
def restart (w : RestartWorld) (seat : Seat) (name : String) (yes : Bool)
    (metadata : SessionMetadata) (record : Option JsonMap) : RestartOutcome × Left :=
  let params := restartParams seat name metadata
  let wording := restartWording name
  let waited := step (w.ownerLoss.mapError wording.error)
  let prepared := step w.checkLocked >>= fun _ ↦ step w.delegate
  match beforeRestart w name yes with
  | .error outcome => (outcome, .recorded record)
  | .ok _ =>
    if w.running then
      let record := w.stop.leaves metadata record
      match stopped w name with
      | .error outcome => (outcome, .recorded record)
      | .ok _ => relaunch w wording waited prepared metadata params record
    else relaunch w wording waited prepared metadata params record

/-- The steps between the locks and the cleanup that the other two take. -/
def preparedUnderLocks (w : RestartWorld) : Except RestartOutcome Unit := do
  step w.checkLocked
  step w.prepareDaemon
  step w.delegate

/-- `handle_dead_session`, `attach.rs:199-289`, of a session with the record `metadata`. -/
def handleDeadSession (w : RestartWorld) (seat : Seat) (name : String) (autoRestart : Bool)
    (metadata : SessionMetadata) (record : Option JsonMap) : RestartOutcome × Left :=
  let wording := attachWording name
  match beforeAttach w name autoRestart with
  | .error outcome => (outcome, .recorded record)
  | .ok _ =>
    relaunch w wording (step (w.ownerLoss.mapError wording.error)) (preparedUnderLocks w) metadata
      (attachParams seat name metadata) record

/-- `Picker::restart`, `interactive/mod.rs:388-423`, of a session with the record `metadata`. -/
def pickerRestart (w : RestartWorld) (seat : Seat) (name : String) (metadata : SessionMetadata)
    (record : Option JsonMap) : RestartOutcome × Left :=
  relaunch w (pickerWording name) (step w.ownerLoss) (preparedUnderLocks w) metadata
    (pickerParams seat name metadata) record

end PtySpec.Cli.Restart
