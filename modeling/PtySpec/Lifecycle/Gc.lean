import PtySpec.Events.Log
import PtySpec.Metadata.Patch
import PtySpec.Registry.Time

/-!
# Reconciling a permanent session

Model of `classify_flapping`, `respawn_params` and `reconcile_permanent`,
`crates/pty-lifecycle/src/gc.rs:493-835`, with what they write: the record a daemon publishes
and the one `write_metadata` puts back. The record on disk is the JSON object its file
parses to. The clock, the process table, the manifest files and the launch of a daemon are
the surroundings.
-/

namespace PtySpec.Lifecycle

open Lib Metadata
open Events (isWhitespace)
open Registry (asBytes iso8601FromEpochMs parseIso8601Ms)

/-- `TagMap`. -/
abbrev TagMap := IndexMap String String

/-! ### Flapping -/

/-- The largest `i64`. -/
def i64Max : Int := 2 ^ 63 - 1

/-- `js_parse_int`, `gc.rs:515`: a sign and digits after blanks, in an `i64`. -/
def jsParseInt (s : String) : Option Int :=
  let (neg, rest) :=
    match s.toList.dropWhile isWhitespace with
    | '-' :: rest => (true, rest)
    | '+' :: rest => (false, rest)
    | rest => (false, rest)
  let digits := rest.takeWhile Char.isDigit
  if digits = [] then none
  else
    let value : Int := Nat.ofDigitChars 10 digits 0
    if value ≤ i64Max then some (if neg then -value else value) else none

/-- `i64::to_string`. -/
def decimal (n : Int) : String :=
  String.ofList (if n < 0 then '-' :: Nat.toDigits 10 n.natAbs else Nat.toDigits 10 n.natAbs)

/-- What is hashed of a command: it, a NUL, and the arguments with a NUL between them. -/
def fingerprintInput (command : String) (args : List String) : List UInt8 :=
  asBytes command ++ 0 :: [0].intercalate (args.map asBytes)

/-- `command_fingerprint`, `gc.rs:499`: the first digits of the SHA-256. -/
def commandFingerprint (sha256 : List UInt8 → List Char) (command : String)
    (args : List String) : String :=
  String.ofList ((sha256 (fingerprintInput command args)).take 16)

/-- `FlappingAction`, `gc.rs:483`. -/
inductive FlappingAction where
  | respawn
  | flap
  | skip
  deriving DecidableEq, Repr

/-- `FlappingDecision`, `gc.rs:490`. -/
structure FlappingDecision where
  action : FlappingAction
  effectiveWindow : Int
  effectiveLimit : Int
  counter : Int
  bookkeeping : TagMap

/-- A tag that holds a positive number. -/
def positiveTag (metadata : SessionMetadata) (key : String) : Option Int :=
  ((metadata.tag key).bind jsParseInt).filter (0 < ·)

/-- `effective_window`, in seconds. -/
def effectiveWindow (metadata : SessionMetadata) (globalWindow : Option Int) : Int :=
  ((positiveTag metadata "strategy.fast-fail-window").or (globalWindow.filter (0 < ·))).getD 60

/-- `effective_limit`. -/
def effectiveLimit (metadata : SessionMetadata) (globalLimit : Option Int) : Int :=
  ((positiveTag metadata "strategy.fast-fail-limit").or (globalLimit.filter (0 < ·))).getD 3

/-- `command_changed`. -/
def commandChanged (metadata : SessionMetadata) (currentHash : String) : Bool :=
  (metadata.tag "strategy.command-hash").any (· != currentHash)

/-- `previous_counter`. -/
def previousCounter (metadata : SessionMetadata) : Int :=
  ((metadata.tag "strategy.consecutive-fast-fails").bind jsParseInt).getD 0

/-- `was_fast`: the recorded exit came within the window after the recorded respawn. -/
def wasFast (metadata : SessionMetadata) (window : Int) : Bool :=
  match (metadata.tag "strategy.last-respawn-at").bind parseIso8601Ms,
    (metadata.field .exitedAt).bind parseIso8601Ms with
  | some start, some ended =>
    -- `saturating_mul`
    0 ≤ ended - start && ended - start < min (window * 1000) i64Max
  | _, _ => false

/-- `counter`. -/
def nextCounter (metadata : SessionMetadata) (currentHash : String) (window : Int) : Int :=
  if commandChanged metadata currentHash then 0
  -- `saturating_add`
  else if wasFast metadata window then min (previousCounter metadata + 1) i64Max
  else 0

/-- What is written when the flap is reported. -/
def flapBookkeeping (metadata : SessionMetadata) (currentHash : String) (counter : Int) :
    TagMap :=
  let bookkeeping : TagMap :=
    [("strategy.status", "flapping"), ("strategy.consecutive-fast-fails", decimal counter),
      ("strategy.command-hash", currentHash)]
  match metadata.tag "strategy.last-respawn-at" with
  | some last => bookkeeping.insert "strategy.last-respawn-at" last
  | none => bookkeeping

/-- What is written when the session is respawned. -/
def respawnBookkeeping (nowMs : Int) (currentHash : String) (counter : Int) : TagMap :=
  [("strategy.last-respawn-at", iso8601FromEpochMs nowMs),
    ("strategy.consecutive-fast-fails", decimal counter), ("strategy.command-hash", currentHash)]

/-- `classify_flapping`, `gc.rs:531`. -/
def classifyFlapping (sha256 : List UInt8 → List Char) (metadata : SessionMetadata)
    (command : String) (args : List String) (nowMs : Int)
    (globalWindow globalLimit : Option Int) : FlappingDecision :=
  let window := effectiveWindow metadata globalWindow
  let limit := effectiveLimit metadata globalLimit
  let currentHash := commandFingerprint sha256 command args
  if metadata.tag "strategy.status" = some "flapping" ∧
      commandChanged metadata currentHash = false then
    ⟨.skip, window, limit, previousCounter metadata, []⟩
  else
    let counter := nextCounter metadata currentHash window
    if limit ≤ counter then
      ⟨.flap, window, limit, counter, flapBookkeeping metadata currentHash counter⟩
    else ⟨.respawn, window, limit, counter, respawnBookkeeping nowMs currentHash counter⟩

/-! ### Launch parameters -/

/-- `PtySessionDef`, `ptyfile.rs:23`, of a session in a manifest. -/
structure PtySessionDef where
  shortName : String
  command : String
  cwd : Option String
  tags : Option TagMap
  env : Option TagMap
  nodup : ∀ manifest ∈ tags, manifest.keys.Nodup

/-- `PtyFile`, `ptyfile.rs:40`. -/
structure PtyFile where
  dir : String
  sessions : List PtySessionDef

/-- `v.replace('\'', "'\\''")`. -/
def quoteEnv (v : String) : String :=
  String.ofList (v.toList.flatMap fun c ↦ if c = '\x27' then "'\\''".toList else [c])

/-- `command_with_env_exports`, `ptyfile.rs:242`. -/
def commandWithEnvExports (session : PtySessionDef) : String :=
  match session.env with
  | none | some [] => session.command
  | some env =>
    "; ".intercalate (env.map fun e ↦ "export " ++ e.1 ++ "='" ++ quoteEnv e.2 ++ "'") ++ "; " ++
      session.command

/-- `SpawnParams`, `launch.rs:38`, as far as a respawn fills it. -/
structure SpawnParams where
  name : String
  command : String
  args : List String
  displayCommand : String
  cwd : String
  rows : UInt16
  cols : UInt16
  ephemeral : Bool
  tags : TagMap
  publicationBinding : Option PublicationBinding
  publicationRootId : Option String
  displayName : Option String
  isolateEnv : Bool
  extraEnv : TagMap
  sessionEnv : Option TagMap
  unsetEnv : List String
  env : Option TagMap
  respawn : Bool

/-- `apply_persisted_launch_options`, `launch.rs:95`. -/
def applyPersistedLaunchOptions (params : SpawnParams) (metadata : SessionMetadata) : SpawnParams :=
  { params with
    publicationBinding := metadata.field .publicationBinding
    publicationRootId := metadata.field .publicationRootId
    rows := (metadata.field .rows).getD params.rows
    cols := (metadata.field .cols).getD params.cols
    ephemeral := (metadata.field .ephemeral).getD params.ephemeral
    isolateEnv := (metadata.field .isolateEnv == some true) || params.isolateEnv
    extraEnv := ((metadata.field .extraEnv).filter (· ≠ [])).getD params.extraEnv
    sessionEnv := metadata.field .sessionEnv
    unsetEnv := ((metadata.field .unsetEnv).filter (· ≠ [])).getD params.unsetEnv
    env := (metadata.field .env).or params.env }

/-- The keys that the manifest gave before, from the `ptyfile.tags` tag. -/
def previousKeys (tags : TagMap) : List String :=
  ((((tags.get "ptyfile.tags").getD "").toList.splitOn ',').map fun key ↦
    (key.dropWhile isWhitespace).rdropWhile isWhitespace).filterMap fun key ↦
      if key = [] then none else some (String.ofList key)

/-- The tags under a manifest's: its keys replace those it gave before, `gc.rs:801-824`. -/
def overlayTags (tags : TagMap) (path shortName : String) (manifest : Option TagMap) : TagMap :=
  let userKeys := ((manifest.getD []).map (·.1)).insertionSort (· ≤ ·)
  let tags := tags.removeAll ((previousKeys tags).filter (· ∉ userKeys))
  let tags := tags.insertAll (manifest.getD [])
  ((tags.insert "ptyfile" path).insert "ptyfile.session" shortName).insert "ptyfile.tags"
    (",".intercalate userKeys)

/-- The manifest entry that a record is bound to, if it still resolves, `gc.rs:775-778`. -/
def manifestEntry (readPtyFile : String → Option PtyFile) (tags : TagMap) :
    Option (String × PtyFile × PtySessionDef) := do
  let path ← tags.get "ptyfile"
  let shortName ← tags.get "ptyfile.session"
  let file ← readPtyFile path
  let session ← file.sessions.find? (·.shortName = shortName)
  some (path, file, session)

/-- What an ordinary record is launched with. -/
def recordedParams (name : String) (terminal : UInt16 × UInt16) (metadata : SessionMetadata) :
    SpawnParams where
  name := name
  command := metadata.field .command
  args := metadata.field .args
  displayCommand := metadata.field .displayCommand
  cwd := metadata.field .cwd
  rows := terminal.1
  cols := terminal.2
  ephemeral := false
  tags := metadata.tags.getD []
  publicationBinding := none
  publicationRootId := none
  displayName := metadata.field .displayName
  isolateEnv := false
  extraEnv := []
  sessionEnv := none
  unsetEnv := []
  env := none
  respawn := false

/-- The overlay of a manifest entry, `gc.rs:779-824`. -/
def overlayParams (params : SpawnParams) (path : String) (file : PtyFile)
    (session : PtySessionDef) : SpawnParams :=
  { params with
    command := "/bin/sh"
    args := ["-c", commandWithEnvExports session]
    displayCommand := session.command
    cwd := session.cwd.getD file.dir
    tags := overlayTags params.tags path session.shortName session.tags }

/-- What every respawn adds to its parameters, `gc.rs:826-834`. -/
def finishParams (metadata : SessionMetadata) (params : SpawnParams) : SpawnParams :=
  { applyPersistedLaunchOptions
      { params with tags := params.tags.remove "strategy.status" } metadata with respawn := true }

/-- `respawn_params`, `gc.rs:766`; `readPtyFile` reads the manifest beside a path. -/
def respawnParams (readPtyFile : String → Option PtyFile) (terminal : UInt16 × UInt16)
    (name : String) (metadata : SessionMetadata) : Except String (SpawnParams × Bool) :=
  let recorded := recordedParams name terminal metadata
  let ptyfileReread := (recorded.tags.get "ptyfile").isSome
  match manifestEntry readPtyFile recorded.tags with
  | none => .ok (finishParams metadata recorded, ptyfileReread)
  | some (path, file, session) =>
    let params := overlayParams recorded path file session
    if metadata.bound ∧ (params.command ≠ recorded.command ∨ params.args ≠ recorded.args ∨
        params.cwd ≠ recorded.cwd) then
      .error ("managed pty.toml launch inputs changed; a new operation and publication " ++
        "binding are required")
    else .ok (finishParams metadata params, ptyfileReread)

/-! ### Records on disk -/

/-- The keys of a published record in their order, without `extra`. -/
def publicationOrder : List Field :=
  [.generation, .daemonPid, .daemonStartToken, .daemonBootId, .recovery, .command, .args,
    .displayCommand, .cwd, .rows, .cols, .ephemeral, .createdAt, .publicationBinding,
    .publicationRootId, .publicationCapability, .tags, .displayName, .isolateEnv, .extraEnv,
    .sessionEnv, .unsetEnv, .env, .exitCode, .exitedAt, .lastLines, .lastAttachAt,
    .lastOutputAtMs, .clientGeneration]

/-- Whether a field that is set is also published. -/
def publishes (m : SessionMetadata) : Field → Bool
  | .tags => m.field .tags != some []
  | .displayName => m.field .displayName != some ""
  | .isolateEnv => m.field .isolateEnv == some true
  | .extraEnv => m.field .extraEnv != some []
  | .sessionEnv => m.field .sessionEnv != some []
  | .unsetEnv => m.field .unsetEnv != some []
  | _ => true

/-- What a field is published as. -/
def publicationValue (m : SessionMetadata) (f : Field) : Option Json :=
  if f = .ephemeral then some (.bool (m.field .ephemeral == some true))
  else if publishes m f then m.written f
  else none

/-- `SessionMetadata::publication_map`, `metadata.rs:180`. -/
def publicationMap (m : SessionMetadata) : JsonMap :=
  IndexMap.insertAll
    (publicationOrder.filterMap fun f ↦ (publicationValue m f).map fun v ↦ (f.key, v)) m.extra

/-- `read_metadata`, `metadata.rs:310`. -/
def readMetadata (record : Option JsonMap) : Option SessionMetadata :=
  record.bind SessionMetadata.fromMap

/-- `is_permanent`, `gc.rs:385`. -/
def isPermanent (m : SessionMetadata) : Bool := m.tag "strategy" == some "permanent"

/-- What a daemon adds to its configuration when it publishes, and what it may have recorded
of its exit since. -/
structure Birth where
  generation : String
  daemonPid : Int32
  daemonStartToken : String
  daemonBootId : String
  createdAt : String
  sessionEnv : Option TagMap
  exitCode : Option Int32
  exitedAt : Option String
  lastLines : Option (List String)

/-- The record of a new daemon, `config_for`, `launch.rs:195`, and `publish_session`,
`lifecycle.rs:466`. -/
def published (params : SpawnParams) (b : Birth) : SessionMetadata where
  field
    | .generation => some b.generation
    | .daemonPid => some b.daemonPid
    | .daemonStartToken => some b.daemonStartToken
    | .daemonBootId => some b.daemonBootId
    | .recovery => none
    | .command => params.command
    | .args => params.args
    | .displayCommand => params.displayCommand
    | .cwd => params.cwd
    | .rows => some params.rows
    | .cols => some params.cols
    | .ephemeral => some params.ephemeral
    | .createdAt => b.createdAt
    | .displayName => params.displayName.filter (· ≠ "")
    | .tags => if params.tags = [] then none else some params.tags
    | .publicationBinding => params.publicationBinding
    | .publicationRootId => params.publicationRootId
    | .publicationCapability => params.publicationBinding.map fun _ ↦ 1
    | .isolateEnv => if params.isolateEnv then some true else none
    | .extraEnv => if params.extraEnv = [] then none else some params.extraEnv
    | .sessionEnv => b.sessionEnv
    | .unsetEnv => if params.unsetEnv = [] then none else some params.unsetEnv
    | .env => params.env
    | .exitCode => b.exitCode
    | .exitedAt => b.exitedAt
    | .lastLines => b.lastLines
    | .lastAttachAt => none
    | .lastOutputAtMs => none
    | .clientGeneration => none
  extra := []
  nodup := List.nodup_nil

/-! ### Reconciliation -/

/-- How the launch of a daemon comes out: what it has published when the launch returns, the
launch's answer, which waits for a publication, and what it still publishes after that. -/
structure Launch where
  birth : Option Birth
  result : Except String Unit
  late : Option Birth
  published : result = .ok () → birth.isSome

/-- What `reconcile_permanent` finds around it. -/
structure Surroundings where
  eventLock : Bool
  creationLock : Bool
  ownerLost : Bool
  readPtyFile : String → Option PtyFile
  terminal : UInt16 × UInt16
  checkPublication : SpawnParams → Except String Unit
  nowMs : Int
  writeFlap : Bool
  daemonExecutable : Bool
  prepareDaemon : SpawnParams → Except String Unit
  resolveCommand : String → Except String Unit
  delegate : Except String Unit
  unlinked : Bool
  launch : Launch
  writeRetry : Bool

/-- `PermanentOutcome`, `gc.rs:622`. -/
inductive PermanentOutcome where
  | respawned (ptyfileReread : Bool)
  | failed (error : String)
  | flapped (counter limit window : Int)
  | skippedFlapping
  | stale
  deriving DecidableEq, Repr

/-- The record with tags inserted, `gc.rs:702-707`. -/
def withBookkeeping (m : SessionMetadata) (bookkeeping : TagMap) : SessionMetadata :=
  m.set .tags (some ((m.tags.getD []).insertAll bookkeeping))

/-- The desired state that is put back, `gc.rs:739`. -/
def retryMeta (current : SessionMetadata) (tags : TagMap) : SessionMetadata :=
  current.set .tags (if tags = [] then none else some tags)

/-- From the cleanup of the old files on, `gc.rs:745-759`: the answer of the launch, and the
record that is left. -/
def cleanupAndSpawn (s : Surroundings) (current : SessionMetadata) (params : SpawnParams)
    (record : Option JsonMap) : Except String Unit × Option JsonMap :=
  let cleaned := if s.unlinked then none else record
  let launched :=
    match s.launch.birth with
    | some b => some (publicationMap (published params b))
    | none => cleaned
  let left :=
    match s.launch.result with
    | .error _ =>
      if (readMetadata launched).isNone ∧ s.writeRetry then
        some (publicationMap (retryMeta current params.tags))
      else launched
    | .ok _ => launched
  (s.launch.result,
    match s.launch.late with
    | some b => some (publicationMap (published params b))
    | none => left)

/-- `FlappingAction::Flap`, `gc.rs:692-720`. -/
def recordFlap (s : Surroundings) (current : SessionMetadata) (d : FlappingDecision)
    (record : Option JsonMap) : PermanentOutcome × Option JsonMap :=
  match record with
  | none => (.stale, record)
  | some raw =>
    match SessionMetadata.fromMap raw with
    | none => (.stale, record)
    | some before =>
      if metadataMatchesObservation current before = false ∨ s.writeFlap = false then
        (.stale, record)
      else
        (.flapped d.counter d.effectiveLimit d.effectiveWindow,
          some (applyMetadataDiff before (withBookkeeping before d.bookkeeping) raw))

/-- `FlappingAction::Respawn`, `gc.rs:721-765`, up to the cleanup: what can fail before it. -/
def prepareRespawn (s : Surroundings) (params : SpawnParams) (bookkeeping : TagMap) :
    Except String SpawnParams := do
  if s.daemonExecutable = false then
    throw "daemon executable is required to respawn permanent sessions"
  s.prepareDaemon params
  s.resolveCommand params.command
  s.delegate
  return { params with tags := params.tags.insertAll bookkeeping }

/-- `reconcile_permanent`, `gc.rs:640`: the outcome, and the record that is left. -/
def reconcilePermanent (sha256 : List UInt8 → List Char) (s : Surroundings) (name : String)
    (observed : Option SessionMetadata) (globalWindow globalLimit : Option Int)
    (record : Option JsonMap) : PermanentOutcome × Option JsonMap :=
  if s.eventLock = false ∨ s.creationLock = false then (.stale, record)
  else
    match readMetadata record with
    | none => (.stale, record)
    | some current =>
      if observed.all (fun old ↦ !metadataMatchesObservation old current) ||
          !isPermanent current || !s.ownerLost then
        (.stale, record)
      else
        match respawnParams s.readPtyFile s.terminal name current with
        | .error error => (.failed error, record)
        | .ok (params, ptyfileReread) =>
          match s.checkPublication params with
          | .error error => (.failed error, record)
          | .ok _ =>
            let d := classifyFlapping sha256 current params.command params.args s.nowMs
              globalWindow globalLimit
            match d.action with
            | .skip => (.skippedFlapping, record)
            | .flap => recordFlap s current d record
            | .respawn =>
              match prepareRespawn s params d.bookkeeping with
              | .error error => (.failed error, record)
              | .ok params =>
                let (result, left) := cleanupAndSpawn s current params record
                match result with
                | .ok _ => (.respawned ptyfileReread, left)
                | .error error => (.failed error, left)

end PtySpec.Lifecycle
