import PtySpec.Listing.Scanner

/-!
# The keyed reader

Model of `attempt` and `observe_with`, `crates/pty-core/src/registry/keyed.rs:910-1149`, as a
function of what its accesses answer: two captures of the session's files, two reads of the
process, the boot id, and the probe of a socket. Process identities are those of Linux.
-/

namespace PtySpec.Listing

open Lib
open Events (fromUtf8)
open Registry (Text Host join readableSocket boundedSocket byteLen)
open Metadata (SessionMetadata)

/-! ### What it returns -/

/-- `KeyedSessionErrorKind`, `keyed.rs:84`. -/
inductive KeyedSessionErrorKind where
  | invalidName
  | rootUnreadable
  | entryUnreadable
  | entryUnsafe
  | metadataMalformed
  | pidMalformed
  | processIdentity
  | socketProbe
  | changed
  deriving DecidableEq, Repr

/-- `KeyedSessionError`, `keyed.rs:98`. -/
structure KeyedSessionError where
  kind : KeyedSessionErrorKind
  path : Option Text
  detail : String
  deriving DecidableEq, Repr

/-- `retryable`, `keyed.rs:126`. -/
def KeyedSessionError.retryable (e : KeyedSessionError) : Bool :=
  match e.kind with
  | .invalidName | .rootUnreadable | .entryUnsafe => false
  | _ => true

/-- `KeyedSession`, `keyed.rs:76`. -/
inductive KeyedSession where
  | found (session : SessionInfo)
  | missing
  | indeterminate (error : KeyedSessionError)

/-! ### What it reads -/

/-- `Stamp`, `keyed.rs:157`. -/
structure Stamp where
  device : Nat
  inode : Nat
  mode : Nat
  uid : Nat
  size : Int
  deriving DecidableEq, Repr

/-- `Companion`, `keyed.rs:178`: a file's stamp and bytes. -/
structure CompanionFile where
  stamp : Stamp
  bytes : List UInt8
  deriving DecidableEq, Repr

/-- `ProcessEvidence`, `keyed.rs:184`. -/
structure ProcessEvidence where
  liveIdentity : String
  leader : Bool
  deriving DecidableEq, Repr

/-- `Capture`, `keyed.rs:792`. -/
structure Capture where
  metadata : Option CompanionFile
  pid : Option CompanionFile
  readableSocket : Option Stamp
  boundedSocket : Option Stamp
  deriving DecidableEq, Repr

/-- What an access answers. -/
abbrev Keyed (α : Type) := Except KeyedSessionError α

/-- What the four reads of a capture answer. -/
structure Look where
  metadata : Keyed (Option CompanionFile)
  pid : Keyed (Option CompanionFile)
  readableSocket : Keyed (Option Stamp)
  boundedSocket : Keyed (Option Stamp)

/-- What the accesses of an attempt answer. The address of a socket is asked twice, for the
choice of its name and for the name that was chosen. -/
structure Accesses where
  first : Look
  candidate : Text → Keyed Text
  address : Text → Keyed Text
  processFirst : Int32 → Keyed (Option ProcessEvidence)
  bootId : Option String
  probe : Text → Stamp → Keyed Bool
  second : Look
  processSecond : Int32 → Keyed (Option ProcessEvidence)

/-- An error where something does not hold. -/
def ensure (p : Prop) [Decidable p] (e : KeyedSessionError) : Keyed Unit :=
  if p then .ok () else .error e

/-- `capture`, `keyed.rs:807`. -/
def capture (look : Look) : Keyed Capture := do
  let metadata ← look.metadata
  let pid ← look.pid
  let readableSocket ← look.readableSocket
  let boundedSocket ← look.boundedSocket
  return { metadata, pid, readableSocket, boundedSocket }

namespace Capture

/-- Whether neither socket is there. -/
def noSocket (c : Capture) : Bool := c.readableSocket.isNone && c.boundedSocket.isNone

/-- Whether nothing is there, `keyed.rs:944`. -/
def isEmpty (c : Capture) : Bool := c.metadata.isNone && c.pid.isNone && c.noSocket

end Capture

/-! ### Parsing -/

/-- `daemon_start_token`, `metadata.rs:150`. -/
def daemonStartToken (m : SessionMetadata) : Option String :=
  (m.field .daemonStartToken).or
    ((m.field .recovery).bind fun v ↦ (v.get "processStartToken").bind Metadata.Json.asStr)

/-- `selected_socket`, `keyed.rs:823`. -/
def selectedSocket (host : Host) (name : Text) (a : Accesses) (c : Capture) : Keyed Text :=
  if c.boundedSocket.isSome then .ok (boundedSocket host name)
  else if c.readableSocket.isSome then .ok (readableSocket name)
  else do
    let path ← a.candidate (readableSocket name)
    return if byteLen path ≤ host.sunPathMax then readableSocket name
      else boundedSocket host name

/-- How bytes are read: a record, and why text is not UTF-8 or not an `i32`. -/
structure Readers where
  metadata : List UInt8 → Except String SessionMetadata
  utf8Error : List UInt8 → String
  intError : Text → String

/-- `parse_metadata`, `keyed.rs:844`. -/
def parseMetadata (readers : Readers) (path : Text) :
    Option CompanionFile → Keyed (Option SessionMetadata)
  | none => .ok none
  | some companion =>
    match readers.metadata companion.bytes with
    | .ok m => .ok (some m)
    | .error e => .error ⟨.metadataMalformed, some path, e⟩

/-- `parse_pid`, `keyed.rs:873`. -/
def parsePid (readers : Readers) (path : Text) : Option CompanionFile → Keyed (Option Int32)
  | none => .ok none
  | some companion =>
    match fromUtf8 companion.bytes with
    | none => .error ⟨.pidMalformed, some path, readers.utf8Error companion.bytes⟩
    | some text =>
      let content := trim text
      if content = [] ∨ !content.all isAsciiDigit then
        .error ⟨.pidMalformed, some path, "expected a positive decimal PID"⟩
      else match toI32 (decimal content) with
        | none => .error ⟨.pidMalformed, some path, readers.intError content⟩
        | some pid =>
          if pid ≤ 0 then .error ⟨.pidMalformed, some path, "expected a positive decimal PID"⟩
          else .ok (some pid)

/-! ### One attempt -/

/-- `check_boot_identity`, `list.rs:621`. -/
def checkBootIdentity (m : SessionMetadata) (live : Option String) : DaemonIdentityCheck :=
  match (m.field .daemonBootId).filter (· ≠ "") with
  | none => .unknown
  | some recorded =>
    -- a wall-clock time proves nothing
    if dated recorded then .unknown
    else match live with
      | some live =>
        if dated live then .unknown else if live = recorded then .matched else .mismatch
      | none => .unknown
where
  /-- `starts_with("darwin:\\x7b")`. -/
  dated (id : String) : Bool := "darwin:\x7b".toList.isPrefixOf id.toList

/-- The PID that the files name, which they may not disagree about, `keyed.rs:968-979`. -/
def namedPid (pidPath : Text) (metadata : Option SessionMetadata) (sidecar : Option Int32) :
    Keyed (Option Int32) :=
  let recorded := metadata.bind (·.field .daemonPid)
  match sidecar, recorded with
  | some sidecar, some recorded =>
    if sidecar ≠ recorded then
      .error ⟨.processIdentity, some pidPath,
        s!"PID sidecar {sidecar} disagrees with metadata daemon PID {recorded}"⟩
    else .ok (some sidecar)
  | _, _ => .ok (sidecar.or recorded)

/-- The verdict on the daemon, `keyed.rs:995-1029`. -/
def keyedIdentity (metadataPath : Text) (c : Capture) (metadata : Option SessionMetadata)
    (pid : Option Int32) (process : Option ProcessEvidence) (bootId : Option String) :
    Keyed DaemonIdentityCheck :=
  match pid, process with
  | some pid, some process =>
    if !process.leader then .ok .mismatch
    else match metadata.bind fun m ↦ (daemonStartToken m).map (m, ·) with
      | none => .error ⟨.processIdentity, some metadataPath,
          s!"live process {pid} has no registry start identity"⟩
      | some (m, expected) =>
        if process.liveIdentity ≠ expected then
          .error ⟨.processIdentity, some metadataPath,
            s!"process {pid} birth identity does not match the registry"⟩
        else .ok (checkBootIdentity m bootId)
  | some _, none => .ok .gone
  | none, _ => .ok (if metadata.isSome && c.noSocket then .gone else .unknown)

/-- The status of the session, `keyed.rs:1031-1066`; only a socket without a PID is probed. -/
def keyedStatus (host : Host) (name : Text) (a : Accesses) (c : Capture) (socketName : Text)
    (socketPath : Text) (metadata : Option SessionMetadata) (pid : Option Int32)
    (identity : DaemonIdentityCheck) : Keyed SessionStatus :=
  if metadata.any ended then .ok .exited
  else match identity with
    | .matched => .ok .running
    | .mismatch | .gone => .ok .vanished
    | .unknown =>
      if pid.isSome then .ok .running
      else
        match if socketName = boundedSocket host name then c.boundedSocket
          else c.readableSocket with
        | none => .error ⟨.socketProbe, some socketPath,
            "a record naming no PID that is not gone has a socket"⟩
        | some expected => do
          if ← a.probe socketName expected then return .running
          else throw ⟨.changed, some socketPath, "session socket vanished during observation"⟩

/-- The process that the files name, `keyed.rs:981`. -/
def readNamed (read : Int32 → Keyed (Option ProcessEvidence)) :
    Option Int32 → Keyed (Option ProcessEvidence)
  | some pid => read pid
  | none => .ok none

/-- The second capture and the second read of the process, `keyed.rs:1074-1097`. -/
def confirm (root : Text) (a : Accesses) (c : Capture) (pid : Option Int32)
    (process : Option ProcessEvidence) : Keyed Unit := do
  let second ← capture a.second
  ensure (c = second) ⟨.changed, some root, "session artifacts changed during observation"⟩
  let again ← readNamed a.processSecond pid
  ensure (process = again) ⟨.changed, none,
    s!"process {pid.getD 0} changed during observation"⟩

/-- What the evidence of a capture says, `keyed.rs:964-1073`: the session, the PID and the
process that it was read from. -/
def conclude (host : Host) (readers : Readers) (root name : Text) (a : Accesses)
    (socketName socketPath : Text) (c : Capture) :
    Keyed (SessionInfo × Option Int32 × Option ProcessEvidence) := do
  let metadataPath := join root (name ++ ".json".toList)
  let pidPath := join root (name ++ ".pid".toList)
  let metadata ← parseMetadata readers metadataPath c.metadata
  let sidecar ← parsePid readers pidPath c.pid
  let pid ← namedPid pidPath metadata sidecar
  let process ← readNamed a.processFirst pid
  ensure (¬(metadata.isNone ∧ c.noSocket))
    ⟨.processIdentity, some root, "present session artifacts do not identify a session"⟩
  let identity ← keyedIdentity metadataPath c metadata pid process a.bootId
  let status ← keyedStatus host name a c socketName socketPath metadata pid identity
  return (⟨name, socketPath, if identity.retained then pid else none, status, identity,
    metadata⟩, pid, process)

/-- `attempt`, `keyed.rs:910`. -/
def attempt (host : Host) (readers : Readers) (root name : Text) (a : Accesses) :
    Keyed (Option SessionInfo) := do
  let first ← capture a.first
  let socketName ← selectedSocket host name a first
  let socketPath ← a.address socketName
  ensure (byteLen socketPath ≤ host.sunPathMax) ⟨.invalidName, some socketPath,
    s!"session socket address exceeds the {host.sunPathMax}-byte kernel limit"⟩
  if first.isEmpty then
    let second ← capture a.second
    ensure (first = second)
      ⟨.changed, some root, "session artifacts appeared during observation"⟩
    return none
  else
    let (session, pid, process) ←
      conclude host readers root name a socketName socketPath first
    confirm root a first pid process
    return some session

/-- The attempts of `observe_with`, `keyed.rs:1138`; a retryable error of the last one is the
answer. -/
def observeAttempts (host : Host) (readers : Readers) (root name : Text) :
    Accesses → List Accesses → KeyedSession
  | a, rest =>
    match attempt host readers root name a, rest with
    | .ok (some session), _ => .found session
    | .ok none, _ => .missing
    | .error e, [] => .indeterminate e
    | .error e, b :: rest =>
      if e.retryable then observeAttempts host readers root name b rest else .indeterminate e

/-- `observe_session_in`, `keyed.rs:1114`: `opened` is what opening the root answers, `none`
where there is none. -/
def observeSessionIn (host : Host) (readers : Readers) (root name : Text)
    (opened : Keyed (Option Unit)) (a : Accesses) (rest : List Accesses) : KeyedSession :=
  match Registry.validateNameLexical name with
  | .error e => .indeterminate ⟨.invalidName, none, e⟩
  | .ok () =>
    match opened with
    | .ok none => .missing
    | .error e => .indeterminate e
    | .ok (some ()) => observeAttempts host readers root name a rest

end PtySpec.Listing
