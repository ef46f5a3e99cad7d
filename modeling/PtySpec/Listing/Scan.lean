import PtySpec.Registry.Names
import PtySpec.Metadata.Record

/-!
# The scan of a registry

Model of `scan_sessions_with_probe`, `crates/pty-core/src/registry/list.rs:1133`: which
names the entries of the directory stand for, and what each of them is listed as. What the
reads answer is given; a scan asks each question about a name once.
-/

namespace PtySpec.Listing

open Lib
open Registry (Text Host join socketFile socketPathIn)
open Metadata (SessionMetadata)

/-! ### What a scan returns -/

/-- An error of a system call. -/
structure IoError where
  errno : Nat
  text : String
  deriving DecidableEq, Repr

/-- `ErrorKind::NotFound`: `ENOENT`. -/
def IoError.notFound (e : IoError) : Bool := e.errno = 2

/-- `DaemonIdentityCheck`, `list.rs:310`. -/
inductive DaemonIdentityCheck where
  | matched
  | mismatch
  | gone
  | unknown
  deriving DecidableEq, Repr

/-- `SessionStatus`, `list.rs:29`. -/
inductive SessionStatus where
  | running
  | exited
  | vanished
  deriving DecidableEq, Repr

/-- `SessionInfo`, `list.rs:67`. -/
structure SessionInfo where
  name : Text
  socketPath : Text
  pid : Option Int32
  status : SessionStatus
  identity : DaemonIdentityCheck
  metadata : Option SessionMetadata

/-- `InventoryErrorKind`, `list.rs:130`. -/
inductive InventoryErrorKind where
  | rootMissing
  | rootUnreadable
  | entryUnreadable
  | metadataUnreadable
  | metadataMalformed
  | pidUnreadable
  | pidMalformed
  | probeTimeout
  | identityUnknown
  deriving DecidableEq, Repr

/-- `InventoryError`, `list.rs:144`. -/
structure InventoryError where
  path : Text
  kind : InventoryErrorKind
  detail : String
  deriving DecidableEq, Repr

/-- `Inventory`, `list.rs:119`. -/
structure Inventory where
  root : Text
  complete : Bool
  entries : List SessionInfo
  errors : List InventoryError

/-! ### What a scan asks -/

/-- An item of `read_dir`. -/
inductive DirItem where
  | entry (file : Text)
  | notUtf8 (path : Text)
  | failed (error : IoError)
  deriving DecidableEq, Repr

/-- What the reads of a scan answer. `metadata` and `pid` are told whether the directory
listed the file; `recordIdentity` is `check_record_identity`, and `absent` tells whether
`symlink_metadata` finds nothing. -/
structure Answers where
  dir : Except IoError (List DirItem)
  metadata : Text → Bool → Option SessionMetadata × List InventoryError
  pid : Text → Bool → Option Int32 × List InventoryError
  recordIdentity : Option Int32 → Option SessionMetadata → DaemonIdentityCheck
  absent : Text → Bool
  probe : List Text → Text → Option (Except IoError Unit)

/-! ### The entries of the directory -/

/-- `is_tmp_name`, `atomic.rs:59`. -/
def isTmpName (file : Text) : Bool := decide (".tmp.".toList <:+: file)

/-- `str::strip_suffix`. -/
def stripSuffix (file suffix : Text) : Option Text :=
  if suffix <:+ file then some (file.take (file.length - suffix.length)) else none

/-- The entry of an item that is not a temporary file. -/
def DirItem.kept : DirItem → Option Text
  | .entry file => if isTmpName file then none else some file
  | _ => none

/-- The error of an item that cannot be read. -/
def DirItem.error (root : Text) : DirItem → Option InventoryError
  | .entry _ => none
  | .notUtf8 path => some ⟨path, .entryUnreadable, "entry name is not UTF-8"⟩
  | .failed e => some ⟨root, .entryUnreadable, e.text⟩

/-- The entries that a scan for one name keeps, `list.rs:1180`. -/
def companions (host : Host) (root only : Text) : List Text :=
  [socketFile host root only, only ++ ".json".toList, only ++ ".pid".toList]

/-- An entry that is retained when only one name is asked for. -/
def concerns (host : Host) (root : Text) (only : Option Text) (file : Text) : Bool :=
  only.all fun name ↦ (companions host root name).contains file

/-- A companion in the namespace of the socket digests, `list.rs:1193`. -/
def isReserved (file : Text) : Bool :=
  file.head? = some '@' && (decide (".json".toList <:+ file) || decide (".pid".toList <:+ file))

/-- The entries that concern the names asked for, the reserved ones among them. -/
def concerned (host : Host) (root : Text) (only : Option Text) (items : List DirItem) :
    List Text :=
  (items.filterMap DirItem.kept).filter (concerns host root only)

/-- The entries that the scan looks at, sorted. -/
def scanEntries (host : Host) (root : Text) (only : Option Text) (items : List DirItem) :
    List Text :=
  ((concerned host root only items).filter fun file ↦ !isReserved file).insertionSort (· ≤ ·)

/-- The error of a reserved companion. -/
def reservedError (root file : Text) : InventoryError :=
  ⟨join root file, .entryUnreadable,
    "registry companion uses the reserved socket digest namespace"⟩

/-! ### The names -/

/-- The name of a record or of a PID file. -/
def companionStem (file : Text) : Option Text :=
  (stripSuffix file ".json".toList).orElse fun _ ↦ stripSuffix file ".pid".toList

/-- `socket_names`, `list.rs:1208`: the name of each socket file, by the companions that
name it; of two names the later entry counts. -/
def socketNames (host : Host) (root : Text) (entries : List Text) : IndexMap Text Text :=
  IndexMap.insertAll []
    ((entries.filterMap companionStem).map fun name ↦ (socketFile host root name, name))

/-- A socket under a name, when it is the name's canonical one. -/
def canonicalSocket (host : Host) (root entry name : Text) : Except InventoryError Text :=
  if socketFile host root name = entry then .ok name
  else .error ⟨join root entry, .entryUnreadable,
    "socket filename is not the canonical address for its logical id"⟩

/-- The name of a socket entry, `list.rs:1219`. -/
def socketName (host : Host) (root : Text) (names : IndexMap Text Text) (entry : Text) :
    Option (Except InventoryError Text) :=
  (stripSuffix entry ".sock".toList).map fun stem ↦
    match names.get entry with
    | some name => canonicalSocket host root entry name
    | none =>
      if stem.head? = some '@' then
        .error ⟨join root entry, .entryUnreadable,
          "bounded socket has no id-named registry companion"⟩
      else canonicalSocket host root entry stem

/-- The names and errors of the socket entries. -/
def sockets (host : Host) (root : Text) (entries : List Text) :
    List (Except InventoryError Text) :=
  entries.filterMap (socketName host root (socketNames host root entries))

/-- `socket_ids`. -/
def socketIds (host : Host) (root : Text) (entries : List Text) : List Text :=
  (sockets host root entries).filterMap Except.toOption

/-- The error of a socket entry without a name. -/
def socketError : Except InventoryError Text → Option InventoryError
  | .ok _ => none
  | .error e => some e

/-- The name that an entry gives: by its record, and in a strict scan by its PID file. -/
def recordStem (strict : Bool) (file : Text) : Option Text :=
  (stripSuffix file ".json".toList).orElse fun _ ↦
    if strict then stripSuffix file ".pid".toList else none

/-- `names`, `list.rs:1247`, a `BTreeSet`. -/
def scanNames (host : Host) (root : Text) (strict : Bool) (entries : List Text) : List Text :=
  (entries.filterMap (recordStem strict) ++ socketIds host root entries).dedup.insertionSort
    (· ≤ ·)

/-! ### One name -/

/-- `has_exited() || exit_code.is_some()`. -/
def ended (m : SessionMetadata) : Bool :=
  (m.field .exitedAt).isSome || (m.field .exitCode).isSome

/-- `check_record_identity_in`, `list.rs:533`. -/
def checkRecordIdentityIn (host : Host) (answers : Answers) (root name : Text)
    (sidecar : Option Int32) (metadata : Option SessionMetadata) : DaemonIdentityCheck :=
  if sidecar.isNone && metadata.any (fun m ↦ (m.field .daemonPid).isNone) &&
      answers.absent (join root (name ++ ".pid".toList)) &&
      answers.absent (socketPathIn host root name) then .gone
  else answers.recordIdentity sidecar metadata

/-- Whether a session's owner may still be there. -/
def DaemonIdentityCheck.retained : DaemonIdentityCheck → Bool
  | .matched | .unknown => true
  | .mismatch | .gone => false

/-- The status of a session, `list.rs:1318`. -/
def sessionStatus (metadata : Option SessionMetadata) (identity : DaemonIdentityCheck) :
    SessionStatus :=
  if metadata.any ended then .exited
  else if identity.retained then .running
  else .vanished

/-- What the scan of one name gives: its session, errors, and its socket when that is to be
probed. -/
structure Visit where
  session : Option SessionInfo
  errors : List InventoryError
  uncertain : Option Text

/-- The entry of a name that has a record or a socket, `list.rs:1303-1340`. -/
def listed (host : Host) (answers : Answers) (strict : Bool) (root name : Text)
    (hasSocket : Bool) (metadata : Option SessionMetadata) (sidecar : Option Int32) : Visit :=
  let identity := checkRecordIdentityIn host answers root name sidecar metadata
  { session := some
      { name
        socketPath := socketPathIn host root name
        pid :=
          if identity.retained then
            sidecar.orElse fun _ ↦ metadata.bind (·.field .daemonPid)
          else none
        status := sessionStatus metadata identity
        identity
        metadata }
    errors :=
      if identity = .unknown then
        [⟨join root (name ++ ".json".toList), .identityUnknown,
          "cannot prove daemon leader, start token and boot identity"⟩]
      else []
    uncertain :=
      if identity = .unknown && strict && hasSocket then some (socketPathIn host root name)
      else none }

/-- The error of a PID file without a record or a socket, `list.rs:1290`. -/
def orphanErrors (answers : Answers) (strict : Bool) (root name : Text)
    (sidecar : Option Int32 × List InventoryError) : List InventoryError :=
  if strict && sidecar.1.isSome && sidecar.2.isEmpty &&
      decide (answers.recordIdentity sidecar.1 none = .unknown) then
    [⟨join root (name ++ ".pid".toList), .identityUnknown,
      "orphan PID has no daemon identity record"⟩]
  else []

/-- One name of the loop, `list.rs:1265-1341`. -/
def visit (host : Host) (answers : Answers) (strict : Bool) (root : Text)
    (entries : List Text) (name : Text) : Visit :=
  let metadataName := name ++ ".json".toList
  let pidName := name ++ ".pid".toList
  let metadata := answers.metadata (join root metadataName) (entries.contains metadataName)
  let hasSocket := (socketIds host root entries).contains name
  if metadata.1.isNone && !hasSocket then
    if strict then
      let sidecar := answers.pid (join root pidName) (entries.contains pidName)
      ⟨none, metadata.2 ++ sidecar.2 ++ orphanErrors answers strict root name sidecar, none⟩
    else ⟨none, metadata.2, none⟩
  else
    let sidecar := answers.pid (join root pidName) (entries.contains pidName)
    let v := listed host answers strict root name hasSocket metadata.1 sidecar.1
    { v with errors := metadata.2 ++ sidecar.2 ++ v.errors }

/-! ### The whole scan -/

/-- What the probe of a socket adds to the errors, `list.rs:1343`. -/
def probeError (answer : Option (Except IoError Unit)) (path : Text) : Option InventoryError :=
  match answer with
  | none => some ⟨path, .probeTimeout, "socket diagnostic deadline elapsed"⟩
  -- `ENOENT` and `ECONNREFUSED`
  | some (.error e) =>
    if e.errno = 2 ∨ e.errno = 111 then none else some ⟨path, .entryUnreadable, e.text⟩
  | some (.ok ()) => none

/-- The scan of the entries. -/
def scanItems (host : Host) (answers : Answers) (strict : Bool) (root : Text)
    (only : Option Text) (items : List DirItem) : List SessionInfo × List InventoryError :=
  let entries := scanEntries host root only items
  let visits := (scanNames host root strict entries).map (visit host answers strict root entries)
  let uncertain := visits.filterMap (·.uncertain)
  (visits.filterMap (·.session),
    items.filterMap (DirItem.error root) ++
      ((concerned host root only items).filter isReserved).map (reservedError root) ++
      (sockets host root entries).filterMap socketError ++
      visits.flatMap (·.errors) ++
      uncertain.filterMap fun path ↦ probeError (answers.probe uncertain path) path)

/-- `scan_sessions_with_probe`, `list.rs:1133`: a tolerant scan drops the errors. -/
def scanSessions (host : Host) (answers : Answers) (strict : Bool) (root : Text)
    (only : Option Text) : Inventory :=
  match answers.dir with
  | .error e =>
    let errors :=
      if strict then
        [⟨root, if e.notFound then .rootMissing else .rootUnreadable, e.text⟩]
      else []
    ⟨root, errors.isEmpty, [], errors⟩
  | .ok items =>
    let result := scanItems host answers strict root only items
    let errors := if strict then result.2 else []
    ⟨root, errors.isEmpty, result.1, errors⟩

end PtySpec.Listing
