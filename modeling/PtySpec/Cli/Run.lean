import PtySpec.Cli.Label
import PtySpec.Cli.Restart
import PtySpec.Operation.Effects
import PtySpec.Proc.Table
import PtySpec.Revocation.Store

/-!
# Running a command in a session

Model of `run` and `create_or_attach`, `crates/pty/src/cli/run.rs:14-606`: the loop over the
arguments, what its options come to, and what of a session that has stopped goes into the one that
takes its place. What a step of the surroundings answers is theirs; what is printed besides an
error is left out.
-/

namespace PtySpec.Cli.Run

open Lib Metadata
open Lifecycle (TagMap SpawnParams)
open Listing (SessionInfo DaemonIdentityCheck)
open Operation (LockRefusal)

/-! ### Options -/

/-- A message and the exit status after it. -/
structure Exit where
  message : String
  code : Int32
  deriving DecidableEq, Repr

/-- What the loop over the arguments fills in, `run.rs:15-36`. -/
structure RunOptions where
  id : Option String := none
  displayName : Option String := none
  cwd : Option String := none
  rows : Option UInt16 := none
  cols : Option UInt16 := none
  background : Bool := false
  force : Bool := false
  ephemeral : Bool := false
  attachExisting : Bool := false
  noDisplayName : Bool := false
  isolateEnv : Bool := false
  tags : TagMap := []
  extraEnv : TagMap := []
  unsetEnv : List String := []
  startupTimeoutMs : Option Nat := none
  lifecycleTag : Option String := none
  operationFd : Option String := none
  launchOperation : Option String := none
  publicationOperation : Option String := none
  publicationDigest : Option String := none
  publicationRootId : Option String := none
  deriving DecidableEq, Repr

/-- `str::parse::<u16>`. -/
def parseU16 (s : String) : Option UInt16 :=
  ((Proc.parseU64 s.toList).filter (· < 2 ^ 16)).map UInt16.ofNat

/-- `str::split_once('=')`. -/
def splitAssignment (s : String) : Option (String × String) :=
  match s.toList.span (· ≠ '=') with
  | (key, _ :: value) => some (String.ofList key, String.ofList value)
  | (_, []) => none

/-- `insert_env_token`, `run.rs:613`. -/
def insertEnvToken (inherited : String → Option String) (extraEnv : TagMap) (token : String) :
    Except String TagMap :=
  let invalid := s!"Invalid env format: \"{token}\". Use --env KEY=VALUE or --env KEY"
  match splitAssignment token with
  | some (key, value) => if key = "" then .error invalid else .ok (extraEnv.insert key value)
  | none =>
    if token = "" then .error invalid
    else
      match inherited token with
      | some value => .ok (extraEnv.insert token value)
      | none => .error (s!"pty run: --env {token} names no value in the inherited environment; " ++
          s!"pass --env {token}=VALUE")

/-- An option that takes the next argument, which is missing at the end. -/
abbrev ValueOption := Option String → RunOptions → Except Exit RunOptions

/-- The options of a publication, `run.rs:101-114`: each is given once. -/
def publicationOption (flag : String) (slot : RunOptions → Option String)
    (fill : String → RunOptions → RunOptions) : ValueOption := fun value o ↦
  match value.filter fun v ↦ !"--".toList.isPrefixOf v.toList with
  | none => .error ⟨s!"pty run: {flag} requires one value", 64⟩
  | some value =>
    if (slot o).isSome then .error ⟨s!"pty run: {flag} may be supplied only once", 64⟩
    else .ok (fill value o)

/-- The options with a value, `run.rs:40-161`. -/
def valueOption (inherited : String → Option String) : String → Option ValueOption
  | "--id" => some fun value o ↦ .ok { o with id := value }
  | "--name" => some fun value o ↦ .ok { o with displayName := value }
  | "--cwd" => some fun value o ↦ .ok { o with cwd := value }
  | "--rows" => some fun value o ↦ .ok { o with rows := value.bind parseU16 }
  | "--cols" => some fun value o ↦ .ok { o with cols := value.bind parseU16 }
  | "--startup-timeout-ms" => some fun value o ↦
    match (value.bind fun v ↦ Proc.parseU64 v.toList).filter
        fun n ↦ 0 < n ∧ n ≤ 9007199254740991 with
    | none => .error ⟨"pty run: --startup-timeout-ms requires a positive integer.", 1⟩
    | some n => .ok { o with startupTimeoutMs := some n }
  | "--lifecycle-tag" => some fun value o ↦
    match value.filter (· ≠ "") with
    | none => .error ⟨"pty run: --lifecycle-tag requires a non-empty key.", 1⟩
    | some value => .ok { o with lifecycleTag := some value }
  | "--operation-fd" => some fun value o ↦ .ok { o with operationFd := some (value.getD "") }
  | "--launch-operation" => some fun value o ↦
    .ok { o with launchOperation := some (value.getD "") }
  | "--publication-operation" => some <|
    publicationOption "--publication-operation" (·.publicationOperation)
      fun value o ↦ { o with publicationOperation := some value }
  | "--publication-binding" => some <|
    publicationOption "--publication-binding" (·.publicationDigest)
      fun value o ↦ { o with publicationDigest := some value }
  | "--publication-root-id" => some <|
    publicationOption "--publication-root-id" (·.publicationRootId)
      fun value o ↦ { o with publicationRootId := some value }
  | "--tag" => some fun value o ↦
    match value.bind splitAssignment with
    | some (key, v) => .ok { o with tags := o.tags.insert key v }
    | none =>
      let tok := value.getD ""
      .error ⟨s!"Invalid tag format: \"{tok}\". Use --tag key=value", 1⟩
  | "--env" => some fun value o ↦
    match insertEnvToken inherited o.extraEnv (value.getD "") with
    | .error message => .error ⟨message, 1⟩
    | .ok extraEnv => .ok { o with extraEnv := extraEnv }
  | "--unset-env" => some fun value o ↦
    let tok := value.getD ""
    if tok = "" ∨ '=' ∈ tok.toList then
      .error ⟨s!"Invalid env key: \"{tok}\". Use --unset-env KEY", 1⟩
    else .ok { o with unsetEnv := if tok ∈ o.unsetEnv then o.unsetEnv else o.unsetEnv ++ [tok] }
  | _ => none

/-- The options without one. -/
def switchOption : String → Option (RunOptions → RunOptions)
  | "-d" | "--detach" => some fun o ↦ { o with background := true }
  | "--force" => some fun o ↦ { o with force := true }
  | "-e" | "--ephemeral" => some fun o ↦ { o with ephemeral := true }
  | "--isolate-env" => some fun o ↦ { o with isolateEnv := true }
  | "-a" | "--attach" => some fun o ↦ { o with attachExisting := true }
  | "--no-display-name" => some fun o ↦ { o with noDisplayName := true }
  | _ => none

/-- The loop over the arguments, `run.rs:38-184`: the options, and the command after them. -/
def optionLoop (inherited : String → Option String) (o : RunOptions) :
    List String → Except Exit (RunOptions × List String)
  | [] => .ok (o, [])
  | arg :: rest =>
    match valueOption inherited arg with
    | some option =>
      match rest with
      | [] => (option none o).map (·, [])
      | value :: rest => option (some value) o >>= fun o ↦ optionLoop inherited o rest
    | none =>
      match switchOption arg with
      | some switch => optionLoop inherited (switch o) rest
      | none => .ok (o, if arg = "--" then rest else arg :: rest)

/-! ### What the options come to -/

/-- The binding of a publication, `run.rs:199-214`. -/
def publicationBinding (o : RunOptions) : Except Exit (Option PublicationBinding) :=
  match o.publicationOperation, o.publicationDigest, o.publicationRootId with
  | none, none, none => .ok none
  | some operation, some digest, some root =>
    if root ≠ "" ∧ o.background ∧ !o.attachExisting ∧ o.id.any (· ≠ "") then
      match Revocation.PublicationBinding.validate ⟨operation.toList, digest.toList⟩ with
      | .error e => .error ⟨s!"pty run: {e.text}", 64⟩
      | .ok () => .ok (some ⟨operation, digest⟩)
    else .error publicationUsage
  | _, _, _ => .error publicationUsage
where
  publicationUsage : Exit :=
    ⟨"pty run: publication operation, binding and root identity require each other, --id " ++
      "and -d; -a is not supported", 64⟩

/-- `is_digest`, `operation/envelope.rs:102`. -/
def isDigest (value : String) : Bool :=
  Registry.byteLen value.toList = 64 &&
    value.toList.all fun c ↦ ('0' ≤ c && c ≤ '9') || ('a' ≤ c && c ≤ 'f')

/-- `operation_arguments`, `run.rs:352`. -/
def operationArguments (o : RunOptions) : Except String (Int32 × String) :=
  match o.operationFd, o.launchOperation with
  | some fd, some digest =>
    match (Proc.parseI32 fd.toList).filter (3 ≤ ·) with
    | none => .error "--operation-fd requires a descriptor number of 3 or above."
    | some fd =>
      if !isDigest digest then .error "--launch-operation requires 64 lowercase hex characters."
      else if !o.id.any (· ≠ "") then .error "a launch operation requires --id."
      else if !o.background then .error "a launch operation requires -d."
      else if o.attachExisting then .error "a launch operation cannot take -a."
      else if o.lifecycleTag.isSome then
        .error "a launch operation cannot take --lifecycle-tag."
      else .ok (fd, digest)
  | _, _ => .error "--operation-fd and --launch-operation are required together."

/-- The launch operation, if one is asked for, `run.rs:215-232`. -/
def launchOperation (o : RunOptions) : Except Exit (Option (Int32 × String)) :=
  if o.operationFd.isSome ∨ o.launchOperation.isSome then
    match operationArguments o with
    | .ok operation => .ok (some operation)
    | .error message => .error ⟨s!"pty run: {message}", 64⟩
  else .ok none

/-- The options of a run with its command, `run.rs:185-232`. -/
def checkOptions (o : RunOptions) (command : List String) :
    Except Exit ((String × List String) × Option PublicationBinding × Option (Int32 × String)) :=
  if o.startupTimeoutMs.isSome ∧ o.lifecycleTag.isNone then
    .error ⟨"pty run: --startup-timeout-ms requires --lifecycle-tag.", 1⟩
  else if o.lifecycleTag = some "" then
    .error ⟨"pty run: --lifecycle-tag must not be empty.", 1⟩
  else
    match command with
    | [] => .error ⟨"Usage: pty run [--id <id>] [--name <displayName>] [-d] [-a] -- <command> " ++
        "[args...]", 1⟩
    | program :: args => do
      let binding ← publicationBinding o
      let operation ← launchOperation o
      return ((program, args), binding, operation)

/-- `StartupLeaseOptions`, `startup.rs:12`. -/
structure StartupLease where
  timeoutMs : Option Nat
  lifecycleTag : String
  deriving DecidableEq, Repr

/-- `SpawnParams` with the startup lease. -/
structure RunParams extends SpawnParams where
  startupLease : Option StartupLease

/-- `auto_display_name` where the command is run, `run.rs:390`. -/
def autoName (seat : Restart.Seat) (program : String) (args : List String) : String :=
  String.ofList (autoDisplayName seat.currentDir.toList program.toList (args.map String.toList))

/-- The display name, `run.rs:306-316`. -/
def runDisplayName (seat : Restart.Seat) (o : RunOptions) (program : String) (args : List String) :
    Except Exit (Option String) :=
  if o.noDisplayName then .ok none
  else
    match o.displayName with
    | some explicit =>
      match validateDisplayName explicit with
      | .error msg => .error ⟨s!"Invalid displayName: {msg}", 1⟩
      | .ok () => .ok (some explicit)
    | none => .ok (some (autoName seat program args))

/-- The parameters of a new session, `run.rs:318-340`. -/
def runParams (seat : Restart.Seat) (name : String) (o : RunOptions)
    (binding : Option PublicationBinding) (displayName : Option String) (program : String)
    (args : List String) : RunParams :=
  let params := (Restart.newParams seat name program args).toSpawnParams
  { params with
    cwd := o.cwd.getD seat.currentDir
    rows := o.rows.getD params.rows
    cols := o.cols.getD params.cols
    ephemeral := o.ephemeral
    tags := o.tags
    publicationBinding := binding
    publicationRootId := o.publicationRootId
    displayName := displayName
    isolateEnv := o.isolateEnv
    extraEnv := o.extraEnv
    unsetEnv := o.unsetEnv
    startupLease := o.lifecycleTag.map fun tag ↦ ⟨o.startupTimeoutMs, tag⟩ }

/-! ### Creating and attaching -/

/-- What a run finds around it: where it runs, the sessions as they are read, and the answers of
its steps. -/
structure RunWorld where
  seat : Restart.Seat
  ptySession : Option String
  inherited : String → Option String
  generatedId : String
  site : Revocation.Site
  inUse : String → Bool
  sessionByName : String → Option SessionInfo
  sessionByReference : String → Option SessionInfo
  delegatedOwner : Bool
  eventLock : Except LockRefusal Unit
  creationLock : Except LockRefusal Unit
  found : Option SessionInfo
  foundLocked : Option SessionInfo
  identity : SessionInfo → DaemonIdentityCheck
  checkPublication : RunParams → Except String Unit
  resolveCommand : String → Except String String
  prepareDaemon : RunParams → Except String Unit
  delegate : Except String Unit
  spawn : RunParams → Except String Unit

/-- How a run ends that creates no session by itself: with an exit status or an error, with the
command run in place, attached to a session, or as a launch operation. -/
inductive Stop where
  | exited (e : Exit)
  | failed (error : String)
  | direct (program : String) (args : List String) (cwd : Option String)
      (unsetEnv : List String) (extraEnv : TagMap)
  | attached (name : String)
  | operation (name : String) (params : RunParams) (fd : Int32) (digest : String)

/-- A session that was created: the record it takes the place of, and what it was launched with. -/
structure Created where
  previous : Option SessionMetadata
  params : RunParams
  attaches : Bool

/-- A step whose error ends the run with a message. -/
def orExit {α : Type} (result : Except String α) (message : String → String) : Except Stop α :=
  result.mapError fun e ↦ .exited ⟨message e, 1⟩

/-- A lock, `registry::lock_or_refusal`. -/
def takeLock (busy : String) : Except LockRefusal Unit → Except Stop Unit
  | .ok () => .ok ()
  | .error .busy => .error (.exited ⟨busy, 1⟩)
  | .error (.unavailable cause) => .error (.exited ⟨cause, 1⟩)

/-- The session as `create_or_attach` finds it, `run.rs:469-505`. -/
def findSession (w : RunWorld) (name : String) : Except Stop (Option SessionInfo) :=
  if w.delegatedOwner then .ok w.found
  else do
    takeLock s!"Session \"{name}\" event log is busy. Try again." w.eventLock
    takeLock s!"Session \"{name}\" is being created by another process. Try again." w.creationLock
    return w.foundLocked

/-- The settings of a stopped session where the parameters have none, `run.rs:549-569`. -/
def carryOver (params : RunParams) (explicitCwd : Bool) (previous : SessionMetadata) : RunParams :=
  { params with
    cwd := if !explicitCwd && previous.field .cwd ≠ "" then previous.field .cwd else params.cwd
    tags := if params.tags = [] then previous.tags.getD params.tags else params.tags
    displayName := params.displayName.or (previous.field .displayName)
    extraEnv := if params.extraEnv = [] then (previous.field .extraEnv).getD params.extraEnv
      else params.extraEnv
    unsetEnv := if params.unsetEnv = [] then (previous.field .unsetEnv).getD params.unsetEnv
      else params.unsetEnv }

/-- The record of a session that has stopped, `run.rs:540-543`. -/
def goneRecord (session : Option SessionInfo) : Option SessionMetadata :=
  (session.filter (·.status ≠ .running)).bind (·.metadata)

/-- What is carried over, if anything is there, `run.rs:544-570`. -/
def recreate (params : RunParams) (explicitCwd : Bool) :
    Option SessionMetadata → Except Stop RunParams
  | none => .ok params
  | some previous =>
    if params.publicationBinding = none ∧ (previous.field .publicationBinding).isSome then
      .error (.exited ⟨"pty run: recreating a managed session requires a new explicit " ++
        "publication binding", 1⟩)
    else .ok (carryOver params explicitCwd previous)

/-- Whether the name may be taken, `run.rs:510-535`. -/
def checkOccupied (w : RunWorld) (name : String) (attachExisting : Bool)
    (session : Option SessionInfo) : Except Stop Unit :=
  let identity := session.map w.identity
  if identity = some .unknown then
    .error (.exited
      ⟨s!"Refusing to replace session \"{name}\": daemon identity is unknown.", 1⟩)
  else if session.any (·.status = .running) ∧ identity = some .matched then
    if attachExisting then .error (.attached name)
    else .error (.exited ⟨s!"Session \"{name}\" is already running. Use \"pty attach {name}\" " ++
      "to connect.", 1⟩)
  else .ok ()

/-- The creation lock for the daemon, `run.rs:582-588`. -/
def delegateLock (w : RunWorld) : Except Stop Unit :=
  if w.delegatedOwner then .ok () else w.delegate.mapError .failed

/-- The launch, `run.rs:571-598`. -/
def launch (w : RunWorld) (params : RunParams) : Except Stop RunParams := do
  let message := fun e ↦ s!"pty run: {e}"
  orExit (w.checkPublication params) message
  let command ← orExit (w.resolveCommand params.command) message
  let params := { params with command := command }
  orExit (w.prepareDaemon params) message
  delegateLock w
  orExit (w.spawn params) message
  return params

/-- `create_or_attach`, `run.rs:450`. -/
def createOrAttach (w : RunWorld) (name : String) (params : RunParams)
    (explicitCwd detach attachExisting : Bool) : Except Stop Created := do
  let session ← findSession w name
  checkOccupied w name attachExisting session
  let gone := goneRecord session
  let params ← recreate params explicitCwd gone
  let params ← launch w params
  return ⟨gone, params, !detach⟩

/-- A run inside a session, `run.rs:234-283`. -/
def nested (w : RunWorld) (o : RunOptions) (program : String) (args : List String) : Stop :=
  let reference := o.id.or o.displayName
  let target := reference.bind fun reference ↦
    match o.id with
    | some explicit => w.sessionByName explicit
    | none => w.sessionByReference reference
  if o.attachExisting ∧ target.any (·.status = .running) then
    let session := w.ptySession.getD ""
    let reference := reference.getD ""
    .exited ⟨s!"pty run -a: already inside pty session \"{session}\".\n" ++
      s!"  Target session \"{reference}\" is already running; attaching would nest a client " ++
      "inside the current session.\n  Pass --force to attach anyway, or detach first (Ctrl+\\) " ++
      "and re-run from outside.", 1⟩
  else .direct program args o.cwd o.unsetEnv o.extraEnv

/-- The guard against a run inside a session, `run.rs:237-242`. -/
def checkNested (w : RunWorld) (o : RunOptions) (program : String) (args : List String) :
    Except Stop Unit :=
  if !o.background ∧ !o.force ∧ w.ptySession.any (· ≠ "") then .error (nested w o program args)
  else .ok ()

/-- The checks of the name, `run.rs:285-301`. -/
def checkName (w : RunWorld) (name : String) (operation attachExisting : Bool) :
    Except Stop Unit :=
  match Revocation.validateName w.site name.toList with
  | .error e => .error (.exited ⟨e.text, if operation then 64 else 1⟩)
  | .ok () =>
    if !operation ∧ !attachExisting ∧ w.inUse name then
      .error (.exited ⟨s!"Session id \"{name}\" is already in use.", 1⟩)
    else .ok ()

/-- `run`, `run.rs:14`. -/
def run (w : RunWorld) (args : List String) : Except Stop Created := do
  let (o, command) ← (optionLoop w.inherited {} args).mapError .exited
  let ((program, args), binding, operation) ← (checkOptions o command).mapError .exited
  checkNested w o program args
  let name := o.id.getD w.generatedId
  checkName w name operation.isSome o.attachExisting
  let displayName ← (runDisplayName w.seat o program args).mapError .exited
  let params := runParams w.seat name o binding displayName program args
  match operation with
  | some (fd, digest) => .error (.operation name params fd digest)
  | none => createOrAttach w name params o.cwd.isSome o.background o.attachExisting

end PtySpec.Cli.Run
