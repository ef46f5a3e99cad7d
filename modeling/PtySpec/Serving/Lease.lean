import PtySpec.Lib.Trace
import PtySpec.Registry.Mutate
import PtySpec.Serving.Clients

/-!
# The startup lease

Model of `crates/pty-lifecycle/src/startup.rs` and of the lease in
`crates/pty/src/daemon/lifecycle.rs`. One turn of the serving loop handles a message, then
the timers, and begins to close once there is a shutdown code; it then only waits for the
child. Clocks, locks, writes and the process table answer as they like, and others may edit
the record between turns.
-/

namespace PtySpec.Serving

open Lib Registry
open Operation (Value)

/-- `serde_json`: the text of a value, and the value of a text. -/
structure SerdeJson where
  toText : Value → String
  fromStr : String → Option Value

/-- `StartupLeaseTerminalCause`, `startup.rs:34`. -/
inductive StartupLeaseTerminalCause where
  | exit
  | deadline
  | teardownUnavailable
  deriving DecidableEq, Repr

/-- `StartupLeaseTerminalCause::as_str`, `startup.rs:41`. -/
def StartupLeaseTerminalCause.asStr : StartupLeaseTerminalCause → String
  | exit => "exit"
  | deadline => "deadline"
  | teardownUnavailable => "teardown-unavailable"

/-- `startup_lease_deadline_cause`, `startup.rs:112`. -/
def startupLeaseDeadlineCause (containmentComplete : Bool) : StartupLeaseTerminalCause :=
  if containmentComplete then .deadline else .teardownUnavailable

/-- `StartupLeaseOptions`, `startup.rs:12`. -/
structure StartupLeaseOptions where
  timeoutMs : Option Nat
  lifecycleTag : String
  deriving DecidableEq, Repr

/-- `ArmedStartupLease`, `startup.rs:23`. -/
structure ArmedStartupLease where
  generation : String
  lifecycleTag : String
  bootId : String
  deadlineMonotonicNs : Option Nat
  startingValue : String
  deriving DecidableEq, Repr

/-- `startup.rs:48`. -/
def MAX_SAFE_INTEGER : Nat := 9007199254740991

/-- `startup.rs:49`, in milliseconds. -/
def MAX_TIMER_DELAY_MS : Nat := 2147483647

/-- The object that `arm_startup_lease` publishes, `startup.rs:79-93`. -/
def startingObject (generation bootId : String) (deadline : Option Nat) : Value :=
  .object ([("_tag", .string "starting"), ("generation", .string generation),
      ("bootId", .string bootId)] ++
    deadline.elim [] fun d ↦ [("deadlineMonotonicNs", .string (toString d))])

/-- `arm_startup_lease`, `startup.rs:53`, with the boot identity and the clock it reads. -/
def armStartupLease (json : SerdeJson) (options : StartupLeaseOptions) (generation : String)
    (bootIdentity : Option String) (monotonicNow : Option Nat) :
    Except String ArmedStartupLease :=
  if options.timeoutMs.any fun ms ↦ ms = 0 ∨ ms > MAX_SAFE_INTEGER then
    .error "startup lease timeoutMs must be a positive safe integer"
  else if options.lifecycleTag = "" then
    .error "startup lease lifecycleTag must not be empty"
  else match bootIdentity.filter (· ≠ "") with
    | none => .error "startup lease boot identity is unavailable"
    | some bootId =>
      match options.timeoutMs, monotonicNow with
      | some _, none => .error "startup lease monotonic clock is unavailable"
      | some ms, some now =>
        .ok ⟨generation, options.lifecycleTag, bootId, some (now + ms * 1000000),
          json.toText (startingObject generation bootId (some (now + ms * 1000000)))⟩
      | none, _ =>
        .ok ⟨generation, options.lifecycleTag, bootId, none,
          json.toText (startingObject generation bootId none)⟩

/-- The object of `terminal_startup_lease_value`, `startup.rs:104`. -/
def terminalObject (generation : String) (cause : StartupLeaseTerminalCause) : Value :=
  .object [("_tag", .string "terminal"), ("generation", .string generation),
    ("cause", .string cause.asStr)]

/-- `terminal_startup_lease_value`, `startup.rs:103`. -/
def terminalStartupLeaseValue (json : SerdeJson) (generation : String)
    (cause : StartupLeaseTerminalCause) : String :=
  json.toText (terminalObject generation cause)

/-- `remaining_lease_delay`, `startup.rs:120`, in milliseconds. -/
def remainingLeaseDelay (deadline : Nat) (monotonicNow : Option Nat) : Nat :=
  match monotonicNow with
  | none => 0
  | some now => min ((deadline - now + 999999) / 1000000) MAX_TIMER_DELAY_MS

/-- A value that names the end of this generation's lease, `lifecycle.rs:1329-1336`. -/
def namesTerminal (json : SerdeJson) (generation value : String) : Bool :=
  (json.fromStr value).any fun lifecycle ↦
    (lifecycle.get "_tag").bind Value.asStr == some "terminal" &&
      (lifecycle.get "generation").bind Value.asStr == some generation

/-- `LifecycleCompareAndSetRequest`, `protocol.rs:142`. -/
structure LifecycleCompareAndSetRequest where
  expectedGeneration : String
  tag : String
  expectedValue : String
  value : String
  deriving DecidableEq, Repr

/-- `LifecycleCompareAndSetRequest::validate`, `protocol.rs:150`. -/
def LifecycleCompareAndSetRequest.validate (r : LifecycleCompareAndSetRequest) : Bool :=
  r.expectedGeneration ≠ "" && r.tag ≠ ""

/-- `LifecycleCompareAndSetResult`, `protocol.rs:157`. -/
inductive LifecycleCompareAndSetResult where
  | changed (value : String)
  | unchanged (value : String)
  | valueMismatch (value : Option String)
  | missing
  | generationMismatch
  | busy
  | deadlineExpired (value : String)
  | terminal (value : String)
  | invalidRequest (reason : String)
  deriving DecidableEq, Repr

/-- A compare-and-set succeeds by `Changed` or `Unchanged`. -/
def LifecycleCompareAndSetResult.succeeded : LifecycleCompareAndSetResult → Bool
  | changed _ | unchanged _ => true
  | _ => false

/-- What is remembered of a run: the values the lease has come to hold, that a
compare-and-set disarmed it, and that its deadline was settled. -/
inductive LeaseEvent where
  | held (value : String)
  | disarmed
  | deadline
  deriving DecidableEq, Repr

/-- `Daemon`, `lifecycle.rs:150`, in what bears on the lease, with its session's record.
`log` is newest first. -/
structure LeasedDaemon where
  generation : String
  startupLease : Option ArmedStartupLease
  startupLeaseTimer : Option Nat
  startupLeaseDisarmed : Bool
  startupDeadlinePendingShutdown : Bool
  startupLeaseTerminalValue : Option String
  /-- Whether the observed tree is complete. -/
  teardownTree : Option Bool
  teardownFrozen : Bool
  childStatus : Option ExitStatus
  ptyEof : Bool
  exited : Bool
  exitCode : Int32
  exitDrainDeadline : Option Nat
  exitShutdownAt : Option Nat
  externalKill : Bool
  shutdownCode : Option Int32
  closing : Bool
  file : Option SessionMetadata
  log : List LeaseEvent
  deriving DecidableEq, Repr

/-- What the surroundings answer to one operation: both clocks in nanoseconds, whether the
record can be read, its locked mutation, and whether the frozen tree is complete. -/
structure Around where
  now : Nat
  monotonicNow : Option Nat
  readable : Bool
  io : MutateIo
  complete : Bool
  deriving DecidableEq, Repr

namespace LeasedDaemon

/-- `LeaseEvent.held` when the value is another one than before. -/
def hold (value : String) (d : LeasedDaemon) : LeasedDaemon :=
  { d with
    startupLeaseTerminalValue := some value
    log := if d.startupLeaseTerminalValue = some value then d.log else .held value :: d.log }

/-- The lease is not enforced any more. -/
def disarm (d : LeasedDaemon) : LeasedDaemon :=
  { d with startupLeaseDisarmed := true, startupLeaseTimer := none }

/-- The record's mutation in `settle_startup_lifecycle`, `lifecycle.rs:1376`. -/
def settleTag (tag terminal : String) (m : SessionMetadata) : Option SessionMetadata :=
  if m.tag tag = some terminal then none else some (m.withTag tag terminal)

/-- `settle_startup_lifecycle`, `lifecycle.rs:1359`. -/
def settleStartupLifecycle (json : SerdeJson) (cause : StartupLeaseTerminalCause) (force : Bool)
    (io : MutateIo) (d : LeasedDaemon) : Option String × LeasedDaemon :=
  match d.startupLease, d.startupLeaseTerminalValue with
  | none, _ => (none, d)
  | some _, some value => (some value, d)
  | some lease, none =>
    if d.startupLeaseDisarmed && !force then (none, d)
    else
      let terminal := terminalStartupLeaseValue json d.generation cause
      match mutateMetadataUnderLock io d.generation (settleTag lease.lifecycleTag terminal)
          d.file with
      | (.changed _, file) | (.unchanged _, file) =>
        (some terminal, hold terminal (disarm { d with file := file }))
      | (.generationMismatch, file) => (none, disarm { d with file := file })
      | (.busy, file) | (.stale, file) | (.missing, file) => (none, { d with file := file })

/-- `resume_frozen_tree`, `lifecycle.rs:1473`. -/
def resumeFrozenTree (d : LeasedDaemon) : LeasedDaemon :=
  if d.teardownFrozen then { d with teardownFrozen := false, teardownTree := none } else d

/-- The tree is frozen once, `lifecycle.rs:1423-1434`. -/
def freezeChildTree (complete : Bool) (d : LeasedDaemon) : LeasedDaemon :=
  if d.teardownTree.isNone then { d with teardownTree := some complete, teardownFrozen := true }
  else d

/-- `settle_startup_deadline`, `lifecycle.rs:1422`. -/
def settleStartupDeadline (json : SerdeJson) (a : Around) (d : LeasedDaemon) :
    Option String × LeasedDaemon :=
  let d := d.freezeChildTree a.complete
  let r := d.settleStartupLifecycle json
    (startupLeaseDeadlineCause (d.teardownTree == some true)) false a.io
  match r.1 with
  | some value => (some value, { r.2 with log := .deadline :: r.2.log })
  | none => (none, if r.2.startupLeaseDisarmed then r.2.resumeFrozenTree else r.2)

/-- The deadline has passed and the lease is still enforced, `lifecycle.rs:1284`. -/
def expired (d : LeasedDaemon) (monotonicNow : Option Nat) : Bool :=
  d.startupLease.any fun lease ↦ !d.startupLeaseDisarmed &&
    lease.deadlineMonotonicNs.any fun deadline ↦ monotonicNow.all fun now ↦ now ≥ deadline

/-- The lease's tag, or no tag. -/
def lifecycleTag (d : LeasedDaemon) : String := (d.startupLease.map (·.lifecycleTag)).getD ""

/-- A client took the lease over, `lifecycle.rs:1313-1321`. -/
def disarmBy (request : LifecycleCompareAndSetRequest) (d : LeasedDaemon) : LeasedDaemon :=
  if d.startupLease.any fun lease ↦ request.tag = lease.lifecycleTag ∧
      request.expectedValue = lease.startingValue ∧ request.value ≠ lease.startingValue
  then { d.disarm with log := .disarmed :: d.log }
  else d

/-- What an accepted value does to the lease, `lifecycle.rs:1313-1339`. -/
def accept (json : SerdeJson) (request : LifecycleCompareAndSetRequest) (d : LeasedDaemon) :
    LeasedDaemon :=
  let d := d.disarmBy request
  if request.tag = d.lifecycleTag ∧ namesTerminal json d.generation request.value then
    d.hold request.value
  else d

/-- `compare_and_set_lifecycle`, `lifecycle.rs:1263`. -/
def compareAndSetLifecycle (json : SerdeJson) (a : Around)
    (request : LifecycleCompareAndSetRequest) (d : LeasedDaemon) :
    LifecycleCompareAndSetResult × LeasedDaemon :=
  if request.expectedGeneration ≠ d.generation then (.generationMismatch, d)
  else match if a.readable then d.file else none with
    | none => (.missing, d)
    | some current =>
      if current.generation ≠ some d.generation then (.generationMismatch, d)
      else if d.exited then
        let r := d.settleStartupLifecycle json .exit true a.io
        (.terminal (r.1.getD (terminalStartupLeaseValue json d.generation .exit)), r.2)
      else if d.expired a.monotonicNow then
        match d.settleStartupDeadline json a with
        | (none, d) => (.busy, d)
        | (some value, d) =>
          (.deadlineExpired value, { d with
            startupDeadlinePendingShutdown := true
            startupLeaseTimer := some (a.now + 25000000) })
      else
        match compareAndSetTagValue a.io request.expectedGeneration request.tag
            request.expectedValue request.value d.file with
        | (.changed value, file) => (.changed value, { d with file := file }.accept json request)
        | (.unchanged value, file) =>
          (.unchanged value, { d with file := file }.accept json request)
        | (.valueMismatch value, file) => (.valueMismatch value, { d with file := file })
        | (.missing, file) => (.missing, { d with file := file })
        | (.generationMismatch, file) => (.generationMismatch, { d with file := file })
        | (.busy, file) | (.stale, file) => (.busy, { d with file := file })

/-- `on_lifecycle_cas`, `lifecycle.rs:1252`, on what the payload parses to. -/
def onLifecycleCas (json : SerdeJson) (a : Around)
    (request : Option LifecycleCompareAndSetRequest) (d : LeasedDaemon) :
    LifecycleCompareAndSetResult × LeasedDaemon :=
  match request.filter (·.validate) with
  | some request => d.compareAndSetLifecycle json a request
  | none => (.invalidRequest "invalid request payload", d)

/-- `EXIT_GRACE`, `lifecycle.rs:114`, in nanoseconds. -/
def EXIT_GRACE : Nat := 500000000

/-- `finalize_exit`, `lifecycle.rs:1554`. -/
def finalizeExit (json : SerdeJson) (a : Around) (d : LeasedDaemon) : LeasedDaemon :=
  let code := Daemon.exitCodeOf d.childStatus
  let d := (d.settleStartupLifecycle json .exit true a.io).2
  { d with
    exited := true
    exitCode := code
    exitDrainDeadline := none
    exitShutdownAt := if d.shutdownCode.isNone then some (a.now + EXIT_GRACE)
      else d.exitShutdownAt }

/-- The messages that bear on the lease, of those `handle` takes. -/
inductive Msg where
  | ptyEof
  | childExited (status : ExitStatus)
  | lifecycleCas (request : Option LifecycleCompareAndSetRequest)
  | externalKill
  deriving DecidableEq, Repr

/-- `handle`, `lifecycle.rs:1084`. -/
def handle (json : SerdeJson) (a : Around) (d : LeasedDaemon) : Msg → LeasedDaemon
  | .ptyEof =>
    let d := { d with ptyEof := true }
    if d.childStatus.isSome && !d.exited then d.finalizeExit json a else d
  | .childExited status =>
    if d.childStatus.isSome then d
    else
      let d := { d with childStatus := some status }
      if d.ptyEof then if d.exited then d else d.finalizeExit json a
      else { d with exitDrainDeadline := some (a.now + Daemon.EXIT_DRAIN * 1000000) }
  | .lifecycleCas request => (d.onLifecycleCas json a request).2
  | .externalKill =>
    if d.shutdownCode.isNone then { d with externalKill := true, shutdownCode := some 0 } else d

/-- `service_timers` on the wait for the child's last output, `lifecycle.rs:1490`. -/
def serviceDrain (json : SerdeJson) (now : Nat) (a : Around) (d : LeasedDaemon) : LeasedDaemon :=
  if d.exitDrainDeadline.any (· ≤ now) then
    let d := { d with exitDrainDeadline := none }
    if !d.exited && d.childStatus.isSome then d.finalizeExit json a else d
  else d

/-- `service_timers` on the lease, `lifecycle.rs:1508-1539`. -/
def serviceLease (json : SerdeJson) (now : Nat) (a : Around) (d : LeasedDaemon) : LeasedDaemon :=
  if d.startupLeaseTimer.any (· ≤ now) then
    if d.startupDeadlinePendingShutdown then
      { d with
        startupDeadlinePendingShutdown := false
        startupLeaseTimer := none
        externalKill := true
        shutdownCode := some (d.shutdownCode.getD 124) }
    else if d.startupLeaseDisarmed then { d with startupLeaseTimer := none }
    else match d.startupLease.bind (·.deadlineMonotonicNs) with
      | none => { d with startupLeaseTimer := none }
      | some deadline =>
        if remainingLeaseDelay deadline a.monotonicNow = 0 then
          match d.settleStartupDeadline json a with
          | (some _, d) => { d with externalKill := true, shutdownCode := some 124 }
          | (none, d) => { d with startupLeaseTimer := some (now + 10000000) }
        else
          { d with
            startupLeaseTimer :=
              some (now + remainingLeaseDelay deadline a.monotonicNow * 1000000) }
  else d

/-- `service_timers` on the grace after an exit, `lifecycle.rs:1540`. -/
def serviceShutdown (now : Nat) (d : LeasedDaemon) : LeasedDaemon :=
  if d.exitShutdownAt.any (· ≤ now) then
    { d with exitShutdownAt := none, shutdownCode := some (d.shutdownCode.getD d.exitCode) }
  else d

/-- The attempts of `settle_startup_lifecycle_before_close`, `lifecycle.rs:1654`, as many as
there is time for. -/
def settleAttempts (json : SerdeJson) : List Around → LeasedDaemon → LeasedDaemon
  | [], d => d
  | a :: rest, d =>
    match d.settleStartupLifecycle json .exit true a.io with
    | (some _, d) => d
    | (none, d) =>
      match if a.readable then d.file else none with
      | none => d
      | some m => if m.generation ≠ some d.generation then d else settleAttempts json rest d

/-- `settle_startup_lifecycle_before_close`, `lifecycle.rs:1649`. -/
def settleBeforeClose (json : SerdeJson) (attempts : List Around) (d : LeasedDaemon) :
    LeasedDaemon :=
  if d.startupLease.isNone || d.startupLeaseTerminalValue.isSome then d
  else settleAttempts json attempts d

/-- One turn of `serve`, `lifecycle.rs:1042`: the message if there is one, and what is met
in its handling, in the timers and in closing. -/
structure Turn where
  msg : Option Msg
  handling : Around
  now : Nat
  drain : Around
  lease : Around
  attempts : List Around
  deriving DecidableEq, Repr

/-- A turn of `serve`, and the record's other writers. -/
inductive Label where
  | turn (t : Turn)
  | edit (file : Option SessionMetadata)
  deriving DecidableEq, Repr

/-- One turn of `serve`, `lifecycle.rs:1042-1079`. -/
def turn (json : SerdeJson) (t : Turn) (d : LeasedDaemon) : LeasedDaemon :=
  let d := t.msg.elim d (d.handle json t.handling)
  let d := ((d.serviceDrain json t.now t.drain).serviceLease json t.now t.lease).serviceShutdown
    t.now
  if d.shutdownCode.isSome then { d.settleBeforeClose json t.attempts with closing := true } else d

/-- One turn of `wait_child_exit` in `close`, `lifecycle.rs:1735`. -/
def closingTurn (json : SerdeJson) (t : Turn) (d : LeasedDaemon) : LeasedDaemon :=
  if d.exited then d
  else
    let d := match t.msg with
      | some .ptyEof => d.handle json t.handling .ptyEof
      | some (.childExited status) => d.handle json t.handling (.childExited status)
      | _ => d
    d.serviceDrain json t.now t.drain

/-- What can happen to a serving daemon and its record. -/
def step (json : SerdeJson) (d : LeasedDaemon) : Label → Option LeasedDaemon
  | .turn t => some (if d.closing then d.closingTurn json t else d.turn json t)
  | .edit file => some { d with file := file }

/-- `assemble`, `lifecycle.rs:948`, over the record as it then is. -/
def assemble (generation : String) (startupLease : Option ArmedStartupLease)
    (timerDisabled : Bool) (now : Nat) (monotonicNow : Option Nat)
    (file : Option SessionMetadata) : LeasedDaemon where
  generation := generation
  startupLease := startupLease
  startupLeaseTimer := if timerDisabled then none
    else (startupLease.bind (·.deadlineMonotonicNs)).map fun deadline ↦
      now + remainingLeaseDelay deadline monotonicNow * 1000000
  startupLeaseDisarmed := false
  startupDeadlinePendingShutdown := false
  startupLeaseTerminalValue := none
  teardownTree := none
  teardownFrozen := false
  childStatus := none
  ptyEof := false
  exited := false
  exitCode := 0
  exitDrainDeadline := none
  exitShutdownAt := none
  externalKill := false
  shutdownCode := none
  closing := false
  file := file
  log := []

/-- A daemon that begins to serve, with a lease that `run` armed or without. -/
def Started (json : SerdeJson) (d : LeasedDaemon) : Prop :=
  ∃ generation lease timerDisabled now monotonicNow file,
    (∀ l ∈ lease, ∃ options bootIdentity clock,
      armStartupLease json options generation bootIdentity clock = .ok l) ∧
    d = assemble generation lease timerDisabled now monotonicNow file

/-- The value that the record has for the lease's tag. -/
def recorded (d : LeasedDaemon) : Option String := d.file.bind (·.tag d.lifecycleTag)

/-- The values that the lease has held, newest first. -/
def held (d : LeasedDaemon) : List String :=
  d.log.filterMap fun e ↦ match e with
    | .held value => some value
    | _ => none

/-- The lease while it is served: a terminal value comes from nowhere but the log, and a
settled deadline is about to end the session. -/
structure Sound (d : LeasedDaemon) : Prop where
  disarmed : .disarmed ∈ d.log → d.startupLeaseDisarmed = true
  settled : .deadline ∈ d.log → d.startupLeaseTerminalValue.isSome
  due : .deadline ∈ d.log → d.startupDeadlinePendingShutdown = true ∨ d.shutdownCode.isSome
  exclusive : .disarmed ∈ d.log → .deadline ∉ d.log
  held : d.held = d.startupLeaseTerminalValue.toList

/-- What every operation of the daemon does to the lease. -/
structure Follows (d d' : LeasedDaemon) : Prop where
  generation : d'.generation = d.generation
  lease : d'.startupLease = d.startupLease
  closing : d.closing = true → d'.closing = true
  terminal : ∀ v, d.startupLeaseTerminalValue = some v → d'.startupLeaseTerminalValue = some v
  recorded : ∀ v, d.startupLeaseTerminalValue = some v → d.recorded = some v →
    d'.recorded = some v
  sound : d.Sound → d'.Sound

theorem Follows.refl (d : LeasedDaemon) : Follows d d :=
  ⟨rfl, rfl, id, fun _ h ↦ h, fun _ _ h ↦ h, id⟩

theorem Follows.trans {d e f : LeasedDaemon} (h : Follows d e) (h' : Follows e f) :
    Follows d f where
  generation := h'.generation.trans h.generation
  lease := h'.lease.trans h.lease
  closing := h'.closing ∘ h.closing
  terminal := fun v hv ↦ h'.terminal v (h.terminal v hv)
  recorded := fun v hv hr ↦ h'.recorded v (h.terminal v hv) (h.recorded v hv hr)
  sound := h'.sound ∘ h.sound

/-- What settling can come to, with the state it leaves. -/
inductive Settled (force : Bool) (d : LeasedDaemon) : Option String × LeasedDaemon → Prop
  | held {value : String} (h : d.startupLeaseTerminalValue = some value) :
    Settled force d (some value, d)
  | refused : Settled force d (none, d)
  | foreign (h : d.startupLeaseTerminalValue = none) : Settled force d (none, d.disarm)
  | settled (value : String) (file : Option SessionMetadata)
      (h : d.startupLeaseTerminalValue = none) (hd : d.startupLeaseDisarmed = false ∨ force) :
    Settled force d (some value, hold value (disarm { d with file := file }))

theorem settleStartupLifecycle_settled (json : SerdeJson) (cause : StartupLeaseTerminalCause)
    (force : Bool) (io : MutateIo) (d : LeasedDaemon) :
    Settled force d (d.settleStartupLifecycle json cause force io) := by
  unfold settleStartupLifecycle
  split
  · exact .refused
  · next h => exact .held h
  next lease hl ht =>
  split
  · exact .refused
  next hd =>
  dsimp only
  have hm := mutateMetadataUnderLock_mutated io d.generation
    (settleTag lease.lifecycleTag (terminalStartupLeaseValue json d.generation cause)) d.file
  generalize mutateMetadataUnderLock io d.generation
    (settleTag lease.lifecycleTag (terminalStartupLeaseValue json d.generation cause)) d.file
      = r at hm
  have hd' : d.startupLeaseDisarmed = false ∨ force = true := by
    cases h₁ : d.startupLeaseDisarmed <;> cases h₂ : force <;> simp_all
  cases hm with
  | refused h =>
    obtain rfl | rfl | rfl | rfl := h
    · exact .refused
    · exact .refused
    · exact .foreign ht
    · exact .refused
  | unchanged => exact .settled _ _ ht hd'
  | changed => exact .settled _ _ ht hd'

theorem Sound.disarm {d : LeasedDaemon} (h : d.Sound) : d.disarm.Sound :=
  ⟨fun _ ↦ rfl, h.settled, h.due, h.exclusive, h.held⟩

theorem Sound.hold {d : LeasedDaemon} (h : d.Sound) (ht : d.startupLeaseTerminalValue = none)
    (value : String) : (d.hold value).Sound where
  disarmed := by simpa [LeasedDaemon.hold, ht] using h.disarmed
  settled := by simp [LeasedDaemon.hold]
  due := by simpa [LeasedDaemon.hold, ht] using h.due
  exclusive := by simpa [LeasedDaemon.hold, ht] using h.exclusive
  held := by
    have hh := h.held
    simp only [LeasedDaemon.held, ht] at hh
    simp [LeasedDaemon.hold, LeasedDaemon.held, ht, hh]

theorem Sound.ofFile {d : LeasedDaemon} (h : d.Sound) (file : Option SessionMetadata) :
    ({ d with file := file } : LeasedDaemon).Sound :=
  ⟨h.disarmed, h.settled, h.due, h.exclusive, h.held⟩

theorem Settled.follows {force : Bool} {d : LeasedDaemon} {r : Option String × LeasedDaemon}
    (h : Settled force d r) : Follows d r.2 := by
  cases h with
  | held => exact .refl d
  | refused => exact .refl d
  | foreign =>
    exact ⟨rfl, rfl, id, fun _ h ↦ h, fun _ _ h ↦ h, Sound.disarm⟩
  | settled value file ht =>
    exact {
      generation := rfl
      lease := rfl
      closing := id
      terminal := by simp [ht]
      recorded := by simp [ht]
      sound := fun hs ↦ ((hs.ofFile file).disarm).hold ht value }

/-- Settling leaves alone what ends the session, and forgets no disarming. -/
theorem Settled.frame {force : Bool} {d : LeasedDaemon} {r : Option String × LeasedDaemon}
    (h : Settled force d r) : (.disarmed ∈ r.2.log → .disarmed ∈ d.log) ∧
      (r.1.isSome → r.2.startupLeaseTerminalValue.isSome) := by
  cases h with
  | held h => simp [h]
  | refused => simp
  | foreign => simp [LeasedDaemon.disarm]
  | settled value file ht => simp [LeasedDaemon.hold, LeasedDaemon.disarm, ht]

theorem freezeChildTree_follows (complete : Bool) (d : LeasedDaemon) :
    Follows d (d.freezeChildTree complete) := by
  unfold freezeChildTree
  split
  · exact ⟨rfl, rfl, id, fun _ h ↦ h, fun _ _ h ↦ h, fun h ↦ ⟨h.1, h.2, h.3, h.4, h.5⟩⟩
  · exact .refl d

theorem resumeFrozenTree_follows (d : LeasedDaemon) : Follows d d.resumeFrozenTree := by
  unfold resumeFrozenTree
  split
  · exact ⟨rfl, rfl, id, fun _ h ↦ h, fun _ _ h ↦ h, fun h ↦ ⟨h.1, h.2, h.3, h.4, h.5⟩⟩
  · exact .refl d

/-- The deadline settles by leaving a terminal value on a lease no client disarmed. -/
theorem settleStartupDeadline_cases (json : SerdeJson) (a : Around) (d : LeasedDaemon) :
    (∃ d', d.settleStartupDeadline json a = (none, d') ∧ Follows d d') ∨
      ∃ value d', d.settleStartupDeadline json a =
          (some value, { d' with log := .deadline :: d'.log }) ∧ Follows d d' ∧
        d'.startupLeaseTerminalValue.isSome ∧ (.disarmed ∈ d'.log → .disarmed ∈ d.log) := by
  have hf := freezeChildTree_follows a.complete d
  have hl : (d.freezeChildTree a.complete).log = d.log := by
    unfold freezeChildTree
    split <;> rfl
  have hs := settleStartupLifecycle_settled json (startupLeaseDeadlineCause
    ((d.freezeChildTree a.complete).teardownTree == some true)) false a.io
    (d.freezeChildTree a.complete)
  generalize hr : (d.freezeChildTree a.complete).settleStartupLifecycle json
    (startupLeaseDeadlineCause ((d.freezeChildTree a.complete).teardownTree == some true)) false
    a.io = r at hs
  obtain ⟨answer, e⟩ := r
  have hd := hf.trans hs.follows
  unfold settleStartupDeadline
  dsimp only
  rw [hr]
  cases answer with
  | none =>
    refine .inl ⟨_, rfl, ?_⟩
    split
    · exact hd.trans (resumeFrozenTree_follows _)
    · exact hd
  | some value =>
    have hfr := hs.frame
    rw [hl] at hfr
    exact .inr ⟨value, e, rfl, hd, hfr.2 rfl, hfr.1⟩

/-- The lease of a daemon whose deadline is settled, when the session is about to end. -/
theorem Follows.deadline {d d' : LeasedDaemon} (h : Follows d d')
    (hd : d.startupLeaseDisarmed = false) (ht : d'.startupLeaseTerminalValue.isSome)
    (hl : .disarmed ∈ d'.log → .disarmed ∈ d.log) (timer : Option Nat) (pending kill : Bool)
    (code : Option Int32) (hp : pending = true ∨ code.isSome) :
    Follows d { d' with
      log := .deadline :: d'.log
      startupLeaseTimer := timer
      startupDeadlinePendingShutdown := pending
      externalKill := kill
      shutdownCode := code } where
  generation := h.generation
  lease := h.lease
  closing := h.closing
  terminal := h.terminal
  recorded := h.recorded
  sound := by
    intro hs
    have hn : .disarmed ∉ d'.log := by
      intro hm
      simpa [hd] using hs.disarmed (hl hm)
    have hs' := h.sound hs
    refine ⟨?_, fun _ ↦ ht, fun _ ↦ hp, ?_, hs'.held⟩
    · intro hm
      exact hs'.disarmed (by simpa using hm)
    · intro hm
      exact absurd (by simpa using hm) hn

/-- The request gets as far as the record and names the value that its tag has. -/
def namesCurrent (d : LeasedDaemon) (a : Around) (request : LifecycleCompareAndSetRequest) :
    Bool :=
  request.expectedGeneration = d.generation && !d.exited && !d.expired a.monotonicNow &&
    d.file.any fun m ↦ m.generation = some d.generation &&
      m.tag request.tag = some request.expectedValue

/-- The request is to put another value in place of a terminal one that the lease holds. -/
def supersedes (d : LeasedDaemon) (request : LifecycleCompareAndSetRequest) : Bool :=
  request.tag = d.lifecycleTag && d.startupLeaseTerminalValue.any fun value ↦
    request.expectedValue ≠ value || request.value ≠ value

theorem eq_of_not_supersedes {d : LeasedDaemon} {request : LifecycleCompareAndSetRequest}
    (h : d.supersedes request = false) (ht : request.tag = d.lifecycleTag) {value : String}
    (hv : d.startupLeaseTerminalValue = some value) :
    request.expectedValue = value ∧ request.value = value := by
  simpa [supersedes, ht, hv] using h

/-- A request that succeeds names the current value, and the rest of the record stays. -/
theorem compareAndSetTagValue_record (io : MutateIo) (a : Around)
    (request : LifecycleCompareAndSetRequest) (d : LeasedDaemon)
    (hg : request.expectedGeneration = d.generation) (he : d.exited = false)
    (hx : d.expired a.monotonicNow = false) {r : TagCompareAndSetResult × Option SessionMetadata}
    (hr : compareAndSetTagValue io request.expectedGeneration request.tag request.expectedValue
      request.value d.file = r) :
    r.1.succeeded = false ∧ r.2 = d.file ∨
      d.namesCurrent a request = true ∧ (d.supersedes request = false →
        ∀ v, d.startupLeaseTerminalValue = some v → d.recorded = some v →
          r.2.bind (·.tag d.lifecycleTag) = some v) := by
  have hc := compareAndSetTagValue_cases io request.expectedGeneration request.tag
    request.expectedValue request.value d.file
  rw [hr] at hc
  obtain ⟨hs, hf⟩ | ⟨before, hf, hb, ht, hc⟩ := hc
  · exact .inl ⟨hs, hf⟩
  refine .inr ⟨by simp [namesCurrent, hg, he, hx, hf, hb, ht], ?_⟩
  intro hs v hv hrec
  obtain ⟨-, rfl⟩ | ⟨hne, rfl⟩ := hc
  · exact hrec
  · rw [recorded, hf, Option.bind_some] at hrec
    rw [Option.bind_some]
    by_cases htag : d.lifecycleTag = request.tag
    · have heq := eq_of_not_supersedes hs htag.symm hv
      exact absurd (heq.1.trans heq.2.symm) hne
    · rw [SessionMetadata.tag_withTag_of_ne _ _ htag]
      exact hrec

theorem disarmBy_follows (request : LifecycleCompareAndSetRequest) (d : LeasedDaemon)
    (hp : d.startupDeadlinePendingShutdown = false) (hc : d.shutdownCode = none) :
    Follows d (d.disarmBy request) := by
  unfold disarmBy
  split
  · refine ⟨rfl, rfl, id, fun _ h ↦ h, fun _ _ h ↦ h, ?_⟩
    intro hs
    have hn : .deadline ∉ d.log := by
      intro hm
      simpa [hp, hc] using hs.due hm
    refine ⟨fun _ ↦ rfl, ?_, ?_, ?_, hs.held⟩
    · intro hm
      exact absurd (by simpa [disarm] using hm) hn
    · intro hm
      exact absurd (by simpa [disarm] using hm) hn
    · intro _ hm
      exact absurd (by simpa [disarm] using hm) hn
  · exact .refl d

theorem hold_follows {value : String} {d : LeasedDaemon}
    (h : ∀ v, d.startupLeaseTerminalValue = some v → v = value) : Follows d (d.hold value) := by
  cases ht : d.startupLeaseTerminalValue with
  | none => exact ⟨rfl, rfl, id, by simp [ht], by simp [ht], fun hs ↦ hs.hold ht value⟩
  | some v =>
    obtain rfl := h v ht
    have he : d.hold v = d := by
      cases d
      simp_all [hold]
    rw [he]
    exact .refl d

/-- An accepted request in good order changes no terminal value of the lease. -/
theorem accept_follows (json : SerdeJson) (request : LifecycleCompareAndSetRequest)
    (d : LeasedDaemon) (file : Option SessionMetadata)
    (hp : d.startupDeadlinePendingShutdown = false) (hc : d.shutdownCode = none)
    (hs : d.supersedes request = false)
    (hr : ∀ v, d.startupLeaseTerminalValue = some v → d.recorded = some v →
      file.bind (·.tag d.lifecycleTag) = some v) :
    Follows d (accept json request { d with file := file }) := by
  have hf : Follows d { d with file := file } :=
    ⟨rfl, rfl, id, fun _ h ↦ h, hr, fun h ↦ h.ofFile file⟩
  have hd := hf.trans (disarmBy_follows request { d with file := file } hp hc)
  unfold accept
  dsimp only
  split
  · next ht =>
    refine hd.trans (hold_follows ?_)
    have hterm : (disarmBy request { d with file := file }).startupLeaseTerminalValue =
        d.startupLeaseTerminalValue := by
      unfold disarmBy
      split <;> rfl
    have htag : request.tag = d.lifecycleTag := by
      have hl := hd.lease
      simpa only [lifecycleTag, hl] using ht.1
    intro v hv
    exact (eq_of_not_supersedes hs htag (hterm.symm.trans hv)).2.symm
  · exact hd

/-- A request in good order either changes nothing it must not or does not succeed. -/
theorem compareAndSetLifecycle_follows (json : SerdeJson) (a : Around)
    (request : LifecycleCompareAndSetRequest) (d : LeasedDaemon) (hc : d.shutdownCode = none)
    (h : d.namesCurrent a request = true →
      d.startupDeadlinePendingShutdown = false ∧ d.supersedes request = false) :
    Follows d (d.compareAndSetLifecycle json a request).2 := by
  unfold compareAndSetLifecycle
  split
  · exact .refl d
  next hg =>
  rw [not_not] at hg
  split
  · exact .refl d
  split
  · exact .refl d
  split
  · exact (settleStartupLifecycle_settled json .exit true a.io d).follows
  next he =>
  split
  · next hx =>
    have hd : d.startupLeaseDisarmed = false := by
      cases hl : d.startupLease with
      | none => simp [expired, hl] at hx
      | some lease =>
        simp only [expired, hl, Option.any_some, Bool.and_eq_true, Bool.not_eq_true'] at hx
        exact hx.1
    obtain ⟨d', hs, hf⟩ | ⟨value, d', hs, hf, ht, hl⟩ := settleStartupDeadline_cases json a d
    · rw [hs]
      exact hf
    · rw [hs]
      exact hf.deadline hd ht hl (some (a.now + 25000000)) true d'.externalKill d'.shutdownCode
        (.inl rfl)
  · next hx =>
    have hr := compareAndSetTagValue_record a.io a request d hg (by simpa using he)
      (by simpa using hx) (by rfl)
    generalize compareAndSetTagValue a.io request.expectedGeneration request.tag
      request.expectedValue request.value d.file = r at hr
    obtain ⟨result, file⟩ := r
    obtain ⟨hs, rfl⟩ | ⟨hn, hr⟩ := hr
    · cases result with
      | changed => cases hs
      | unchanged => cases hs
      | valueMismatch => exact .refl d
      | busy => exact .refl d
      | missing => exact .refl d
      | generationMismatch => exact .refl d
      | stale => exact .refl d
    · obtain ⟨hp, hsup⟩ := h hn
      have hfile : Follows d { d with file := file } :=
        ⟨rfl, rfl, id, fun _ h ↦ h, hr hsup, fun h ↦ h.ofFile file⟩
      have hacc := accept_follows json request d file hp hc hsup (hr hsup)
      cases result with
      | changed => exact hacc
      | unchanged => exact hacc
      | valueMismatch => exact hfile
      | busy => exact hfile
      | missing => exact hfile
      | generationMismatch => exact hfile
      | stale => exact hfile

/-- Only a request that names the current value succeeds. -/
theorem namesCurrent_of_succeeded {json : SerdeJson} {a : Around}
    {request : LifecycleCompareAndSetRequest} {d : LeasedDaemon}
    (h : (d.compareAndSetLifecycle json a request).1.succeeded = true) :
    d.namesCurrent a request = true := by
  unfold compareAndSetLifecycle at h
  split at h
  · cases h
  next hg =>
  rw [not_not] at hg
  split at h
  · cases h
  split at h
  · cases h
  split at h
  · cases h
  next he =>
  split at h
  · split at h <;> cases h
  · next hx =>
    have hr := compareAndSetTagValue_record a.io a request d hg (by simpa using he)
      (by simpa using hx) (by rfl)
    generalize compareAndSetTagValue a.io request.expectedGeneration request.tag
      request.expectedValue request.value d.file = r at hr h
    obtain ⟨hs, -⟩ | ⟨hn, -⟩ := hr
    · obtain ⟨result, file⟩ := r
      cases result <;> simp_all [TagCompareAndSetResult.succeeded,
        LifecycleCompareAndSetResult.succeeded]
    · exact hn

theorem finalizeExit_follows (json : SerdeJson) (a : Around) (d : LeasedDaemon) :
    Follows d (d.finalizeExit json a) := by
  have hs := (settleStartupLifecycle_settled json .exit true a.io d).follows
  exact hs.trans ⟨rfl, rfl, id, fun _ h ↦ h, fun _ _ h ↦ h, fun h ↦ ⟨h.1, h.2, h.3, h.4, h.5⟩⟩

/-- The request that a turn's message makes, when it is one. -/
def Turn.request (t : Turn) : Option LifecycleCompareAndSetRequest :=
  match t.msg with
  | some (.lifecycleCas request) => request.filter (·.validate)
  | _ => none

/-- A turn in good order: while the lease waits for its end no request is accepted, and
none puts another value in place of a terminal one. -/
def orderly (d : LeasedDaemon) : Label → Bool
  | .turn t => d.closing || t.request.all fun request ↦ !(d.namesCurrent t.handling request &&
      (d.startupDeadlinePendingShutdown || d.supersedes request))
  | .edit _ => true

theorem orderly_turn {d : LeasedDaemon} {t : Turn} (h : d.orderly (.turn t) = true)
    (hc : d.closing = false) {request : LifecycleCompareAndSetRequest}
    (hr : t.request = some request) (hn : d.namesCurrent t.handling request = true) :
    d.startupDeadlinePendingShutdown = false ∧ d.supersedes request = false := by
  simpa [orderly, hc, hr, hn] using h

theorem onLifecycleCas_follows (json : SerdeJson) (a : Around)
    (request : Option LifecycleCompareAndSetRequest) (d : LeasedDaemon)
    (hc : d.shutdownCode = none)
    (h : ∀ r, request.filter (·.validate) = some r → d.namesCurrent a r = true →
      d.startupDeadlinePendingShutdown = false ∧ d.supersedes r = false) :
    Follows d (d.onLifecycleCas json a request).2 := by
  unfold onLifecycleCas
  split
  · next r hr => exact compareAndSetLifecycle_follows json a r d hc (h r hr)
  · exact .refl d

/-- A message that is no request is handled in good order whatever happened before. -/
theorem handle_exit_follows (json : SerdeJson) (a : Around) (d : LeasedDaemon) (m : Msg)
    (hm : m = .ptyEof ∨ ∃ status, m = .childExited status) : Follows d (d.handle json a m) := by
  have hsame : ∀ status eof drain, Follows d { d with
      childStatus := status, ptyEof := eof, exitDrainDeadline := drain } := fun _ _ _ ↦
    ⟨rfl, rfl, id, fun _ h ↦ h, fun _ _ h ↦ h, fun h ↦ ⟨h.1, h.2, h.3, h.4, h.5⟩⟩
  obtain rfl | ⟨status, rfl⟩ := hm
  · have he := hsame d.childStatus true d.exitDrainDeadline
    simp only [handle]
    split
    · exact he.trans (finalizeExit_follows json a _)
    · exact he
  · simp only [handle]
    split
    · exact .refl d
    split
    · have he := hsame (some status) d.ptyEof d.exitDrainDeadline
      split
      · exact he
      · exact he.trans (finalizeExit_follows json a _)
    · exact hsame (some status) d.ptyEof (some (a.now + Daemon.EXIT_DRAIN * 1000000))

theorem handle_follows (json : SerdeJson) (t : Turn) (d : LeasedDaemon) (m : Msg)
    (hm : t.msg = some m) (hc : d.shutdownCode = none)
    (h : ∀ r, t.request = some r → d.namesCurrent t.handling r = true →
      d.startupDeadlinePendingShutdown = false ∧ d.supersedes r = false) :
    Follows d (d.handle json t.handling m) := by
  cases m with
  | ptyEof => exact handle_exit_follows json _ d _ (.inl rfl)
  | childExited status => exact handle_exit_follows json _ d _ (.inr ⟨status, rfl⟩)
  | lifecycleCas request =>
    refine onLifecycleCas_follows json t.handling request d hc ?_
    intro r hr
    exact h r (by simp [Turn.request, hm, hr])
  | externalKill =>
    simp only [handle, hc, Option.isNone_none, if_true]
    refine ⟨rfl, rfl, id, fun _ h ↦ h, fun _ _ h ↦ h, fun h ↦ ?_⟩
    exact ⟨h.1, h.2, fun _ ↦ .inr rfl, h.4, h.5⟩

theorem serviceDrain_follows (json : SerdeJson) (now : Nat) (a : Around) (d : LeasedDaemon) :
    Follows d (d.serviceDrain json now a) := by
  have he : Follows d { d with exitDrainDeadline := none } :=
    ⟨rfl, rfl, id, fun _ h ↦ h, fun _ _ h ↦ h, fun h ↦ ⟨h.1, h.2, h.3, h.4, h.5⟩⟩
  unfold serviceDrain
  dsimp only
  split
  · split
    · exact he.trans (finalizeExit_follows json a _)
    · exact he
  · exact .refl d

theorem serviceLease_follows (json : SerdeJson) (now : Nat) (a : Around) (d : LeasedDaemon) :
    Follows d (d.serviceLease json now a) := by
  have htimer : ∀ d' : LeasedDaemon, ∀ timer,
      Follows d' { d' with startupLeaseTimer := timer } := fun _ _ ↦
    ⟨rfl, rfl, id, fun _ h ↦ h, fun _ _ h ↦ h, fun h ↦ ⟨h.1, h.2, h.3, h.4, h.5⟩⟩
  unfold serviceLease
  split
  · split
    · refine ⟨rfl, rfl, id, fun _ h ↦ h, fun _ _ h ↦ h, fun h ↦ ?_⟩
      exact ⟨h.1, h.2, fun _ ↦ .inr rfl, h.4, h.5⟩
    split
    · exact htimer d none
    next hd =>
    split
    · exact htimer d none
    split
    · obtain ⟨d', hs, hf⟩ | ⟨value, d', hs, hf, ht, hl⟩ := settleStartupDeadline_cases json a d
      · rw [hs]
        exact hf.trans (htimer d' _)
      · rw [hs]
        exact hf.deadline (by simpa using hd) ht hl d'.startupLeaseTimer
          d'.startupDeadlinePendingShutdown true (some 124) (.inr rfl)
    · exact htimer d _
  · exact .refl d

theorem serviceShutdown_follows (now : Nat) (d : LeasedDaemon) :
    Follows d (d.serviceShutdown now) := by
  unfold serviceShutdown
  split
  · refine ⟨rfl, rfl, id, fun _ h ↦ h, fun _ _ h ↦ h, fun h ↦ ?_⟩
    exact ⟨h.1, h.2, fun _ ↦ .inr rfl, h.4, h.5⟩
  · exact .refl d

theorem settleAttempts_follows (json : SerdeJson) (attempts : List Around) (d : LeasedDaemon) :
    Follows d (settleAttempts json attempts d) := by
  induction attempts generalizing d with
  | nil => exact .refl d
  | cons a rest ih =>
    have hs := (settleStartupLifecycle_settled json .exit true a.io d).follows
    unfold settleAttempts
    split
    · next h =>
      rw [h] at hs
      exact hs
    · next h =>
      rw [h] at hs
      split
      · exact hs
      split
      · exact hs
      · exact hs.trans (ih _)

theorem settleBeforeClose_follows (json : SerdeJson) (attempts : List Around)
    (d : LeasedDaemon) : Follows d (settleBeforeClose json attempts d) := by
  unfold settleBeforeClose
  split
  · exact .refl d
  · exact settleAttempts_follows json attempts d

theorem turn_follows (json : SerdeJson) (t : Turn) (d : LeasedDaemon)
    (hc : d.shutdownCode = none)
    (h : ∀ r, t.request = some r → d.namesCurrent t.handling r = true →
      d.startupDeadlinePendingShutdown = false ∧ d.supersedes r = false) :
    Follows d (d.turn json t) := by
  have hh : Follows d (t.msg.elim d (d.handle json t.handling)) := by
    cases hm : t.msg with
    | none => exact .refl d
    | some m => exact handle_follows json t d m hm hc h
  have hs := ((hh.trans (serviceDrain_follows json t.now t.drain _)).trans
    (serviceLease_follows json t.now t.lease _)).trans (serviceShutdown_follows t.now _)
  unfold turn
  dsimp only
  split
  · refine (hs.trans (settleBeforeClose_follows json t.attempts _)).trans ?_
    exact ⟨rfl, rfl, fun _ ↦ rfl, fun _ h ↦ h, fun _ _ h ↦ h, fun h ↦ ⟨h.1, h.2, h.3, h.4, h.5⟩⟩
  · exact hs

theorem closingTurn_follows (json : SerdeJson) (t : Turn) (d : LeasedDaemon) :
    Follows d (d.closingTurn json t) := by
  unfold closingTurn
  split
  · exact .refl d
  dsimp only
  split
  · exact (handle_exit_follows json _ d _ (.inl rfl)).trans (serviceDrain_follows ..)
  · exact (handle_exit_follows json _ d _ (.inr ⟨_, rfl⟩)).trans (serviceDrain_follows ..)
  · exact serviceDrain_follows ..

/-- The serving loop goes on only without a shutdown code, `lifecycle.rs:1076`. -/
def Serves (d : LeasedDaemon) : Prop := d.closing = false → d.shutdownCode = none

theorem turn_serves (json : SerdeJson) (t : Turn) (d : LeasedDaemon) : (d.turn json t).Serves := by
  unfold turn
  dsimp only
  split
  · intro hc
    cases hc
  · next h =>
    intro _
    simpa using h

/-- A turn in good order, whether the daemon serves or closes. -/
theorem orderly_follows {json : SerdeJson} {t : Turn} {d d' : LeasedDaemon} (hv : d.Serves)
    (h : gate orderly (step json) d (.turn t) = some d') : Follows d d' := by
  rw [gate_eq_some] at h
  obtain ⟨ho, h⟩ := h
  rw [step, Option.some.injEq] at h
  subst h
  split
  · exact closingTurn_follows json t d
  · next hc =>
    have hc' : d.closing = false := by simpa using hc
    refine turn_follows json t d (hv hc') ?_
    intro r hr hn
    exact orderly_turn ho hc' hr hn

theorem step_serves {json : SerdeJson} {l : Label} {d d' : LeasedDaemon} (hv : d.Serves)
    (h : gate orderly (step json) d l = some d') : d'.Serves := by
  cases l with
  | edit file =>
    obtain ⟨-, h⟩ := gate_eq_some.mp h
    cases h
    exact hv
  | turn t =>
    have hf := orderly_follows hv h
    obtain ⟨-, h⟩ := gate_eq_some.mp h
    rw [step, Option.some.injEq] at h
    split at h
    · next hc =>
      intro hc'
      simp [hf.closing hc] at hc'
    · rw [← h]
      exact turn_serves json t d

/-- Every state that turns in good order reach. -/
theorem runs_sound {json : SerdeJson} {d : LeasedDaemon}
    (h : Runs (Started json) (gate orderly (step json)) d) : d.Serves ∧ d.Sound := by
  apply h.induct
  · rintro _ ⟨generation, lease, timerDisabled, now, monotonicNow, file, -, rfl⟩
    refine ⟨fun _ ↦ rfl, ?_, ?_, ?_, ?_, rfl⟩ <;> simp [assemble]
  · intro d l d' _ ih hst
    refine ⟨step_serves ih.1 hst, ?_⟩
    cases l with
    | edit file =>
      obtain ⟨-, h⟩ := gate_eq_some.mp hst
      cases h
      exact ih.2.ofFile file
    | turn t => exact (orderly_follows ih.1 hst).sound ih.2

/-- A lease ends once: over the runs that a condition on their steps allows, a terminal
value stays in the lease and, by the daemon's doing, in the record; no request succeeds
once the deadline is settled; and no lease is both disarmed by a request and settled by its
deadline, nor holds two values in turn. -/
structure SettlesOnce (json : SerdeJson) (ok : LeasedDaemon → Label → Bool) : Prop where
  kept : ∀ d l d' v, Runs (Started json) (gate ok (step json)) d →
    gate ok (step json) d l = some d' → d.startupLeaseTerminalValue = some v →
      d'.startupLeaseTerminalValue = some v
  recorded : ∀ d t d' v, Runs (Started json) (gate ok (step json)) d →
    gate ok (step json) d (.turn t) = some d' → d.startupLeaseTerminalValue = some v →
      d.recorded = some v → d'.recorded = some v
  refused : ∀ d t request, Runs (Started json) (gate ok (step json)) d →
    ok d (.turn t) = true → d.closing = false → .deadline ∈ d.log →
      t.msg = some (.lifecycleCas request) →
        (d.onLifecycleCas json t.handling request).1.succeeded = false
  exclusive : ∀ d, Runs (Started json) (gate ok (step json)) d → .disarmed ∈ d.log →
    .deadline ∉ d.log
  once : ∀ d, Runs (Started json) (gate ok (step json)) d →
    d.held = d.startupLeaseTerminalValue.toList ∧
      (.deadline ∈ d.log → d.startupLeaseTerminalValue.isSome)

/-- With every turn in good order, every lease ends once. -/
theorem orderly_settlesOnce (json : SerdeJson) : SettlesOnce json orderly where
  kept := by
    intro d l d' v hr hst hv
    cases l with
    | edit file =>
      obtain ⟨-, h⟩ := gate_eq_some.mp hst
      cases h
      exact hv
    | turn t => exact (orderly_follows (runs_sound hr).1 hst).terminal v hv
  recorded := by
    intro d t d' v hr hst hv hrec
    exact (orderly_follows (runs_sound hr).1 hst).recorded v hv hrec
  refused := by
    intro d t request hr ho hc hl hm
    obtain ⟨hv, hs⟩ := runs_sound hr
    have hp : d.startupDeadlinePendingShutdown = true := by
      simpa [hv hc] using hs.due hl
    by_contra hsucc
    unfold onLifecycleCas at hsucc
    split at hsucc
    · next r hf =>
      have hn := namesCurrent_of_succeeded (by simpa using hsucc)
      have hreq : t.request = some r := by simp [Turn.request, hm, hf]
      simp [(orderly_turn ho hc hreq hn).1] at hp
    · exact hsucc rfl
  exclusive := fun d hr ↦ (runs_sound hr).2.exclusive
  once := fun d hr ↦ ⟨(runs_sound hr).2.held, (runs_sound hr).2.settled⟩

/-- `serde_json` on objects of plain texts; of other texts only those of one session. -/
def plainJson : SerdeJson where
  toText := plainText
  fromStr s := [terminalObject "g" .deadline, terminalObject "g" .exit,
    startingObject "g" "b" (some 200000000)].find? fun v ↦ plainText v = s
where
  plainText : Value → String
    | .object fields => "\x7b" ++ ",".intercalate (fields.map fun f ↦
        "\"" ++ f.1 ++ "\":\"" ++ f.2.asStr.getD "" ++ "\"") ++ "\x7d"
    | _ => ""

/-- A lease of 200 ms on the tag `run`, armed when the boot's clock stands at 0. -/
def shortLease : ArmedStartupLease :=
  ⟨"g", "run", "b", some 200000000, plainJson.toText (startingObject "g" "b" (some 200000000))⟩

/-- The daemon of that lease as it begins to serve. -/
def shortDaemon : LeasedDaemon :=
  assemble "g" (some shortLease) false 0 (some 0) (some
    { generation := some "g"
      tags := some [("run", shortLease.startingValue)]
      publicationBinding := none
      publicationRootId := none
      publicationCapability := none
      launch := ⟨"sh", [], "/", none, none, none, none, none⟩
      extra := [] })

/-- A turn whose message is a request on that lease's tag, with everything at hand. -/
def casTurn (now : Nat) (expectedValue value : String) : Label :=
  .turn
    { msg := some (.lifecycleCas (some ⟨"g", "run", expectedValue, value⟩))
      handling := ⟨now, some now, true, ⟨true, true, true⟩, true⟩
      now := now
      drain := ⟨now, some now, true, ⟨true, true, true⟩, true⟩
      lease := ⟨now, some now, true, ⟨true, true, true⟩, true⟩
      attempts := [] }

/-- The request that finds the deadline passed, and three in the wait that follows: each
names the value that the one before it left. -/
def lateRequests : List Label :=
  [casTurn 200000001 shortLease.startingValue "ready",
    casTurn 201000000 (terminalStartupLeaseValue plainJson "g" .deadline)
      (terminalStartupLeaseValue plainJson "g" .exit),
    casTurn 202000000 (terminalStartupLeaseValue plainJson "g" .exit) shortLease.startingValue,
    casTurn 203000000 shortLease.startingValue "ready"]

private theorem short_started : Started plainJson shortDaemon := by
  refine ⟨"g", some shortLease, false, 0, some 0, _, ?_, rfl⟩
  intro l hl
  cases hl
  exact ⟨⟨some 200, "run"⟩, some "b", some 0, by decide⟩

private theorem short_run (n : Nat) (P : LeasedDaemon → Bool)
    (h : (replay (gate (fun _ _ ↦ true) (step plainJson)) shortDaemon
      (lateRequests.take n)).any P = true) :
    ∃ d, Runs (Started plainJson) (gate (fun _ _ ↦ true) (step plainJson)) d ∧ P d = true := by
  rw [Option.any_eq_true] at h
  obtain ⟨d, hd, hp⟩ := h
  exact ⟨d, .replay (.base short_started) hd, hp⟩

/-- A request in the wait for the shutdown puts another value in place of the terminal one;
two more disarm a lease whose deadline is settled, and the session is not ended. -/
theorem lease_resettles :
    ¬ SettlesOnce plainJson (fun _ _ ↦ true) ∧
      ∃ d, Runs (Started plainJson) (gate (fun _ _ ↦ true) (step plainJson)) d ∧
        .disarmed ∈ d.log ∧ .deadline ∈ d.log ∧ d.held.length = 2 ∧
          d.startupLeaseTimer = none ∧ d.shutdownCode = none := by
  constructor
  · intro h
    obtain ⟨d, hr, hd⟩ := short_run 1 (fun d ↦
      d.startupLeaseTerminalValue = some (terminalStartupLeaseValue plainJson "g" .deadline) ∧
        (gate (fun _ _ ↦ true) (step plainJson) d (casTurn 201000000
          (terminalStartupLeaseValue plainJson "g" .deadline)
          (terminalStartupLeaseValue plainJson "g" .exit))).any fun e ↦
            e.startupLeaseTerminalValue =
              some (terminalStartupLeaseValue plainJson "g" .exit)) (by decide)
    simp only [Bool.decide_and, Bool.and_eq_true, decide_eq_true_eq, Option.any_eq_true] at hd
    obtain ⟨hv, e, he, hev⟩ := hd
    have hk := h.kept d _ e _ hr he hv
    rw [hev] at hk
    exact absurd hk (by decide)
  · obtain ⟨d, hr, hd⟩ := short_run 4 (fun d ↦ .disarmed ∈ d.log ∧ .deadline ∈ d.log ∧
      d.held.length = 2 ∧ d.startupLeaseTimer = none ∧ d.shutdownCode = none) (by decide)
    exact ⟨d, hr, by simpa using hd⟩

end LeasedDaemon
end PtySpec.Serving
