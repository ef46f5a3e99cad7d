import PtySpec.Operation.Effects

/-!
# The operation actor

Model of the `Actor` in `crates/pty/src/daemon/operation.rs:1036-1845`: the thread of a
launch operation's daemon that alone makes transitions, writes the record and issues
tickets. Each method is a program over `Op` that returns the actor's next state; the
loop of `run` takes the next event once the program of the last one has returned.
-/

namespace PtySpec.Daemon

open Lib Operation

/-- How far the operation is, `operation.rs:1039`. -/
inductive Stage where
  | deciding
  | starting
  | held
  | ready
  | done
  deriving DecidableEq, Repr

/-- `TicketKind`, `operation.rs:144`. -/
inductive TicketKind where
  | publish
  | forkChild
  deriving DecidableEq, Repr

/-- `TicketState`, `operation.rs:150`. -/
inductive TicketState where
  | issued
  | committed
  | completed
  | revoked
  deriving DecidableEq, Repr

/-- `Ticket`, `operation.rs:157`. -/
structure Ticket where
  id : Nat
  kind : TicketKind
  state : TicketState
  deriving DecidableEq, Repr

/-- `Ticket::view`, `operation.rs:164`. -/
def Ticket.view (t : Ticket) : TicketView where
  id := t.id
  kind := match t.kind with
    | .publish => "publish"
    | .forkChild => "fork-child"
  state := match t.state with
    | .issued => "issued"
    | .committed => "committed"
    | .completed => "completed"
    | .revoked => "revoked"

/-- A step the actor parked at a held barrier, `operation.rs:1053`. -/
inductive Pending where
  | decide
  | transferCommit (requestId : String)
  | transferRelease
  | transferAck (released : Bool)
  deriving DecidableEq, Repr

/-- The held child the actor knows, `operation.rs:1067`; `gate` numbers its gate. -/
structure ChildRecord where
  id : Option ProcessId
  pid : Int32
  gate : Nat
  deriving DecidableEq, Repr

/-- What the worker's effect left, `operation.rs:116`. -/
inductive Completion where
  | published
  | forked (pid : Int32) (gate : Nat)
  deriving DecidableEq, Repr

/-- The held child's acknowledgement, `held.rs:500`. -/
inductive Ack where
  | prepared
  | failed (step : String) (errno : Int)
  | lost
  deriving DecidableEq, Repr

/-- `OwnerInput`, `operation.rs:111`. -/
inductive OwnerInput where
  | frame (f : OwnerFrame)
  | eof
  deriving DecidableEq, Repr

/-- What the actor hears, `operation.rs:93`. A `reply` numbers the channel to answer
on, a `kill` the signal a shutdown stands for. -/
inductive ActorEvent where
  | owner (input : OwnerInput)
  | synced
  | commit (ticket reply : Nat)
  | completed (ticket : Nat) (result : Except String Completion)
  | childAck (ack : Ack)
  | readyPoint (reply : Nat)
  | childExited
  | shutdown (kill : Nat)
  | released (name : String)

/-- `Actor`, `operation.rs:1074`; `locked` says whether it still has its lock. -/
structure Actor where
  digest : String
  locked : Bool
  record : OperationRecord
  me : ProcessId
  operationId : String
  envelopeSha256 : String
  envelope : Value
  expected : Option String
  runtimeId : String
  seq : Nat
  tickets : List Ticket
  stage : Stage
  retiring : Bool
  serving : Bool
  published : Bool
  child : Option ChildRecord
  generation : String
  pending : Option Pending
  deferredTransfer : Option String
  syncing : Bool

namespace Actor

/-- `Actor::frame`, `operation.rs:1115`. -/
def frame (a : Actor) (kind : String) (more : List (String × Value)) : Act Actor := do
  let a := { a with seq := a.seq + 1 }
  env (.frame (producerFrame kind a.seq a.operationId a.envelopeSha256 a.envelope (some a.record)
    (a.tickets.map Ticket.view) more))
  return a

/-- `Actor::reject`, `operation.rs:1131`. -/
def reject (a : Actor) (code : RejectCode) (requestId : Option String) : Act Actor :=
  a.frame "command-rejected" [("code", .string code.asStr), ("requestId", .ofOption requestId)]

/-- `Actor::write`, `operation.rs:1144`: whether the record moved. -/
def write (a : Actor) (next : OperationRecord) (label : String) : Act (Bool × Actor) :=
  if a.locked then do
    match ← Prog.query (Op.writeCas a.record next label) with
    | .ok written => return (true, { a with record := written })
    | .error error =>
      env (.warn ("pty daemon: operation record write refused at " ++ label ++ ": " ++
        error.display))
      return (false, a)
  else
    return (false, a)

/-- The common end of `abandon` and `finish`: close the channel, drop the lock, and end
the startup or the serving loop. -/
def stop (a : Actor) (code : Int32) : Act Actor := do
  env .ioClose
  env .unlock
  if a.serving then
    Prog.query (Op.tellLoop (.operationEnd code))
  else
    Prog.query (Op.tellWorker (.stop code))
  return { a with locked := false, stage := .done }

/-- `Actor::abandon`, `operation.rs:1169`: a record write did not land. -/
def abandon (a : Actor) (at_ : String) : Act Actor := do
  env (.warn ("pty daemon: stopping the launch operation without further effects after a " ++
    "failed record write at " ++ at_))
  a.stop 1

/-- `Actor::finish`, `operation.rs:1317`. -/
def finish (a : Actor) (code : Int32) : Act Actor := a.stop code

/-- `Actor::hold`, `operation.rs:1186`: park the step if a test armed the barrier. -/
def hold (a : Actor) (name : String) (pending : Pending) : Act (Bool × Actor) := do
  if ← env (.armed name) then
    env (.waitReleased name)
    return (true, { a with pending := some pending })
  else
    return (false, a)

/-- `Actor::issue`, `operation.rs:1200`. -/
def issue (a : Actor) (kind : TicketKind) : Nat × Actor :=
  let id := a.tickets.length + 1
  (id, { a with tickets := a.tickets ++ [⟨id, kind, .issued⟩] })

/-- `Actor::ticket`, `operation.rs:1210`: the first ticket of that number. -/
def ticket (a : Actor) (id : Nat) : Option Ticket := a.tickets.find? (·.id == id)

/-- Change the state of the first ticket of that number. -/
def setTicket (tickets : List Ticket) (id : Nat) (state : TicketState) : List Ticket :=
  match tickets with
  | [] => []
  | t :: rest =>
    if t.id = id then { t with state := state } :: rest else t :: setTicket rest id state

/-- `Actor::committed_in_flight`, `operation.rs:1214`. -/
def committedInFlight (a : Actor) : Bool := a.tickets.any (·.state == .committed)

/-- `Actor::is_transferred`, `operation.rs:1220`. -/
def isTransferred (a : Actor) : Bool := a.record.state == .transferred

/-- `Actor::begin_sync`, `operation.rs:1239`. -/
def beginSync (a : Actor) : Act Actor := do
  env .ioSync
  return { a with syncing := true }

/-- `Actor::cancel_before_launch`, `operation.rs:1296`. -/
def cancelBeforeLaunch (a : Actor) (cause : Cause) (requestId observed : Option String) :
    Act Actor := do
  let decision ← Decision.now cause requestId observed
  let (written, a) ← a.write
    { a.record with state := .cancelled, writer := .nobody, decision := some decision } "decision"
  if !written then
    a.abandon "decision"
  else
    let a ← a.frame "decision" [("decision", .opt Decision.json a.record.decision)]
    env (.releaseCreationLock a.runtimeId a.me.pid)
    a.finish 3

/-- The lock file of the session names this daemon and its nonce, `operation.rs:1247`. -/
def holdsCreationLock (me : ProcessId) (words : Option (List String)) (nonce : Option String) :
    Bool :=
  words.any fun ws ↦ ws[0]? == some (toString me.pid) && ws[1]? == nonce

/-- The decisive write of `decide` and what follows it, `operation.rs:1267`. -/
def launchDecided (a : Actor) (predecessor : Option String) : Act Actor := do
  let createdAt ← env .now
  let generation ← env .newGeneration
  let (ticket, a) := a.issue .publish
  let decision ← Decision.now .launch none predecessor
  let (written, a) ← a.write
    { a.record with
      state := .launched
      decision := some decision
      incarnation := some ⟨toString a.me.pid ++ ":" ++ createdAt, a.runtimeId, generation, a.me,
        none⟩ } "decision"
  if !written then
    a.abandon "decision"
  else
    let a := { a with generation := generation, stage := .starting }
    let a ← a.frame "decision" [("decision", .opt Decision.json a.record.decision)]
    Prog.query (Op.tellWorker (.publish ticket generation createdAt predecessor
      (.object [("digest", .string a.digest), ("phase", .string "startup")])))
    return a

/-- `Actor::decide`, `operation.rs:1245`. -/
def decide (a : Actor) : Act Actor := do
  let words ← env (.creationLockWords a.runtimeId)
  let nonce ← env .creationLockNonce
  if !holdsCreationLock a.me words nonce then
    a.cancelBeforeLaunch .refused none (some "creation-lock-not-delegated")
  else
    let occupancy ← env (.observeOccupancy a.runtimeId)
    match occupancyRule occupancy a.expected with
    | .error (cause, observed) => a.cancelBeforeLaunch cause none (some observed)
    | .ok predecessor => a.launchDecided predecessor

/-- `verify_child_gone`, `operation.rs:1782`. -/
def verifyChildGone (child : ChildRecord) : Act String :=
  match child.id with
  | none => return "unrecorded"
  | some id => do
    let boot ← env .bootIdentity
    let _ ← env (.waitWatch child.pid 1)
    if ← env (.watchObserved child.pid) then
      return livenessJson (← env (.livenessAfterExit id boot))
    else if id.liveness (← env .procTable) boot = .gone then
      return "gone"
    else
      env (.killChild child.pid)
      let waited ← env (.waitWatch child.pid 5)
      if ← env (.watchObserved child.pid) then
        return livenessJson (← env (.livenessAfterExit id boot))
      else if id.liveness (← env .procTable) boot = .gone then
        return "gone"
      else if waited = .unsupported then
        return "exit-wait-unavailable"
      else
        return "live"

/-- The child's part of `complete_retirement`, `operation.rs:1644`: its evidence and
whether it is gone. -/
def retireChild (a : Actor) : Act (List (String × Value) × Bool) :=
  match a.child with
  | none => return ([], true)
  | some child => do
    env (.armWatch child.pid)
    env (.shutGate child.gate)
    let outcome ← verifyChildGone child
    return ([("child", .object [("pid", .number child.pid.toInt), ("status", .string outcome)])],
      outcome == "gone")

/-- The registry's part of `complete_retirement`, `operation.rs:1652`. -/
def retireRow (a : Actor) : Act (List (String × Value) × Bool) :=
  if a.published then do
    let row ← env (.unwindPublication a.runtimeId a.generation a.me.pid.toInt32)
    return ([("row", .string row)],
      row == "removed" || row == "absent" || row == "other-generation")
  else
    return ([], true)

/-- `Actor::complete_retirement`, `operation.rs:1637`. -/
def completeRetirement (a : Actor) : Act Actor :=
  if !a.retiring || a.stage = .done then
    return a
  else do
    let (childEvidence, childGone) ← a.retireChild
    env (.releaseCreationLock a.runtimeId a.me.pid)
    let (rowEvidence, rowGone) ← a.retireRow
    let requestId := (a.record.retirement.map (·.requestId)).getD ""
    let (written, a) ← a.write
      { a.record with
        writer := .nobody
        retirement := some ⟨requestId,
          if childGone && rowGone then .verified else .incomplete,
          .object (childEvidence ++ rowEvidence)⟩ } "retirement-terminal"
    if !written then
      a.abandon "retirement-terminal"
    else
      let a ← a.frame "retirement" [("retirement", .opt Retirement.json a.record.retirement)]
      a.finish 0

/-- Take the parked step; a transfer that has not committed is refused, `operation.rs:1602`. -/
def rejectPending (a : Actor) : Act Actor :=
  match a.pending with
  | some (.transferCommit requestId) =>
    ({ a with pending := none } : Actor).reject .notHeld (some requestId)
  | _ => return { a with pending := none }

/-- Refuse a transfer that waits for `ready`, `operation.rs:1606`. -/
def rejectDeferred (a : Actor) : Act Actor :=
  match a.deferredTransfer with
  | some requestId =>
    ({ a with deferredTransfer := none } : Actor).reject .notHeld (some requestId)
  | none => return a

/-- Revoke every ticket that is only issued, `operation.rs:1609`. -/
def revokeIssued (a : Actor) : Actor :=
  { a with tickets := a.tickets.map fun t ↦
      if t.state = .issued then { t with state := .revoked } else t }

/-- The frame that acknowledges the owner's cause, `operation.rs:1625`. -/
def acknowledge (a : Actor) (cause : Option Cause) (requestId : String) : Act Actor :=
  match cause with
  | none => return a
  | some cause => do
    let decision ← Decision.now cause (if cause = .cancel then some requestId else none) none
    a.frame "decision" [("decision", decision.json)]

/-- Record the request of a retirement and, unless a committed effect is still to
finish, conclude it, `operation.rs:1615`. -/
def recordRetirement (a : Actor) (cause : Option Cause) (requestId : String) : Act Actor := do
  let (written, a) ← a.write
    { a.record with retirement := some ⟨requestId, .requested, .object []⟩ } "retirement-requested"
  if !written then
    a.abandon "retirement-requested"
  else
    let a ← a.acknowledge cause requestId
    let a := { a with retiring := true }
    if !a.committedInFlight then a.completeRetirement else return a

/-- `Actor::retire`, `operation.rs:1597`. -/
def retire (a : Actor) (cause : Option Cause) (requestId : String) : Act Actor :=
  if a.retiring || a.stage = .done || a.isTransferred then
    return a
  else do
    let a ← a.rejectPending
    let a ← a.rejectDeferred
    a.revokeIssued.recordRetirement cause requestId

/-- `Actor::finish_transfer`, `operation.rs:1732`. The second write may fail: the commit
is durable either way. -/
def finishTransfer (a : Actor) (released : Bool) : Act Actor := do
  env (.markTransferred a.runtimeId a.generation)
  let (_, a) ← a.write
    { a.record with
      writer := .nobody
      transfer := a.record.transfer.map fun t ↦ { t with released := some released } }
    "transfer-released"
  let a ← a.frame "transferred" [("transfer", .opt Transfer.json a.record.transfer)]
  env .ioClose
  env .unlock
  return { a with locked := false, stage := .done }

/-- The release byte of the child, when there is one, `operation.rs:1723`. -/
def releaseChild (child : Option ChildRecord) : Act Bool :=
  match child with
  | some child => Prog.query (Op.release child.gate)
  | none => return false

/-- `Actor::release_transfer`, `operation.rs:1722`. -/
def releaseTransfer (a : Actor) : Act Actor := do
  let released ← releaseChild a.child
  let a := { a with child := none }
  let (parked, a) ← a.hold "released-before-ack" (.transferAck released)
  if parked then return a else a.finishTransfer released

/-- `Actor::commit_transfer`, `operation.rs:1696`. -/
def commitTransfer (a : Actor) (requestId : String) : Act Actor :=
  if a.retiring || a.stage = .done then
    a.reject .notHeld (some requestId)
  else do
    let committedAt ← env .now
    let (written, a) ← a.write
      { a.record with
        state := .transferred
        transfer := some ⟨requestId, committedAt, none⟩ } "transfer-commit"
    if !written then
      let a ← a.reject .notHeld (some requestId)
      a.abandon "transfer-commit"
    else
      Prog.query Op.setTransferred
      Prog.query (Op.tellLoop .operationTransferred)
      let (parked, a) ← a.hold "transfer-committed-before-release" .transferRelease
      if parked then return a else a.releaseTransfer

/-- `Actor::start_transfer`, `operation.rs:1684`. -/
def startTransfer (a : Actor) (requestId : String) : Act Actor := do
  let (parked, a) ← a.hold "transfer-before-commit" (.transferCommit requestId)
  if parked then return a else a.commitTransfer requestId

/-- `ActorEvent::Commit`, `operation.rs:1338`. -/
def onCommit (a : Actor) (ticket reply : Nat) : Act Actor :=
  match a.ticket ticket with
  | none => do
    Prog.query (Op.replyCommit reply ticket false)
    return a
  | some t =>
    if t.state = .issued ∧ !a.retiring then do
      Prog.query (Op.replyCommit reply ticket true)
      return { a with
        tickets := setTicket a.tickets ticket .committed
        published := a.published || t.kind = .publish }
    else do
      Prog.query (Op.replyCommit reply ticket false)
      return { a with
        tickets := if t.state = .issued then setTicket a.tickets ticket .revoked else a.tickets }

/-- A completed publication, `operation.rs:1509`. -/
def onPublished (a : Actor) : Act Actor := do
  env (.releaseCreationLock a.runtimeId a.me.pid)
  if a.retiring then
    return a
  else
    let (ticket, a) := a.issue .forkChild
    let (written, a) ← a.write { a.record with phase := .childForking } "child-forking"
    if written then
      Prog.query (Op.tellWorker (.forkChild ticket))
      return a
    else
      a.abandon "child-forking"

/-- A completed fork, `operation.rs:1527`. -/
def onForked (a : Actor) (pid : Int32) (gate : Nat) : Act Actor := do
  let id := (← env (.processOf pid.toUInt32)).toOption
  let a := { a with child := some ⟨id, pid, gate⟩ }
  if a.retiring then
    return a
  else
    match id with
    | none => a.retire none "producer:child-exited"
    | some id =>
      let (written, a) ← a.write
        { a.record with
          phase := .childPreparing
          participants := { a.record.participants with child := some id }
          incarnation := a.record.incarnation.map fun inc ↦ { inc with child := some id } }
        "child-preparing"
      if written then return a else a.abandon "child-preparing"

/-- The worker's answer for a ticket of that kind, `operation.rs:1508`. -/
def onResult (a : Actor) (kind : TicketKind) (result : Except String Completion) : Act Actor :=
  match kind, result with
  | .publish, .ok _ => a.onPublished
  | .forkChild, .ok (.forked pid gate) => a.onForked pid gate
  | .forkChild, .ok .published => return a
  | _, .error message => do
    env (.warn ("pty daemon: launch operation startup failed: " ++ message))
    if a.retiring then return a else a.retire none "producer:startup-failed"

/-- `Actor::on_completed`, `operation.rs:1499`. -/
def onCompleted (a : Actor) (id : Nat) (result : Except String Completion) : Act Actor :=
  match a.ticket id with
  | none => return a
  | some t => do
    let a := { a with tickets := setTicket a.tickets id .completed }
    let a ← a.onResult t.kind result
    -- where the source returns early the actor has stopped or does not retire
    if a.retiring && !a.committedInFlight then a.completeRetirement else return a

/-- `Actor::on_ack`, `operation.rs:1565`. -/
def onAck (a : Actor) (ack : Ack) : Act Actor :=
  if a.retiring || a.stage ≠ .starting then
    return a
  else
    match ack with
    | .prepared => do
      let (written, a) ← a.write { a.record with phase := .held } "held"
      if !written then
        a.abandon "held"
      else
        let a := { a with stage := .held }
        let a ← a.frame "held" []
        Prog.query (Op.tellWorker .readyPoint)
        return a
    | .failed step errno => do
      env (.warn ("pty daemon: the held child failed to prepare at " ++ step ++ ": " ++
        toString errno))
      a.retire none ("producer:prepare-" ++ step)
    | .lost => a.retire none "producer:child-lost"

/-- `ActorEvent::ReadyPoint`, `operation.rs:1361`. -/
def onReadyPoint (a : Actor) (reply : Nat) : Act Actor :=
  if a.stage = .held ∧ !a.retiring then do
    let a := { a with stage := .ready, serving := true }
    let a ← a.frame "ready" []
    Prog.query (Op.replyReady reply true)
    match a.deferredTransfer with
    | some requestId => ({ a with deferredTransfer := none } : Actor).startTransfer requestId
    | none => return a
  else do
    Prog.query (Op.replyReady reply false)
    return a

/-- `Actor::on_released`, `operation.rs:1398`. -/
def onReleased (a : Actor) (name : String) : Act Actor :=
  match a.pending with
  | some .decide =>
    if name = "before-decision" ∧ a.stage = .deciding then
      { a with pending := none }.beginSync
    else return a
  | some (.transferCommit requestId) =>
    if name = "transfer-before-commit" then
      { a with pending := none }.commitTransfer requestId
    else return a
  | some .transferRelease =>
    if name = "transfer-committed-before-release" then
      { a with pending := none }.releaseTransfer
    else return a
  | some (.transferAck released) =>
    if name = "released-before-ack" then
      { a with pending := none }.finishTransfer released
    else return a
  | none => return a

/-- `Actor::on_owner` before the decision, `operation.rs:1417`. -/
def onOwnerDeciding (a : Actor) (input : OwnerInput) : Act Actor :=
  match input with
  | .eof => a.cancelBeforeLaunch .ownerEof none none
  | .frame .malformed => do
    let a ← a.reject .malformed none
    a.cancelBeforeLaunch .malformed none none
  | .frame (.command (.cancel requestId)) => a.cancelBeforeLaunch .cancel (some requestId) none
  | .frame (.command command) => a.reject .notHeld (some command.requestId)
  | .frame (.rejected code requestId) => a.reject code requestId

/-- A transfer command after the decision, `operation.rs:1449`. -/
def onTransfer (a : Actor) (requestId incarnationId generation : String) : Act Actor :=
  if a.isTransferred then
    a.reject .alreadyTransferred (some requestId)
  else if a.deferredTransfer.isSome || a.pending.any fun p ↦
      match p with
      | .transferCommit _ => true
      | _ => false then
    a.reject .alreadyDecided (some requestId)
  else if a.retiring || !(a.record.phase == .held && a.child.isSome) then
    a.reject .notHeld (some requestId)
  else if !(a.record.incarnation.any fun inc ↦
      inc.id == incarnationId && inc.generation == generation) then
    a.reject .wrongIncarnation (some requestId)
  else if a.stage = .held then
    return { a with deferredTransfer := some requestId }
  else
    a.startTransfer requestId

/-- `Actor::on_owner` after the decision, `operation.rs:1438`. -/
def onOwnerDecided (a : Actor) (input : OwnerInput) : Act Actor :=
  match input with
  | .frame (.command (.cancel requestId)) =>
    if a.isTransferred then
      a.reject .alreadyTransferred (some requestId)
    else if a.retiring then
      a.reject .alreadyDecided (some requestId)
    else
      a.retire (some .cancel) requestId
  | .frame (.command (.transfer requestId incarnationId generation)) =>
    a.onTransfer requestId incarnationId generation
  | .frame (.rejected code requestId) =>
    a.reject (if a.isTransferred && code != .malformed then .alreadyTransferred else code) requestId
  | .frame .malformed => do
    let a ← a.reject .malformed none
    if !a.isTransferred && !a.retiring then
      a.retire (some .malformed) "owner:malformed"
    else return a
  | .eof =>
    if !a.isTransferred && !a.retiring then
      a.retire (some .ownerEof) "owner:eof"
    else return a

/-- `ActorEvent::Shutdown`, `operation.rs:1378`. -/
def onShutdown (a : Actor) (kill : Nat) : Act Actor :=
  match a.record.state with
  | .launched => a.retire none "producer:terminated"
  | .pending =>
    if a.stage = .deciding then
      a.cancelBeforeLaunch .refused none (some "producer:terminated")
    else return a
  | .transferred => do
    Prog.query (Op.tellLoop (.externalKill kill))
    return a
  | _ => return a

/-- `Actor::on_event`, `operation.rs:1329`. -/
def onEvent (a : Actor) (event : ActorEvent) : Act Actor :=
  match event with
  | .synced =>
    if a.stage = .deciding ∧ a.syncing then { a with syncing := false }.decide else return a
  | .released name => a.onReleased name
  | .commit ticket reply => a.onCommit ticket reply
  | .completed ticket result => a.onCompleted ticket result
  | .childAck ack => a.onAck ack
  | .readyPoint reply => a.onReadyPoint reply
  | .childExited =>
    if a.record.state = .launched then a.retire none "producer:child-exited" else return a
  | .shutdown kill => a.onShutdown kill
  | .owner input => if a.stage = .deciding then a.onOwnerDeciding input else a.onOwnerDecided input

/-- The head of `Actor::run`, `operation.rs:1224`. -/
def start (a : Actor) : Act Actor := do
  let a ← a.frame "accepted" []
  let (parked, a) ← a.hold "before-decision" .decide
  if parked then return a else a.beginSync

end Actor
end PtySpec.Daemon
