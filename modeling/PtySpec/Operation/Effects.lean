import PtySpec.Lib.Program
import PtySpec.Operation.Settle

/-!
# What the programs of an operation ask of their surroundings

The launcher, the daemon's actor and the recovery command are sequential programs
that read and write the record, look at processes and at the registry, and talk to
their owner and to other threads. Each such interaction is an `Op`; the rest of a
program is a pure function of the answers. Only `writeCas` and `readRecord` touch the
record; every other answer is the surroundings' choice.
-/

namespace PtySpec.Operation

open Lib

/-- What the startup worker is told to do, `operation.rs:128`. -/
inductive WorkerCmd where
  | publish (ticket : Nat) (generation createdAt : String) (predecessor : Option String)
      (marker : Value)
  | forkChild (ticket : Nat)
  | readyPoint
  | stop (code : Int32)
  deriving DecidableEq, Repr

/-- What the actor sends the serving loop, `lifecycle.rs:71`. A kill carries the number
of the signal it stands for, so that a run can say which kill became what. -/
inductive LoopMsg where
  | externalKill (kill : Nat)
  | operationTransferred
  | operationEnd (code : Int32)
  deriving DecidableEq, Repr

/-- Why a session lock was not taken, `lock.rs`. -/
inductive LockRefusal where
  | busy
  | unavailable (cause : String)
  deriving DecidableEq, Repr

/-- What a wait for the operation's lock comes to, `record.rs:853`. -/
inductive ExclusiveLock where
  | taken
  | held
  | notFound
  | failed (error : String)
  deriving DecidableEq, Repr

/-- Whether a wait for a child's exit ended, `exact.rs`. -/
inductive Exit where
  | observed
  | timedOut
  | unsupported
  deriving DecidableEq, Repr

/-- An interaction that no program's promise is about: clocks, identities, the process
table, the registry, frames to the owner. -/
inductive EnvOp where
  | now
  | newGeneration
  | daemonFds
  | readGate
  | daemonConfig
  | startControl
  | current
  | processOf (pid : UInt32)
  | bootIdentity
  | procTable
  | processTableOf (pid : UInt32)
  | pin (id : ProcessId) (boot : Option String)
  | signalKill (id : ProcessId)
  | waitExit (id : ProcessId)
  | livenessAfterExit (id : ProcessId) (boot : Option String)
  | armWatch (pid : Int32)
  | waitWatch (pid : Int32) (seconds : Nat)
  | watchObserved (pid : Int32)
  | killChild (pid : Int32)
  | shutGate (gate : Nat)
  | lockExclusive
  | unlock
  | settle (snap : Snapshot)
  | frame (f : Value)
  | warn (text : String)
  | ioSync
  | ioClose
  | armed (name : String)
  | waitReleased (name : String)
  | barrier (name : String)
  | creationLockWords (name : String)
  | creationLockNonce
  | observeOccupancy (name : String)
  | releaseCreationLock (name : String) (pid : UInt32)
  | unwindPublication (name generation : String) (pid : Int32)
  | unwindRow (inc : Incarnation)
  | markTransferred (name generation : String)
  | validateControlFd
  | rehome
  | receiveEnvelope
  | lockEvents (name : String)
  | releaseEvents (name : String)
  | lockCreation (name : String)
  | peekWithdrawal (envelope : Envelope)
  | daemonExecutable
  | resolveCommand
  | delegateCreation
  | spawnGated (digest : String)
  | abandonGated (pid : UInt32)
  | handOverCreation (pid : UInt32)
  | releaseGated (pid : UInt32)

/-- The answers to the interactions of `EnvOp`. -/
@[reducible] def EnvOp.Ans : EnvOp → Type
  | now | newGeneration => String
  | daemonConfig => Except String String
  | daemonFds | readGate => Bool
  | startControl => Except String Unit
  | current | processOf _ => Except String ProcessId
  | bootIdentity => Option String
  | procTable | processTableOf _ => ProcTable
  | pin _ _ => Except String Bool
  | signalKill _ => Except String Unit
  | waitExit _ | watchObserved _ | armed _ => Bool
  | livenessAfterExit _ _ => Liveness
  | waitWatch _ _ => Exit
  | lockExclusive => ExclusiveLock
  | settle _ => Verdict
  | creationLockWords _ => Option (List String)
  | creationLockNonce => Option String
  | observeOccupancy _ => Occupancy
  | unwindPublication _ _ _ | unwindRow _ => String
  | validateControlFd | rehome => Except String Unit
  | receiveEnvelope => Except (String × String) Envelope
  | lockEvents _ | lockCreation _ => Except LockRefusal Unit
  | peekWithdrawal _ => Option (Cause × Option String)
  | daemonExecutable | resolveCommand | delegateCreation | handOverCreation _ | releaseGated _ =>
    Except String Unit
  | spawnGated _ => Except String UInt32
  | armWatch _ | killChild _ | shutGate _ | unlock | frame _ | warn _ | ioSync | ioClose
  | waitReleased _ | barrier _ | releaseCreationLock _ _ | markTransferred _ _ | releaseEvents _
  | abandonGated _ => Unit

/-- One interaction of a program. -/
inductive Op where
  | writeCas (expected next : OperationRecord) (label : String)
  | readRecord
  | release (gate : Nat)
  | setTransferred
  | replyCommit (reply ticket : Nat) (answer : Bool)
  | replyReady (reply : Nat) (answer : Bool)
  | tellWorker (cmd : WorkerCmd)
  | tellLoop (msg : LoopMsg)
  | env (q : EnvOp)

/-- The answer to an interaction. -/
@[reducible] def Op.Ans : Op → Type
  | writeCas _ _ _ => Except WriteError OperationRecord
  | readRecord => Except ReadError (Option OperationRecord)
  | release _ => Bool
  | setTransferred | replyCommit _ _ _ | replyReady _ _ | tellWorker _ | tellLoop _ => Unit
  | env q => q.Ans

/-- A program of the operation. -/
abbrev Act (α : Type) := Prog Op Op.Ans α

/-- Ask the surroundings. -/
def env (q : EnvOp) : Act q.Ans := Prog.query (Op.env q)

/-- `Decision::now`, `record.rs:249`. -/
def Decision.now (cause : Cause) (requestId observed : Option String) : Act Decision := do
  return ⟨cause, ← env .now, requestId, observed⟩

/-- `Display` of `ReadError`, `record.rs:454`. -/
def ReadError.display : ReadError → String
  | io path error | malformed path error => path ++ ": " ++ error

/-- `Debug` of `WriterRole`. -/
def WriterRole.debug : WriterRole → String
  | none => "None"
  | launcher => "Launcher"
  | producer => "Producer"
  | recovery => "Recovery"

/-- `Display` of `WriteError`, `record.rs:475`. -/
def WriteError.display : WriteError → String
  | stale observed =>
    "stale write: the record is at revision " ++ toString observed.revision ++ " with writer " ++
      observed.writer.role.debug
  | missing => "the operation record is missing"
  | read e => e.display
  | io error => error

end PtySpec.Operation
