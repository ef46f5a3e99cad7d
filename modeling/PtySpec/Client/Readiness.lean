import PtySpec.Client.Connection
import PtySpec.Lib.Moments
import PtySpec.Listing.Keyed
import PtySpec.Proc.Table

/-!
# Readiness controls

Model of `request_control_json` and of what it calls, `crates/pty-client/src/readiness.rs`, as a
program that asks the system one question at a time: the clock, the socket, the record of the
session and the process table. Instants are nanoseconds. A loop that the code does not bound
takes a number of turns; after them it asks what nothing answers.
-/

namespace PtySpec.Client.Readiness

open Lib Protocol Metadata

/-! ### Questions and answers -/

/-- What `poll` is asked for. -/
inductive PollEvents
  | pollin
  | pollout
  deriving DecidableEq, Repr

/-- What `poll` gives for one descriptor: events, those asked for among them or an error or hangup
among them, a timeout, or a failure. -/
inductive PollAnswer
  | reports (asked broken : Bool)
  | timeout
  | interrupted
  | failed (e : SocketError)
  deriving DecidableEq, Repr

/-- What a call on a socket gives that a signal may interrupt. -/
inductive CallAnswer (α : Type)
  | ok (a : α)
  | interrupted
  | failed (e : SocketError)
  deriving DecidableEq, Repr

/-- The questions, over the sockets of a client. -/
inductive Op (C : Type)
  | now
  | socket
  | connect (c : C) (path : List UInt8)
  | poll (c : C) (events : PollEvents) (timeoutMs : Nat)
  | takeError (c : C)
  | readMetadata (name : String)
  | peer (c : C)
  | process (pid : Int32)
  | effectiveUid
  | startToken (pid : Int32)
  | write (c : C) (bytes : List UInt8)
  | read (c : C)
  | forever

/-- The answers: `SO_PEERCRED` gives a process and a user, the process table a row or a start
token. -/
def Op.Ans {C : Type} : Op C → Type
  | now => Nat
  | socket => Except SocketError C
  | connect _ _ => Except SocketError Unit
  | poll _ _ _ => PollAnswer
  | takeError _ => Except SocketError (Option SocketError)
  | readMetadata _ => Option SessionMetadata
  | peer _ => Option (Int32 × UInt32)
  | process _ => Option Proc.Row
  | effectiveUid => UInt32
  | startToken _ => Option String
  | write _ _ => CallAnswer Nat
  | read _ => CallAnswer (List UInt8)
  | forever => Empty

/-- The programs of a readiness control. -/
abbrev Act (C α : Type) := Prog (Op C) Op.Ans α

open Prog (ask ret)

variable {C R : Type}

/-! ### Waiting -/

/-- What elapses, `readiness.rs:104`. -/
def deadlineElapsed : SocketError := ⟨.timedOut, none, "deadline elapsed"⟩

/-- What a hangup gives, `readiness.rs:125`. -/
def pollFailed : SocketError := ⟨.other, none, "socket poll failed"⟩

/-- `remaining_poll_ms`, `readiness.rs:101`. -/
def remainingPollMs (deadline : Nat) : Act C (Except SocketError Nat) :=
  ask .now fun (now : Nat) ↦
    ret (if deadline ≤ now then .error deadlineElapsed
      else .ok (min (max ((deadline - now) / 1000000) 1) (2 ^ 31 - 1)))

/-- `wait_fd`, `readiness.rs:109`. -/
def waitFd (c : C) (events : PollEvents) (deadline : Nat) :
    Nat → Act C (Except SocketError Unit)
  | 0 => ask .forever Empty.elim
  | turns + 1 =>
    (remainingPollMs deadline).thenOk fun ms ↦
      ask (.poll c events ms) fun
        | .reports asked broken =>
          if asked then ret (.ok ())
          else if broken then ret (.error pollFailed)
          else waitFd c events deadline turns
        | .timeout => ret (.error deadlineElapsed)
        | .interrupted => waitFd c events deadline turns
        | .failed e => ret (.error e)

/-! ### Connecting -/

/-- The length of `sun_path`. -/
def SUN_PATH : Nat := 108

/-- `readiness.rs:143`. -/
def invalidPath : SocketError := ⟨.other, none, "invalid Unix socket path"⟩

/-- The errors after which a connect is waited for, `readiness.rs:181`. -/
def inProgress (e : SocketError) : Bool :=
  e.errno = some "EINPROGRESS" || e.errno = some "EAGAIN" || e.errno = some "EWOULDBLOCK"

/-- `connect_until`, `readiness.rs:135`; the socket does not block. -/
def connectUntil (path : List UInt8) (deadline turns : Nat) : Act C (Except SocketError C) :=
  if path = [] ∨ 0 ∈ path ∨ SUN_PATH ≤ path.length then ret (.error invalidPath)
  else
    ask .socket fun
      | .error e => ret (.error e)
      | .ok c =>
        ask (.connect c path) fun
          | .ok () => ret (.ok c)
          | .error e =>
            if inProgress e then
              (waitFd c .pollout deadline turns).thenOk fun _ ↦
                ask (.takeError c) fun
                  | .error e => ret (.error e)
                  | .ok (some e) => ret (.error e)
                  | .ok none => ret (.ok c)
            else ret (.error e)

/-! ### The daemon at the other end -/

/-- The members of `ClientError` that a readiness control gives. -/
inductive ReadinessError
  | client (e : ClientError)
  | readinessTimeout (name : String)
  | invalidReadiness (name : String)
  deriving DecidableEq, Repr

/-- `PeerCredentials`, `unix_peer.rs:11`. -/
structure PeerCredentials where
  pid : Int32
  uid : UInt32
  processStartToken : List Char
  deriving DecidableEq, Repr

/-- `Row::is_exiting`, `proctable.rs:274`. -/
def isExiting (r : Proc.Row) : Bool := r.state.head? = some 'E'

/-- `credentials`, `unix_peer.rs:26`. -/
def credentials (c : C) : Act C (Option PeerCredentials) :=
  ask (.peer c) fun
    | none => ret none
    | some (pid, uid) =>
      ask (.process pid) fun
        | none => ret none
        | some row =>
          ret (if row.isZombie || isExiting row then none
            else row.identity.map fun token ↦ ⟨pid, uid, token⟩)

/-- `read_process_start_token`, `list.rs:671`. -/
def readProcessStartToken (pid : Int32) : Act C (Option String) :=
  if pid ≤ 0 then ret none else ask (.startToken pid) ret

/-- `DaemonPeerBinding`, `readiness.rs:55`. -/
structure DaemonPeerBinding where
  pid : Int32
  startToken : String
  deriving DecidableEq, Repr

/-- `verify_daemon_peer`, `readiness.rs:61`. -/
def verifyDaemonPeer (name expectedGeneration : String) (c : C) :
    Act C (Except ReadinessError DaemonPeerBinding) :=
  let invalid := ret (.error (.invalidReadiness name))
  ask (.readMetadata name) fun
    | none => invalid
    | some metadata =>
      if metadata.field .generation ≠ some expectedGeneration then invalid
      else
        match metadata.field .daemonPid, Listing.daemonStartToken metadata with
        | some pid, some startToken =>
          (credentials c).bind fun
            | none => invalid
            | some peer =>
              ask .effectiveUid fun (uid : UInt32) ↦
                if peer.uid ≠ uid ∨ peer.pid ≠ pid then invalid
                else
                  (readProcessStartToken pid).bind fun token ↦
                    if token = some startToken then ret (.ok ⟨pid, startToken⟩) else invalid
        | _, _ => invalid

/-- `verify_binding_still_current`, `readiness.rs:83`. -/
def verifyBindingStillCurrent (name expectedGeneration : String) (binding : DaemonPeerBinding) :
    Act C (Except ReadinessError Unit) :=
  let invalid := ret (.error (.invalidReadiness name))
  ask (.readMetadata name) fun
    | none => invalid
    | some metadata =>
      if metadata.field .generation ≠ some expectedGeneration ∨
          metadata.field .daemonPid ≠ some binding.pid ∨
          Listing.daemonStartToken metadata ≠ some binding.startToken then invalid
      else
        (readProcessStartToken binding.pid).bind fun token ↦
          if token = some binding.startToken then ret (.ok ()) else invalid

/-! ### The request and its answer -/

/-- `ErrorKind::WriteZero`, `readiness.rs:210`. -/
def socketClosed : SocketError := ⟨.other, none, "socket closed"⟩

/-- `write_all_until`, `readiness.rs:207`. -/
def writeAllUntil (c : C) (deadline : Nat) :
    Nat → List UInt8 → Act C (Except SocketError Unit)
  | _, [] => ret (.ok ())
  | 0, _ => ask .forever Empty.elim
  | turns + 1, bytes =>
    ask (.write c bytes) fun
      | .ok written =>
        if written = 0 then ret (.error socketClosed)
        else writeAllUntil c deadline turns (bytes.drop written)
      | .interrupted => writeAllUntil c deadline turns bytes
      | .failed e =>
        if e.kind = .wouldBlock then
          (waitFd c .pollout deadline turns).thenOk fun _ ↦ writeAllUntil c deadline turns bytes
        else ret (.error e)

/-- What a failure to connect or to write is told as, `readiness.rs:231` and `:240`. -/
def ioError (name syscall : String) (path : String) (e : SocketError) : ReadinessError :=
  if e.kind = .timedOut then .readinessTimeout name
  else .client (mapIoError name syscall (some path) e)

/-- A control: the session, the generation that is expected, the path of the socket as bytes and
as text, the type of the answer, and what its JSON is read as. -/
structure Control (R : Type) where
  name : String
  expectedGeneration : String
  path : List UInt8
  pathText : String
  expectedType : MessageType
  parse : List UInt8 → Option R

variable (ctl : Control R)

/-- The loop of `request_control_json`, `readiness.rs:249-281`. -/
def readLoop (c : C) (binding : DaemonPeerBinding) (deadline : Nat) :
    Nat → PacketReader → Act C (Except ReadinessError R)
  | 0, _ => ask .forever Empty.elim
  | turns + 1, reader =>
    (waitFd c .pollin deadline turns).bind fun
      | .error _ => ret (.error (.readinessTimeout ctl.name))
      | .ok () =>
        ask (.read c) fun
          | .ok [] => ret (.error (.readinessTimeout ctl.name))
          | .ok chunk =>
            match reader.feed chunk with
            | (_, .error _) => ret (.error (.invalidReadiness ctl.name))
            | (reader, .ok packets) =>
              match packets.find? (·.type_ = ctl.expectedType) with
              | none => readLoop c binding deadline turns reader
              | some response =>
                match ctl.parse response.payload with
                | none => ret (.error (.invalidReadiness ctl.name))
                | some result =>
                  (verifyBindingStillCurrent ctl.name ctl.expectedGeneration binding).thenOk
                    fun _ ↦ ret (.ok result)
          | .interrupted => readLoop c binding deadline turns reader
          | .failed e =>
            if e.kind = .wouldBlock then readLoop c binding deadline turns reader
            else ret (.error (.client (mapIoError ctl.name "read" none e)))

/-- `connect_until` as `request_control_json` calls it, `readiness.rs:230`. -/
def connectControl (deadline turns : Nat) : Act C (Except ReadinessError C) :=
  (connectUntil ctl.path deadline turns).mapError (ioError ctl.name "connect" ctl.pathText)

/-- `request_control_json`, `readiness.rs:223`. -/
def requestControlJson (packet : List UInt8) (timeout turns : Nat) :
    Act C (Except ReadinessError R) :=
  ask .now fun (start : Nat) ↦
    let deadline := start + timeout
    (connectControl ctl deadline turns).thenOk fun c ↦
      (verifyDaemonPeer ctl.name ctl.expectedGeneration c).thenOk fun binding ↦
        ((writeAllUntil c deadline turns packet).mapError
          (ioError ctl.name "write" ctl.pathText)).thenOk fun _ ↦
            readLoop ctl c binding deadline turns {}

end PtySpec.Client.Readiness
