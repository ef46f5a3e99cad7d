import PtySpec.Substrate.Queue

/-!
# The owner's actor

The commands of a session and what the actor does about each of them,
`pty-spawn/src/substrate.rs:615` and `substrate.rs:690`. The fields of the actor are its own, so
a command changes them at once; everything that another thread can see is an effect, and the
actor's thread carries out the effects one by one in their order.
-/

namespace PtySpec.Substrate

/-- `SessionRef`, `substrate.rs:70`. -/
structure SessionRef where
  root : String
  id : String
  generation : String
  deriving DecidableEq, Repr

/-- `CommandKind`, `substrate.rs:636`. -/
inductive CommandKind where
  | input (bytes : List UInt8)
  | resize (size : PtySize)
  | signal (signal : Int)
  | signalGroup (signal : Int)
  deriving DecidableEq, Repr

/-- What a reply channel carries. -/
inductive Answer where
  | ok
  | lifecycle (state : Lifecycle)
  | refused (error : SessionError)
  deriving DecidableEq, Repr

/-- `Command`, `substrate.rs:615`; reply channels and attachments have numbers. -/
inductive Command where
  | request (session : SessionRef) (kind : CommandKind) (reply : Nat)
  | query (session : SessionRef) (reply : Nat)
  | attach (session : SessionRef) (attachment : Nat) (reply : Nat)
  | output (bytes : List UInt8)
  | reaped (status : ExitStatus)
  | readerClosed
  | ownerLost
  deriving DecidableEq, Repr

/-- What the actor's thread still has to do; `tell` is a broadcast under way, `kill` a signal
under the lock of the child. -/
inductive Effect where
  | broadcast (event : SessionEvent)
  | tell (event : SessionEvent) (todo : List Nat)
  | enrol (attachment : Nat)
  | forget (attachment : Nat)
  | closeGate (reason : SessionError)
  | submit (bytes : List UInt8) (reply : Nat)
  | resize (size : PtySize) (reply : Nat)
  | signal (signal : Int) (group : Bool) (reply : Option Nat)
  | kill (signal : Int) (group : Bool) (reply : Option Nat)
  | answer (reply : Nat) (answer : Answer)
  | leave
  deriving DecidableEq, Repr

/-- `Actor`, `substrate.rs:690`, with what it still has to do. -/
structure Actor where
  session : SessionRef
  attachments : List Nat
  lifecycle : Lifecycle
  published : Lifecycle
  publishExitAt : Bool
  outputClosed : Bool
  effects : List Effect
  deriving DecidableEq, Repr

/-- The error of a request after the child's end. -/
def Lifecycle.outcome : Lifecycle → Option SessionError
  | .running => none
  | .exited status => some (.exited status)
  | .ownerLost => some .ownerLost

/-- The number of the terminate signal. -/
def sigterm : Int := 15

namespace Actor

/-- The actor as `run` starts it, `substrate.rs:707`. -/
def start (session : SessionRef) (attachments : List Nat) : Actor :=
  ⟨session, attachments, .running, .running, false, false, [.broadcast (.lifecycle .running)]⟩

/-- With one more thing to do. -/
def emit (a : Actor) (e : Effect) : Actor := { a with effects := a.effects ++ [e] }

/-- `check`, `substrate.rs:683`. -/
def check (a : Actor) (requested : SessionRef) : Except SessionError Unit :=
  if requested ≠ a.session then
    .error (.staleGeneration requested.generation a.session.generation)
  else .ok ()

/-- `Actor::running`, `substrate.rs:804`. -/
def isRunning (a : Actor) : Except SessionError Unit :=
  match a.lifecycle with
  | .running => .ok ()
  | .exited status => .error (.exited status)
  | .ownerLost => .error .ownerLost

/-- `Actor::publish_lifecycle`, `substrate.rs:826`. -/
def publishLifecycle (a : Actor) : Actor :=
  if a.published ≠ a.lifecycle then
    { a with
      publishExitAt := false
      published := a.lifecycle
      effects := a.effects ++ [.broadcast (.lifecycle a.lifecycle)] }
  else { a with publishExitAt := false }

/-- The first events of a stream that is attached now. -/
def greeting (a : Actor) : List SessionEvent :=
  .lifecycle a.published :: if a.outputClosed then [.outputClosed] else []

/-- A request that is not refused. -/
def accept (a : Actor) (kind : CommandKind) (reply : Nat) : Actor :=
  match kind with
  | .input bytes => a.emit (.submit bytes reply)
  | .resize size => a.emit (.resize size reply)
  | .signal signal => a.emit (.signal signal false (some reply))
  | .signalGroup signal => a.emit (.signal signal true (some reply))

/-- `Actor::handle`, `substrate.rs:730`. -/
def handle (a : Actor) : Command → Actor
  | .attach session attachment reply =>
    match a.check session with
    | .ok () => (a.emit (.enrol attachment)).emit (.answer reply .ok)
    | .error error => (a.emit (.forget attachment)).emit (.answer reply (.refused error))
  | .request session kind reply =>
    match a.check session >>= fun _ ↦ a.isRunning with
    | .ok () => a.accept kind reply
    | .error error => a.emit (.answer reply (.refused error))
  | .query session reply =>
    match a.check session with
    | .ok () => a.emit (.answer reply (.lifecycle a.lifecycle))
    | .error error => a.emit (.answer reply (.refused error))
  | .output bytes => if a.outputClosed then a else a.emit (.broadcast (.data bytes))
  | .reaped status =>
    if a.lifecycle = .running then
      let b := { a with lifecycle := .exited status }.emit (.closeGate (.exited status))
      if b.outputClosed then b.publishLifecycle else { b with publishExitAt := true }
    else a
  | .readerClosed =>
    ({ a with outputClosed := true }.emit (.broadcast .outputClosed)).publishLifecycle
  | .ownerLost =>
    if a.lifecycle = .running then
      (({ a with lifecycle := .ownerLost }.emit (.closeGate .ownerLost)).publishLifecycle).emit
        (.signal sigterm false none)
    else a

/-- What `run` does after its last command, `substrate.rs:726`. -/
def finish (a : Actor) : Actor := (a.publishLifecycle.emit (.closeGate .closed)).emit .leave

variable {a : Actor}

@[simp] theorem attachments_publishLifecycle :
    a.publishLifecycle.attachments = a.attachments := by
  unfold publishLifecycle
  split <;> rfl

@[simp] theorem lifecycle_publishLifecycle : a.publishLifecycle.lifecycle = a.lifecycle := by
  unfold publishLifecycle
  split <;> rfl

@[simp] theorem outputClosed_publishLifecycle :
    a.publishLifecycle.outputClosed = a.outputClosed := by
  unfold publishLifecycle
  split <;> rfl

@[simp] theorem session_publishLifecycle : a.publishLifecycle.session = a.session := by
  unfold publishLifecycle
  split <;> rfl

@[simp] theorem published_publishLifecycle : a.publishLifecycle.published = a.lifecycle := by
  unfold publishLifecycle
  split
  · rfl
  · next h => simpa using h

@[simp] theorem attachments_accept (kind : CommandKind) (reply : Nat) :
    (a.accept kind reply).attachments = a.attachments := by
  cases kind <;> rfl

@[simp] theorem attachments_handle (c : Command) :
    (a.handle c).attachments = a.attachments := by
  cases c with
  | request session kind reply =>
    simp only [handle]
    split
    · exact attachments_accept kind reply
    · rfl
  | query => simp only [handle]; split <;> rfl
  | attach => simp only [handle]; split <;> rfl
  | output => simp only [handle]; split <;> rfl
  | reaped status =>
    simp only [handle]
    split
    · split
      · simp [emit]
      · rfl
    · rfl
  | readerClosed => simp [handle, emit]
  | ownerLost =>
    simp only [handle]
    split
    · simp [emit]
    · rfl

end Actor
end PtySpec.Substrate
