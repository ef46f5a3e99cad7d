import PtySpec.Substrate.Actor

/-!
# The threads of a session

The actor, the reader of the terminal, the reaper of the child, the writer of its input, and
the clients and their streams, `pty-spawn/src/substrate.rs:545`. A step of the system is one
critical section of one thread. Beside the state there is what has happened: what was read,
handled, broadcast, accepted, written, answered and sent to the child.
-/

namespace PtySpec.Substrate

/-! ### Streams -/

/-- How a stream came to its attachment: how much had been broadcast and how much output had
been handled, what was published, and what the stream was given at once. -/
structure Joined where
  position : Nat
  handled : Nat
  published : Lifecycle
  greeting : List SessionEvent
  deriving DecidableEq, Repr

/-- An attachment queue with the stream at its end, `substrate.rs:349`: whether a client holds
the stream, what it has received, why it received no more, and all that was ever queued. -/
structure Stream where
  queue : Queue
  held : Bool
  delivered : List SessionEvent
  failure : Option SessionError
  enqueued : List SessionEvent
  joined : Option Joined
  deriving DecidableEq, Repr

namespace Stream

/-- A stream that nothing was queued for. -/
def new (capacity : Nat) (onFull : OnFull) : Stream where
  queue := .new (max capacity minAttachmentCapacity) onFull
  held := false
  delivered := []
  failure := none
  enqueued := []
  joined := none

/-- A push to the queue of a stream. -/
def push (size : Nat) (st : Stream) (event : SessionEvent) : Stream × Bool :=
  let r := st.queue.push size event
  ({ st with queue := r.1, enqueued := if r.2 then st.enqueued ++ [event] else st.enqueued }, r.2)

/-- Pushes of several events, up to the first that is refused. -/
def pushAll (size : Nat) (st : Stream) : List SessionEvent → Stream × Bool
  | [] => (st, true)
  | event :: rest =>
    if (st.push size event).2 then (st.push size event).1.pushAll size rest
    else ((st.push size event).1, false)

/-- `AttachStream::recv` with its result. -/
def received (st : Stream) (r : Except SessionError SessionEvent × Queue) : Stream :=
  match r.1 with
  | .ok event => { st with queue := r.2, delivered := st.delivered ++ [event] }
  | .error error => { st with queue := r.2, failure := some error }

end Stream

/-! ### The other threads -/

/-- Where the reader is, `substrate.rs:840`. -/
inductive ReaderPhase where
  | waiting
  | reading
  | got (chunk : List UInt8)
  | reserved (chunk : List UInt8)
  | done
  deriving DecidableEq, Repr

/-- `read_master`, with the queue that holds it back. -/
structure Reader where
  flow : Option Nat
  phase : ReaderPhase
  deriving DecidableEq, Repr

/-- Where the reaper is, `substrate.rs:965`. -/
inductive ReaperPhase where
  | waiting
  | exited
  | locked
  | collected (status : Option ExitStatus)
  | marked (status : Option ExitStatus)
  | done
  deriving DecidableEq, Repr

/-- Who has the lock of the child. -/
inductive Holder where
  | actor
  | reaper
  deriving DecidableEq, Repr

/-- A signal that was sent, and whether the child had been collected then. -/
structure Kill where
  pid : Nat
  group : Bool
  signal : Int
  collected : Bool
  deriving DecidableEq, Repr

/-- `ChildSignals`, `substrate.rs:904`, with the child and its reaper. -/
structure Child where
  pid : Option Nat
  reaped : Bool
  lock : Option Holder
  collected : Bool
  reaper : ReaperPhase
  kills : List Kill
  deriving DecidableEq, Repr

/-- `InputJob`, `substrate.rs:1100`. -/
structure InputJob where
  bytes : List UInt8
  reply : Nat
  deriving DecidableEq, Repr

/-- Where the writer is, `substrate.rs:1143`: a job, what of it is written, and what is not. -/
inductive WriterPhase where
  | idle
  | checking (job : InputJob)
  | writing (job : InputJob) (part rest : List UInt8)
  | waiting (job : InputJob) (part rest : List UInt8)
  | replying (job : InputJob) (part : List UInt8) (answer : Answer)
  | done
  deriving DecidableEq, Repr

/-- A job that the writer has answered, and how much of it was written. -/
structure Done where
  job : InputJob
  part : List UInt8
  answer : Answer
  deriving DecidableEq, Repr

/-- `InputGate`, the channel of jobs and the writer, with the jobs that were accepted, the jobs
that are done, everything written, and whether the writer has seen the gate closed. -/
structure Input where
  gate : Option SessionError
  jobs : List InputJob
  hungUp : Bool
  writer : WriterPhase
  accepted : List InputJob
  done : List Done
  written : List UInt8
  seenClosed : Bool
  deriving DecidableEq, Repr

/-- The owner's handle and the clients, the attaches under way as reply, session and stream,
and every reply: those issued, those of requests, the requests that the actor took up with the
lifecycle it had then, and the answers. -/
structure Desk where
  owner : Bool
  clients : List SessionRef
  calls : List (Nat × SessionRef × Nat)
  issued : List Nat
  requests : List Nat
  taken : List (Nat × Lifecycle)
  answers : List (Nat × Answer)
  deriving DecidableEq, Repr

/-- What was read and handled, what was broadcast, what had been handled when the end of the
child was published, and whether the drain timer has fired. -/
structure Tape where
  reads : List (List UInt8)
  handled : List (List UInt8)
  log : List SessionEvent
  exit : Option (List (List UInt8))
  timedOut : Bool
  deriving DecidableEq, Repr

/-- All threads of a session. -/
structure System where
  actor : Actor
  ended : Bool
  inbox : List Command
  streams : Nat → Option Stream
  reader : Reader
  child : Child
  input : Input
  desk : Desk
  tape : Tape

/-! ### Parts of steps -/

/-- Output that the actor has taken up. -/
def Tape.take (t : Tape) : Command → Tape
  | .output bytes => { t with handled := t.handled ++ [bytes] }
  | _ => t

/-- Publishing the end of the child is noted. -/
def Tape.note (t : Tape) (a b : Actor) : Tape :=
  if b.published = a.published then t else { t with exit := some t.handled }

/-- A request that the actor has taken up is noted. -/
def Desk.take (d : Desk) (state : Lifecycle) : Command → Desk
  | .request _ _ reply => { d with taken := (reply, state) :: d.taken }
  | _ => d

/-- An answer is sent. -/
def Desk.answer (d : Desk) (reply : Nat) (answer : Answer) : Desk :=
  { d with answers := (reply, answer) :: d.answers }

/-- The answer to a request that signals or resizes. -/
def answerOf : Option SessionError → Answer
  | none => .ok
  | some error => .refused error

/-- The answer that a signal has to give, if anyone asked for it. -/
def answerTo (reply : Option Nat) (error : Option SessionError) : List Effect :=
  match reply with
  | some r => [.answer r (answerOf error)]
  | none => []

/-- `InputGate::close`, `substrate.rs:1119`. -/
def Input.close (i : Input) (reason : SessionError) : Input :=
  { i with gate := i.gate.or (some reason) }

/-- A change of one stream. -/
def System.withStream (s : System) (i : Nat) (st : Stream) : System :=
  { s with streams := Function.update s.streams i (some st) }

@[simp] theorem System.streams_withStream_self (s : System) (i : Nat) (st : Stream) :
    (s.withStream i st).streams i = some st := by
  simp [System.withStream]

theorem System.streams_withStream_of_ne (s : System) {i k : Nat} (st : Stream) (h : k ≠ i) :
    (s.withStream i st).streams k = s.streams k := by
  simp [System.withStream, h]

/-- The actor with its remaining effects. -/
def System.proceed (s : System) (effects : List Effect) : System :=
  { s with actor := { s.actor with effects := effects } }

/-- Where the reader goes. -/
def System.withReader (s : System) (phase : ReaderPhase) : System :=
  { s with reader := { s.reader with phase := phase } }

/-- The reader may read again: the queue that holds it back has room. -/
def System.roomy (s : System) : Prop :=
  ∀ i st, s.reader.flow = some i → s.streams i = some st → st.queue.hasRoom = true

/-- The owner's queue is told about bytes on their way, `substrate.rs:867`. -/
def System.reserve (s : System) (bytes : Nat) : System :=
  match s.reader.flow with
  | none => s
  | some i =>
    match s.streams i with
    | none => s
    | some st => s.withStream i { st with queue := st.queue.reserve bytes }

/-- The actor takes up a command. -/
def System.take (s : System) (command : Command) (rest : List Command) : System :=
  { s with
    actor := s.actor.handle command
    inbox := rest
    desk := s.desk.take s.actor.lifecycle command
    tape := (s.tape.take command).note s.actor (s.actor.handle command) }

/-- The writer goes on. -/
def System.withWriter (s : System) (phase : WriterPhase) : System :=
  { s with input := { s.input with writer := phase } }

/-- The writer has seen the gate closed and answers the job with the reason. -/
def System.seen (s : System) (job : InputJob) (part : List UInt8) (reason : SessionError) :
    System :=
  { s with
    input :=
      { s.input with writer := .replying job part (.refused reason), seenClosed := true } }

end PtySpec.Substrate
