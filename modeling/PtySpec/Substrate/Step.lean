import PtySpec.Substrate.System

/-!
# Runs of a session

The steps of the threads, in any order. A read of the terminal, a write to it, a signal and a
resize have any result that the system can give; a call that is interrupted is no step.
-/

namespace PtySpec.Substrate

variable (size : Nat)

/-- A step of the reader, `substrate.rs:840`. -/
inductive ReaderStep (s : System) : System → Prop where
  | room (h : s.reader.phase = .waiting) (room : s.roomy) : ReaderStep s (s.withReader .reading)
  | read (chunk : List UInt8) (h : s.reader.phase = .reading) (some : chunk ≠ [])
    (bounded : chunk.length ≤ readChunk) :
    ReaderStep s
      { s.withReader (.got chunk) with
        tape := { s.tape with reads := s.tape.reads ++ [chunk] } }
  | retry (h : s.reader.phase = .reading) : ReaderStep s (s.withReader .waiting)
  | reserve (chunk : List UInt8) (h : s.reader.phase = .got chunk) :
    ReaderStep s ((s.withReader (.reserved chunk)).reserve chunk.length)
  | send (chunk : List UInt8) (h : s.reader.phase = .reserved chunk) :
    ReaderStep s { s.withReader .waiting with inbox := s.inbox ++ [.output chunk] }
  | close (h : s.reader.phase = .reading) :
    ReaderStep s { s.withReader .done with inbox := s.inbox ++ [.readerClosed] }

/-- A step of the reaper, `substrate.rs:965`; a child without a pid is waited for and collected
at once. -/
inductive ReaperStep (s : System) : System → Prop where
  | exited (h : s.child.reaper = .waiting) (pid : s.child.pid ≠ none) :
    ReaperStep s { s with child := { s.child with reaper := .exited } }
  | lock (h : s.child.reaper = .exited) (free : s.child.lock = none) :
    ReaperStep s { s with child := { s.child with reaper := .locked, lock := some .reaper } }
  | collect (status : Option ExitStatus) (h : s.child.reaper = .locked) :
    ReaperStep s
      { s with child := { s.child with reaper := .collected status, collected := true } }
  | wait (status : Option ExitStatus) (h : s.child.reaper = .waiting) (pid : s.child.pid = none) :
    ReaperStep s
      { s with child := { s.child with reaper := .collected status, collected := true } }
  | mark (status : Option ExitStatus) (h : s.child.reaper = .collected status)
    (own : s.child.lock ≠ some .actor) :
    ReaperStep s
      { s with child := { s.child with reaper := .marked status, reaped := true, lock := none } }
  | report (status : Option ExitStatus) (h : s.child.reaper = .marked status) :
    ReaperStep s
      { s with
        child := { s.child with reaper := .done }
        inbox := s.inbox ++ [.reaped (status.getD ⟨none, none⟩)] }

/-- A step of the writer, `substrate.rs:1143`. -/
inductive WriterStep (s : System) : System → Prop where
  | take (job : InputJob) (rest : List InputJob) (h : s.input.writer = .idle)
    (jobs : s.input.jobs = job :: rest) :
    WriterStep s { s with input := { s.input with writer := .checking job, jobs := rest } }
  | look (job : InputJob) (h : s.input.writer = .checking job) (gate : s.input.gate = none) :
    WriterStep s (s.withWriter (.writing job [] job.bytes))
  | lookClosed (job : InputJob) (reason : SessionError) (h : s.input.writer = .checking job)
    (gate : s.input.gate = some reason) : WriterStep s (s.seen job [] reason)
  | write (job : InputJob) (part new rest : List UInt8)
    (h : s.input.writer = .writing job part (new ++ rest)) (some : new ≠ []) :
    WriterStep s
      { s with
        input :=
          { s.input with
            writer := .writing job (part ++ new) rest
            written := s.input.written ++ new } }
  | finished (job : InputJob) (part : List UInt8) (h : s.input.writer = .writing job part []) :
    WriterStep s (s.withWriter (.replying job part .ok))
  | failed (job : InputJob) (part rest : List UInt8) (message : String)
    (h : s.input.writer = .writing job part rest) (more : rest ≠ []) :
    WriterStep s (s.withWriter (.replying job part (.refused (.io message))))
  | wouldBlock (job : InputJob) (part rest : List UInt8)
    (h : s.input.writer = .writing job part rest) (more : rest ≠ []) :
    WriterStep s (s.withWriter (.waiting job part rest))
  | retry (job : InputJob) (part rest : List UInt8)
    (h : s.input.writer = .waiting job part rest) (gate : s.input.gate = none) :
    WriterStep s (s.withWriter (.writing job part rest))
  | waitClosed (job : InputJob) (part rest : List UInt8) (reason : SessionError)
    (h : s.input.writer = .waiting job part rest) (gate : s.input.gate = some reason) :
    WriterStep s (s.seen job part reason)
  | reply (job : InputJob) (part : List UInt8) (answer : Answer)
    (h : s.input.writer = .replying job part answer) :
    WriterStep s
      { s with
        input :=
          { s.input with writer := .idle, done := s.input.done ++ [⟨job, part, answer⟩] }
        desk := s.desk.answer job.reply answer }
  | leave (h : s.input.writer = .idle) (jobs : s.input.jobs = []) (hungUp : s.input.hungUp = true) :
    WriterStep s (s.withWriter .done)

/-- A step of a client, of the owner's handle or of a stream, `substrate.rs:349`. -/
inductive ClientStep (s : System) : System → Prop where
  | request (session : SessionRef) (kind : CommandKind) (reply : Nat)
    (h : session ∈ s.desk.clients) (fresh : reply ∉ s.desk.issued) :
    ClientStep s
      { s with
        inbox := s.inbox ++ [.request session kind reply]
        desk :=
          { s.desk with
            issued := reply :: s.desk.issued, requests := reply :: s.desk.requests } }
  | query (session : SessionRef) (reply : Nat) (h : session ∈ s.desk.clients)
    (fresh : reply ∉ s.desk.issued) :
    ClientStep s
      { s with
        inbox := s.inbox ++ [.query session reply]
        desk := { s.desk with issued := reply :: s.desk.issued } }
  | attach (session : SessionRef) (capacity i reply : Nat) (h : s.desk.owner = true)
    (free : s.streams i = none) (fresh : reply ∉ s.desk.issued) :
    ClientStep s
      { s.withStream i (.new capacity .detach) with
        inbox := s.inbox ++ [.attach session i reply]
        desk :=
          { s.desk with
            issued := reply :: s.desk.issued
            calls := (reply, session, i) :: s.desk.calls } }
  | attached (session : SessionRef) (i reply : Nat) (st : Stream)
    (h : (reply, session, i) ∈ s.desk.calls) (answer : (reply, Answer.ok) ∈ s.desk.answers)
    (stream : s.streams i = some st) :
    ClientStep s
      { s.withStream i { st with held := true } with
        desk :=
          { s.desk with
            calls := s.desk.calls.erase (reply, session, i)
            clients := session :: s.desk.clients } }
  | rejected (session : SessionRef) (i reply : Nat) (error : SessionError)
    (h : (reply, session, i) ∈ s.desk.calls)
    (answer : (reply, Answer.refused error) ∈ s.desk.answers) :
    ClientStep s
      { s with desk := { s.desk with calls := s.desk.calls.erase (reply, session, i) } }
  | clone (session : SessionRef) (h : session ∈ s.desk.clients) :
    ClientStep s { s with desk := { s.desk with clients := session :: s.desk.clients } }
  | drop (session : SessionRef) :
    ClientStep s { s with desk := { s.desk with clients := s.desk.clients.erase session } }
  | loseOwnership (h : s.desk.owner = true) :
    ClientStep s { s with inbox := s.inbox ++ [.ownerLost] }
  | dropOwner (h : s.desk.owner = true) (calls : s.desk.calls = []) :
    ClientStep s
      { s with inbox := s.inbox ++ [.ownerLost], desk := { s.desk with owner := false } }
  | recv (i : Nat) (st : Stream) (r : Except SessionError SessionEvent × Queue)
    (h : s.streams i = some st) (held : st.held = true) (alive : st.queue.receiverGone = false)
    (pop : st.queue.pop size = some r) : ClientStep s (s.withStream i (st.received r))
  | dropStream (i : Nat) (st : Stream) (h : s.streams i = some st) (held : st.held = true) :
    ClientStep s (s.withStream i { st with queue := st.queue.dropReceiver })

/-- A step of the actor's thread, `substrate.rs:707`: it takes up a command when it has nothing
else to do, or carries out the next effect. -/
inductive ActorStep (s : System) : System → Prop where
  | receive (command : Command) (rest : List Command) (idle : s.actor.effects = [])
    (alive : s.ended = false) (h : s.inbox = command :: rest) :
    ActorStep s (s.take command rest)
  | timeout (idle : s.actor.effects = []) (alive : s.ended = false)
    (armed : s.actor.publishExitAt = true) :
    ActorStep s
      { s with
        actor := s.actor.publishLifecycle
        tape := { s.tape.note s.actor s.actor.publishLifecycle with timedOut := true } }
  | disconnected (idle : s.actor.effects = []) (alive : s.ended = false) (h : s.inbox = [])
    (reader : s.reader.phase = .done) (reaper : s.child.reaper = .done)
    (owner : s.desk.owner = false) (clients : s.desk.clients = []) (calls : s.desk.calls = []) :
    ActorStep s
      { s with
        actor := s.actor.finish
        ended := true
        tape := s.tape.note s.actor s.actor.finish }
  | broadcast (event : SessionEvent) (rest : List Effect)
    (h : s.actor.effects = .broadcast event :: rest) :
    ActorStep s
      { s.proceed (.tell event s.actor.attachments :: rest) with
        tape := { s.tape with log := s.tape.log ++ [event] } }
  | told (event : SessionEvent) (rest : List Effect)
    (h : s.actor.effects = .tell event [] :: rest) : ActorStep s (s.proceed rest)
  | tell (event : SessionEvent) (i : Nat) (todo : List Nat) (rest : List Effect) (st : Stream)
    (h : s.actor.effects = .tell event (i :: todo) :: rest) (stream : s.streams i = some st)
    (live : (st.push size event).2 = true) :
    ActorStep s
      ((s.withStream i (st.push size event).1).proceed (.tell event todo :: rest))
  | detach (event : SessionEvent) (i : Nat) (todo : List Nat) (rest : List Effect) (st : Stream)
    (h : s.actor.effects = .tell event (i :: todo) :: rest) (stream : s.streams i = some st)
    (dead : (st.push size event).2 = false) :
    ActorStep s
      { s.withStream i (st.push size event).1 with
        actor :=
          { s.actor with
            attachments := s.actor.attachments.erase i
            effects := .forget i :: .tell event todo :: rest } }
  | enrol (i : Nat) (rest : List Effect) (st : Stream)
    (h : s.actor.effects = .enrol i :: rest) (stream : s.streams i = some st)
    (live : (st.pushAll size s.actor.greeting).2 = true) :
    ActorStep s
      { s.withStream i
          { (st.pushAll size s.actor.greeting).1 with
            joined :=
              some ⟨s.tape.log.length, s.tape.handled.length, s.actor.published,
                s.actor.greeting⟩ } with
        actor :=
          { s.actor with attachments := s.actor.attachments ++ [i], effects := rest } }
  | refuse (i : Nat) (rest : List Effect) (st : Stream)
    (h : s.actor.effects = .enrol i :: rest) (stream : s.streams i = some st)
    (dead : (st.pushAll size s.actor.greeting).2 = false) :
    ActorStep s
      ((s.withStream i (st.pushAll size s.actor.greeting).1).proceed (.forget i :: rest))
  | forget (i : Nat) (rest : List Effect) (st : Stream)
    (h : s.actor.effects = .forget i :: rest) (stream : s.streams i = some st) :
    ActorStep s ((s.withStream i { st with queue := st.queue.dropSender }).proceed rest)
  | closeGate (reason : SessionError) (rest : List Effect)
    (h : s.actor.effects = .closeGate reason :: rest) :
    ActorStep s { s.proceed rest with input := s.input.close reason }
  | submit (bytes : List UInt8) (reply : Nat) (rest : List Effect)
    (h : s.actor.effects = .submit bytes reply :: rest) (alive : s.input.writer ≠ .done)
    (room : s.input.jobs.length < inputQueueDepth) :
    ActorStep s
      { s.proceed rest with
        input :=
          { s.input with
            jobs := s.input.jobs ++ [⟨bytes, reply⟩]
            accepted := s.input.accepted ++ [⟨bytes, reply⟩] } }
  | full (bytes : List UInt8) (reply : Nat) (rest : List Effect)
    (h : s.actor.effects = .submit bytes reply :: rest) (alive : s.input.writer ≠ .done)
    (full : inputQueueDepth ≤ s.input.jobs.length) :
    ActorStep s (s.proceed (.answer reply (.refused .inputBackpressure) :: rest))
  | gone (bytes : List UInt8) (reply : Nat) (rest : List Effect)
    (h : s.actor.effects = .submit bytes reply :: rest) (dead : s.input.writer = .done) :
    ActorStep s (s.proceed (.answer reply (.refused .closed) :: rest))
  | resize (area : PtySize) (reply : Nat) (rest : List Effect) (message : Option String)
    (h : s.actor.effects = .resize area reply :: rest) :
    ActorStep s (s.proceed (.answer reply (answerOf (message.map .io)) :: rest))
  | nobody (signal : Int) (group : Bool) (reply : Option Nat) (rest : List Effect)
    (h : s.actor.effects = .signal signal group reply :: rest) (pid : s.child.pid = none) :
    ActorStep s (s.proceed (answerTo reply none ++ rest))
  | lock (signal : Int) (group : Bool) (reply : Option Nat) (rest : List Effect)
    (h : s.actor.effects = .signal signal group reply :: rest) (pid : s.child.pid ≠ none)
    (free : s.child.lock = none) :
    ActorStep s
      { s.proceed (.kill signal group reply :: rest) with
        child := { s.child with lock := some .actor } }
  | late (signal : Int) (group : Bool) (reply : Option Nat) (rest : List Effect)
    (h : s.actor.effects = .kill signal group reply :: rest) (reaped : s.child.reaped = true) :
    ActorStep s
      { s.proceed (answerTo reply none ++ rest) with child := { s.child with lock := none } }
  | kill (signal : Int) (group : Bool) (reply : Option Nat) (rest : List Effect) (pid : Nat)
    (message : Option String) (h : s.actor.effects = .kill signal group reply :: rest)
    (live : s.child.reaped = false) (target : s.child.pid = some pid) :
    ActorStep s
      { s.proceed (answerTo reply (message.map .io) ++ rest) with
        child :=
          { s.child with
            lock := none
            kills := s.child.kills ++ [⟨pid, group, signal, s.child.collected⟩] } }
  | answer (reply : Nat) (answer : Answer) (rest : List Effect)
    (h : s.actor.effects = .answer reply answer :: rest) :
    ActorStep s { s.proceed rest with desk := s.desk.answer reply answer }
  | leave (rest : List Effect) (h : s.actor.effects = .leave :: rest) :
    ActorStep s
      { s with
        actor :=
          { s.actor with
            attachments := []
            effects := s.actor.attachments.map .forget ++ rest }
        input := { s.input with hungUp := true } }

/-- A step of any thread. -/
inductive Step (s t : System) : Prop where
  | reader (h : ReaderStep s t)
  | reaper (h : ReaperStep s t)
  | writer (h : WriterStep s t)
  | client (h : ClientStep size s t)
  | actor (h : ActorStep size s t)

/-- The threads as `start_owner` starts them, `substrate.rs:545`, with or without a stream of
the owner. -/
def System.start (session : SessionRef) (pid : Option Nat) (capacity : Option Nat) : System where
  actor := .start session (if capacity.isSome then [0] else [])
  ended := false
  inbox := []
  streams i :=
    if i = 0 then
      capacity.map fun c ↦
        { Stream.new c .holdReader with held := true, joined := some ⟨0, 0, .running, []⟩ }
    else none
  reader := ⟨if capacity.isSome then some 0 else none, .waiting⟩
  child := ⟨pid, false, none, false, .waiting, []⟩
  input := ⟨none, [], false, .idle, [], [], [], false⟩
  desk := ⟨true, if capacity.isSome then [session] else [], [], [], [], [], []⟩
  tape := ⟨[], [], [], none, false⟩

/-- The steps of a run. -/
abbrev Steps : System → System → Prop := Relation.ReflTransGen (Step size)

/-- The states that runs reach. -/
def Reachable (session : SessionRef) (pid : Option Nat) (capacity : Option Nat) (s : System) :
    Prop :=
  Steps size (.start session pid capacity) s

end PtySpec.Substrate
