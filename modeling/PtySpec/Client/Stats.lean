import PtySpec.Client.Connection

/-!
# Status queries

Model of `query_stats_in_with_timeout` and `query_stats_batch_in`,
`crates/pty-client/src/stats.rs`, and of `connect` and `poll_until`,
`crates/pty-core/src/unix_connect.rs`: the one blocks on one socket, the other serves many
sockets that do not block from one poll loop. Instants are nanoseconds from the start of the
query.
-/

namespace PtySpec.Client.Stats

open Protocol

/-! ### Errors -/

/-- The members of `ClientError`, `lib.rs:122`, that a status query gives. -/
inductive StatsError where
  | client (e : ClientError)
  | statsTimeout (name : String)
  | outdatedClient (name : String)
  | invalidStats (name : String)
  deriving DecidableEq, Repr

/-- `map_io_error` for a local session and the strict set. -/
def ioError (name syscall : String) (path : Option String) (e : SocketError) : StatsError :=
  .client (mapIoError name syscall path e)

/-- `missing_status_error`, `stats.rs:361`. -/
def missingStatusError (name : String) (sawUnknownPacket : Bool) : StatsError :=
  if sawUnknownPacket then .outdatedClient name else .statsTimeout name

/-- `EAGAIN`. -/
def again : SocketError := ⟨.wouldBlock, some "EAGAIN", "Resource temporarily unavailable"⟩

/-- `io::Error::from(io::ErrorKind::WriteZero)`. -/
def writeZero : SocketError := ⟨.other, none, "write zero"⟩

/-- What `write_all` gives when nothing is written. -/
def wholeBuffer : SocketError := ⟨.other, none, "failed to write whole buffer"⟩

/-! ### Sockets over time -/

/-- What a call comes to, from an instant on. -/
structure Answer (α : Type) where
  since : Nat
  value : α

/-- An error of a call that did not have to wait. -/
abbrev Failure := { e : SocketError // e.kind ≠ .wouldBlock ∧ e.kind ≠ .timedOut }

/-- What a write comes to: the bytes that the socket has room for, of which there are some. -/
abbrev WriteAnswer := Answer (Except Failure { n : Nat // 0 < n })

/-- What a read comes to: bytes, none of them at the end. -/
abbrev ReadAnswer := Answer (Except Failure (List UInt8))

/-- A connected socket: what its writes and its reads come to, one after the other, after which
they wait for ever, and the instants at which `poll` reports it for no reason. -/
structure Stream where
  writes : List WriteAnswer
  reads : List ReadAnswer
  spurious : Nat → Bool := fun _ ↦ false

/-- What a connect comes to that the queue has room for. -/
inductive Outcome where
  | connected
  | inProgress (settled : Nat) (error : Option SocketError)
  | failed (e : SocketError)

/-- A daemon's socket: when its accept queue is full, the first instant at which it is not, and
what a connect comes to then. -/
structure Listener where
  full : Nat → Bool
  room : Option Nat
  full_room : ∀ instant ∈ room, full instant = false
  full_before : ∀ now, (∀ instant ∈ room, now < instant) → full now = true
  outcome : Outcome
  stream : Stream

/-- A session that is asked: its name, the path of its socket and what the socket does. -/
structure Session where
  name : String
  path : String
  listener : Listener

/-- `write` on a socket that does not block, for `count` bytes. -/
def Stream.write (s : Stream) (now count : Nat) : Except SocketError Nat × Stream :=
  match s.writes with
  | [] => (.error again, s)
  | a :: writes =>
    if now < a.since then (.error again, s)
    else
      match a.value with
      | .ok n => (.ok (min n.1 count), { s with writes := writes })
      | .error e => (.error e.1, { s with writes := writes })

/-- `read` on a socket that does not block. -/
def Stream.read (s : Stream) (now : Nat) : Except SocketError (List UInt8) × Stream :=
  match s.reads with
  | [] => (.error again, s)
  | a :: reads =>
    if now < a.since then (.error again, s)
    else
      match a.value with
      | .ok chunk => (.ok chunk, { s with reads := reads })
      | .error e => (.error e.1, { s with reads := reads })

/-- Whether `poll` reports a socket for `POLLOUT`. -/
def Stream.writable (s : Stream) (now : Nat) : Bool :=
  s.spurious now || s.writes.head?.any (·.since ≤ now)

/-- Whether `poll` reports a socket for `POLLIN`. -/
def Stream.readable (s : Stream) (now : Nat) : Bool :=
  s.spurious now || s.reads.head?.any (·.since ≤ now)

/-! ### The single query -/

/-- `encode_status`, `protocol.rs:403`. -/
def encodeStatus : List UInt8 := encodePacket .status []

/-- What blocking calls come to: the instant of the last one, how many there were, and with
what. -/
structure Finish (α : Type) where
  instant : Nat
  calls : Nat
  result : α
  deriving DecidableEq, Repr

/-- `UnixStream::connect`, which waits for room in the queue; `none` when it never returns. -/
def Listener.connectBlocking (l : Listener) : Option (Finish (Except SocketError Stream)) :=
  l.room.map fun room ↦
    match l.outcome with
    | .connected => ⟨room, 1, .ok l.stream⟩
    | .inProgress settled none => ⟨max room settled, 1, .ok l.stream⟩
    | .inProgress settled (some e) => ⟨max room settled, 1, .error e⟩
    | .failed e => ⟨room, 1, .error e⟩

/-- `write_all` of the request, of which `written` bytes are written after the calls so far. -/
def writeAll : List WriteAnswer → (now calls written : Nat) →
    Option (Finish (Except SocketError Unit))
  | [], now, calls, written =>
    if encodeStatus.length ≤ written then some ⟨now, calls, .ok ()⟩ else none
  | a :: writes, now, calls, written =>
    if encodeStatus.length ≤ written then some ⟨now, calls, .ok ()⟩
    else
      match a.value with
      | .error e => some ⟨max now a.since, calls + 1, .error e.1⟩
      | .ok n =>
        if n.1 = 0 then some ⟨max now a.since, calls + 1, .error wholeBuffer⟩
        else
          writeAll writes (max now a.since) (calls + 1)
            (written + min n.1 (encodeStatus.length - written))

/-- `matches!(p.type_, MessageType::Unknown(_))`. -/
def isUnknown (p : Packet) : Bool :=
  match p.type_ with
  | .unknown _ => true
  | _ => false

/-- The packets of one `feed`, `stats.rs:334-340`: the first STATUS, or whether one was
unknown. -/
def scanPackets : List Packet → Bool → List UInt8 ⊕ Bool
  | [], sawUnknown => .inr sawUnknown
  | p :: packets, sawUnknown =>
    if p.type_ = .status then .inl p.payload
    else scanPackets packets (sawUnknown || isUnknown p)

/-- The loop of `query_status_at`, `stats.rs:323-358`, on a socket whose reads wait as long as the
budget lasts. -/
def readLoop (name : String) (deadline : Nat) : List ReadAnswer → (now calls : Nat) →
    PacketReader → (sawUnknown : Bool) → Finish (Except StatsError (List UInt8))
  | [], now, calls, _, sawUnknown =>
    if deadline ≤ now then ⟨now, calls, .error (missingStatusError name sawUnknown)⟩
    else ⟨deadline, calls + 1, .error (missingStatusError name sawUnknown)⟩
  | a :: reads, now, calls, reader, sawUnknown =>
    if deadline ≤ now then ⟨now, calls, .error (missingStatusError name sawUnknown)⟩
    else if deadline ≤ a.since then
      ⟨deadline, calls + 1, .error (missingStatusError name sawUnknown)⟩
    else
      let now := max now a.since
      match a.value with
      | .ok [] => ⟨now, calls + 1, .error (missingStatusError name sawUnknown)⟩
      | .ok chunk =>
        match reader.feed chunk with
        | (reader, .ok packets) =>
          match scanPackets packets sawUnknown with
          | .inl json => ⟨now, calls + 1, .ok json⟩
          | .inr sawUnknown => readLoop name deadline reads now (calls + 1) reader sawUnknown
        | (_, .error _) => ⟨now, calls + 1, .error (.statsTimeout name)⟩
      | .error e =>
        if e.1.kind = .wouldBlock ∨ e.1.kind = .timedOut then
          ⟨now, calls + 1, .error (missingStatusError name sawUnknown)⟩
        else ⟨now, calls + 1, .error (ioError name "read" none e.1)⟩

/-- The query on a connected socket, `stats.rs:318-358`. -/
def afterConnect (s : Session) (deadline : Nat) (reads : List ReadAnswer)
    (writes : List WriteAnswer) (now calls written : Nat) :
    Option (Finish (Except StatsError (List UInt8))) :=
  (writeAll writes now calls written).map fun f ↦
    match f.result with
    | .error e => ⟨f.instant, f.calls, .error (ioError s.name "write" (some s.path) e)⟩
    | .ok () => readLoop s.name deadline reads f.instant f.calls {} false

/-- `query_status_at`, `stats.rs:310`, with a STATUS request; `none` when it never returns. -/
def queryStatusAt (s : Session) (timeout : Nat) :
    Option (Finish (Except StatsError (List UInt8))) :=
  s.listener.connectBlocking.bind fun f ↦
    match f.result with
    | .error e => some ⟨f.instant, f.calls, .error (ioError s.name "connect" (some s.path) e)⟩
    | .ok stream => afterConnect s timeout stream.reads stream.writes f.instant f.calls 0

section

variable {σ : Type} (parse : List UInt8 → Option σ)

/-- What `serde_json` makes of the payload of a STATUS. -/
def parsed (name : String) : Except StatsError (List UInt8) → Except StatsError σ
  | .ok json => (parse json).elim (.error (.invalidStats name)) .ok
  | .error e => .error e

/-- `query_stats_in_with_timeout`, `stats.rs:37`. -/
def queryStatsInWithTimeout (s : Session) (timeout : Nat) :
    Option (Finish (Except StatsError σ)) :=
  (queryStatusAt s timeout).map fun f ↦ ⟨f.instant, f.calls, parsed parse s.name f.result⟩

/-! ### The batched query -/

/-- `RETRY_TICK`, `unix_connect.rs:23`. -/
def RETRY_TICK : Nat := 10000000

/-- `Connect`, `unix_connect.rs:38`. -/
inductive Connect where
  | connected (stream : Stream)
  | inProgress (stream : Stream) (settled : Nat) (error : Option SocketError)
  | busy
  | failed (e : SocketError)

/-- `connect`, `unix_connect.rs:56`. -/
def Listener.connect (l : Listener) (now : Nat) : Connect :=
  if l.full now then .busy
  else
    match l.outcome with
    | .connected => .connected l.stream
    | .inProgress settled error => .inProgress l.stream settled error
    | .failed e => .failed e

/-- `Step`, `stats.rs:166`; a connect in progress has an outcome from an instant on. -/
inductive Step (σ : Type) where
  | connect (due : Nat)
  | connecting (stream : Stream) (settled : Nat) (error : Option SocketError)
  | writing (stream : Stream) (written : Nat)
  | reading (stream : Stream) (reader : PacketReader) (sawUnknown : Bool)
  | done (result : Except StatsError σ)

/-- `write_request`, `stats.rs:196`. -/
def writeRequest (s : Session) (now : Nat) (stream : Stream) (written : Nat) : Step σ :=
  if written < encodeStatus.length then
    match stream.write now (encodeStatus.length - written) with
    | (.ok n, stream) =>
      if n = 0 then .done (.error (ioError s.name "write" (some s.path) writeZero))
      else writeRequest s now stream (written + n)
    | (.error e, stream) =>
      if e.kind = .wouldBlock then .writing stream written
      else .done (.error (ioError s.name "write" (some s.path) e))
  else .reading stream {} false
termination_by encodeStatus.length - written

/-- `begin`, `stats.rs:179`. -/
def begin (s : Session) (now : Nat) : Step σ :=
  match s.listener.connect now with
  | .connected stream => writeRequest s now stream 0
  | .inProgress stream settled error => .connecting stream settled error
  | .busy => .connect (now + RETRY_TICK)
  | .failed e => .done (.error (ioError s.name "connect" (some s.path) e))

/-- `read_response`, `stats.rs:244`. -/
def readResponse (name : String) (now : Nat) (stream : Stream) (reader : PacketReader)
    (sawUnknown : Bool) : Step σ :=
  match stream.read now with
  | (.ok [], _) => .done (.error (missingStatusError name sawUnknown))
  | (.ok chunk, stream) =>
    match reader.feed chunk with
    | (reader, .ok packets) =>
      match packets.find? (·.type_ = .status) with
      | some p => .done (parsed parse name (.ok p.payload))
      | none => .reading stream reader (sawUnknown || packets.any isUnknown)
    | (_, .error _) => .done (.error (.statsTimeout name))
  | (.error e, stream) =>
    if e.kind = .wouldBlock then .reading stream reader sawUnknown
    else .done (.error (ioError name "read" none e))

/-- `BatchQuery`, `stats.rs:160`, of a session. -/
structure BatchQuery (σ : Type) where
  session : Session
  step : Step σ

namespace BatchQuery

/-- Whether a query is done. -/
def isDone (q : BatchQuery σ) : Bool :=
  match q.step with
  | .done _ => true
  | _ => false

/-- The connect at the top of a round, `stats.rs:91-96`. -/
def connectDue (firstRound : Bool) (now deadline : Nat) (q : BatchQuery σ) : BatchQuery σ :=
  match q.step with
  | .connect due =>
    if due ≤ now ∧ (firstRound = true ∨ now < deadline) then
      { q with step := begin q.session now }
    else q
  | _ => q

/-- Whether `poll` reports something of a query. -/
def reported (q : BatchQuery σ) (now : Nat) : Bool :=
  match q.step with
  | .connecting _ settled _ => settled ≤ now
  | .writing stream _ => stream.writable now
  | .reading stream _ _ => stream.readable now
  | .connect _ | .done _ => false

/-- The step after a `poll` that reports the query, `stats.rs:124-139`. -/
def advance (now : Nat) (q : BatchQuery σ) : Step σ :=
  match q.step with
  | .connecting stream _ none => writeRequest q.session now stream 0
  | .connecting _ _ (some e) =>
    .done (.error (ioError q.session.name "connect" (some q.session.path) e))
  | .writing stream written => writeRequest q.session now stream written
  | .reading stream reader sawUnknown =>
    readResponse parse q.session.name now stream reader sawUnknown
  | other => other

/-- What follows a `poll`, `stats.rs:118-140`. -/
def serve (now : Nat) (q : BatchQuery σ) : BatchQuery σ :=
  if q.reported now then { q with step := q.advance parse now } else q

/-- The result of a query when the loop has ended, `stats.rs:144-156`. -/
def result (q : BatchQuery σ) : Except StatsError σ :=
  match q.step with
  | .done result => result
  | .reading _ _ sawUnknown => .error (missingStatusError q.session.name sawUnknown)
  | _ => .error (.statsTimeout q.session.name)

end BatchQuery

/-- A round of the loop: the instants of its start, of the check against the deadline and of the
return of `poll`, and whether `poll` fails. -/
structure Round where
  now : Nat
  polled : Nat
  wake : Nat
  failed : Bool := false
  now_le : now ≤ polled
  polled_le : polled ≤ wake

/-- Whether `poll_until`, `unix_connect.rs:95`, gives false. -/
def Round.over (deadline : Nat) (r : Round) : Bool := deadline ≤ r.polled || r.failed

/-- The loop, `stats.rs:84-141`. -/
def batchLoop (deadline : Nat) (firstRound : Bool) :
    List Round → List (BatchQuery σ) → List (BatchQuery σ)
  | [], queries => queries
  | r :: rounds, queries =>
    let queries := queries.map (·.connectDue firstRound r.now deadline)
    if queries.all (·.isDone) || r.over deadline then queries
    else batchLoop deadline false rounds (queries.map (·.serve parse r.wake))

/-- The rounds of a loop that comes to its deadline. -/
structure Schedule (deadline : Nat) where
  rounds : List Round
  ends : ∃ r ∈ rounds, r.over deadline = true

/-- `query_stats_batch_in`, `stats.rs:61`. -/
def queryStatsBatchIn {deadline : Nat} (schedule : Schedule deadline) (sessions : List Session) :
    List (String × Except StatsError σ) :=
  (batchLoop parse deadline true schedule.rounds (sessions.map (⟨·, .connect 0⟩))).map
    fun q ↦ (q.session.name, q.result)

end

end PtySpec.Client.Stats
