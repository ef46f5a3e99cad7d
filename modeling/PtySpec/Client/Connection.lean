import PtySpec.Handle.Core

/-!
# Connections to a session

Model of `SessionConnection` and of `AsyncConnection`, `crates/pty-client/src/connection.rs:63`
and `567`: a connection attaches and waits for the first SCREEN, and then gives the events of
the packets that arrive, one each call. The blocking one can be given a time to wait.
-/

namespace PtySpec.Client

open Protocol
open Handle (decodeExit)

/-! ### Errors -/

/-- The kinds of `io::Error` that are told apart. -/
inductive ErrorKind where
  | wouldBlock
  | timedOut
  | notFound
  | connectionRefused
  | other
  deriving DecidableEq, Repr

/-- An `io::Error`: its kind, the name of its errno, and its description. -/
structure SocketError where
  kind : ErrorKind
  errno : Option String
  description : String
  deriving DecidableEq, Repr

/-- The members of `ClientError`, `lib.rs:122`, that a connection gives. -/
inductive ClientError where
  | notReachable (name : String) (remote : Bool)
  | connection (message : String)
  | closedBeforeScreen (name : String)
  deriving DecidableEq, Repr

/-- `node_error_message`, `lib.rs:233`. -/
def nodeErrorMessage (syscall : String) (path : Option String) (e : SocketError) : String :=
  match e.errno, path with
  | some code, some p => syscall ++ " " ++ code ++ " " ++ p
  | some code, none => syscall ++ " " ++ code
  | none, _ => syscall ++ " " ++ e.description

/-- `map_io_error`, `lib.rs:213`, for a local session and the strict set. -/
def mapIoError (name syscall : String) (path : Option String) (e : SocketError) : ClientError :=
  if e.errno = some "ENOENT" ∨ e.errno = some "ECONNREFUSED" ∨ e.kind = .notFound ∨
      e.kind = .connectionRefused then
    .notReachable name false
  else .connection (nodeErrorMessage syscall path e)

/-! ### Sockets -/

/-- A timeout that a socket can have: the standard library refuses a zero one. -/
abbrev ReadTimeout := { d : Nat // 0 < d }

/-- A connected socket: what the reads of it will give, and then it ends, and how long one
waits. -/
structure Socket where
  incoming : List (Except SocketError (List UInt8))
  readTimeout : Option ReadTimeout

/-- `set_read_timeout` with its result ignored: after a refusal the setting is as before. -/
def Socket.setReadTimeout (s : Socket) : Option Nat → Socket
  | none => { s with readTimeout := none }
  | some d => if h : 0 < d then { s with readTimeout := some ⟨d, h⟩ } else s

/-- `read`. -/
def Socket.read (s : Socket) : Except SocketError (List UInt8) × Socket :=
  match s.incoming with
  | [] => (.ok [], s)
  | answer :: rest => (answer, { s with incoming := rest })

/-! ### Events -/

/-- `SessionEvent`, `connection.rs:27`. -/
inductive SessionEvent where
  | geometry (rows cols : UInt16)
  | screen (bytes : List UInt8)
  | data (bytes : List UInt8)
  | exit (code : Int32)
  | closed
  deriving DecidableEq, Repr

/-- `packet_event`, `connection.rs:40`. -/
def packetEvent (p : Packet) : Option SessionEvent :=
  match p.type_ with
  | .geometry =>
    let (rows, cols) := decodeSize p.payload
    some (.geometry rows cols)
  | .screen => some (.screen p.payload)
  | .data => some (.data p.payload)
  | .exit => some (.exit (decodeExit p.payload))
  | _ => none

/-! ### Connections -/

/-- `SessionConnection`, `connection.rs:56`, and `AsyncConnection`, `:567`. -/
structure SessionConnection where
  name : String
  socket : Option Socket
  reader : PacketReader := {}
  rows : UInt16
  cols : UInt16
  effectiveRows : UInt16
  effectiveCols : UInt16
  screen : List UInt8 := []
  pending : List SessionEvent := []
  closed : Bool := false

namespace SessionConnection

/-- A connection before its first read, `connection.rs:101`. -/
def start (socket : Socket) (name : String) (rows cols : UInt16) : SessionConnection where
  name := name
  socket := some socket
  rows := rows
  cols := cols
  effectiveRows := rows
  effectiveCols := cols

/-- The end of a connection: `closed = true; socket = None`. -/
def close (c : SessionConnection) : SessionConnection := { c with closed := true, socket := none }

/-- A packet that was read, `connection.rs:234-241`. -/
def onPacket (c : SessionConnection) (p : Packet) : SessionConnection :=
  match packetEvent p with
  | none => c
  | some ev =>
    let c := match ev with
      | .geometry rows cols => { c with effectiveRows := rows, effectiveCols := cols }
      | _ => c
    { c with pending := c.pending ++ [ev] }

/-- What a read gave is fed to the reader; `none` if that fails. -/
def feed (c : SessionConnection) (chunk : List UInt8) : Option SessionConnection :=
  match c.reader.feed chunk with
  | (_, .error _) => none
  | (reader, .ok packets) => some (packets.foldl onPacket { c with reader := reader })

/-- How many answers of the socket are still to come. -/
def unread (c : SessionConnection) : Nat :=
  match c.socket with
  | none => 0
  | some socket => socket.incoming.length

theorem socket_onPacket (c : SessionConnection) (p : Packet) :
    (c.onPacket p).socket = c.socket := by
  unfold onPacket
  cases packetEvent p with
  | none => rfl
  | some ev => cases ev <;> rfl

theorem socket_onPackets (packets : List Packet) (c : SessionConnection) :
    (packets.foldl onPacket c).socket = c.socket := by
  induction packets generalizing c with
  | nil => rfl
  | cons p packets ih => rw [List.foldl_cons, ih, socket_onPacket]

theorem socket_feed {c c' : SessionConnection} {chunk : List UInt8} (h : c.feed chunk = some c') :
    c'.socket = c.socket := by
  unfold feed at h
  split at h
  · cases h
  · cases h
    rw [socket_onPackets]

theorem unread_of_socket {c : SessionConnection} {socket : Socket}
    {incoming : List (Except SocketError (List UInt8))} (h : c.socket = some socket)
    (hi : socket.incoming = incoming) : c.unread = incoming.length := by
  rw [unread, h]
  exact congrArg List.length hi

end SessionConnection

/-! ### The blocking connection -/

/-- A read that was made: the deadline of the call that made it, the time when it did, and how
long the socket was set to wait. -/
structure Read where
  deadline : Option Nat
  now : Nat
  readTimeout : Option ReadTimeout

/-- A connection with the call that is going on: its deadline, the last time it read the clock,
how often that was read, and the reads that were made. -/
structure Session where
  conn : SessionConnection
  deadline : Option Nat := none
  now : Nat := 0
  readings : Nat := 0
  reads : List Read := []

namespace Session

open SessionConnection (socket_feed unread_of_socket)

variable (clock : Nat → Nat)

/-- `timeout.map(|t| Instant::now() + t)`. -/
def call (s : Session) : Option Nat → Session
  | none => { s with deadline := none }
  | some t => { s with deadline := some (clock s.readings + t), readings := s.readings + 1 }

/-- The start of a turn: the clock is read if there is a deadline. -/
def look (s : Session) : Session :=
  if s.deadline.isSome then { s with now := clock s.readings, readings := s.readings + 1 } else s

/-- `deadline.map(|d| d.saturating_duration_since(Instant::now()))`. -/
def remaining (s : Session) : Option Nat := s.deadline.map (· - s.now)

/-- A read of the socket is made. -/
def asks (s : Session) (socket : Socket) : Session :=
  { s with reads := s.reads ++ [Read.mk s.deadline s.now socket.readTimeout] }

/-- The session with its connection changed. -/
def onConn (s : Session) (conn : SessionConnection) : Session := { s with conn := conn }

/-- `read_more`, `connection.rs:184`. -/
def readMore (timeout : Option Nat) (s : Session) :
    Session × Except ClientError (Option SessionEvent) :=
  match s.conn.pending with
  | ev :: rest => (s.onConn { s.conn with pending := rest }, .ok (some ev))
  | [] =>
    if s.conn.closed then (s, .ok (some .closed))
    else
      match s.conn.socket with
      | none => (s, .ok (some .closed))
      | some socket =>
        let socket := socket.setReadTimeout timeout
        let s := s.asks socket
        match socket.read with
        | (.error e, socket) =>
          if e.kind = .wouldBlock ∨ e.kind = .timedOut then
            (s.onConn { s.conn with socket := some socket }, .ok none)
          else
            (s.onConn s.conn.close, .error (mapIoError s.conn.name "read" none e))
        | (.ok [], _) => (s.onConn s.conn.close, .ok (some .closed))
        | (.ok (b :: chunk), socket) =>
          match { s.conn with socket := some socket }.feed (b :: chunk) with
          | none => (s.onConn s.conn.close, .ok (some .closed))
          | some conn =>
            match conn.pending with
            | [] => (s.onConn conn, .ok none)
            | ev :: rest => (s.onConn { conn with pending := rest }, .ok (some ev))

/-- What one turn of reading can do. -/
inductive More (timeout : Option Nat) (s : Session) :
    Session → Except ClientError (Option SessionEvent) → Prop
  | queued {ev : SessionEvent} {rest : List SessionEvent} (hp : s.conn.pending = ev :: rest) :
      More timeout s (s.onConn { s.conn with pending := rest }) (.ok (some ev))
  | gone (hp : s.conn.pending = []) (hc : s.conn.closed = true ∨ s.conn.socket = none) :
      More timeout s s (.ok (some .closed))
  | waited {socket : Socket} {e : SocketError} {rest : List (Except SocketError (List UInt8))}
      (hp : s.conn.pending = []) (hc : s.conn.closed = false) (hs : s.conn.socket = some socket)
      (hi : socket.incoming = .error e :: rest) (he : e.kind = .wouldBlock ∨ e.kind = .timedOut) :
      More timeout s ((s.asks (socket.setReadTimeout timeout)).onConn
        { s.conn with socket := some { socket.setReadTimeout timeout with incoming := rest } })
        (.ok none)
  | failed {socket : Socket} {e : SocketError} {rest : List (Except SocketError (List UInt8))}
      (hp : s.conn.pending = []) (hc : s.conn.closed = false) (hs : s.conn.socket = some socket)
      (hi : socket.incoming = .error e :: rest)
      (he : ¬(e.kind = .wouldBlock ∨ e.kind = .timedOut)) :
      More timeout s ((s.asks (socket.setReadTimeout timeout)).onConn s.conn.close)
        (.error (mapIoError s.conn.name "read" none e))
  | ended {socket : Socket} (hp : s.conn.pending = []) (hc : s.conn.closed = false)
      (hs : s.conn.socket = some socket)
      (hi : socket.incoming = [] ∨ ∃ rest, socket.incoming = .ok [] :: rest) :
      More timeout s ((s.asks (socket.setReadTimeout timeout)).onConn s.conn.close)
        (.ok (some .closed))
  | refused {socket : Socket} {chunk : List UInt8}
      {rest : List (Except SocketError (List UInt8))} (hp : s.conn.pending = [])
      (hc : s.conn.closed = false) (hs : s.conn.socket = some socket) (hb : chunk ≠ [])
      (hi : socket.incoming = .ok chunk :: rest)
      (hf : { s.conn with
        socket := some { socket.setReadTimeout timeout with incoming := rest } }.feed chunk =
          none) :
      More timeout s ((s.asks (socket.setReadTimeout timeout)).onConn s.conn.close)
        (.ok (some .closed))
  | fed {socket : Socket} {chunk : List UInt8} {rest : List (Except SocketError (List UInt8))}
      {conn : SessionConnection} (hp : s.conn.pending = []) (hc : s.conn.closed = false)
      (hs : s.conn.socket = some socket) (hb : chunk ≠ [])
      (hi : socket.incoming = .ok chunk :: rest)
      (hf : { s.conn with
        socket := some { socket.setReadTimeout timeout with incoming := rest } }.feed chunk =
          some conn) :
      More timeout s ((s.asks (socket.setReadTimeout timeout)).onConn
        { conn with pending := conn.pending.tail }) (.ok conn.pending.head?)

theorem incoming_setReadTimeout (timeout : Option Nat) (socket : Socket) :
    (socket.setReadTimeout timeout).incoming = socket.incoming := by
  cases timeout with
  | none => rfl
  | some d =>
    unfold Socket.setReadTimeout
    dsimp only
    split <;> rfl

theorem more_readMore (timeout : Option Nat) (s : Session) :
    More timeout s (s.readMore timeout).1 (s.readMore timeout).2 := by
  unfold readMore
  split
  · next ev rest hp => exact .queued hp
  · next hp =>
    split
    · next hc => exact .gone hp (.inl hc)
    · next hc =>
      replace hc : s.conn.closed = false := by simpa using hc
      split
      · next hs => exact .gone hp (.inr hs)
      · next socket hs =>
        have hin := incoming_setReadTimeout timeout socket
        dsimp only [Socket.read]
        cases hi : socket.incoming with
        | nil =>
          rw [hin, hi]
          exact .ended hp hc hs (.inl hi)
        | cons answer rest =>
          rw [hin, hi]
          cases answer with
          | error e =>
            dsimp only
            split
            · next he => exact .waited hp hc hs hi he
            · next he => exact .failed hp hc hs hi he
          | ok chunk =>
            cases chunk with
            | nil => exact .ended hp hc hs (.inr ⟨rest, hi⟩)
            | cons b chunk =>
              dsimp only
              have hb := List.cons_ne_nil b chunk
              split
              · next hf => exact .refused hp hc hs hb hi hf
              · next conn hf =>
                have hm := More.fed hp hc hs hb hi hf
                split
                · next hq =>
                  rw [hq] at hm
                  obtain ⟨_, _, _, _, _, _, _, _, pending, _⟩ := conn
                  obtain rfl : pending = [] := hq
                  exact hm
                · next ev more hq =>
                  rw [hq] at hm
                  exact hm

/-- A turn takes an event that was queued, or an answer of the socket. -/
private theorem More.progress {timeout : Option Nat} {s s' : Session} {r : Option SessionEvent}
    (h : More timeout s s' (.ok r)) (hr : r ≠ some .closed) :
    s'.conn.unread < s.conn.unread ∨
      (s'.conn.unread = s.conn.unread ∧ s'.conn.pending.length < s.conn.pending.length ∧
        r ≠ none) := by
  cases h with
  | queued hp =>
    refine .inr ⟨rfl, ?_, by simp⟩
    rw [hp]
    exact Nat.lt_succ_self _
  | gone => exact absurd rfl hr
  | waited hp hc hs hi he =>
    left
    rw [unread_of_socket hs hi]
    exact Nat.lt_succ_self _
  | ended => exact absurd rfl hr
  | refused => exact absurd rfl hr
  | @fed _ _ _ conn hp hc hs hb hi hf =>
    left
    have hconn := unread_of_socket (socket_feed hf) rfl
    change conn.unread < s.conn.unread
    rw [hconn, unread_of_socket hs hi]
    exact Nat.lt_succ_self _

private theorem progress {timeout : Option Nat} {s s' : Session} {r : Option SessionEvent}
    (h : s.readMore timeout = (s', .ok r)) (hr : r ≠ some .closed) :
    s'.conn.unread < s.conn.unread ∨
      (s'.conn.unread = s.conn.unread ∧ s'.conn.pending.length < s.conn.pending.length ∧
        r ≠ none) := by
  have hm := more_readMore timeout s
  rw [h] at hm
  exact hm.progress hr

theorem conn_look (s : Session) : (s.look clock).conn = s.conn := by
  unfold look
  split <;> rfl

/-- The loop of `next_event`, `connection.rs:254-262`. -/
def nextEventLoop (s : Session) : Session × Except ClientError (Option SessionEvent) :=
  match _h : (s.look clock).readMore (s.look clock).remaining with
  | (s', .error e) => (s', .error e)
  | (s', .ok (some ev)) => (s', .ok (some ev))
  | (s', .ok none) =>
    if (s.look clock).remaining = some 0 then (s', .ok none) else nextEventLoop s'
termination_by s.conn.unread
decreasing_by
  have hp := progress _h (by simp)
  rw [conn_look] at hp
  simpa using hp

/-- `next_event`, `connection.rs:249`. -/
def nextEvent (s : Session) (timeout : Option Nat) :
    Session × Except ClientError (Option SessionEvent) := (s.call clock timeout).nextEventLoop clock

/-- The loop of `attach_over`, `connection.rs:122-147`; `before` are the events that came before
the SCREEN. -/
def attachLoop (s : Session) (before : List SessionEvent) : Session × Except ClientError Unit :=
  if (s.look clock).remaining = some 0 then
    ((s.look clock).onConn { s.conn with socket := none }, .error (.closedBeforeScreen s.conn.name))
  else
    match _h : (s.look clock).readMore (s.look clock).remaining with
    | (s', .error e) => (s', .error e)
    | (s', .ok (some (.screen bytes))) =>
      (s'.onConn { s'.conn with screen := bytes, pending := before ++ s'.conn.pending }, .ok ())
    | (s', .ok (some .closed)) => (s', .error (.closedBeforeScreen s.conn.name))
    | (s', .ok (some (.geometry _ _))) => attachLoop s' before
    | (s', .ok none) => attachLoop s' before
    | (s', .ok (some (.data bytes))) => attachLoop s' (before ++ [.data bytes])
    | (s', .ok (some (.exit code))) => attachLoop s' (before ++ [.exit code])
termination_by (s.conn.unread, s.conn.pending.length)
decreasing_by
  all_goals
    have hp := progress _h (by simp)
    rw [conn_look] at hp
    rw [Prod.lex_def]
    simp only
    omega

/-- `attach_over`, `connection.rs:90`, with what the write of the ATTACH gives. -/
def attachOver (written : Except SocketError Unit) (path : String) (socket : Socket)
    (name : String) (rows cols : UInt16) (timeout : Option Nat) :
    Session × Except ClientError Unit :=
  let s : Session := { conn := .start socket name rows cols }
  match written with
  | .error e => (s, .error (mapIoError name "write" (some path) e))
  | .ok () => (s.call clock timeout).attachLoop clock []

end Session

/-! ### The async connection -/

namespace AsyncConnection

open SessionConnection

/-- One turn of the loop of `next_event`, `connection.rs:671-711`; no event yet is `none`. -/
def turn (c : SessionConnection) : SessionConnection × Option (Except ClientError SessionEvent) :=
  match c.pending with
  | ev :: rest => ({ c with pending := rest }, some (.ok ev))
  | [] =>
    if c.closed then (c, some (.ok .closed))
    else
      match c.socket with
      | none => (c, some (.ok .closed))
      | some socket =>
        match socket.read with
        | (.error e, _) => (c.close, some (.error (mapIoError c.name "read" none e)))
        | (.ok [], _) => (c.close, some (.ok .closed))
        | (.ok (b :: chunk), socket) =>
          match { c with socket := some socket }.feed (b :: chunk) with
          | none => (c.close, some (.ok .closed))
          | some c => (c, none)

/-- A turn without an event took an answer of the socket. -/
theorem unread_turn {c c' : SessionConnection} (h : turn c = (c', none)) :
    c'.unread < c.unread := by
  unfold turn at h
  split at h
  · cases h
  · split at h
    · cases h
    · split at h
      · cases h
      · next socket hs =>
        unfold Socket.read at h
        cases hi : socket.incoming with
        | nil =>
          rw [hi] at h
          cases h
        | cons answer rest =>
          rw [hi] at h
          cases answer with
          | error e => cases h
          | ok chunk =>
            cases chunk with
            | nil => cases h
            | cons b chunk =>
              dsimp only at h
              split at h
              · cases h
              · next hf =>
                cases h
                rw [unread_of_socket (socket_feed hf) rfl, unread_of_socket hs hi]
                exact Nat.lt_succ_self _

/-- `next_event`, `connection.rs:669`. -/
def nextEvent (c : SessionConnection) : SessionConnection × Except ClientError SessionEvent :=
  match _h : turn c with
  | (c', some result) => (c', result)
  | (c', none) => nextEvent c'
termination_by c.unread
decreasing_by exact unread_turn _h

/-- A call of `next_event` takes an event that was queued, or an answer of the socket. -/
private theorem progress {c c' : SessionConnection} {ev : SessionEvent}
    (h : nextEvent c = (c', .ok ev)) (hev : ev ≠ .closed) :
    c'.unread < c.unread ∨ (c'.unread = c.unread ∧ c'.pending.length < c.pending.length) := by
  induction hn : c.unread using Nat.strong_induction_on generalizing c with
  | _ n ih =>
    rw [nextEvent] at h
    split at h
    · next result ht =>
      cases h
      unfold turn at ht
      split at ht
      · next hp =>
        cases ht
        refine .inr ⟨hn, ?_⟩
        rw [hp]
        exact Nat.lt_succ_self _
      · split at ht
        · cases ht
          exact absurd rfl hev
        · split at ht
          · cases ht
            exact absurd rfl hev
          · split at ht
            · cases ht
            · cases ht
              exact absurd rfl hev
            · split at ht
              · cases ht
                exact absurd rfl hev
              · cases ht
    · next ht =>
      have hlt := unread_turn ht
      obtain hp | hp := ih _ (hn ▸ hlt) h rfl
      · exact .inl (by omega)
      · exact .inl (by omega)

/-- The loop of `attach_over`, `connection.rs:622-638`. -/
def attachLoop (c : SessionConnection) (before : List SessionEvent) :
    SessionConnection × Except ClientError Unit :=
  match _h : nextEvent c with
  | (c', .error e) => (c', .error e)
  | (c', .ok (.screen bytes)) =>
    ({ c' with screen := bytes, pending := before ++ c'.pending }, .ok ())
  | (c', .ok .closed) => (c', .error (.closedBeforeScreen c.name))
  | (c', .ok (.geometry _ _)) => attachLoop c' before
  | (c', .ok (.data bytes)) => attachLoop c' (before ++ [.data bytes])
  | (c', .ok (.exit code)) => attachLoop c' (before ++ [.exit code])
termination_by (c.unread, c.pending.length)
decreasing_by
  all_goals
    have hp := progress _h (by simp)
    rw [Prod.lex_def]
    simp only
    omega

/-- `attach_over`, `connection.rs:594`, with what the write of the ATTACH gives. -/
def attachOver (written : Except SocketError Unit) (path : String) (socket : Socket)
    (name : String) (rows cols : UInt16) : SessionConnection × Except ClientError Unit :=
  let c := start socket name rows cols
  match written with
  | .error e => (c, .error (mapIoError name "write" (some path) e))
  | .ok () => attachLoop c []

end AsyncConnection

end PtySpec.Client
