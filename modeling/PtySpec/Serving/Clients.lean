import PtySpec.Lib.Follow
import PtySpec.Lib.Program
import PtySpec.Protocol.Payload

/-!
# The clients of a serving daemon

Model of the connections of a daemon and of the messages that reach them:
`crates/pty/src/daemon/clients.rs`, `geometry.rs`, and the output and exit handling of
`lifecycle.rs:1085-1177`, `1474-1584`. Every message is handled by one thread; a client's
writer thread takes its packets from a queue. The terminal is a parameter. `log` and
`output` remember what a client was sent and what the terminal has put out.
-/

namespace PtySpec.Serving

open Lib Protocol

/-- `SerializeOpts`, `serialize.rs:27`. -/
structure SerializeOpts where
  includeAltScreenPrefix : Bool
  scrollback : Bool
  deriving DecidableEq, Repr

namespace SerializeOpts

/-- The ATTACH replay. -/
def ATTACH : SerializeOpts := ⟨true, true⟩

/-- `peek`. -/
def PEEK : SerializeOpts := ⟨false, false⟩

/-- `peek --full`. -/
def PEEK_FULL : SerializeOpts := ⟨false, true⟩

end SerializeOpts

/-- What the daemon uses of `TerminalActor`, `actor.rs:214`. `write` and
`resetInputModes` also give the cleaned output for the clients. -/
class Terminal (T : Type) where
  rows : T → UInt16
  cols : T → UInt16
  cellSize : T → UInt32 × UInt32
  setCellSize : T → UInt32 × UInt32 → T
  setClipboardClientAvailable : T → Bool → T
  setEnhancedPasteAvailable : T → Bool → T
  write : T → List UInt8 → List UInt8 × T
  takePtyReplies : T → List UInt8 × T
  resize : T → UInt16 → UInt16 → T
  resetInputModes : T → List UInt8 × T
  endStream : T → T
  serialize : T → SerializeOpts → List UInt8
  plain : T → Bool → List UInt8

/-- `Role`, `clients.rs:91`. -/
inductive Role where
  | command
  | writable
  | readonly
  deriving DecidableEq, Repr

/-- `CutKind`, `clients.rs:99`. -/
inductive CutKind where
  | attach (sizeMatched : Bool)
  | peek (plain full : Bool)
  deriving DecidableEq, Repr

/-- `Phase`, `clients.rs:105`; times are milliseconds. -/
inductive Phase where
  | live
  | settling (deadline generation : Nat) (kind : CutKind)
  deriving DecidableEq, Repr

/-- `OUTBOUND_QUEUE_BYTES`, `clients.rs:38`. -/
def OUTBOUND_QUEUE_BYTES : Nat := 64 * 1024 * 1024

/-- `OUTBOUND_ITEM_OVERHEAD`, `clients.rs:41`. -/
def OUTBOUND_ITEM_OVERHEAD : Nat := 64

/-- `Client`, `clients.rs:115`. `tx` are the packets queued for the writer, `inFlight` the
one it writes, `written` those it wrote; `hungUp` says that the writer has ended. -/
structure Client where
  pendingBytes : Nat := 0
  rejected : Bool := false
  hungUp : Bool := false
  role : Role := .command
  rows : UInt16
  cols : UInt16
  attachSeq : Nat := 0
  generation : Nat := 0
  phase : Phase := .live
  attached : Bool := false
  tx : List Packet := []
  inFlight : Option Packet := none
  written : List Packet := []
  log : List (Handed Packet UInt8) := []

/-- A packet as a client's log has it. -/
def handed (packet : Packet) (position : Nat) : Handed Packet UInt8 :=
  match packet.type_ with
  | .screen => .snapshot packet position
  | .data => .chunk packet.payload
  | .exit => .ending packet
  | _ => .other packet

/-- What a queued packet is charged, `clients.rs:164`; `capacity` is that of its buffer. -/
def charge (capacity : Packet → Nat) (packet : Packet) : Nat :=
  capacity packet + OUTBOUND_ITEM_OVERHEAD

namespace Client

/-- Nothing more reaches the client. -/
def cutOff (c : Client) : Bool := c.rejected || c.hungUp

/-- `Client::send`, `clients.rs:160`. Without room the client is rejected as too slow;
without a writer the packet is dropped and the socket shut. -/
def send (capacity : Packet → Nat) (position : Nat) (c : Client) (packet : Packet) : Client :=
  if c.rejected then
    c
  else if c.pendingBytes + charge capacity packet ≤ OUTBOUND_QUEUE_BYTES then
    if c.hungUp then
      c
    else
      { c with
        pendingBytes := c.pendingBytes + charge capacity packet
        tx := c.tx ++ [packet]
        log := c.log ++ [handed packet position] }
  else
    { c with rejected := true }

/-- What becomes of a packet: it is queued, or the client is cut off already, or now. -/
theorem send_cases (capacity : Packet → Nat) (position : Nat) (c : Client)
    (packet : Packet) :
    (c.cutOff = false ∧ c.send capacity position packet =
      { c with
        pendingBytes := c.pendingBytes + charge capacity packet
        tx := c.tx ++ [packet]
        log := c.log ++ [handed packet position] }) ∨
      (c.cutOff = true ∧ c.send capacity position packet = c) ∨
      c.send capacity position packet = { c with rejected := true } := by
  unfold Client.send
  split
  · next hr => exact .inr (.inl ⟨by simp [Client.cutOff, hr], rfl⟩)
  · next hr =>
    split
    · split
      · next hu => exact .inr (.inl ⟨by simp [Client.cutOff, hu], rfl⟩)
      · next hu => exact .inl ⟨by simp [Client.cutOff, hr, hu], rfl⟩
    · exact .inr (.inr rfl)

/-- `Client::is_settling`, `clients.rs:207`. -/
def isSettling (c : Client) : Bool :=
  match c.phase with
  | .settling _ _ _ => true
  | .live => false

/-- `Client::gets_geometry`, `clients.rs:212`. -/
def getsGeometry (c : Client) : Bool := c.attachSeq > 0 || c.role = .readonly

/-- `Client::constrains_size`, `clients.rs:217`. -/
def constrainsSize (c : Client) : Bool := c.role = .writable && c.attachSeq > 0

/-- Enter `Settling`: from here the client waits for its SCREEN. -/
def settle (position : Nat) (exited : Bool) (deadline generation : Nat) (kind : CutKind)
    (c : Client) : Client :=
  { c with
    phase := .settling deadline generation kind
    log := if c.cutOff then c.log else c.log ++ [.paused position exited] }

end Client

/-- `ClientFacts`, `clients.rs:53`. -/
structure ClientFacts where
  rows : UInt16
  cols : UInt16
  writable : List (Nat × UInt16 × UInt16)
  deriving DecidableEq, Repr

/-- `ExitStatus`, `substrate.rs:90`. -/
structure ExitStatus where
  code : Option Int32
  signal : Option Int32
  deriving DecidableEq, Repr

/-- `PtySize`, as `geometry.rs:64` fills it. -/
structure PtySize where
  rows : UInt16
  cols : UInt16
  pixelWidth : UInt16
  pixelHeight : UInt16
  deriving DecidableEq, Repr

/-- The pty as its owner has it, `substrate.rs:691`. -/
structure Session where
  running : Bool := true
  size : PtySize
  deriving DecidableEq, Repr

/-- `CommandKind::Resize`, `substrate.rs:747`: refused once the child is reaped. -/
def Session.resize (s : Session) (size : PtySize) : Session :=
  if s.running then { s with size := size } else s

/-- What of `Daemon`, `lifecycle.rs:137`, concerns its clients. `clients` is ordered by
connection; `output` is the cleaned output so far. -/
structure Daemon (T : Type) where
  actor : T
  session : Session
  settle : Nat
  capacity : Packet → Nat
  clients : List (Nat × Client) := []
  attachCounter : Nat := 0
  lastResize : Option Nat := none
  publishedClientFacts : ClientFacts
  clientGeneration : Nat := 0
  childStatus : Option ExitStatus := none
  ptyEof : Bool := false
  exited : Bool := false
  exitCode : Int32 := 0
  exitDrainDeadline : Option Nat := none
  output : List UInt8 := []

namespace Daemon

variable {T : Type} [Terminal T]

/-- `BTreeMap::get`. -/
def client (s : Daemon T) (id : Nat) : Option Client := s.clients.lookup id

/-- `BTreeMap::get_mut`: change a client in place. -/
def update (id : Nat) (f : Client → Client) : List (Nat × Client) → List (Nat × Client)
  | [] => []
  | (i, c) :: rest => if id = i then (i, f c) :: rest else (i, c) :: update id f rest

/-- Change the client of that number. -/
def modify (s : Daemon T) (id : Nat) (f : Client → Client) : Daemon T :=
  { s with clients := update id f s.clients }

/-- `BTreeMap::insert`. -/
def insert (id : Nat) (c : Client) : List (Nat × Client) → List (Nat × Client)
  | [] => [(id, c)]
  | (i, d) :: rest =>
    if id < i then (id, c) :: (i, d) :: rest
    else if id = i then (id, c) :: rest
    else (i, d) :: insert id c rest

theorem mem_update {id : Nat} {f : Client → Client} {clients : List (Nat × Client)}
    {p : Nat × Client} (h : p ∈ update id f clients) :
    p ∈ clients ∨ ∃ c, clients.lookup id = some c ∧ (id, c) ∈ clients ∧ p = (id, f c) := by
  induction clients with
  | nil => cases h
  | cons q clients ih =>
    obtain ⟨i, c⟩ := q
    unfold update at h
    split at h
    · next hi =>
      subst hi
      rcases List.mem_cons.mp h with rfl | h
      · exact .inr ⟨c, by simp, List.mem_cons_self, rfl⟩
      · exact .inl (List.mem_cons_of_mem _ h)
    · next hi =>
      rcases List.mem_cons.mp h with rfl | h
      · exact .inl List.mem_cons_self
      · rcases ih h with h | ⟨d, hl, hd, rfl⟩
        · exact .inl (List.mem_cons_of_mem _ h)
        · refine .inr ⟨d, ?_, List.mem_cons_of_mem _ hd, rfl⟩
          rw [List.lookup_cons, beq_false_of_ne hi]
          exact hl

theorem mem_insert {id : Nat} {c : Client} {clients : List (Nat × Client)}
    {p : Nat × Client} (h : p ∈ insert id c clients) : p = (id, c) ∨ p ∈ clients := by
  induction clients with
  | nil => exact .inl (List.mem_singleton.mp h)
  | cons q clients ih =>
    obtain ⟨i, d⟩ := q
    unfold insert at h
    split at h
    · exact List.mem_cons.mp h
    · split at h
      · exact (List.mem_cons.mp h).imp_right (List.mem_cons_of_mem _)
      · rcases List.mem_cons.mp h with rfl | h
        · exact .inr List.mem_cons_self
        · exact (ih h).imp_right (List.mem_cons_of_mem _)

/-- Send a packet to one client. -/
def sendTo (s : Daemon T) (id : Nat) (packet : Packet) : Daemon T :=
  s.modify id (·.send s.capacity s.output.length packet)

/-- `Daemon::broadcast`, `clients.rs:657`: to every client that is not settling. -/
def broadcast (s : Daemon T) (packet : Packet) : Daemon T :=
  { s with clients := s.clients.map fun (i, c) ↦
      (i, if c.isSettling then c else c.send s.capacity s.output.length packet) }

/-! ### Geometry -/

/-- `Daemon::broadcast_geometry`, `geometry.rs:53`: whatever the client's phase. -/
def broadcastGeometry (s : Daemon T) (rows cols : UInt16) : Daemon T :=
  { s with clients := s.clients.map fun (i, c) ↦
      (i, if c.getsGeometry then
        c.send s.capacity s.output.length (.geometry rows cols) else c) }

/-- The smallest rows and cols of the clients that constrain the size, `geometry.rs:20`; a
zero is replaced by the next size. -/
def negotiated (clients : List (Nat × Client)) : UInt16 × UInt16 :=
  (clients.filter (·.2.constrainsSize)).foldl (fun size (_, c) ↦
    (if size.1 = 0 then c.rows else min size.1 c.rows,
      if size.2 = 0 then c.cols else min size.2 c.cols)) (0, 0)

/-- The pixels of a row or column of cells, `geometry.rs:61`. -/
def pixels (cells : UInt16) (extent : UInt32) : UInt16 :=
  UInt16.ofNat (min (cells.toNat * extent.toNat) 65535)

/-- `Daemon::resize_pty`, `geometry.rs:59`. -/
def resizePty (s : Daemon T) (rows cols : UInt16) : Daemon T :=
  let (width, height) := Terminal.cellSize s.actor
  let size : PtySize :=
    { rows := rows
      cols := cols
      pixelWidth := pixels cols width
      pixelHeight := pixels rows height }
  { s with session := s.session.resize size }

/-- `Daemon::negotiate_size`, `geometry.rs:19`: whether the size changed. -/
def negotiateSize (s : Daemon T) (now : Nat) : Bool × Daemon T :=
  let (rows, cols) := negotiated s.clients
  if rows = 0 ∨ cols = 0 then
    (false, s)
  else if rows > 4096 ∨ cols > 4096 ∨ rows.toNat * cols.toNat > 250000 then
    (false, s)
  else if rows = Terminal.rows s.actor ∧ cols = Terminal.cols s.actor then
    (false, s)
  else
    let s := { s with actor := Terminal.resize s.actor cols rows }
    let s := s.broadcastGeometry rows cols
    let s := s.resizePty rows cols
    (true, { s with
      actor := (Terminal.takePtyReplies s.actor).2
      lastResize := some now })

/-- `Daemon::nudge_redraw`, `geometry.rs:78`. -/
def nudgeRedraw (s : Daemon T) : Daemon T :=
  let cols := Terminal.cols s.actor
  let rows := Terminal.rows s.actor
  if cols < 2 then
    s
  else
    let s := s.resizePty rows (cols - 1)
    let s := { s with actor := Terminal.resize s.actor (cols - 1) rows }
    let s := s.resizePty rows cols
    { s with actor := Terminal.resize s.actor cols rows }

/-! ### SCREEN -/

/-- The SCREEN of a cut, `clients.rs:575`. -/
def screen (actor : T) : CutKind → List UInt8
  | .attach _ => Terminal.serialize actor .ATTACH
  | .peek true full => Terminal.plain actor full
  | .peek false full => Terminal.serialize actor (if full then .PEEK_FULL else .PEEK)

/-- Whether the last resize is more recent than the redraw settle, `clients.rs:600`. -/
def resizedLately (s : Daemon T) (now : Nat) : Bool :=
  s.lastResize.any fun at_ ↦ now - at_ < s.settle

/-- SCREEN, then live, then EXIT when the child is gone, `clients.rs:591`. -/
def handScreen (s : Daemon T) (id : Nat) (kind : CutKind) : Daemon T :=
  s.modify id fun c ↦
    let c := c.send s.capacity s.output.length (.screen (screen s.actor kind))
    let c := { c with phase := .live }
    if s.exited then c.send s.capacity s.output.length (.exit s.exitCode) else c

/-- The redraw nudge for an attacher whose size differed, `clients.rs:597`. -/
def nudgeAfterCut (s : Daemon T) (now : Nat) : CutKind → Daemon T
  | .attach sizeMatched =>
    if !s.exited && !sizeMatched && s.resizedLately now then s.nudgeRedraw else s
  | .peek _ _ => s

/-- `Daemon::cut`, `clients.rs:561`. -/
def cut (s : Daemon T) (now id : Nat) : Daemon T :=
  match s.client id with
  | none => s
  | some c =>
    match c.phase with
    | .live => s
    | .settling _ generation kind =>
      if generation ≠ c.generation then s else (s.handScreen id kind).nudgeAfterCut now kind

/-- `Daemon::schedule_cut`, `clients.rs:536`. -/
def scheduleCut (s : Daemon T) (now id generation : Nat) (kind : CutKind) (delay : Option Nat) :
    Daemon T :=
  let s := s.modify id
    (·.settle s.output.length s.exited (now + delay.getD 0) generation kind)
  if delay.isNone then s.cut now id else s

/-- `Daemon::service_cuts`, `clients.rs:622`. -/
def serviceCuts (s : Daemon T) (now : Nat) : Daemon T :=
  let due := s.clients.filterMap fun (id, c) ↦
    match c.phase with
    | .settling deadline _ _ => if deadline ≤ now then some id else none
    | .live => none
  due.foldl (fun s id ↦ s.cut now id) s

/-! ### Packets of a client -/

/-- `Daemon::client_facts`, `clients.rs:461`. -/
def clientFacts (s : Daemon T) : ClientFacts where
  rows := Terminal.rows s.actor
  cols := Terminal.cols s.actor
  writable := (s.clients.filter (·.2.constrainsSize)).map fun (id, c) ↦ (id, c.rows, c.cols)

/-- `Daemon::note_client_change`, `clients.rs:479`, up to the write of the record. An
ATTACH always counts. -/
def noteClientChange (s : Daemon T) (attach : Bool) : Daemon T :=
  if !attach && s.clientFacts = s.publishedClientFacts then
    s
  else
    { s with
      publishedClientFacts := s.clientFacts
      clientGeneration := s.clientGeneration + 1 }

/-- `Daemon::adopt_cell_size`, `clients.rs:411`: whether the metrics changed. -/
def adoptCellSize (s : Daemon T) (payload : List UInt8) : Bool × Daemon T :=
  match decodeCell payload with
  | some (width, height) =>
    let cell := (width.toUInt32, height.toUInt32)
    if Terminal.cellSize s.actor ≠ cell then
      (true, { s with actor := Terminal.setCellSize s.actor cell })
    else (false, s)
  | none => (false, s)

/-- New metrics go to the pty too, unless a new size has just taken them along,
`clients.rs:292`, `391`. -/
def applyCellSize (s : Daemon T) (cellChanged resized : Bool) : Daemon T :=
  if cellChanged && !resized then s.resizePty (Terminal.rows s.actor) (Terminal.cols s.actor)
  else s

/-- GEOMETRY to the client that asked, unless the new size was broadcast, `clients.rs:291`. -/
def answerGeometry (s : Daemon T) (id : Nat) (resized : Bool) : Daemon T :=
  if resized then s
  else s.sendTo id (.geometry (Terminal.rows s.actor) (Terminal.cols s.actor))

/-- How long the cut of an ATTACH waits, `clients.rs:300`. -/
def attachDelay (s : Daemon T) (now : Nat) (resized : Bool) : Option Nat :=
  if s.exited then none
  else if resized then some s.settle
  else
    match s.lastResize with
    | some at_ => if now - at_ < s.settle then some (s.settle - (now - at_)) else none
    | none => none

/-- `Daemon::on_attach`, `clients.rs:263`. -/
def onAttach (s : Daemon T) (now id : Nat) (payload : List UInt8) : Daemon T :=
  if payload.length < 4 then
    s
  else
    match s.client id with
    | none => s
    | some c =>
      let (rows, cols) := decodeSize payload
      let (cellChanged, s) := s.adoptCellSize payload
      -- read before the negotiation, which may shrink the session to this size
      let sizeMatched := rows = Terminal.rows s.actor && cols = Terminal.cols s.actor
      let s := { s with attachCounter := s.attachCounter + 1 }
      let generation := c.generation + 1
      let s := s.modify id fun c ↦
        { c with
          role := .writable
          rows := rows
          cols := cols
          attachSeq := s.attachCounter
          generation := generation
          attached := true }
      let (resized, s) := s.negotiateSize now
      let s := s.applyCellSize cellChanged resized
      let s := s.answerGeometry id resized
      let s := s.noteClientChange true
      s.scheduleCut now id generation (.attach sizeMatched) (s.attachDelay now resized)

/-- `Daemon::on_peek`, `clients.rs:340`. -/
def onPeek (s : Daemon T) (now id : Nat) (payload : List UInt8) : Daemon T :=
  match s.client id with
  | none => s
  | some c =>
    let generation := c.generation + 1
    let s := s.modify id fun c ↦ { c with role := .readonly, generation := generation }
    let (resized, s) := s.negotiateSize now
    let s := s.answerGeometry id resized
    let s := if c.constrainsSize then s.noteClientChange false else s
    let (plain, full) := decodePeek payload
    s.scheduleCut now id generation (.peek plain full) none

/-- `Daemon::on_resize`, `clients.rs:376`. -/
def onResize (s : Daemon T) (now id : Nat) (payload : List UInt8) : Daemon T :=
  match s.client id with
  | none => s
  | some c =>
    if c.role ≠ .writable ∨ c.attachSeq = 0 ∨ payload.length < 4 then
      s
    else
      let (rows, cols) := decodeSize payload
      let s := { s with attachCounter := s.attachCounter + 1 }
      let s := s.modify id fun c ↦
        { c with rows := rows, cols := cols, attachSeq := s.attachCounter }
      let (cellChanged, s) := s.adoptCellSize payload
      let (resized, s) := s.negotiateSize now
      let s := s.applyCellSize cellChanged resized
      s.noteClientChange false

/-- `Daemon::on_closed`, `clients.rs:452`: forget the client and renegotiate. -/
def onClosed (s : Daemon T) (now id : Nat) : Daemon T :=
  match s.client id with
  | none => s
  | some c =>
    let s := { s with clients := s.clients.filter (·.1 ≠ id) }
    let (_, s) := s.negotiateSize now
    if c.constrainsSize then s.noteClientChange false else s

/-- `Daemon::on_detach`, `clients.rs:444`. -/
def onDetach (s : Daemon T) (now id : Nat) : Daemon T := s.onClosed now id

/-- `MessageType::ResetInputModes`, `clients.rs:243`. -/
def onResetInputModes (s : Daemon T) (id : Nat) (payload : List UInt8) : Daemon T :=
  if payload = [] ∧ (s.client id).any (·.role = .writable) then
    let (output, actor) := Terminal.resetInputModes s.actor
    let s := { s with actor := actor, output := s.output ++ output }
    s.broadcast (.data output)
  else
    s

/-- `Daemon::on_packet`, `clients.rs:233`. `reply` is the payload of a packet that is
answered from outside the clients' state. -/
def onPacket (s : Daemon T) (now id : Nat) (packet : Packet) (reply : List UInt8) : Daemon T :=
  match packet.type_ with
  | .attach => s.onAttach now id packet.payload
  | .peek => s.onPeek now id packet.payload
  | .resize => s.onResize now id packet.payload
  | .detach => s.onDetach now id
  | .resetInputModes => s.onResetInputModes id packet.payload
  | .history => s.sendTo id ⟨.history, reply⟩
  | .status => s.sendTo id ⟨.status, reply⟩
  | .acceptedSocketOwnership => s.sendTo id ⟨.acceptedSocketOwnership, reply⟩
  | .lifecycleCas => s.sendTo id ⟨.lifecycleCas, reply⟩
  | _ => s

/-! ### Output and exit -/

/-- `answering_client_available`, `lifecycle.rs:941`. -/
def answeringClientAvailable (clients : List (Nat × Client)) : Bool :=
  clients.any fun (_, c) ↦ c.role = .writable && c.attached && !c.isSettling

/-- `Daemon::on_pty_data`, `lifecycle.rs:1165`. -/
def onPtyData (s : Daemon T) (bytes : List UInt8) : Daemon T :=
  let answering := answeringClientAvailable s.clients
  let actor := Terminal.setClipboardClientAvailable s.actor answering
  let actor := Terminal.setEnhancedPasteAvailable actor answering
  let (cleaned, actor) := Terminal.write actor bytes
  let (_, actor) := Terminal.takePtyReplies actor
  let s := { s with actor := actor, output := s.output ++ cleaned }
  if cleaned = [] then s else s.broadcast (.data cleaned)

/-- `EXIT_DRAIN`, `lifecycle.rs:117`, in milliseconds. -/
def EXIT_DRAIN : Nat := 300

/-- The exit code a status stands for, `lifecycle.rs:1560`. -/
def exitCodeOf (status : Option ExitStatus) : Int32 :=
  match status with
  | some ⟨_, some signal⟩ => 128 + signal
  | some ⟨some code, none⟩ => code
  | _ => -1

/-- `Daemon::finalize_exit`, `lifecycle.rs:1554`, as far as clients see it. -/
def finalizeExit (s : Daemon T) : Daemon T :=
  let code := exitCodeOf s.childStatus
  let s := { s with
    exited := true
    exitCode := code
    exitDrainDeadline := none
    actor := Terminal.endStream s.actor }
  s.broadcast (.exit code)

/-- The child's status is known and, once the PTY is closed, final, `lifecycle.rs:1099`. -/
def onChildExited (s : Daemon T) (now : Nat) (status : ExitStatus) : Daemon T :=
  if s.childStatus.isSome then
    s
  else
    let s := { s with childStatus := some status }
    if s.ptyEof then
      if s.exited then s else s.finalizeExit
    else
      { s with exitDrainDeadline := some (now + EXIT_DRAIN) }

/-- What the daemon's thread is sent, `lifecycle.rs:60`, as far as clients see it. `held`
says whether a launch operation holds the exit back. -/
inductive Msg where
  | ptyData (bytes : List UInt8)
  | ptyEof
  | childExited (status : ExitStatus) (held : Bool)
  | connect (id : Nat)
  | packet (id : Nat) (packet : Packet) (reply : List UInt8)
  | closed (id : Nat)

/-- `Daemon::handle`, `lifecycle.rs:1085`. -/
def handle (s : Daemon T) (now : Nat) : Msg → Daemon T
  | .ptyData bytes => s.onPtyData bytes
  | .ptyEof =>
    let s := { s with ptyEof := true }
    if s.childStatus.isSome && !s.exited then s.finalizeExit else s
  | .childExited status held => if held then s else s.onChildExited now status
  | .connect id =>
    { s with clients :=
        insert id { rows := Terminal.rows s.actor, cols := Terminal.cols s.actor } s.clients }
  | .packet id packet reply => s.onPacket now id packet reply
  | .closed id => s.onClosed now id

/-- `Daemon::service_timers`, `lifecycle.rs:1474`, as far as clients see it. -/
def serviceTimers (s : Daemon T) (now : Nat) : Daemon T :=
  let s := s.serviceCuts now
  if s.exitDrainDeadline.any (· ≤ now) then
    let s := { s with exitDrainDeadline := none }
    if !s.exited && s.childStatus.isSome then s.finalizeExit else s
  else
    s

/-! ### Runs -/

/-- The writer takes the next packet, `lifecycle.rs:811`. -/
def writerTakes (c : Client) : Client :=
  match c.inFlight, c.tx with
  | none, packet :: rest => { c with inFlight := some packet, tx := rest }
  | _, _ => c

/-- The writer wrote its packet, whose charge is then released. -/
def writerWrote (capacity : Packet → Nat) (c : Client) : Client :=
  match c.inFlight with
  | some packet =>
    { c with
      inFlight := none
      written := c.written ++ [packet]
      pendingBytes := c.pendingBytes - charge capacity packet }
  | none => c

/-- The writer ends and drops what is queued, `lifecycle.rs:817`. -/
def writerEnds (capacity : Packet → Nat) (c : Client) : Client :=
  { c with
    hungUp := true
    inFlight := none
    tx := []
    pendingBytes :=
      c.pendingBytes - ((c.inFlight.toList ++ c.tx).map (charge capacity)).sum }

/-- One step: the daemon's thread handles a message or its timers, or closes every
connection; the owner of the pty collects the child; or a client's writer acts. -/
inductive Label where
  | handle (now : Nat) (msg : Msg)
  | timers (now : Nat)
  | close
  | reaped
  | writerTakes (id : Nat)
  | writerWrote (id : Nat)
  | writerEnds (id : Nat)

/-- One step of the daemon. -/
def step (s : Daemon T) : Label → Daemon T
  | .handle now msg => s.handle now msg
  | .timers now => s.serviceTimers now
  | .close => { s with clients := [] }
  | .reaped => { s with session := { s.session with running := false } }
  | .writerTakes id => s.modify id writerTakes
  | .writerWrote id => s.modify id (writerWrote s.capacity)
  | .writerEnds id => s.modify id (writerEnds s.capacity)

/-- A daemon that no client has connected to and whose child has written nothing. -/
def Init (s : Daemon T) : Prop :=
  s.clients = [] ∧ s.output = [] ∧ s.exited = false ∧ s.childStatus = none

/-- The states that runs reach. -/
def Reached : Daemon T → Prop := Reachable Init fun s t ↦ ∃ l, t = s.step l

end Daemon
end PtySpec.Serving
