import PtySpec.Protocol.Payload
import PtySpec.Vt.PasteMode

/-!
# The thread of a terminal handle

Model of `Core`, `crates/pty/src/handle.rs:353-1005`: what a handle's thread does with one
message. The terminal and the open read change at once. What other threads, the child and the
daemon can see of it is a list of effects, in the order the code has them; a capture of the
terminal is such an effect. No handler changes the terminal after the first of its effects
that shows it.
-/

namespace PtySpec.Handle

open Lib Protocol Vt

/-- `INPUT_PACKET`, `handle.rs:40`. -/
def INPUT_PACKET : Nat := 1024 * 1024

/-- `AttachOptions`, `handle.rs:115`; of the graphics only the cells' size. -/
structure AttachOptions where
  rows : UInt16
  cols : UInt16
  readonly : Bool := false
  cell : Option CellSize := none
  deriving DecidableEq, Repr

/-- `Backend`, `handle.rs:360`. A stream is known by the attempt it was opened for. -/
inductive Backend where
  | spawn
  | attach (opts : AttachOptions) (stream : Option Nat)
  deriving DecidableEq, Repr

namespace Backend

/-- A read-only attach. -/
def readonly : Backend → Bool
  | .attach opts _ => opts.readonly
  | .spawn => false

/-- An attach without a stream. -/
def disconnected : Backend → Bool
  | .attach _ none => true
  | _ => false

end Backend

/-- `PasteTarget`, `handle.rs:244`. -/
inductive PasteTarget where
  | paste
  | read (read : Nat)
  deriving DecidableEq, Repr

/-- `PasteRefusal`, `handle.rs:254`. -/
inductive PasteRefusal where
  | staleAttempt
  | readOnly
  | disconnected
  | closed
  | modeDisabled
  | staleRead
  | outOfOrder
  | invalid
  | packetTooLarge
  | transactionTooLarge
  deriving DecidableEq, Repr

/-- `HandleEvent`, `handle.rs:189`, without `Dirty`, which `flush_frame` emits. -/
inductive HandleEvent (ν : Type) where
  | bell
  | title (title : String)
  | notification (n : ν)
  | graphics (generation : Nat)
  | geometry (rows cols : UInt16)
  | exited (code : Int32)
  | disconnected
  | connected (attempt : Nat)
  | enhancedPasteMode (attempt : Nat) (enabled : Bool)
  | enhancedPasteRequest (attempt read : Nat) (request : ReadRequest)

/-- `OpenRead`, `handle.rs:400`. -/
structure OpenRead where
  read : Nat
  id : Option PasteId
  deriving DecidableEq

/-- `PasteRead`, `handle.rs:392`. -/
structure PasteRead where
  openRead : Option OpenRead := none
  answer : Option (List UInt8) := none
  data : Nat := 0

/-- The flags of `State`, `handle.rs:322`. -/
structure Status where
  ready : Bool := false
  connected : Bool := true
  connecting : Bool := false
  closed : Bool := false
  exitCode : Option Int32 := none

/-- What makes a handle write to its child. -/
inductive Source where
  | user
  | terminal
  | listing
  | read (read : Nat)
  | unpublished
  deriving DecidableEq, Repr

/-- One call of `Core::input`, or one reply of the terminal. -/
structure Written where
  source : Source
  attempt : Nat
  bytes : List UInt8
  deriving DecidableEq, Repr

/-- What others can see of a message's handling. -/
inductive Effect (ν : Type) where
  | input (w : Written)
  | packet (p : Packet)
  | publish
  | emit (event : HandleEvent ν)
  | dirty
  | flush (force : Bool)
  | observe
  | snapshot (offset reply : Nat)
  | capture (offset reply : Nat)
  | answer (attempt : Nat) (target : PasteTarget) (packet : PastePacket)
    (result : Except PasteRefusal Unit)

/-- `Msg`, `handle.rs:283`. `query` stands for the six requests that only read the terminal,
`event` for a key, a mouse event, a focus change and pasted text. -/
inductive Msg (G : Type) [Emulator G] where
  | output (attempt : Nat) (bytes : List UInt8)
  | frame (attempt : Nat) (packet : Packet)
  | disconnected (attempt : Nat)
  | childExited (attempt : Nat) (code : Int32)
  | input (bytes : List UInt8)
  | resize (cols rows : UInt16)
  | snapshot (offset reply : Nat)
  | captureFrame (offset reply : Nat)
  | observeFrames
  | query
  | clearGraphics
  | cellSize (cell : CellSize)
  | event (ev : Emulator.InputEvent G)
  | setPalette (colors : List (UInt8 × UInt8 × UInt8))
  | enhancedPaste (attempt : Nat) (target : PasteTarget) (packet : PastePacket)
  | reconnect (attached : Bool)

/-- `Core`, `handle.rs:372`, and what only its thread changes of the shared state. -/
structure Core (G ν : Type) where
  actor : TerminalActor G (Tapped ν)
  attempt : Nat := 1
  backend : Backend
  paste : PasteRead := {}
  pasteReads : Nat := 0
  pasteMode : Bool := false
  status : Status := {}
  graphicsGeneration : Nat := 0

/-- `cell_pixels`, `handle.rs:1007`. -/
def cellPixels (opts : AttachOptions) : Option (UInt16 × UInt16) :=
  match opts.cell with
  | some cell =>
    if cell.width > 0 ∧ cell.height > 0 then
      some ((min cell.width 65535).toUInt16, (min cell.height 65535).toUInt16)
    else none
  | none => none

/-- A size, with the cells' size where there is one, `protocol.rs:241-274`, `362-372`. -/
def sizedPacket (type_ : MessageType) (opts : AttachOptions) (rows cols : UInt16) : Packet :=
  match cellPixels opts with
  | some (w, h) => ⟨type_, sizePayload rows cols ++ sizePayload w h⟩
  | none => ⟨type_, sizePayload rows cols⟩

/-- The first packet of a connection, `handle.rs:1024`. -/
def hello (opts : AttachOptions) : Packet :=
  if opts.readonly then ⟨.peek, [0]⟩ else sizedPacket .attach opts opts.rows opts.cols

/-- `decode_exit`, `protocol.rs:492`. -/
def decodeExit : List UInt8 → Int32
  | a :: b :: c :: d :: _ => (fromBeBytes a b c d).toInt32
  | _ => -1

namespace Core

variable {G ν : Type}

/-- `Core::input`, `handle.rs:736`: whether there is someone to write to. -/
def input (c : Core G ν) (source : Source) (bytes : List UInt8) : List (Effect ν) :=
  match c.backend with
  | .spawn => [.input ⟨source, c.attempt, bytes⟩]
  | .attach opts stream =>
    if !opts.readonly && stream.isSome then [.input ⟨source, c.attempt, bytes⟩] else []

/-- The DATA packets of one call of `Core::input`, `handle.rs:748`. -/
def inputPackets (bytes : List UInt8) : List Packet := (chunks INPUT_PACKET bytes).map Packet.data

/-- `Core::refuse_read`, `handle.rs:725`. -/
def refuseRead (c : Core G ν) (source : Source) (id : Option PasteId) : List (Effect ν) :=
  match PastePacket.encode (.readError .busy) (id.map (·.val)) with
  | .ok bytes => c.input source bytes
  | .error _ => []

/-- One event of the terminal, the loop of `Core::publish`, `handle.rs:455-497`. -/
def publishEvent (c : Core G ν) (event : TerminalEvent (Tapped ν)) :
    Core G ν × List (Effect ν) :=
  match event with
  | .bell => (c, [.emit .bell])
  | .titleChange title => (c, [.emit (.title title)])
  | .notification (.notification n) => (c, [.emit (.notification n)])
  | .notification (.read _) => (c, [])
  | .focusRequest => (c, [])
  | .cursorVisible => (c, [])
  | .enhancedPasteMode enabled =>
    ({ c with paste := if enabled then c.paste else {}, pasteMode := enabled },
      [.emit (.enhancedPasteMode c.attempt enabled)])
  | .enhancedPasteRead (.notification _) => (c, [])
  | .enhancedPasteRead (.read request) =>
    if !c.pasteMode then (c, [])
    -- one read at a time, any other is refused now
    else if c.paste.openRead.isSome then (c, c.refuseRead .unpublished request.id)
    else
      ({ c with
        pasteReads := c.pasteReads + 1
        paste := { c.paste with openRead := some ⟨c.pasteReads + 1, request.id⟩ } },
        [.emit (.enhancedPasteRequest c.attempt (c.pasteReads + 1) request)])

/-- The loop of `Core::publish`. -/
def publishEvents (c : Core G ν) :
    List (TerminalEvent (Tapped ν)) → Core G ν × List (Effect ν)
  | [] => (c, [])
  | event :: rest =>
    let (c, effects) := c.publishEvent event
    let (c, more) := c.publishEvents rest
    (c, effects ++ more)

variable [Emulator G]

/-- `Core::publish`, `handle.rs:435`. -/
def publish (c : Core G ν) : Core G ν × List (Effect ν) :=
  let (events, actor) := c.actor.takeEvents
  let generation := Emulator.graphicsGeneration actor.term
  let changed := c.graphicsGeneration != generation
  let (c, effects) :=
    { c with actor := actor, graphicsGeneration := generation }.publishEvents events
  (c, .publish :: effects ++ (if changed then [.emit (.graphics generation)] else []) ++ [.dirty])

/-- `Core::end_stream`, `handle.rs:590`: whether paste events went off. -/
def endStream (c : Core G ν) : Bool × Core G ν :=
  (c.actor.modes.enhancedPaste, { c with paste := {}, actor := c.actor.endStream })

/-- `end_stream`, and the publication it asks for. -/
def endStreamPublished (c : Core G ν) : Core G ν × List (Effect ν) :=
  let (off, c) := c.endStream
  if off then c.publish else (c, [])

/-- `Core::on_exit`, `handle.rs:587`. -/
def onExit (c : Core G ν) (code : Int32) : Core G ν × List (Effect ν) :=
  let (c, effects) := c.endStream.2.publish
  ({ c with status := { c.status with exitCode := some code, ready := true } },
    effects ++ [.flush false, .emit (.exited code)])

/-- `Core::on_disconnected`, `handle.rs:599`. -/
def onDisconnected (c : Core G ν) : Core G ν × List (Effect ν) :=
  let (c, effects) := c.endStreamPublished
  let backend := match c.backend with
    | .spawn => .spawn
    | .attach opts _ => .attach opts none
  ({ c with status := { c.status with connected := false }, backend := backend },
    effects ++ [.emit .disconnected])

/-- Whether a paste packet fits the attempt, the stream, the mode and the open read,
`handle.rs:627-659`. -/
def checkPaste (c : Core G ν) (attempt : Nat) (target : PasteTarget) (packet : PastePacket) :
    Except PasteRefusal Unit :=
  if attempt ≠ c.attempt then .error .staleAttempt
  else if c.backend.readonly then .error .readOnly
  else if c.backend.disconnected then .error .disconnected
  else if c.status.closed || c.status.exitCode.isSome then .error .disconnected
  else if !c.actor.modes.enhancedPaste then .error .modeDisabled
  else
    match target, packet with
    | .paste, .listing .. => .ok ()
    | .read _, .listing .. => .error .invalid
    | .read read, _ =>
      if c.paste.openRead.all fun o ↦ o.read ≠ read then .error .staleRead else .ok ()
    | .paste, _ => .error .invalid

/-- `encode` within `write_paste`, `handle.rs:661`. -/
def encodePaste (c : Core G ν) (packet : PastePacket) : Except PasteRefusal (List UInt8) :=
  let id := c.paste.openRead.bind (·.id)
  match packet.encode (id.map (·.val)) with
  | .ok bytes => .ok bytes
  | .error .invalid => .error .invalid
  | .error .tooLarge => .error .packetTooLarge

/-- What a packet for the open read is written under. -/
def readSource (c : Core G ν) : Source :=
  match c.paste.openRead with
  | some o => .read o.read
  | none => .unpublished

/-- `Core::refuse_open_read`, `handle.rs:719`. -/
def refuseOpenRead (c : Core G ν) : Core G ν × List (Effect ν) :=
  let id := c.paste.openRead.bind (·.id)
  ({ c with paste := {} }, c.refuseRead c.readSource id)

/-- What becomes of a packet that fits, `handle.rs:666-715`. -/
def takePaste (c : Core G ν) (packet : PastePacket) :
    Except PasteRefusal Unit × Core G ν × List (Effect ν) :=
  match packet with
  | .listing .. =>
    match c.encodePaste packet with
    | .error refusal => (.error refusal, c, [])
    | .ok bytes => (.ok (), c, c.input .listing bytes)
  | .readOk =>
    if c.paste.answer.isSome then (.error .outOfOrder, c, [])
    else
      match c.encodePaste packet with
      | .error refusal => (.error refusal, c, [])
      | .ok bytes => (.ok (), { c with paste := { c.paste with answer := some bytes } }, [])
  | .readData _ data =>
    match c.paste.answer with
    | none => (.error .outOfOrder, c, [])
    | some answer =>
      match c.encodePaste packet with
      | .error refusal => (.error refusal, c.refuseOpenRead)
      | .ok bytes =>
        if c.paste.data + data.length ≤ MAX_TRANSACTION ∧
            answer.length + bytes.length ≤ MAX_ANSWER then
          (.ok (), { c with paste := { c.paste with
            data := c.paste.data + data.length
            answer := some (answer ++ bytes) } }, [])
        else (.error .transactionTooLarge, c.refuseOpenRead)
  | .readDone =>
    match c.paste.answer with
    | none => (.error .outOfOrder, c, [])
    | some answer =>
      match c.encodePaste packet with
      -- the answer was taken out before it could be ended
      | .error refusal => (.error refusal, { c with paste := { c.paste with answer := none } }, [])
      | .ok bytes => (.ok (), { c with paste := {} }, c.input c.readSource (answer ++ bytes))
  | .readError _ =>
    match c.encodePaste packet with
    | .error refusal => (.error refusal, c, [])
    | .ok bytes => (.ok (), { c with paste := {} }, c.input c.readSource bytes)

/-- `Core::write_paste`, `handle.rs:621`. -/
def writePaste (c : Core G ν) (attempt : Nat) (target : PasteTarget) (packet : PastePacket) :
    Except PasteRefusal Unit × Core G ν × List (Effect ν) :=
  match c.checkPaste attempt target packet with
  | .error refusal => (.error refusal, c, [])
  | .ok () => c.takePaste packet

/-- `Core::resize`, `handle.rs:759`. -/
def resize (c : Core G ν) (cols rows : UInt16) : Core G ν × List (Effect ν) :=
  match c.backend with
  | .spawn =>
    if cols = Ghostty.cols c.actor.term ∧ rows = Ghostty.rows c.actor.term then (c, [])
    else
      let (c, effects) := { c with actor := c.actor.resize cols rows }.publish
      (c, effects ++ [.emit (.geometry rows cols)])
  | .attach opts stream =>
    if opts.readonly ∨ (cols = opts.cols ∧ rows = opts.rows) then (c, [])
    else
      -- the requested size outlives the stream, only GEOMETRY changes the terminal's
      ({ c with backend := .attach { opts with cols := cols, rows := rows } stream },
        if stream.isSome then [.packet (sizedPacket .resize opts rows cols)] else [])

/-- The child's output, `Core::on_output`, `handle.rs:532`. -/
def onOutput [NotificationTap ν] (c : Core G ν) (bytes : List UInt8) :
    Core G ν × List (Effect ν) :=
  let (_, actor) := c.actor.write bytes
  let (replies, actor) := actor.takePtyReplies
  let written := match c.backend with
    | .spawn => if replies = [] then [] else [.input ⟨.terminal, c.attempt, replies⟩]
    | .attach .. => []
  let (c, effects) := { c with actor := actor }.publish
  (c, written ++ effects)

/-- What the daemon has sent, `Core::on_frame`, `handle.rs:544`. The daemon's terminal has
answered the child's queries already. -/
def onFrame [NotificationTap ν] (c : Core G ν) (packet : Packet) : Core G ν × List (Effect ν) :=
  match packet.type_ with
  | .screen =>
    let (_, actor) := c.actor.reset.write packet.payload
    let (c, effects) := { c with actor := actor.takePtyReplies.2 }.publish
    ({ c with status := { c.status with ready := true } }, effects ++ [.flush false])
  | .data =>
    let (_, actor) := c.actor.write packet.payload
    { c with actor := actor.takePtyReplies.2 }.publish
  | .exit => c.onExit (decodeExit packet.payload)
  | .geometry =>
    let (rows, cols) := decodeSize packet.payload
    let (c, effects) := { c with actor := c.actor.resize cols rows }.publish
    (c, effects ++ [.emit (.geometry rows cols)])
  | _ => (c, [])

/-- `Core::reconnect`, `handle.rs:795`; `attached` says whether the connector succeeds. -/
def reconnect (c : Core G ν) (attached : Bool) : Core G ν × List (Effect ν) :=
  match c.backend with
  | .spawn => (c, [])
  | .attach opts stream =>
    let detach := if stream.isSome then [.packet ⟨.detach, []⟩] else []
    let (c, effects) := { c with backend := .attach opts none }.endStreamPublished
    let attempt := c.attempt + 1
    let status := { c.status with
      ready := false, connected := attached, connecting := false, exitCode := none }
    ({ c with
      attempt := attempt
      status := status
      backend := .attach opts (if attached then some attempt else none) },
      detach ++ effects ++
        if attached then [.packet (hello opts), .emit (.connected attempt)] else [])

/-- A new size of the cells, `handle.rs:892`: the daemon is told, it holds the terminal. -/
def setCellSize (c : Core G ν) (cell : CellSize) : Core G ν × List (Effect ν) :=
  let c := { c with actor := c.actor.setCellSize cell }
  match c.backend with
  | .attach opts (some stream) =>
    if opts.readonly then c.publish
    else
      let opts := { opts with cell := opts.cell.map fun _ ↦ cell }
      let told := if (cellPixels opts).isSome then
        [.packet (sizedPacket .resize opts opts.rows opts.cols)] else []
      let (c, effects) := { c with backend := .attach opts (some stream) }.publish
      (c, told ++ effects)
  | _ => c.publish

/-- `Core::dispatch`, `handle.rs:836`. -/
def dispatch [NotificationTap ν] (c : Core G ν) : Msg G → Core G ν × List (Effect ν)
  | .output attempt bytes => if attempt = c.attempt then c.onOutput bytes else (c, [])
  | .frame attempt packet => if attempt = c.attempt then c.onFrame packet else (c, [])
  | .disconnected attempt => if attempt = c.attempt then c.onDisconnected else (c, [])
  | .childExited attempt code => if attempt = c.attempt then c.onExit code else (c, [])
  | .input bytes => (c, c.input .user bytes)
  | .resize cols rows => c.resize cols rows
  | .snapshot offset reply => (c, [.snapshot offset reply])
  | .captureFrame offset reply =>
    (c, if offset = 0 then [.flush true, .capture 0 reply] else [.capture offset reply])
  | .observeFrames => (c, [.observe])
  | .query => (c, [])
  | .clearGraphics => { c with actor := c.actor.clearGraphics }.publish
  | .cellSize cell => c.setCellSize cell
  | .event ev =>
    let bytes := Emulator.encode c.actor.term c.actor.modes c.actor.cell ev
    (c, if bytes = [] then [] else c.input .user bytes)
  | .setPalette colors => { c with actor := c.actor.setPalette colors }.publish
  | .enhancedPaste attempt target packet =>
    let (result, c, effects) := c.writePaste attempt target packet
    (c, effects ++ [.answer attempt target packet result])
  | .reconnect attached => c.reconnect attached

/-- `Core::shutdown`, `handle.rs:957`, after the last flush of `run`. -/
def shutdown (c : Core G ν) : Core G ν × List (Effect ν) :=
  let (backend, detach) := match c.backend with
    | .attach opts (some _) => (Backend.attach opts none, [.packet ⟨.detach, []⟩])
    | backend => (backend, [])
  ({ c with
    backend := backend
    status := { c.status with closed := true, connected := false } }, .flush false :: detach)

end Core

end PtySpec.Handle
