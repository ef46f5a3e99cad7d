import PtySpec.Serving.Clients
import PtySpec.Vt.Graphics

/-!
# The SCREEN packet

Model of `serialize_for_replay`, `crates/pty-terminal/src/serialize.rs:106`, and of the
packet that `clients.rs:600` sends. What libghostty formats as text is a parameter. A
client takes the packet exactly when the text and the graphics block fit together.
-/

namespace PtySpec.Serving

open Lib Protocol Vt

/-- What a replay reads of a terminal besides its images: the formatted cells with their
padding and background, the colours the child changed, the cursor, and the pen. -/
class Formatted (G : Type) extends Storage G where
  format : G → Bool → List UInt8
  colors : G → List UInt8
  cursorX : G → UInt16
  cursorY : G → UInt16
  pen : G → List UInt8

/-! ### `String::from_utf8_lossy` -/

/-- The length that the first byte of a character announces, or 0. -/
def utf8Width (b : UInt8) : Nat :=
  if b < 0x80 then 1 else if b < 0xc2 then 0 else if b < 0xe0 then 2 else if b < 0xf0 then 3
  else if b < 0xf5 then 4 else 0

/-- The second byte is one that may follow the first. -/
def utf8Second (first second : UInt8) : Bool :=
  if first = 0xe0 then 0xa0 ≤ second && second ≤ 0xbf
  else if first = 0xed then 0x80 ≤ second && second ≤ 0x9f
  else if first = 0xf0 then 0x90 ≤ second && second ≤ 0xbf
  else if first = 0xf4 then 0x80 ≤ second && second ≤ 0x8f
  else 0x80 ≤ second && second ≤ 0xbf

/-- How many of the bytes after the first belong to its character. -/
def utf8Tail (first : UInt8) (rest : List UInt8) : Nat :=
  match rest.take (utf8Width first - 1) with
  | [] => 0
  | second :: more =>
    if utf8Second first second then
      1 + (more.takeWhile fun b ↦ 0x80 ≤ b && b ≤ 0xbf).length
    else 0

/-- `String::from_utf8_lossy`: each part that is no character becomes U+FFFD. -/
def fromUtf8Lossy : List UInt8 → List UInt8
  | [] => []
  | first :: rest =>
    let n := utf8Tail first rest
    (if n + 1 = utf8Width first then first :: rest.take n else [0xef, 0xbf, 0xbd]) ++
      fromUtf8Lossy (rest.drop n)
termination_by bytes => bytes.length
decreasing_by simp

/-! ### The replay -/

/-- `CSI > flags u` for each entry of a keyboard stack. -/
def kittyPushes (flags : List UInt8) : List UInt8 :=
  flags.flatMap fun f ↦ ascii "\x1b[>" ++ decimal f.toNat ++ ascii "u"

/-- `mode_prefix`, `serialize.rs:59`. -/
def modePrefix (modes : Modes) (includeAltScreen : Bool) : List UInt8 :=
  (if includeAltScreen && modes.altScreen then ascii "\x1b[?1049h" else []) ++
    (if modes.mouse1000 then ascii "\x1b[?1000h" else []) ++
    (if modes.mouse1002 then ascii "\x1b[?1002h" else []) ++
    (if modes.mouse1003 then ascii "\x1b[?1003h" else []) ++
    (if modes.sgrMouse then ascii "\x1b[?1006h" else []) ++
    (if modes.cursorHidden then ascii "\x1b[?25l" else []) ++ kittyPushes modes.kittyStack

section Replay

variable {G ε : Type} [Formatted G]

/-- The text of `vt` before the graphics, `serialize.rs:391-416`. -/
def vtText (term : G) (scrollback : Bool) : List UInt8 :=
  Formatted.format term scrollback ++ ascii "\x1b[" ++
    decimal (Formatted.cursorY term + 1).toNat ++ ascii ";" ++
    decimal (Formatted.cursorX term + 1).toNat ++ ascii "H"

/-- `vt`, `serialize.rs:391`. -/
def vt (term : G) (scrollback : Bool) (cell : CellSize) : List UInt8 :=
  vtText term scrollback ++ replay term cell ++ Formatted.pen term

/-- The half of the normal screen in a replay of the alternate one, `serialize.rs:116-135`. -/
def normalHalf (a : TerminalActor G ε) (opts : SerializeOpts) : List UInt8 :=
  match a.normalReplay with
  | none => []
  | some normal =>
    if opts.includeAltScreenPrefix && a.modes.altScreen then
      ascii "\x1b[?1049l" ++ kittyPushes a.inactiveKittyStack ++ normal ++
        ascii "\x1b[?1049h\x1b[H"
    else normal

/-- What comes before `vt` in a replay, `serialize.rs:107-135`. -/
def replayPrefix (a : TerminalActor G ε) (opts : SerializeOpts) : List UInt8 :=
  modePrefix a.modes opts.includeAltScreenPrefix ++
    (if opts.includeAltScreenPrefix && a.modes.enhancedPaste then ascii "\x1b[?5522h"
    else []) ++
    Formatted.colors a.term ++ normalHalf a opts

/-- `TerminalActor::cursor_replay`, `actor.rs:529`. -/
def cursorReplay (a : TerminalActor G ε) : List UInt8 :=
  fromUtf8Lossy (a.cursorShapeReplay.getD []) ++ fromUtf8Lossy (a.cursorColorReplay.getD [])

/-- `serialize_for_replay`, `serialize.rs:106`. -/
def serializeForReplay (a : TerminalActor G ε) (opts : SerializeOpts) : List UInt8 :=
  replayPrefix a opts ++ vt a.term opts.scrollback a.cell ++ cursorReplay a

/-- The length of a replay's text, all but the graphics block. -/
def textLength (a : TerminalActor G ε) (opts : SerializeOpts) : Nat :=
  (replayPrefix a opts).length + (vtText a.term opts.scrollback).length +
    (Formatted.pen a.term).length + (cursorReplay a).length

/-- The bytes of the images that have a placement. -/
def storedBytes (a : TerminalActor G ε) : Nat :=
  ((Storage.read a.term a.cell.orFallback).images.map fun i ↦
    ((Storage.imageBytes a.term i.id).map (·.data.length)).getD 0).sum

theorem length_serializeForReplay (a : TerminalActor G ε) (opts : SerializeOpts) :
    (serializeForReplay a opts).length = textLength a opts + replayLength a.term a.cell := by
  simp only [serializeForReplay, vt, textLength, List.length_append, length_replay]
  omega

/-! ### What a client takes -/

/-- A client that reads nothing else takes the SCREEN as it was sent. -/
def Accepted (payload : List UInt8) : Prop :=
  ({} : PacketReader).feed (Packet.screen payload).encode = ({}, .ok [Packet.screen payload])

theorem accepted_of_le {payload : List UInt8} (h : payload.length ≤ MAX_PACKET_LENGTH) :
    Accepted payload := by
  have hp : ∀ p ∈ [Packet.screen payload], p.payload.length ≤ MAX_PACKET_LENGTH := by
    intro p hp
    rw [List.mem_singleton] at hp
    rw [hp]
    exact h
  have hd := drain_encode [Packet.screen payload] hp
  have hc : (Packet.screen payload).type_.Canonical := rfl
  rw [List.map_singleton, List.map_singleton, List.flatten_singleton,
    (Packet.screen payload).reread_eq hc] at hd
  have hr := feed_eq {} (Packet.screen payload).encode (by rw [List.nil_append, hd])
  rw [List.nil_append, hd] at hr
  exact hr

/-- A client refuses a header that declares more than the limit. -/
theorem refused_of_lt {payload : List UInt8} (h : MAX_PACKET_LENGTH < payload.length)
    (h32 : payload.length < 2 ^ 32) :
    ({} : PacketReader).feed (Packet.screen payload).encode =
      ({}, .error (.invalidData (tooLargeMessage payload.length))) := by
  have hl : (UInt32.ofNat payload.length).toNat = payload.length := by
    rw [UInt32.toNat_ofNat', Nat.mod_eq_of_lt h32]
  have hn : frames.next (Packet.screen payload).encode =
      .fail (.invalidData (tooLargeMessage payload.length)) := by
    simp only [frames, Packet.screen, Packet.encode, encodePacket, toBeBytes, List.cons_append,
      List.nil_append, nextFrame]
    rw [fromBeBytes_toBeBytes, hl]
    exact if_pos h
  rw [PacketReader.feed, feedLoop_eq_drain, List.nil_append, frames.drain_fail hn]

/-- The SCREEN of a terminal is one that clients take exactly when its text, the base64 of
its images with the chunk headers, and the placements' commands are within the limit
together. -/
theorem screen_fits_iff (a : TerminalActor G ε) (opts : SerializeOpts) :
    ((serializeForReplay a opts).length ≤ MAX_PACKET_LENGTH ∧
        Accepted (serializeForReplay a opts)) ↔
      textLength a opts + replayLength a.term a.cell ≤ MAX_PACKET_LENGTH := by
  rw [← length_serializeForReplay]
  exact ⟨fun h ↦ h.1, fun h ↦ ⟨h, accepted_of_le h⟩⟩

end Replay

/-! ### One image -/

/-- A terminal without text that holds one image, 4096 pixels wide in four bytes each. -/
structure OneImage where
  height : UInt32
  bytes : List UInt8

/-- The description of that image. -/
def OneImage.desc (g : OneImage) : ImageDesc := ⟨1, 4096, g.height, .rgba, .none⟩

/-- One placement in placeholder cells shows the image. -/
instance : Formatted OneImage where
  vtWrite g _ := (g, {})
  rows _ := 24
  cols _ := 80
  vt _ _ := []
  read g _ :=
    { images := [g.desc]
      placements :=
        [⟨1, 0, true, 0, ⟨0, 0, 4096, g.height⟩, (0, 0), (0, 0), (0, 0), .placeholder⟩] }
  imageBytes g id := if id = 1 then some ⟨g.desc, g.bytes⟩ else none
  format _ _ := []
  colors _ := []
  cursorX _ := 0
  cursorY _ := 0
  pen _ := []

/-- The actor of that terminal, for an image of a height. -/
def imageActor (height : UInt32) : TerminalActor OneImage Unit :=
  { term := ⟨height, List.replicate (4096 * height.toNat * 4) 0⟩ }

private theorem storedBytes_imageActor (height : UInt32) :
    storedBytes (imageActor height) = 4096 * height.toNat * 4 := by
  simp [storedBytes, imageActor, Storage.read, Storage.imageBytes, OneImage.desc]

private theorem digits10_le (n : UInt32) : digits10 n.toNat ≤ 10 := by
  have hlt := n.toNat_lt
  rw [digits10, decimal, List.length_map, Nat.length_toDigits_le_iff (by decide) (by decide)]
  omega

private theorem replayLength_imageActor {height : UInt32} {b : ImageBytes × Nat}
    (hs : sendable (imageActor height).term 1 = some b) :
    replayLength (imageActor height).term (imageActor height).cell =
      transmitLength b.1 b.2 + (16 + placementParamsLength
        ⟨1, 0, true, 0, ⟨0, 0, 4096, height⟩, (0, 0), (0, 0), (0, 0), .placeholder⟩) := by
  have hread : Storage.read (imageActor height).term (imageActor height).cell.orFallback =
      { images := [(imageActor height).term.desc]
        placements := [⟨1, 0, true, 0, ⟨0, 0, 4096, height⟩, (0, 0), (0, 0), (0, 0),
          .placeholder⟩] } := rfl
  have hid : (imageActor height).term.desc.id = 1 := rfl
  unfold replayLength
  dsimp only
  rw [hread, if_neg (List.cons_ne_nil _ _)]
  simp [imageLength, hid, hs, placeLength]

private theorem length_imageActor (height : UInt32) (h : 0 < height.toNat)
    (hle : height.toNat ≤ 2048) :
    base64Length (4096 * height.toNat * 4) ≤
        (serializeForReplay (imageActor height) .ATTACH).length ∧
      (serializeForReplay (imageActor height) .ATTACH).length ≤ 50000000 := by
  have hne : (List.replicate (4096 * height.toNat * 4) (0 : UInt8)) ≠ [] := by
    apply List.ne_nil_of_length_pos
    rw [List.length_replicate]
    omega
  have hs : sendable (imageActor height).term 1 = some
      (⟨⟨1, 4096, height, .rgba, .none⟩, List.replicate (4096 * height.toNat * 4) 0⟩, 32) := by
    simp only [sendable, Storage.imageBytes, imageActor, OneImage.desc, if_true,
      Option.bind_some, PixelFormat.kittyFormat, if_neg hne]
  have ht : textLength (imageActor height) .ATTACH ≤ 100 := by
    have h₁ : fromUtf8Lossy [] = [] := by rw [fromUtf8Lossy]
    simp [textLength, imageActor, replayPrefix, modePrefix, kittyPushes, normalHalf, vtText,
      Formatted.colors, Formatted.format, Formatted.pen, Formatted.cursorX, Formatted.cursorY,
      cursorReplay, h₁]
    decide
  have hr := replayLength_imageActor hs
  have hw := digits10_le height
  have hd : ∀ n : Nat, n ≤ 4096 → digits10 n ≤ 4 := by
    intro n hn
    rw [digits10, decimal, List.length_map, Nat.length_toDigits_le_iff (by decide) (by decide)]
    omega
  rw [length_serializeForReplay, hr]
  simp only [transmitLength, transmitParamsLength, List.length_replicate, placementParamsLength,
    optionalLength, base64Length, show (1 : UInt32).toNat = 1 from rfl,
    show (4096 : UInt32).toNat = 4096 from rfl, show (0 : UInt32).toNat = 0 from rfl,
    show PixelFormat.rgba.isRaw = true from rfl, reduceCtorEq, ne_eq, not_true_eq_false, if_true,
    if_false]
  have h₀ := hd 0 (by decide)
  have h₁ := hd 1 (by decide)
  have h₂ := hd 32 (by decide)
  have h₃ := hd 4096 (by decide)
  constructor
  · split <;> omega
  · split <;> omega

/-- An image of 25 MiB, within the storage limit, makes a SCREEN that every client refuses. -/
theorem imageActor_refused : storedBytes (imageActor 1600) ≤ MAX_STORAGE_BYTES ∧
    MAX_PACKET_LENGTH < (serializeForReplay (imageActor 1600) .ATTACH).length ∧
    ∃ e, ({} : PacketReader).feed
      (Packet.screen (serializeForReplay (imageActor 1600) .ATTACH)).encode =
        ({}, .error e) := by
  have hb := length_imageActor 1600 (by decide) (by decide)
  have hlt : MAX_PACKET_LENGTH < (serializeForReplay (imageActor 1600) .ATTACH).length :=
    lt_of_lt_of_le (by decide) hb.1
  refine ⟨?_, hlt, _, refused_of_lt hlt (lt_of_le_of_lt hb.2 (by decide))⟩
  rw [storedBytes_imageActor]
  decide

end PtySpec.Serving
