import PtySpec.Lib.Incremental

/-!
# Wire packets

Model of the framing in `crates/pty-core/src/protocol.rs`: a type byte, a
big-endian 32-bit length and the payload. Two independent readers take the
frames apart again: the streaming `PacketReader`, which keeps partial frames
across reads, and the blocking `read_packet` of the simple clients.
-/

namespace PtySpec.Protocol

open PtySpec.Lib

/-- `protocol.rs:14`. `unknown` keeps a wire byte that has no name verbatim. -/
inductive MessageType where
  | data
  | attach
  | detach
  | resize
  | exit
  | screen
  | peek
  | status
  | acceptedSocketOwnership
  | lifecycleCas
  | geometry
  | resetInputModes
  | connectionError
  | history
  | unknown (byte : UInt8)
  deriving DecidableEq, Repr

namespace MessageType

/-- `MessageType::from_u8`, `protocol.rs:50`. -/
def fromU8 (b : UInt8) : MessageType :=
  match b with
  | 0 => data
  | 1 => attach
  | 2 => detach
  | 3 => resize
  | 4 => exit
  | 5 => screen
  | 6 => peek
  | 7 => status
  | 10 => geometry
  | 11 => resetInputModes
  | 12 => connectionError
  | 13 => history
  | 8 => acceptedSocketOwnership
  | 9 => lifecycleCas
  | other => unknown other

/-- `MessageType::as_u8`, `protocol.rs:71`. -/
def asU8 : MessageType → UInt8
  | data => 0
  | attach => 1
  | detach => 2
  | resize => 3
  | exit => 4
  | screen => 5
  | peek => 6
  | status => 7
  | acceptedSocketOwnership => 8
  | lifecycleCas => 9
  | geometry => 10
  | resetInputModes => 11
  | connectionError => 12
  | history => 13
  | unknown b => b

/-- A type the wire can name: not `unknown` of a byte that has a name of its own. -/
def Canonical (t : MessageType) : Prop := fromU8 t.asU8 = t

instance (t : MessageType) : Decidable t.Canonical := inferInstanceAs (Decidable (_ = _))

/-- Every named type is canonical; only `unknown` can fail to be. -/
theorem canonical_of_ne_unknown (t : MessageType) (h : ∀ b, t ≠ unknown b) : t.Canonical := by
  cases t with
  | unknown b => exact absurd rfl (h b)
  | _ => rfl

end MessageType

/-- A decoded packet, `protocol.rs:94`. -/
structure Packet where
  type_ : MessageType
  payload : List UInt8
  deriving DecidableEq, Repr

/-- `HEADER_SIZE`, `protocol.rs:214`. -/
def HEADER_SIZE : Nat := 5

/-- `MAX_PACKET_LENGTH`, `protocol.rs:217`: 32 MiB. -/
def MAX_PACKET_LENGTH : Nat := 32 * 1024 * 1024

/-- `too_large_message`, `protocol.rs:221`. -/
def tooLargeMessage (length : Nat) : String :=
  s!"Packet length {length} exceeds maximum {MAX_PACKET_LENGTH}"

/-- `u32::to_be_bytes`. -/
def toBeBytes (n : UInt32) : List UInt8 :=
  [UInt8.ofNat (n.toNat / 2 ^ 24), UInt8.ofNat (n.toNat / 2 ^ 16),
    UInt8.ofNat (n.toNat / 2 ^ 8), UInt8.ofNat n.toNat]

/-- `u32::from_be_bytes`. -/
def fromBeBytes (a b c d : UInt8) : UInt32 :=
  UInt32.ofNat (a.toNat * 2 ^ 24 + b.toNat * 2 ^ 16 + c.toNat * 2 ^ 8 + d.toNat)

/-- Reading back the big-endian bytes of a 32-bit number gives the number. -/
theorem fromBeBytes_toBeBytes (n : UInt32) :
    fromBeBytes (UInt8.ofNat (n.toNat / 2 ^ 24)) (UInt8.ofNat (n.toNat / 2 ^ 16))
      (UInt8.ofNat (n.toNat / 2 ^ 8)) (UInt8.ofNat n.toNat) = n := by
  have hn := n.toNat_lt
  apply UInt32.toNat_inj.mp
  simp only [fromBeBytes, UInt32.toNat_ofNat', UInt8.toNat_ofNat']
  omega

/-- `encode_packet`, `protocol.rs:227`; `payload.len() as u32` keeps the low 32 bits. -/
def encodePacket (type_ : MessageType) (payload : List UInt8) : List UInt8 :=
  type_.asU8 :: (toBeBytes (UInt32.ofNat payload.length) ++ payload)

/-- `Packet::encode`, `protocol.rs:101`. -/
def Packet.encode (p : Packet) : List UInt8 := encodePacket p.type_ p.payload

/-- The packet as a reader names it: its type read back from the wire byte. -/
def Packet.reread (p : Packet) : Packet := { p with type_ := .fromU8 p.type_.asU8 }

/-- A packet whose type the wire can name is read back unchanged. -/
theorem Packet.reread_eq (p : Packet) (h : p.type_.Canonical) : p.reread = p := by
  cases p
  simp only [reread]
  congr

/-- The kinds of `io::Error` the two readers report, with their texts. -/
inductive IoError where
  | invalidData (message : String)
  | unexpectedEof
  deriving DecidableEq, Repr

/-- One turn of the loop in `PacketReader::feed`: a whole frame, an over-long
header, or the need for more bytes. -/
def nextFrame : List UInt8 → Next UInt8 Packet IoError
  | t :: a :: b :: c :: d :: body =>
    let length := (fromBeBytes a b c d).toNat
    if length > MAX_PACKET_LENGTH then
      .fail (.invalidData (tooLargeMessage length))
    else if body.length < length then
      .more
    else
      .item ⟨.fromU8 t, body.take length⟩ (body.drop length)
  | _ => .more

/-- Streaming packet parser, `protocol.rs:500`. -/
structure PacketReader where
  buffer : List UInt8 := []
  deriving DecidableEq, Repr

private theorem nextFrame_length_lt {b r : List UInt8} {p : Packet}
    (h : nextFrame b = .item p r) : r.length < b.length := by
  unfold nextFrame at h
  split at h
  · dsimp only at h
    split at h
    · cases h
    · split at h
      · cases h
      · cases h
        simp only [List.length_drop, List.length_cons]
        omega
  · cases h

/-- The loop of `PacketReader::feed`, `protocol.rs:518`: frames are pushed onto
`packets` until the buffer holds no whole one. An over-long header clears the
buffer and loses `packets`. -/
def feedLoop (buffer : List UInt8) (packets : List Packet) :
    PacketReader × Except IoError (List Packet) :=
  match h : nextFrame buffer with
  | .more => (⟨buffer⟩, .ok packets)
  | .fail e => (⟨[]⟩, .error e)
  | .item p rest =>
    have : rest.length < buffer.length := nextFrame_length_lt h
    feedLoop rest (packets ++ [p])
termination_by buffer.length

/-- `PacketReader::feed`, `protocol.rs:514`. -/
def PacketReader.feed (r : PacketReader) (data : List UInt8) :
    PacketReader × Except IoError (List Packet) :=
  feedLoop (r.buffer ++ data) []

/-- One reader fed chunk after chunk, the packets concatenated; the first error ends it. -/
def PacketReader.feedAll (r : PacketReader) :
    List (List UInt8) → PacketReader × Except IoError (List Packet)
  | [] => (r, .ok [])
  | chunk :: chunks =>
    match r.feed chunk with
    | (r', .error e) => (r', .error e)
    | (r', .ok packets) =>
      match r'.feedAll chunks with
      | (r'', .error e) => (r'', .error e)
      | (r'', .ok more) => (r'', .ok (packets ++ more))

/-- `Read::read_exact` on a byte stream that ends: all `n` bytes, or end of file
with the stream used up. -/
def readExact (stream : List UInt8) (n : Nat) : Except IoError (List UInt8) × List UInt8 :=
  if stream.length < n then (.error .unexpectedEof, [])
  else (.ok (stream.take n), stream.drop n)

/-- `read_packet`, `protocol.rs:553`. End of file inside the header is the end of
the packets; inside the payload it is an error. -/
def readPacket (stream : List UInt8) : Except IoError (Option Packet) × List UInt8 :=
  match readExact stream HEADER_SIZE with
  | (.ok [t, a, b, c, d], rest) =>
    let length := (fromBeBytes a b c d).toNat
    if length > MAX_PACKET_LENGTH then
      (.error (.invalidData (tooLargeMessage length)), rest)
    else
      match readExact rest length with
      | (.ok payload, rest') => (.ok (some ⟨.fromU8 t, payload⟩), rest')
      | (.error e, rest') => (.error e, rest')
  | (.ok _, rest) => (.ok none, rest)
  | (.error .unexpectedEof, rest) => (.ok none, rest)
  | (.error e, rest) => (.error e, rest)

/-- A read that succeeds takes exactly `n` bytes off the stream. -/
theorem readExact_length {stream bytes rest : List UInt8} {n : Nat}
    (h : readExact stream n = (.ok bytes, rest)) : rest.length + n = stream.length := by
  unfold readExact at h
  split at h
  · cases h
  · next hl =>
    obtain ⟨-, rfl⟩ := Prod.mk.inj h
    rw [List.length_drop]
    omega

private theorem readPacket_length_lt {stream rest : List UInt8} {p : Packet}
    (h : readPacket stream = (.ok (some p), rest)) : rest.length < stream.length := by
  unfold readPacket at h
  split at h
  · next t a b c d body hx =>
    have hr := readExact_length hx
    dsimp only at h
    split at h
    · cases h
    · split at h
      · next payload tail hy =>
        obtain ⟨-, rfl⟩ := Prod.mk.inj h
        have hp := readExact_length hy
        simp only [HEADER_SIZE] at hr
        omega
      · cases h
  · cases h
  · cases h
  · cases h

/-- Calling `read_packet` until it says there are no more packets, or fails. -/
def readPackets (stream : List UInt8) : Except IoError (List Packet) :=
  match h : readPacket stream with
  | (.error e, _) => .error e
  | (.ok none, _) => .ok []
  | (.ok (some p), rest) =>
    have : rest.length < stream.length := readPacket_length_lt h
    (readPackets rest).map (p :: ·)
termination_by stream.length

/-! ### The streaming reader as an incremental decoder -/

private theorem nextFrame_item_append {b r : List UInt8} {p : Packet} (c : List UInt8)
    (h : nextFrame b = .item p r) : nextFrame (b ++ c) = .item p (r ++ c) := by
  unfold nextFrame at h
  split at h
  · next t w x y z body =>
    dsimp only at h
    simp only [List.cons_append, nextFrame]
    split at h
    · cases h
    · next hm =>
      split at h
      · cases h
      · next hl =>
        have hle : (fromBeBytes w x y z).toNat ≤ body.length := by omega
        rw [if_neg hm, if_neg (by rw [List.length_append]; omega),
          List.take_append_of_le_length hle, List.drop_append_of_le_length hle]
        cases h
        rfl
  · cases h

private theorem nextFrame_fail_append {b : List UInt8} {e : IoError} (c : List UInt8)
    (h : nextFrame b = .fail e) : nextFrame (b ++ c) = .fail e := by
  unfold nextFrame at h
  split at h
  · dsimp only at h
    simp only [List.cons_append, nextFrame]
    split at h
    · next hm => rw [if_pos hm, h]
    · split at h
      · cases h
      · cases h
  · cases h

/-- `nextFrame` satisfies the laws of an incremental decoder. -/
def frames : Decoder UInt8 Packet IoError where
  next := nextFrame
  length_lt := nextFrame_length_lt
  item_append := nextFrame_item_append
  fail_append := nextFrame_fail_append

/-- The loop of `feed` drains the buffer, except that an error throws the
packets before it away. -/
theorem feedLoop_eq_drain (buffer : List UInt8) (packets : List Packet) :
    feedLoop buffer packets =
      match (frames.drain buffer).error with
      | none => (⟨(frames.drain buffer).rest⟩, .ok (packets ++ (frames.drain buffer).items))
      | some e => (⟨[]⟩, .error e) := by
  induction hn : buffer.length using Nat.strongRecOn generalizing buffer packets with
  | ind n ih =>
    rw [feedLoop]
    split
    · next h =>
      rw [frames.drain_more h]
      simp
    · next e h => rw [frames.drain_fail h]
    · next p rest h =>
      rw [frames.drain_item h, ih rest.length (hn ▸ nextFrame_length_lt h) rest _ rfl]
      cases (frames.drain rest).error with
      | none => simp
      | some e => rfl

/-- A chunk fed to a reader whose buffer drains without an error. -/
theorem feed_eq (r : PacketReader) (data : List UInt8)
    (h : (frames.drain (r.buffer ++ data)).error = none) :
    r.feed data =
      (⟨(frames.drain (r.buffer ++ data)).rest⟩,
        .ok (frames.drain (r.buffer ++ data)).items) := by
  rw [PacketReader.feed, feedLoop_eq_drain, h]
  rfl

/-- Feeding any chunks of a stream that drains without an error is draining it whole. -/
theorem feedAll_eq_drain (chunks : List (List UInt8)) (r : PacketReader)
    (hr : nextFrame r.buffer = .more)
    (h : (frames.drain (r.buffer ++ chunks.flatten)).error = none) :
    r.feedAll chunks =
      (⟨(frames.drain (r.buffer ++ chunks.flatten)).rest⟩,
        .ok (frames.drain (r.buffer ++ chunks.flatten)).items) := by
  induction chunks generalizing r with
  | nil =>
    rw [List.flatten_nil, List.append_nil, frames.drain_more hr]
    rfl
  | cons chunk chunks ih =>
    have hc : (frames.drain (r.buffer ++ chunk)).error = none := by
      cases he : (frames.drain (r.buffer ++ chunk)).error with
      | none => rfl
      | some e =>
        have := (frames.drain_append_of_error _ chunks.flatten e he).2
        rw [List.append_assoc, ← List.flatten_cons, h] at this
        cases this
    have ha := frames.drain_append (r.buffer ++ chunk) chunks.flatten hc
    rw [List.append_assoc, ← List.flatten_cons] at ha
    rw [ha] at h ⊢
    rw [PacketReader.feedAll, feed_eq r chunk hc]
    simp only
    rw [ih ⟨_⟩ (frames.next_drain_rest _ hc) h]

/-! ### Encoded packets -/

private theorem length_ofNat_toNat {payload : List UInt8}
    (h : payload.length ≤ MAX_PACKET_LENGTH) :
    (UInt32.ofNat payload.length).toNat = payload.length := by
  have : MAX_PACKET_LENGTH < 2 ^ 32 := by decide
  rw [UInt32.toNat_ofNat', Nat.mod_eq_of_lt (by omega)]

/-- The header of an encoded packet declares its payload's length. -/
theorem nextFrame_encode_append (p : Packet) (rest : List UInt8)
    (h : p.payload.length ≤ MAX_PACKET_LENGTH) :
    nextFrame (p.encode ++ rest) = .item p.reread rest := by
  simp only [Packet.encode, encodePacket, toBeBytes, List.cons_append, List.nil_append, nextFrame]
  rw [fromBeBytes_toBeBytes, length_ofNat_toNat h, if_neg (by omega),
    if_neg (by rw [List.length_append]; omega)]
  simp [Packet.reread]

/-- Draining encoded packets gives them back and leaves nothing. -/
theorem drain_encode (packets : List Packet)
    (h : ∀ p ∈ packets, p.payload.length ≤ MAX_PACKET_LENGTH) :
    frames.drain (packets.map Packet.encode).flatten =
      ⟨packets.map Packet.reread, [], none⟩ := by
  induction packets with
  | nil => exact frames.drain_more rfl
  | cons p packets ih =>
    have hp : frames.next (p.encode ++ (packets.map Packet.encode).flatten) = _ :=
      nextFrame_encode_append p _ (h p (by simp))
    rw [List.map_cons, List.flatten_cons, frames.drain_item hp,
      ih (fun q hq ↦ h q (by simp [hq]))]
    rfl

/-- The blocking reader takes one encoded packet off the stream. -/
theorem readPacket_encode_append (p : Packet) (rest : List UInt8)
    (h : p.payload.length ≤ MAX_PACKET_LENGTH) :
    readPacket (p.encode ++ rest) = (.ok (some p.reread), rest) := by
  have hh : readExact (p.encode ++ rest) HEADER_SIZE =
      (.ok (p.type_.asU8 :: toBeBytes (UInt32.ofNat p.payload.length)), p.payload ++ rest) := by
    simp [readExact, HEADER_SIZE, Packet.encode, encodePacket, toBeBytes]
  have hp : readExact (p.payload ++ rest) p.payload.length = (.ok p.payload, rest) := by
    simp [readExact]
  simp only [readPacket, hh, toBeBytes]
  rw [fromBeBytes_toBeBytes, length_ofNat_toNat h, if_neg (by omega), hp]
  rfl

private theorem readPackets_none {stream rest : List UInt8}
    (h : readPacket stream = (.ok none, rest)) : readPackets stream = .ok [] := by
  rw [readPackets]
  split
  · next he => rw [h] at he; cases he
  · rfl
  · next he => rw [h] at he; cases he

private theorem readPackets_some {stream rest : List UInt8} {p : Packet}
    (h : readPacket stream = (.ok (some p), rest)) :
    readPackets stream = (readPackets rest).map (p :: ·) := by
  rw [readPackets]
  split
  · next he => rw [h] at he; cases he
  · next he => rw [h] at he; cases he
  · next he => rw [h] at he; cases he; rfl

/-- Calling the blocking reader over encoded packets gives them back. -/
theorem readPackets_encode (packets : List Packet)
    (h : ∀ p ∈ packets, p.payload.length ≤ MAX_PACKET_LENGTH) :
    readPackets (packets.map Packet.encode).flatten = .ok (packets.map Packet.reread) := by
  induction packets with
  | nil =>
    have he : readPacket [] = (.ok none, []) := by simp [readPacket, readExact, HEADER_SIZE]
    exact readPackets_none he
  | cons p packets ih =>
    have hp := readPacket_encode_append p (packets.map Packet.encode).flatten (h p (by simp))
    rw [List.map_cons, List.flatten_cons, readPackets_some hp,
      ih (fun q hq ↦ h q (by simp [hq]))]
    rfl

/-! ### The two readers on any cut of encoded packets -/

/-- Any cut of encoded packets gives the streaming reader the packets, as their
wire bytes name them, and leaves it empty. -/
theorem feedAll_encode (packets : List Packet) (chunks : List (List UInt8))
    (h : ∀ p ∈ packets, p.payload.length ≤ MAX_PACKET_LENGTH)
    (hc : chunks.flatten = (packets.map Packet.encode).flatten) :
    ({} : PacketReader).feedAll chunks = ({}, .ok (packets.map Packet.reread)) := by
  have hd := drain_encode packets h
  rw [feedAll_eq_drain chunks {} rfl] <;> rw [List.nil_append, hc, hd]

/-- Every cut of encoded packets is read back in order by the streaming reader,
which ends empty, exactly as the blocking reader reads the whole stream; the
packets themselves come back when no type is `unknown` of a named byte. -/
theorem feedAll_encode_eq_readPackets (packets : List Packet) (chunks : List (List UInt8))
    (h : ∀ p ∈ packets, p.payload.length ≤ MAX_PACKET_LENGTH)
    (hc : chunks.flatten = (packets.map Packet.encode).flatten) :
    ({} : PacketReader).feedAll chunks = ({}, .ok (packets.map Packet.reread)) ∧
      (({} : PacketReader).feedAll chunks).2 = readPackets chunks.flatten ∧
      ((∀ p ∈ packets, p.type_.Canonical) → packets.map Packet.reread = packets) := by
  have hf := feedAll_encode packets chunks h hc
  refine ⟨hf, ?_, ?_⟩
  · rw [hf, hc, readPackets_encode packets h]
  · intro ht
    calc packets.map Packet.reread
        = packets.map id := List.map_congr_left (fun p hp ↦ p.reread_eq (ht p hp))
      _ = packets := List.map_id packets

/-- Two packets cut inside a length, between packets and with an empty read. -/
theorem feedAll_encode_eq_readPackets_cut :
    ({} : PacketReader).feedAll [[0, 0], [0, 0, 2, 7, 8, 200], [], [0, 0, 0, 0]] =
      ({}, .ok [⟨.data, [7, 8]⟩, ⟨.unknown 200, []⟩]) :=
  (feedAll_encode_eq_readPackets [⟨.data, [7, 8]⟩, ⟨.unknown 200, []⟩]
    [[0, 0], [0, 0, 2, 7, 8, 200], [], [0, 0, 0, 0]] (by decide) (by decide)).1

/-- A packet built as `unknown` of the byte that means DATA comes back as DATA. -/
theorem feedAll_encode_unknown_zero :
    (⟨.unknown 0, []⟩ : Packet).payload.length ≤ MAX_PACKET_LENGTH ∧
      ({} : PacketReader).feedAll [(⟨.unknown 0, []⟩ : Packet).encode] ≠
        ({}, .ok [⟨.unknown 0, []⟩]) := by
  refine ⟨by decide, ?_⟩
  rw [feedAll_encode [⟨.unknown 0, []⟩] [_] (by decide) (by decide)]
  simp [Packet.reread, MessageType.asU8, MessageType.fromU8]

end PtySpec.Protocol
