import PtySpec.Protocol.Packet

/-!
# Payloads

The payloads that the daemon and its clients build and read,
`crates/pty-core/src/protocol.rs:241-496`.
-/

namespace PtySpec.Protocol

/-- `u16::to_be_bytes`. -/
def toBeBytes16 (n : UInt16) : List UInt8 := [UInt8.ofNat (n.toNat / 2 ^ 8), UInt8.ofNat n.toNat]

/-- `u16::from_be_bytes`. -/
def fromBeBytes16 (a b : UInt8) : UInt16 := UInt16.ofNat (a.toNat * 2 ^ 8 + b.toNat)

/-- `size_payload`, `protocol.rs:241`. -/
def sizePayload (rows cols : UInt16) : List UInt8 := toBeBytes16 rows ++ toBeBytes16 cols

/-- `decode_size`, `protocol.rs:461`. -/
def decodeSize : List UInt8 → UInt16 × UInt16
  | a :: b :: c :: d :: _ => (fromBeBytes16 a b, fromBeBytes16 c d)
  | _ => (24, 80)

/-- `decode_cell`, `protocol.rs:476`. -/
def decodeCell : List UInt8 → Option (UInt16 × UInt16)
  | _ :: _ :: _ :: _ :: a :: b :: c :: d :: _ =>
    let width := fromBeBytes16 a b
    let height := fromBeBytes16 c d
    if width > 0 ∧ height > 0 then some (width, height) else none
  | _ => none

/-- `decode_peek`, `protocol.rs:392`. -/
def decodePeek (payload : List UInt8) : Bool × Bool :=
  let flags := payload.headD 0
  (flags &&& 1 != 0, flags &&& 2 != 0)

/-- `encode_data`, `protocol.rs:237`, before framing. -/
def Packet.data (bytes : List UInt8) : Packet := ⟨.data, bytes⟩

/-- `encode_screen`, `protocol.rs:398`, before framing. -/
def Packet.screen (bytes : List UInt8) : Packet := ⟨.screen, bytes⟩

/-- `encode_exit`, `protocol.rs:380`, before framing. -/
def Packet.exit (code : Int32) : Packet := ⟨.exit, toBeBytes code.toUInt32⟩

/-- `encode_geometry`, `protocol.rs:375`, before framing. -/
def Packet.geometry (rows cols : UInt16) : Packet := ⟨.geometry, sizePayload rows cols⟩

/-- The size of a GEOMETRY, an ATTACH or a RESIZE is read as it was written. -/
theorem decodeSize_sizePayload (rows cols : UInt16) (rest : List UInt8) :
    decodeSize (sizePayload rows cols ++ rest) = (rows, cols) := by
  have hr := rows.toNat_lt
  have hc := cols.toNat_lt
  simp only [sizePayload, toBeBytes16, List.cons_append, List.nil_append, decodeSize,
    Prod.mk.injEq, ← UInt16.toNat_inj, fromBeBytes16, UInt16.toNat_ofNat', UInt8.toNat_ofNat']
  omega

end PtySpec.Protocol
