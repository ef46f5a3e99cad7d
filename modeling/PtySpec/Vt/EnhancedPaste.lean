import PtySpec.Vt.Graphics

/-!
# Enhanced paste: requests and answers

Model of `crates/pty-terminal/src/enhanced_paste.rs`: the read requests that the scanner finds
in the child's output, and the packets that a client answers them with. Text is its UTF-8
bytes.
-/

namespace PtySpec.Vt

open Lib

/-- `MAX_PACKET`, `enhanced_paste.rs:27`. -/
def MAX_PACKET : Nat := 1024 * 1024

/-- `MAX_TRANSACTION`, `enhanced_paste.rs:30`. -/
def MAX_TRANSACTION : Nat := 32 * 1024 * 1024

/-- `MAX_ANSWER`, `enhanced_paste.rs:36`. -/
def MAX_ANSWER : Nat := 48 * 1024 * 1024

/-- `MAX_ID`, `enhanced_paste.rs:39`. -/
def MAX_ID : Nat := 256

/-- `MAX_MIME`, `enhanced_paste.rs:42`. -/
def MAX_MIME : Nat := 255

/-- `DATA_CHUNK`, `enhanced_paste.rs:46`. -/
def DATA_CHUNK : Nat := 4096

/-- `valid_id`, `enhanced_paste.rs:343`. -/
def validId (id : List UInt8) : Bool :=
  !id.isEmpty && id.length ≤ MAX_ID && id.all fun b ↦
    (0x30 ≤ b && b ≤ 0x39) || (0x41 ≤ b && b ≤ 0x5a) || (0x61 ≤ b && b ≤ 0x7a) ||
      (ascii "-_+.").contains b

/-- `valid_mime`, `enhanced_paste.rs:351`. -/
def validMime (mime : List UInt8) : Bool :=
  !mime.isEmpty && mime.length ≤ MAX_MIME && mime.all fun b ↦ 0x21 ≤ b && b ≤ 0x7e

/-- A request's id: one that an answer can echo. -/
abbrev PasteId : Type := { id : List UInt8 // validId id = true }

/-! ### Base64 -/

/-- The value of a base64 digit, `enhanced_paste.rs:362`. -/
def digit (b : UInt8) : Option UInt32 :=
  if 0x41 ≤ b ∧ b ≤ 0x5a then some (b - 0x41).toUInt32
  else if 0x61 ≤ b ∧ b ≤ 0x7a then some (b - 0x61 + 26).toUInt32
  else if 0x30 ≤ b ∧ b ≤ 0x39 then some (b - 0x30 + 52).toUInt32
  else if b = 0x2b then some 62
  else if b = 0x2f then some 63
  else none

/-- One turn of the loop of `decode`, `enhanced_paste.rs:373-392`. -/
def decodeChunk (last : Bool) (chunk : List UInt8) : Option (List UInt8) := do
  let pad := (chunk.reverse.takeWhile (· = 0x3d)).length
  if 2 < pad ∨ (0 < pad ∧ !last) then none
  let word : UInt32 ← (chunk.take (4 - pad)).foldlM (fun word b ↦
    (digit b).map fun value ↦ word <<< 6 ||| value) 0
  let word := word <<< (6 * pad : Nat).toUInt32
  let bytes := [(word >>> 24).toUInt8, (word >>> 16).toUInt8, (word >>> 8).toUInt8, word.toUInt8]
  -- the bits that a pad drops must be zero
  if 0 < pad ∧ (bytes.drop (4 - pad)).any (· ≠ 0) then none
  pure ((bytes.take (4 - pad)).drop 1)

/-- The loop of `decode`, over `text.chunks(4)`. -/
def decodeChunks : List UInt8 → Option (List UInt8)
  | [] => some []
  | a :: b :: c :: d :: rest => do
    let bytes ← decodeChunk rest.isEmpty [a, b, c, d]
    pure (bytes ++ (← decodeChunks rest))
  | _ => none

/-- `decode`, `enhanced_paste.rs:358`. -/
def decode (text : List UInt8) : Option (List UInt8) :=
  if text.length % 4 ≠ 0 then none else decodeChunks text

/-! ### Read requests -/

/-- `Location`, `enhanced_paste.rs:50`. -/
inductive Location where
  | clipboard
  | primary
  deriving DecidableEq, Repr

/-- `ReadRequest`, `enhanced_paste.rs:62`. -/
structure ReadRequest where
  mimes : List (List UInt8)
  location : Location
  id : Option PasteId
  password : Option (List UInt8)
  name : Option (List UInt8)
  deriving DecidableEq

/-- `KEYS`, `enhanced_paste.rs:154`. -/
def KEYS : List (List UInt8) :=
  [ascii "type", ascii "loc", ascii "id", ascii "pw", ascii "name", ascii "status", ascii "mime"]

/-- `std::str::from_utf8(bytes).is_ok()`. -/
def isUtf8 (bytes : List UInt8) : Bool := bytes.toByteArray.validateUTF8

/-- `str::split_once`. -/
def splitOnce (sep : UInt8) (bytes : List UInt8) : Option (List UInt8 × List UInt8) :=
  if sep ∈ bytes then some (bytes.takeWhile (· ≠ sep), (bytes.dropWhile (· ≠ sep)).drop 1)
  else none

/-- The keys read so far, the locals of `ReadRequest::parse`. -/
structure Keys where
  kind : Option (List UInt8) := none
  location : Location := .clipboard
  id : Option PasteId := none
  password : Option (List UInt8) := none
  name : Option (List UInt8) := none
  seen : List (List UInt8) := []

/-- One key of a request, `enhanced_paste.rs:110-140`. -/
def Keys.read (k : Keys) (pair : List UInt8) : Option Keys := do
  let (key, value) ← splitOnce 0x3d pair
  if key ∈ k.seen then none
  let k := if key ∈ KEYS then { k with seen := key :: k.seen } else k
  if key = ascii "type" then pure { k with kind := some value }
  else if key = ascii "loc" then
    if value = ascii "primary" then pure { k with location := .primary } else none
  else if key = ascii "id" then
    if h : validId value = true then pure { k with id := some ⟨value, h⟩ } else none
  else if key = ascii "pw" then
    let _ ← decode value
    pure { k with password := some value }
  else if key = ascii "name" then
    let name ← decode value
    if isUtf8 name then pure { k with name := some name } else none
  else if key = ascii "status" ∨ key = ascii "mime" then none
  else pure k

/-- `char::is_ascii_whitespace`. -/
def isAsciiWhitespace (b : UInt8) : Bool :=
  b = 0x20 || b = 0x09 || b = 0x0a || b = 0x0c || b = 0x0d

/-- `ReadRequest::parse`, `enhanced_paste.rs:89`. -/
def ReadRequest.parse (oscPayload : List UInt8) : Option ReadRequest := do
  if MAX_METADATA < oscPayload.length then none
  if !(ascii "5522;").isPrefixOf oscPayload then none
  let rest := oscPayload.drop 5
  let (metadata, payload) := (splitOnce 0x3b rest).getD (rest, [])
  if !isUtf8 metadata then none
  let k ← (metadata.splitOn 0x3a).foldlM Keys.read {}
  if k.kind ≠ some (ascii "read") then none
  let list ← decode payload
  if !isUtf8 list then none
  let mimes := (list.splitOnP isAsciiWhitespace).filter (!·.isEmpty)
  if !mimes.isEmpty && mimes.all validMime then
    pure ⟨mimes, k.location, k.id, k.password, k.name⟩
  else none

/-! ### Answers -/

/-- `ReadError`, `enhanced_paste.rs:158`. -/
inductive ReadError where
  | notAvailable
  | denied
  | busy
  deriving DecidableEq, Repr

/-- `ReadError::status`, `enhanced_paste.rs:169`. -/
def ReadError.status : ReadError → List UInt8
  | .notAvailable => ascii "ENOSYS"
  | .denied => ascii "EPERM"
  | .busy => ascii "EBUSY"

/-- `PastePacket`, `enhanced_paste.rs:182`. -/
inductive PastePacket where
  | listing (location : Location) (password : Option (List UInt8)) (mimes : List (List UInt8))
  | readOk
  | readData (mime data : List UInt8)
  | readDone
  | readError (e : ReadError)
  deriving DecidableEq, Repr

/-- `PacketError`, `enhanced_paste.rs:226`. -/
inductive PacketError where
  | invalid
  | tooLarge
  deriving DecidableEq, Repr

/-- `osc`, `enhanced_paste.rs:332`. -/
def osc (metadata payload : List UInt8) : List UInt8 :=
  ascii "\x1b]5522;" ++ metadata ++ (if payload = [] then [] else ascii ";" ++ payload) ++
    ascii "\x1b\\"

/-- `read_status`, `enhanced_paste.rs:324`. -/
def readStatus (status : List UInt8) (id : Option (List UInt8)) : List UInt8 :=
  match id with
  | some id => ascii "type=read:status=" ++ status ++ ascii ":id=" ++ id
  | none => ascii "type=read:status=" ++ status

/-- The metadata of a `DATA` sequence, `enhanced_paste.rs:303`. -/
def dataMetadata (mime : List UInt8) (id : Option (List UInt8)) : List UInt8 :=
  readStatus (ascii "DATA") id ++ ascii ":mime=" ++ base64 mime

namespace PastePacket

/-- The listing, `enhanced_paste.rs:249-291`. -/
def encodeListing (location : Location) (password : Option (List UInt8))
    (mimes : List (List UInt8)) : Except PacketError (List UInt8) :=
  if mimes = [] ∨ !mimes.all validMime then .error .invalid
  else if password.any fun pw ↦ (decode pw).isNone then .error .invalid
  else
    let pwOnly := (password.map (ascii ":pw=" ++ ·)).getD []
    let keys := (if location = .primary then ascii ":loc=primary" else []) ++ pwOnly
    let list := [0x20].intercalate mimes
    if MAX_METADATA < (list.length + 2) / 3 * 4 + keys.length then .error .tooLarge
    else
      let metadata := ascii "type=read:status=DATA:mime=Lg==" ++ pwOnly
      .ok (osc (ascii "type=read:status=OK" ++ keys) [] ++
        (chunks DATA_CHUNK list).flatMap (fun chunk ↦ osc metadata (base64 chunk)) ++
        osc (ascii "type=read:status=DONE" ++ pwOnly) [])

/-- The `DATA` sequences of one type, `enhanced_paste.rs:294-317`. -/
def encodeData (mime data : List UInt8) (id : Option (List UInt8)) :
    Except PacketError (List UInt8) :=
  if !validMime mime then .error .invalid
  else if MAX_PACKET < data.length then .error .tooLarge
  else
    let metadata := dataMetadata mime id
    .ok ((chunks DATA_CHUNK data).flatMap (fun chunk ↦ osc metadata (base64 chunk)) ++
      if data = [] then ascii "\x1b]5522;" ++ metadata ++ ascii ";\x1b\\" else [])

/-- `PastePacket::encode`, `enhanced_paste.rs:238`. -/
def encode (packet : PastePacket) (id : Option (List UInt8)) :
    Except PacketError (List UInt8) :=
  if id.any fun id ↦ !validId id then .error .invalid
  else
    match packet with
    | .listing location password mimes => encodeListing location password mimes
    | .readOk => .ok (osc (readStatus (ascii "OK") id) [])
    | .readData mime data => encodeData mime data id
    | .readDone => .ok (osc (readStatus (ascii "DONE") id) [])
    | .readError e => .ok (osc (readStatus e.status id) [])

variable (id : Option PasteId)

private theorem any_valid : ((id.map (·.val)).any fun id ↦ !validId id) = false := by
  cases id with
  | none => rfl
  | some i => simp [i.2]

/-- With a request's id a status can always be encoded. -/
theorem encode_readOk :
    encode .readOk (id.map (·.val)) = .ok (osc (readStatus (ascii "OK") (id.map (·.val))) []) := by
  rw [encode, any_valid]
  rfl

theorem encode_readDone :
    encode .readDone (id.map (·.val)) =
      .ok (osc (readStatus (ascii "DONE") (id.map (·.val))) []) := by
  rw [encode, any_valid]
  rfl

theorem encode_readError (e : ReadError) :
    encode (.readError e) (id.map (·.val)) =
      .ok (osc (readStatus e.status (id.map (·.val))) []) := by
  rw [encode, any_valid]
  rfl

theorem encode_readData (mime data : List UInt8) :
    encode (.readData mime data) (id.map (·.val)) =
      encodeData mime data (id.map (·.val)) := by
  rw [encode, any_valid]
  rfl

private theorem length_le_flatMap (metadata data : List UInt8) :
    data.length ≤
      ((chunks DATA_CHUNK data).flatMap fun chunk ↦ osc metadata (base64 chunk)).length := by
  have hchunk : ∀ chunk : List UInt8, chunk.length ≤ (osc metadata (base64 chunk)).length := by
    intro chunk
    have hb := length_base64 chunk
    unfold base64Length at hb
    unfold osc
    split
    · next he =>
      rw [he, List.length_nil] at hb
      omega
    · simp only [List.length_append]
      omega
  calc data.length
    _ = (chunks DATA_CHUNK data).flatten.length := by rw [flatten_chunks]
    _ = ((chunks DATA_CHUNK data).map List.length).sum := List.length_flatten
    _ ≤ ((chunks DATA_CHUNK data).map fun chunk ↦ (osc metadata (base64 chunk)).length).sum :=
      List.sum_le_sum fun chunk _ ↦ hchunk chunk
    _ = _ := List.length_flatMap.symm

/-- Data that fits one packet is encoded, and takes at least its own length. -/
theorem exists_encodeData {mime data : List UInt8} (id : Option (List UInt8))
    (hm : validMime mime = true) (hd : data.length ≤ MAX_PACKET) :
    ∃ bytes, encodeData mime data id = .ok bytes ∧ data.length ≤ bytes.length := by
  unfold encodeData
  rw [if_neg (by simp [hm]), if_neg (Nat.not_lt.mpr hd)]
  refine ⟨_, rfl, ?_⟩
  rw [List.length_append]
  exact (length_le_flatMap _ _).trans (Nat.le_add_right _ _)

end PastePacket

end PtySpec.Vt
