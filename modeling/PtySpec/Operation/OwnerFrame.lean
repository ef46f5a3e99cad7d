import PtySpec.Operation.Envelope
import PtySpec.Operation.Frames

/-!
# Reading the owner's frames

Model of `parse_owner_frame`, `crates/pty-core/src/operation/frames.rs:82`.
-/

namespace PtySpec.Operation

open Lib
open Metadata (Json JsonMap)

/-- `FRAME_MAX_BYTES`, `frames.rs:11`. -/
def FRAME_MAX_BYTES : Nat := 128 * 1024

/-- `is_request_id`, `frames.rs:179`. -/
def isRequestId (text : String) : Bool :=
  text ≠ "" && text.utf8ByteSize ≤ 256 && !text.toList.any isControl

/-- A field that is a string. -/
def textField (object : JsonMap) (key : String) : Option String := (object.get key).bind Json.asStr

/-- The keys of a command, `frames.rs:109-126`. -/
def commandKeys (kind : String) : List String :=
  ["type", "version", "operationId", "envelopeSha256", "requestId"] ++
    if kind = "cancel" then [] else ["incarnation"]

/-- The keys of a command are there, no others, and its version is 1, `frames.rs:127-133`. -/
def commandShaped (object : JsonMap) (kind : String) : Bool :=
  !object.keys.any (· ∉ commandKeys kind) &&
    !(commandKeys kind).any (fun key ↦ (object.get key).isNone) &&
    (object.get "version").bind asU64 = some 1 && (object.get "version").any isU64

/-- A transfer's incarnation, `frames.rs:158-173`. -/
def readTransfer (object : JsonMap) (requestId : String) : OwnerFrame :=
  match object.get "incarnation" with
  | some (.object incarnation) =>
    if incarnation.length ≠ 2 then .malformed
    else
      match textField incarnation "id", textField incarnation "generation" with
      | some id, some generation =>
        if !isIncarnationId id || generation = "" || 256 < generation.utf8ByteSize then .malformed
        else .command (.transfer requestId id generation)
      | _, _ => .malformed
  | _ => .malformed

/-- A command of the right shape, `frames.rs:134-157`. -/
def readCommand (object : JsonMap) (kind : String) (requestId : Option String)
    (operationId envelopeSha256 : String) : OwnerFrame :=
  match requestId, textField object "operationId", textField object "envelopeSha256" with
  | some requestId, some op, some sha =>
    if op ≠ operationId then .rejected .wrongOperation (some requestId)
    else if sha ≠ envelopeSha256 then .rejected .wrongEnvelope (some requestId)
    else if kind = "cancel" then .command (.cancel requestId)
    else readTransfer object requestId
  | _, _, _ => .malformed

/-- An object as an owner's frame, `frames.rs:92-133`. -/
def readOwnerFrame (object : JsonMap) (operationId envelopeSha256 : String) : OwnerFrame :=
  let requestId := (textField object "requestId").filter isRequestId
  match textField object "type" with
  | none => .malformed
  | some kind =>
    if kind ≠ "cancel" ∧ kind ≠ "transfer" then .rejected .unknownCommand requestId
    else if commandShaped object kind then
      readCommand object kind requestId operationId envelopeSha256
    else .malformed

/-- `parse_owner_frame`, `frames.rs:82`. -/
def parseOwnerFrame (serde : String → Reading) (operationId envelopeSha256 : String)
    (line : List UInt8) : OwnerFrame :=
  if FRAME_MAX_BYTES < line.length + 1 then .malformed
  else
    match String.fromUTF8? line.toByteArray with
    | none => .malformed
    | some text =>
      match parseStrictJson serde text with
      | .ok (.object object) => readOwnerFrame object operationId envelopeSha256
      | _ => .malformed

/-- A line that does not fit a frame is malformed. -/
theorem parseOwnerFrame_of_long (serde : String → Reading) (operationId envelopeSha256 : String)
    {line : List UInt8} (h : FRAME_MAX_BYTES ≤ line.length) :
    parseOwnerFrame serde operationId envelopeSha256 line = .malformed :=
  if_pos (Nat.lt_succ_of_le h)

end PtySpec.Operation
