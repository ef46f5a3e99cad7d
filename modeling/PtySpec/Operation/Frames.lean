import PtySpec.Operation.Record

/-!
# Frames of the control channel

Model of `crates/pty-core/src/operation/frames.rs`: the owner's commands after
parsing, and the frames the launcher and the daemon send back, with the JSON of the
record's parts as `serde` writes it.
-/

namespace PtySpec.Operation

/-! ### The record's parts as JSON -/

/-- `serde` of an optional part: `null` when it is missing. -/
def Value.opt {α : Type} (f : α → Value) (a : Option α) : Value := a.elim .null f

/-- `serde` of `ProcessId`. -/
def ProcessId.json (id : ProcessId) : Value :=
  .object [("pid", .nat id.pid.toNat), ("startToken", .string id.startToken),
    ("bootId", .string id.bootId), ("uid", .nat id.uid.toNat)]

/-- The kebab-case name of a writer role. -/
def WriterRole.asStr : WriterRole → String
  | none => "none"
  | launcher => "launcher"
  | producer => "producer"
  | recovery => "recovery"

/-- `serde` of `Writer`. -/
def Writer.json (w : Writer) : Value :=
  .object [("role", .string w.role.asStr), ("id", .opt ProcessId.json w.id)]

/-- The kebab-case name of a phase. -/
def Phase.asStr : Phase → String
  | reserved => "reserved"
  | claimed => "claimed"
  | daemonForking => "daemon-forking"
  | daemonGated => "daemon-gated"
  | childForking => "child-forking"
  | childPreparing => "child-preparing"
  | held => "held"

/-- The kebab-case name of a cause. -/
def Cause.asStr : Cause → String
  | cancel => "cancel"
  | ownerEof => "owner-eof"
  | malformed => "malformed"
  | occupied => "occupied"
  | predecessorMismatch => "predecessor-mismatch"
  | withdrawn => "withdrawn"
  | producerLost => "producer-lost"
  | launch => "launch"
  | refused => "refused"

/-- `serde` of `Decision`. -/
def Decision.json (d : Decision) : Value :=
  .object [("cause", .string d.cause.asStr), ("at", .string d.at_),
    ("requestId", .ofOption d.requestId), ("observed", .ofOption d.observed)]

/-- `serde` of `Participants`. -/
def Participants.json (p : Participants) : Value :=
  .object [("launcher", .opt ProcessId.json p.launcher),
    ("producer", .opt ProcessId.json p.producer), ("child", .opt ProcessId.json p.child)]

/-- `serde` of `Incarnation`. -/
def Incarnation.json (i : Incarnation) : Value :=
  .object [("id", .string i.id), ("runtimeId", .string i.runtimeId),
    ("generation", .string i.generation), ("daemon", i.daemon.json),
    ("child", .opt ProcessId.json i.child)]

/-- The kebab-case name of a retirement phase. -/
def RetirementPhase.asStr : RetirementPhase → String
  | requested => "requested"
  | verified => "verified"
  | incomplete => "incomplete"

/-- `serde` of `Retirement`. -/
def Retirement.json (r : Retirement) : Value :=
  .object [("requestId", .string r.requestId), ("phase", .string r.phase.asStr),
    ("evidence", r.evidence)]

/-- `serde` of `Transfer`. -/
def Transfer.json (t : Transfer) : Value :=
  .object [("requestId", .string t.requestId), ("committedAt", .string t.committedAt),
    ("released", .opt .bool t.released)]

/-! ### Owner frames -/

/-- Why an owner frame changed nothing, `frames.rs:15`. -/
inductive RejectCode where
  | wrongOperation
  | wrongEnvelope
  | wrongIncarnation
  | unknownCommand
  | alreadyTransferred
  | notHeld
  | alreadyDecided
  | malformed
  deriving DecidableEq, Repr

/-- `RejectCode::as_str`, `frames.rs:31`. -/
def RejectCode.asStr : RejectCode → String
  | wrongOperation => "wrong-operation"
  | wrongEnvelope => "wrong-envelope"
  | wrongIncarnation => "wrong-incarnation"
  | unknownCommand => "unknown-command"
  | alreadyTransferred => "already-transferred"
  | notHeld => "not-held"
  | alreadyDecided => "already-decided"
  | malformed => "malformed"

/-- A command the owner may send after the envelope, `frames.rs:47`. -/
inductive OwnerCommand where
  | cancel (requestId : String)
  | transfer (requestId incarnationId generation : String)
  deriving DecidableEq, Repr

/-- `OwnerCommand::request_id`, `frames.rs:59`. -/
def OwnerCommand.requestId : OwnerCommand → String
  | cancel requestId => requestId
  | transfer requestId _ _ => requestId

/-- One parsed owner line, `frames.rs:70`. -/
inductive OwnerFrame where
  | command (c : OwnerCommand)
  | rejected (code : RejectCode) (requestId : Option String)
  | malformed
  deriving DecidableEq, Repr

/-! ### Producer frames -/

/-- A ticket as frames report it, `frames.rs:186`. -/
structure TicketView where
  id : Nat
  kind : String
  state : String
  deriving DecidableEq, Repr

/-- `serde` of `TicketView`. -/
def TicketView.json (t : TicketView) : Value :=
  .object [("id", .nat t.id), ("kind", .string t.kind), ("state", .string t.state)]

/-- `Map::insert`: the field keeps its place when the key is already there. -/
def insertField (fields : List (String × Value)) (key : String) (value : Value) :
    List (String × Value) :=
  if fields.any (·.1 == key) then
    fields.map fun f ↦ if f.1 == key then (key, value) else f
  else
    fields ++ [(key, value)]

/-- `producer_frame`, `frames.rs:196`, before it is written as one line. -/
def producerFrame (kind : String) (seq : Nat) (operationId envelopeSha256 : String)
    (envelope : Value) (record : Option OperationRecord) (tickets : List TicketView)
    (extra : List (String × Value)) : Value :=
  let fields := [("type", .string kind), ("version", .nat 1), ("seq", .nat seq),
    ("operationId", .string operationId), ("envelopeSha256", .string envelopeSha256),
    ("envelope", envelope),
    ("recordRevision", .opt (fun r ↦ .nat r.revision) record),
    ("state", .opt (fun r ↦ .string r.state.asStr) record),
    ("phase", .opt (fun r ↦ .string r.phase.asStr) record),
    ("participants", .opt (fun r ↦ r.participants.json) record),
    ("incarnation", .opt (fun r ↦ .opt Incarnation.json r.incarnation) record),
    ("tickets", .array (tickets.map TicketView.json))]
  .object (extra.foldl (fun fields f ↦ insertField fields f.1 f.2) fields)

end PtySpec.Operation
