import PtySpec.Operation.Value

/-!
# The operation record

Model of the data in `crates/pty-core/src/operation/record.rs`: who wrote a launch
operation, how far it got, and the consistency check every version passes before
it is written and after it is read.
-/

namespace PtySpec.Operation

/-- The only schema version 1 writes and reads, `record.rs:24`. -/
def RECORD_SCHEMA : String := "pty.launch-operation.v1"

/-- One process, exactly, `record.rs:29`. -/
structure ProcessId where
  pid : UInt32
  startToken : String
  bootId : String
  uid : UInt32
  deriving DecidableEq, Repr

/-- Who may write the record next, `record.rs:165`. -/
inductive WriterRole where
  | none
  | launcher
  | producer
  | recovery
  deriving DecidableEq, Repr

/-- `Writer`, `record.rs:173`. -/
structure Writer where
  role : WriterRole
  id : Option ProcessId
  deriving DecidableEq, Repr

/-- `Writer::none`, `record.rs:179`. -/
def Writer.nobody : Writer := ⟨.none, none⟩

/-- `Writer::of`, `record.rs:186`. -/
def Writer.of (role : WriterRole) (id : ProcessId) : Writer := ⟨role, some id⟩

/-- `State`, `record.rs:193`. -/
inductive State where
  | reserved
  | pending
  | cancelled
  | launched
  | transferred
  deriving DecidableEq, Repr

/-- `State::as_str`, `record.rs:202`. -/
def State.asStr : State → String
  | reserved => "reserved"
  | pending => "pending"
  | cancelled => "cancelled"
  | launched => "launched"
  | transferred => "transferred"

/-- `Phase`, `record.rs:215`. -/
inductive Phase where
  | reserved
  | claimed
  | daemonForking
  | daemonGated
  | childForking
  | childPreparing
  | held
  deriving DecidableEq, Repr

/-- Why the operation was decided the way it was, `record.rs:228`. -/
inductive Cause where
  | cancel
  | ownerEof
  | malformed
  | occupied
  | predecessorMismatch
  | withdrawn
  | producerLost
  | launch
  | refused
  deriving DecidableEq, Repr

/-- `Decision`, `record.rs:242`; `at_` is the time it was made. -/
structure Decision where
  cause : Cause
  at_ : String
  requestId : Option String
  observed : Option String
  deriving DecidableEq, Repr

/-- `Participants`, `record.rs:260`. -/
structure Participants where
  launcher : Option ProcessId := none
  producer : Option ProcessId := none
  child : Option ProcessId := none
  deriving DecidableEq, Repr

/-- The incarnation a launch created, `record.rs:270`. -/
structure Incarnation where
  id : String
  runtimeId : String
  generation : String
  daemon : ProcessId
  child : Option ProcessId
  deriving DecidableEq, Repr

/-- `RetirementPhase`, `record.rs:280`. -/
inductive RetirementPhase where
  | requested
  | verified
  | incomplete
  deriving DecidableEq, Repr

/-- `Retirement`, `record.rs:288`. -/
structure Retirement where
  requestId : String
  phase : RetirementPhase
  evidence : Value
  deriving DecidableEq, Repr

/-- `Transfer`, `record.rs:296`; `released` is set once the release byte was tried. -/
structure Transfer where
  requestId : String
  committedAt : String
  released : Option Bool
  deriving DecidableEq, Repr

/-- `OperationRecord`, `record.rs:305`. The 64-bit revision is unbounded here: it
starts at one and no run writes the record often enough to wrap it. -/
structure OperationRecord where
  schema : String
  revision : Nat
  updatedAt : String
  operationId : String
  envelope : Value
  envelopeSha256 : String
  writer : Writer
  state : State
  phase : Phase
  decision : Option Decision
  participants : Participants
  incarnation : Option Incarnation
  retirement : Option Retirement
  transfer : Option Transfer
  deriving DecidableEq, Repr

/-- The fields of a validated envelope that the record and the launcher use,
`envelope.rs:36`. -/
structure Envelope where
  sha256 : String
  value : Value
  operationId : String
  runtimeId : String
  expectedIncarnation : Option String
  deriving DecidableEq, Repr

namespace OperationRecord

/-- `OperationRecord::reserved`, `record.rs:323`. -/
def reserved (envelope : Envelope) (now : String) : OperationRecord where
  schema := RECORD_SCHEMA
  revision := 1
  updatedAt := now
  operationId := envelope.operationId
  envelope := envelope.value
  envelopeSha256 := envelope.sha256
  writer := .nobody
  state := .reserved
  phase := .reserved
  decision := none
  participants := {}
  incarnation := none
  retirement := none
  transfer := none

/-- The cause of the decision, when there is one. -/
def cause (r : OperationRecord) : Option Cause := r.decision.map (·.cause)

/-- The phase of the retirement, when one was requested. -/
def retirementPhase (r : OperationRecord) : Option RetirementPhase := r.retirement.map (·.phase)

/-- A retirement was requested and is not finished. -/
def requested (r : OperationRecord) : Bool := r.retirementPhase == some .requested

/-- A retirement was finished, verified or not. -/
def terminal (r : OperationRecord) : Bool :=
  r.retirementPhase == some .verified || r.retirementPhase == some .incomplete

/-- The last clause of `check`, `record.rs:366`: what each state allows of the
other fields. -/
def stateAgrees (r : OperationRecord) : Bool :=
  match r.state with
  | .reserved =>
    r.phase == .reserved && r.cause.isNone && r.incarnation.isNone && r.transfer.isNone
      && r.participants == {} && (r.writer.role == .none || r.writer.role == .recovery)
      && !r.terminal
  | .pending =>
    (r.phase == .claimed || r.phase == .daemonForking || r.phase == .daemonGated)
      && r.cause.isNone && r.incarnation.isNone && r.transfer.isNone
      && r.participants.launcher.isSome && r.writer.role != .none && !r.terminal
  | .cancelled =>
    r.cause.any (· != .launch) && r.incarnation.isNone && r.transfer.isNone
      && r.writer.role == .none && !r.requested
  | .launched =>
    r.cause == some .launch && r.incarnation.isSome && r.transfer.isNone
      && (r.phase == .daemonGated || r.phase == .childForking || r.phase == .childPreparing
        || r.phase == .held)
      && (r.writer.role != .none || r.terminal) && r.writer.role != .launcher
  | .transferred =>
    r.cause == some .launch && r.incarnation.isSome && r.transfer.isSome && r.phase == .held
      && r.retirementPhase.isNone && (r.writer.role == .producer || r.writer.role == .none)

/-- `OperationRecord::check`, `record.rs:344`. -/
def check (r : OperationRecord) : Except String Unit :=
  let fail (what : String) : Except String Unit := .error s!"inconsistent record: {what}"
  if (r.writer.role == .none) != r.writer.id.isNone then
    fail "writer role and id disagree"
  else if r.writer.role == .recovery && !r.requested then
    fail "a recovery writer without a requested retirement"
  else if r.writer.role == .none && r.requested then
    fail "a requested retirement without a writer"
  else if r.terminal && r.writer.role != .none then
    fail "a finished retirement still has a writer"
  else if r.stateAgrees then
    .ok ()
  else
    fail "state, phase, writer and fields disagree"

/-- `OperationRecord::incarnation_id`, `record.rs:427`. -/
def incarnationId (r : OperationRecord) : Option String := r.incarnation.map (·.id)

/-! ### What a record that passes the check satisfies -/

/-- Passing the check: none of the four refusals applies and the state's clause holds. -/
theorem check_eq_ok_iff (r : OperationRecord) :
    r.check = .ok () ↔
      ((r.writer.role == .none) != r.writer.id.isNone) = false ∧
        (r.writer.role == .recovery && !r.requested) = false ∧
        (r.writer.role == .none && r.requested) = false ∧
        (r.terminal && r.writer.role != .none) = false ∧ r.stateAgrees = true := by
  unfold check
  dsimp only
  split
  · next h => simp only [h, reduceCtorEq, false_and]
  · next h₁ =>
    split
    · next h => simp only [h, reduceCtorEq, false_and, and_false]
    · next h₂ =>
      split
      · next h => simp only [h, reduceCtorEq, false_and, and_false]
      · next h₃ =>
        split
        · next h => simp only [h, reduceCtorEq, false_and, and_false]
        · next h₄ =>
          simp only [Bool.not_eq_true] at h₁ h₂ h₃ h₄
          split
          · next h => simp only [h₁, h₂, h₃, h₄, h, and_self]
          · next h => simp only [h, reduceCtorEq, and_false]

/-- The state's clause of a record that passes the check. -/
theorem stateAgrees_of_check {r : OperationRecord} (h : r.check = .ok ()) :
    r.stateAgrees = true := ((check_eq_ok_iff r).mp h).2.2.2.2

/-- A reserved or pending record that passes the check carries no decision, no
incarnation and no transfer. -/
theorem undecided_of_check {r : OperationRecord} (h : r.check = .ok ())
    (hs : r.state = .reserved ∨ r.state = .pending) :
    r.decision = none ∧ r.incarnation = none ∧ r.transfer = none := by
  have ha := stateAgrees_of_check h
  rcases hs with hs | hs <;> simp_all [stateAgrees, cause]

/-- A cancelled record that passes the check was never launched. -/
theorem cancelled_of_check {r : OperationRecord} (h : r.check = .ok ())
    (hs : r.state = .cancelled) :
    (∃ d, r.decision = some d ∧ d.cause ≠ .launch) ∧ r.incarnation = none ∧ r.transfer = none := by
  have ha := stateAgrees_of_check h
  cases hd : r.decision <;> simp_all [stateAgrees, cause]

/-- A transferred record that passes the check was never asked to retire. -/
theorem transferred_of_check {r : OperationRecord} (h : r.check = .ok ())
    (hs : r.state = .transferred) : r.retirement = none ∧ r.phase = .held := by
  have ha := stateAgrees_of_check h
  simp_all [stateAgrees, retirementPhase]

/-- A launched or transferred record that passes the check carries the launch decision. -/
theorem launch_of_check {r : OperationRecord} (h : r.check = .ok ())
    (hs : r.state = .launched ∨ r.state = .transferred) : r.cause = some .launch := by
  have ha := stateAgrees_of_check h
  rcases hs with hs | hs <;> simp_all [stateAgrees]

/-- A record with a launch decision that passes the check is launched or transferred. -/
theorem launched_or_transferred_of_check {r : OperationRecord} (h : r.check = .ok ())
    (hc : r.cause = some .launch) : r.state = .launched ∨ r.state = .transferred := by
  have ha := stateAgrees_of_check h
  cases hs : r.state <;> simp_all [stateAgrees]

/-- The version number and the time of writing are not part of the check. -/
theorem check_stamp (r : OperationRecord) (revision : Nat) (now : String) :
    { r with revision := revision, updatedAt := now }.check = r.check := rfl

/-- A fresh reservation passes the check. -/
theorem check_reserved (envelope : Envelope) (now : String) :
    (reserved envelope now).check = .ok () := rfl

end OperationRecord
end PtySpec.Operation
