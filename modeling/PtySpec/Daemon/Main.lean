import PtySpec.Daemon.ActorSpec

/-!
# How a launch operation's daemon starts

Model of `main` in `crates/pty/src/daemon/operation.rs:202-370` up to the start of the
actor: the launcher's gate, the configuration, the operation's lock, and the record,
which must name this very process as its producer.
-/

namespace PtySpec.Daemon

open Lib Operation

/-- The exit status of a process whose gate was never opened, `held.rs:45`. -/
def NOT_RELEASED : Int32 := 70

/-- Say why the daemon does not start and return its exit status. -/
def refuseStart (text : String) : Act (Except Int32 Actor) := do
  env (.warn text)
  return .error 1

/-- A string field of the envelope. -/
def field (record : OperationRecord) (key : String) : Option String :=
  (record.envelope.get key).bind Value.asStr

/-- The actor as `main` builds it, `operation.rs:310`. -/
def freshActor (digest : String) (record : OperationRecord) (me : ProcessId)
    (operationId runtimeId : String) : Actor where
  digest := digest
  locked := true
  record := record
  me := me
  operationId := operationId
  envelopeSha256 := record.envelopeSha256
  envelope := record.envelope
  expected := field record "expectedIncarnation"
  runtimeId := runtimeId
  seq := 0
  tickets := []
  stage := .deciding
  retiring := false
  serving := false
  published := false
  child := none
  generation := ""
  pending := none
  deferredTransfer := none
  syncing := false

/-- The record must name this daemon as its producer, `operation.rs:268`. -/
def becomeActor (operationDigest : String → String) (digest name : String) (me : ProcessId)
    (record : OperationRecord) : Act (Except Int32 Actor) :=
  match field record "operationId", field record "runtimeId" with
  | some operationId, some runtimeId =>
    if record.state ≠ .pending ∨ record.phase ≠ .daemonGated ∨ record.writer.role ≠ .producer ∨
        record.writer.id ≠ some me ∨ operationDigest operationId ≠ digest ∨ runtimeId ≠ name then
      refuseStart "pty daemon: the operation record does not name this daemon as its producer"
    else do
      match ← env .startControl with
      | .error error => refuseStart ("pty daemon: the control channel: " ++ error)
      | .ok () => return .ok (freshActor digest record me operationId runtimeId)
  | _, _ => refuseStart "pty daemon: the operation record has no envelope"

/-- Under the operation's lock: this process and the record, `operation.rs:254`. -/
def readProducer (operationDigest : String → String) (digest name : String) :
    Act (Except Int32 Actor) := do
  match ← env .current with
  | .error error => refuseStart ("pty daemon: " ++ error)
  | .ok me =>
    match ← Prog.query Op.readRecord with
    | .ok (some record) => becomeActor operationDigest digest name me record
    | _ => refuseStart "pty daemon: the operation record is missing or unreadable"

/-- The configuration and the operation's lock, `operation.rs:243`. -/
def lockOperation (operationDigest : String → String) (digest : String) :
    Act (Except Int32 Actor) := do
  match ← env .daemonConfig with
  | .error message => refuseStart message
  | .ok name =>
    match ← env .lockExclusive with
    | .held => refuseStart "pty daemon: the operation lock is held by another writer"
    | .notFound => refuseStart "pty daemon: the operation lock: entity not found"
    | .failed error => refuseStart ("pty daemon: the operation lock: " ++ error)
    | .taken => readProducer operationDigest digest name

/-- `main`, `operation.rs:202`, up to the start of the actor: the exit status, or the actor. -/
def main (operationDigest : String → String) (digest : String) : Act (Except Int32 Actor) := do
  if !(← env .daemonFds) then
    env (.warn "pty daemon: a launch operation needs its gate and control descriptors")
    return .error 64
  else if !(← env .readGate) then
    return .error NOT_RELEASED
  else
    lockOperation operationDigest digest

/-! ### What `main` keeps -/

section Keeps

variable {m : Ghost} {operationDigest : String → String} {digest name : String}

/-- `main` asks nothing the contract is about, and an actor it starts satisfies its invariant. -/
def Started (m : Ghost) (result : Except Int32 Actor) : Prop :=
  ∀ a, result = .ok a → m = {} ∧ a.stage ≠ .done ∧ a.Inv m

private theorem started_error {code : Int32} : Started m (.error code) := by
  intro a h
  cases h

private theorem keeps_refuseStart {text : String} : (refuseStart text).Keeps duty m Started := by
  simp only [refuseStart, Prog.keeps_bind, keeps_env]
  exact fun _ ↦ Prog.keeps_pure.mpr started_error

theorem freshActor_inv {record : OperationRecord} {me : ProcessId}
    {operationId runtimeId : String} (hc : record.check = .ok ()) (hs : record.state = .pending) :
    (freshActor digest record me operationId runtimeId).Inv {} where
  checked := hc
  locked := rfl
  deciding := fun _ ↦ hs
  launched := fun h ↦ absurd rfl h
  committed := by simp [freshActor, hs]
  flag := rfl
  told := rfl
  releasing := by simp [freshActor]
  requested := rfl
  recorded := nofun
  unfinished := by
    have ha := OperationRecord.stateAgrees_of_check hc
    simp_all [OperationRecord.stateAgrees, freshActor]
  concluded := rfl
  granted := nofun
  ready := nofun
  commanded := nofun
  stopped := rfl

private theorem keeps_becomeActor {me : ProcessId} {record : OperationRecord}
    (hc : record.check = .ok ()) :
    (becomeActor operationDigest digest name me record).Keeps duty {} Started := by
  unfold becomeActor
  split
  · split
    · exact keeps_refuseStart
    · next hs =>
      simp only [ne_eq, not_or, Decidable.not_not] at hs
      simp only [Prog.keeps_bind, keeps_env]
      intro control
      split
      · exact keeps_refuseStart
      · refine Prog.keeps_pure.mpr fun a ha ↦ ?_
        cases ha
        exact ⟨rfl, by simp [freshActor], freshActor_inv hc hs.1⟩
  · exact keeps_refuseStart

/-- The daemon's start keeps the contract and starts an actor that satisfies its invariant. -/
theorem keeps_main : (main operationDigest digest).Keeps duty {} Started := by
  simp only [main, Prog.keeps_bind, keeps_env]
  intro fds
  split
  · simp only [Prog.keeps_bind, keeps_env]
    exact fun _ ↦ Prog.keeps_pure.mpr started_error
  · simp only [Prog.keeps_bind, keeps_env]
    intro opened
    split
    · exact Prog.keeps_pure.mpr started_error
    · simp only [lockOperation, Prog.keeps_bind, keeps_env]
      intro config
      split
      · exact keeps_refuseStart
      · simp only [Prog.keeps_bind, keeps_env]
        intro lock
        split
        · exact keeps_refuseStart
        · exact keeps_refuseStart
        · exact keeps_refuseStart
        · simp only [readProducer, Prog.keeps_bind, keeps_env]
          intro current
          split
          · exact keeps_refuseStart
          · refine Prog.keeps_bind.mpr (keeps_op.mpr ⟨trivial, fun read hread ↦ ?_⟩)
            split
            · next record => exact keeps_becomeActor (hread record rfl)
            · exact keeps_refuseStart

end Keeps
end PtySpec.Daemon
