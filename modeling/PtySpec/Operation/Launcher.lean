import PtySpec.Operation.Duty

/-!
# The launcher

Model of `launch` in `crates/pty/src/cli/run_operation.rs:348-651`: it claims the
reservation, looks once more for a withdrawal and for an occupied name, and hands the
writer role to the gated daemon. Every exit after the claim records a decision or hands
the role on. A launcher sends one frame at most, its first.
-/

namespace PtySpec.Operation

open Lib

/-- The launcher's exit status for a refusal or a decision of its own, `run_operation.rs:34`. -/
def REFUSED : Int32 := 1

/-- The exit status when the control descriptor fails validation, `run_operation.rs:36`. -/
def USAGE : Int32 := 64

namespace Launcher

/-- `Context::frame`, `run_operation.rs:281`. -/
def frame (envelope : Envelope) (kind : String) (record : Option OperationRecord)
    (extra : List (String × Value)) : Act Unit :=
  env (.frame (producerFrame kind 1 envelope.operationId envelope.sha256 envelope.value record []
    extra))

/-- The closure `refuse`, `run_operation.rs:374`. -/
def refuse (envelope : Envelope) (code : String) (record : Option OperationRecord)
    (more : List (String × Value)) : Act Int32 := do
  frame envelope "refused" record (("code", .string code) :: more)
  env (.warn ("pty run: refused: " ++ code))
  return REFUSED

/-- `refuse_unidentified`, `run_operation.rs:312`. -/
def refuseUnidentified (code path reason : String) : Act Int32 := do
  let fields := [("type", .string "refused"), ("version", .nat 1), ("seq", .nat 1),
    ("operationId", .null), ("envelopeSha256", .null), ("envelope", .null),
    ("recordRevision", .null), ("state", .null), ("phase", .null), ("participants", .null),
    ("incarnation", .null), ("tickets", .array []), ("code", .string code)]
  let fields := if path ≠ "" ∨ reason ≠ "" then
    fields ++ [("path", .string path), ("reason", .string reason)] else fields
  env (.frame (.object fields))
  env (.warn ("pty run: refused: " ++ code ++ " " ++ path ++ " " ++ reason))
  return REFUSED

/-- The closure `decide`, `run_operation.rs:494`: the launcher's own cancellation. -/
def decide (envelope : Envelope) (record : OperationRecord) (cause : Cause)
    (requestId observed : Option String) : Act Int32 := do
  let decision ← Decision.now cause requestId observed
  let next :=
    { record with state := .cancelled, writer := .nobody, decision := some decision }
  match ← Prog.query (Op.writeCas record next "") with
  | .ok written =>
    frame envelope "decision" (some written) [("decision", .opt Decision.json written.decision)]
    return REFUSED
  | .error error =>
    env (.warn ("pty run: cannot record the decision: " ++ error.display))
    return REFUSED

/-- The daemon owns the writer role: hand it the creation lock and open its gate,
`run_operation.rs:618`. -/
def openGate (daemon : UInt32) : Act Int32 := do
  match ← env (.handOverCreation daemon) with
  | .error error =>
    env (.abandonGated daemon)
    env (.warn ("pty run: cannot hand the creation lock to the daemon: " ++ error))
    return REFUSED
  | .ok () =>
    env .unlock
    env (.barrier "daemon-gated")
    match ← env (.releaseGated daemon) with
    | .ok () => return 0
    | .error error =>
      env (.warn ("pty run: " ++ error))
      return REFUSED

/-- The gated daemon exists: record it as producer and writer, `run_operation.rs:593`. -/
def handWriter (envelope : Envelope) (forking : OperationRecord) (pid : UInt32) : Act Int32 := do
  match ← env (.processOf pid) with
  | .error error =>
    env (.abandonGated pid)
    decide envelope forking .refused none (some ("daemon identity: " ++ error))
  | .ok daemon =>
    let next :=
      { forking with
        phase := .daemonGated
        writer := .of .producer daemon
        participants := { forking.participants with producer := some daemon } }
    match ← Prog.query (Op.writeCas forking next "") with
    | .error error =>
      env (.abandonGated pid)
      env (.warn ("pty run: cannot hand the writer role to the daemon: " ++ error.display))
      return REFUSED
    | .ok _ => openGate pid

/-- `daemon-forking` is recorded: prepare and fork the gated daemon, `run_operation.rs:545`. -/
def fork (envelope : Envelope) (digest : String) (forking : OperationRecord) : Act Int32 := do
  match ← env .daemonExecutable with
  | .error message => decide envelope forking .refused none (some message)
  | .ok () =>
    match ← env .resolveCommand with
    | .error message => decide envelope forking .refused none (some message)
    | .ok () =>
      match ← env .delegateCreation with
      | .error message => decide envelope forking .refused none (some message)
      | .ok () =>
        match ← env (.spawnGated digest) with
        | .error message => decide envelope forking .refused none (some message)
        | .ok pid => handWriter envelope forking pid

/-- The reservation is claimed: withdrawals, occupancy, then `daemon-forking`,
`run_operation.rs:521`. -/
def proceed (envelope : Envelope) (name digest : String) (claimed : OperationRecord) :
    Act Int32 := do
  env (.barrier "launcher-before-peek")
  match ← env (.peekWithdrawal envelope) with
  | some (cause, requestId) => decide envelope claimed cause requestId none
  | none =>
    let occupancy ← env (.observeOccupancy name)
    match occupancyRule occupancy envelope.expectedIncarnation with
    | .error (cause, observed) => decide envelope claimed cause none (some observed)
    | .ok _ =>
      env (.releaseEvents name)
      env (.barrier "launcher-before-fork")
      match ← Prog.query (Op.writeCas claimed { claimed with phase := .daemonForking } "") with
      | .error error =>
        env (.warn ("pty run: cannot record daemon-forking: " ++ error.display))
        return REFUSED
      | .ok forking => fork envelope digest forking

/-- The record was read: it must be the unclaimed reservation, `run_operation.rs:455`. -/
def claim (envelope : Envelope) (name digest : String) (reserved : OperationRecord) :
    Act Int32 :=
  if reserved.operationId ≠ envelope.operationId ∨ reserved.envelopeSha256 ≠ envelope.sha256 then
    refuse envelope "wrong-envelope" (some reserved) []
  else if reserved.state ≠ .reserved ∨ reserved.writer.role ≠ .none then
    refuse envelope "not-claimable" (some reserved)
      [("observed", .string reserved.state.asStr)]
  else do
    match ← env .current with
    | .error error =>
      refuse envelope "identity-unavailable" (some reserved) [("detail", .string error)]
    | .ok me =>
      let next :=
        { reserved with
          state := .pending
          phase := .claimed
          writer := .of .launcher me
          participants := { reserved.participants with launcher := some me } }
      match ← Prog.query (Op.writeCas reserved next "") with
      | .error error =>
        refuse envelope "not-claimable" (some reserved) [("detail", .string error.display)]
      | .ok claimed => proceed envelope name digest claimed

/-- The operation's lock and its record, `run_operation.rs:417`. -/
def takeReservation (envelope : Envelope) (name digest : String) : Act Int32 := do
  env (.barrier "launcher-before-claim")
  match ← env .lockExclusive with
  | .held =>
    match ← Prog.query Op.readRecord with
    | .ok (some record) =>
      refuse envelope "not-claimable" none [("observed", .string record.state.asStr)]
    | _ => refuse envelope "not-claimable" none [("observed", .string "locked")]
  | .notFound => refuse envelope "not-claimable" none [("observed", .string "absent")]
  | .failed error => refuse envelope "operation-unavailable" none [("detail", .string error)]
  | .taken =>
    match ← Prog.query Op.readRecord with
    | .ok none => refuse envelope "not-claimable" none [("observed", .string "absent")]
    | .error error =>
      refuse envelope "not-claimable" none [("observed", .string ("unreadable:" ++ error.display))]
    | .ok (some reserved) => claim envelope name digest reserved

/-- What `launch` answers when a session lock is refused, `run_operation.rs:392`. -/
def refuseLock (envelope : Envelope) : LockRefusal → Act Int32
  | .busy => refuse envelope "session-busy" none []
  | .unavailable cause => refuse envelope "session-unavailable" none [("detail", .string cause)]

/-- The session's event and creation locks, `run_operation.rs:390`. -/
def takeLocks (envelope : Envelope) (name digest : String) : Act Int32 := do
  match ← env (.lockEvents name) with
  | .error refusal => refuseLock envelope refusal
  | .ok () =>
    match ← env (.lockCreation name) with
    | .error refusal =>
      env (.releaseEvents name)
      refuseLock envelope refusal
    | .ok () => takeReservation envelope name digest

/-- `launch`, `run_operation.rs:348`; `operationDigest` is the SHA-256 of the operation's id. -/
def launch (operationDigest : String → String) (name digest : String) : Act Int32 := do
  match ← env .validateControlFd with
  | .error message =>
    env (.warn ("pty run: " ++ message))
    return USAGE
  | .ok () =>
    match ← env .rehome with
    | .error message =>
      env (.warn ("pty run: " ++ message))
      return USAGE
    | .ok () =>
      match ← env .receiveEnvelope with
      | .error (path, reason) => refuseUnidentified "envelope-invalid" path reason
      | .ok envelope =>
        if operationDigest envelope.operationId ≠ digest then
          refuse envelope "digest-mismatch" none []
        else if envelope.runtimeId ≠ name then
          refuse envelope "runtime-id-mismatch" none []
        else
          takeLocks envelope name digest

/-! ### What the launcher keeps -/

section Keeps

variable {m : Ghost} {envelope : Envelope} {record : OperationRecord} {name digest : String}

/-- Nothing is promised of a launcher's result. -/
abbrev Any (_ : Ghost) (_ : Int32) : Prop := True

private theorem keeps_refuse {code : String} {r : Option OperationRecord}
    {more : List (String × Value)} : (refuse envelope code r more).Keeps duty m Any := by
  simp [refuse, frame, Prog.keeps_bind]

private theorem keeps_decide (hg : m.granted = []) (hc : record.check = .ok ())
    (hs : record.state = .pending) (cause : Cause) (requestId observed : Option String) :
    (decide envelope record cause requestId observed).Keeps duty m Any := by
  simp only [decide, Prog.keeps_bind, keeps_now]
  intro now
  refine keeps_writeCas hg (fun hl ↦ absurd hl (by decide))
    (fun _ ↦ .decide hc (.inr hs) rfl rfl rfl (hs ▸ .cancel) id)
    (fun _ m' _ now ↦ ?_) (fun m' _ e ↦ ?_)
  · simp [frame, Prog.keeps_bind]
  · simp [Prog.keeps_bind]

private theorem keeps_openGate {pid : UInt32} : (openGate pid).Keeps duty m Any := by
  simp only [openGate, Prog.keeps_bind, keeps_env]
  intro handed
  split
  · simp [Prog.keeps_bind]
  · simp only [Prog.keeps_bind, keeps_env]
    intro _ _ released
    split
    · trivial
    · simp [Prog.keeps_bind]

private theorem keeps_handWriter {pid : UInt32} (hg : m.granted = [])
    (hc : record.check = .ok ()) (hs : record.state = .pending) :
    (handWriter envelope record pid).Keeps duty m Any := by
  simp only [handWriter, Prog.keeps_bind, keeps_env]
  intro found
  split
  · simp only [Prog.keeps_bind, keeps_env]
    exact fun _ ↦ keeps_decide hg hc hs _ _ _
  · refine Prog.keeps_bind.mpr (keeps_writeCas hg (fun hl ↦ absurd hl (by decide))
      (fun _ ↦ .same rfl rfl rfl rfl rfl rfl id) (fun _ m' _ now ↦ ?_) (fun m' _ e ↦ ?_))
    · exact keeps_openGate
    · simp [Prog.keeps_bind]

private theorem keeps_fork (hg : m.granted = []) (hc : record.check = .ok ())
    (hs : record.state = .pending) : (fork envelope digest record).Keeps duty m Any := by
  have hd : ∀ message : String,
      (decide envelope record .refused none (some message)).Keeps duty m Any :=
    fun _ ↦ keeps_decide hg hc hs _ _ _
  simp only [fork, Prog.keeps_bind, keeps_env]
  intro executable
  split
  · exact hd _
  · simp only [Prog.keeps_bind, keeps_env]
    intro command
    split
    · exact hd _
    · simp only [Prog.keeps_bind, keeps_env]
      intro delegated
      split
      · exact hd _
      · simp only [Prog.keeps_bind, keeps_env]
        intro spawned
        split
        · exact hd _
        · exact keeps_handWriter hg hc hs

private theorem keeps_proceed (hg : m.granted = []) (hc : record.check = .ok ())
    (hs : record.state = .pending) : (proceed envelope name digest record).Keeps duty m Any := by
  simp only [proceed, Prog.keeps_bind, keeps_env]
  intro _ withdrawal
  split
  · exact keeps_decide hg hc hs _ _ _
  · simp only [Prog.keeps_bind, keeps_env]
    intro occupancy
    split
    · exact keeps_decide hg hc hs _ _ _
    · simp only [Prog.keeps_bind, keeps_env]
      intro _ _
      refine keeps_writeCas hg (fun hl ↦ absurd hl (by decide))
        (fun _ ↦ .same rfl rfl rfl rfl rfl rfl id)
        (fun hc m' hg' now ↦ ?_) (fun m' _ e ↦ ?_)
      · exact keeps_fork hg' hc hs
      · simp [Prog.keeps_bind]

private theorem keeps_claim (hg : m.granted = []) (hc : record.check = .ok ()) :
    (claim envelope name digest record).Keeps duty m Any := by
  unfold claim
  split
  · exact keeps_refuse
  · split
    · exact keeps_refuse
    · next hs =>
      simp only [ne_eq, not_or, Decidable.not_not] at hs
      simp only [Prog.keeps_bind, keeps_env]
      intro current
      split
      · exact keeps_refuse
      · refine Prog.keeps_bind.mpr (keeps_writeCas hg (fun hl ↦ absurd hl (by decide))
          (fun _ ↦ .decide hc (.inl hs.1) rfl rfl rfl (hs.1 ▸ .claim) id)
          (fun hc m' hg' now ↦ ?_) (fun m' _ e ↦ ?_))
        · exact keeps_proceed hg' hc rfl
        · exact keeps_refuse

private theorem keeps_takeReservation (hg : m.granted = []) :
    (takeReservation envelope name digest).Keeps duty m Any := by
  simp only [takeReservation, Prog.keeps_bind, keeps_env]
  intro _ lock
  split
  · refine Prog.keeps_bind.mpr (keeps_op.mpr ⟨trivial, fun read _ ↦ ?_⟩)
    split <;> exact keeps_refuse
  · exact keeps_refuse
  · exact keeps_refuse
  · refine Prog.keeps_bind.mpr (keeps_op.mpr ⟨trivial, fun read hread ↦ ?_⟩)
    split
    · exact keeps_refuse
    · exact keeps_refuse
    · next reserved => exact keeps_claim hg (hread reserved rfl)

/-- Every write of the launcher is a move of the record it read or wrote last. -/
theorem keeps_launch (operationDigest : String → String) (hg : m.granted = []) :
    (launch operationDigest name digest).Keeps duty m Any := by
  have hlock : ∀ envelope refusal, (refuseLock envelope refusal).Keeps duty m Any := by
    intro envelope refusal
    cases refusal <;> exact keeps_refuse
  simp only [launch, Prog.keeps_bind, keeps_env]
  intro valid
  split
  · simp [Prog.keeps_bind]
  · simp only [Prog.keeps_bind, keeps_env]
    intro rehomed
    split
    · simp [Prog.keeps_bind]
    · simp only [Prog.keeps_bind, keeps_env]
      intro received
      split
      · simp [refuseUnidentified, Prog.keeps_bind]
      · split
        · exact keeps_refuse
        · split
          · exact keeps_refuse
          · simp only [takeLocks, Prog.keeps_bind, keeps_env]
            intro events
            split
            · exact hlock _ _
            · simp only [Prog.keeps_bind, keeps_env]
              intro creation
              split
              · simp only [Prog.keeps_bind, keeps_env]
                exact fun _ ↦ hlock _ _
              · exact keeps_takeReservation hg

end Keeps
end Launcher
end PtySpec.Operation
