import PtySpec.Operation.Duty

/-!
# Recovery

Model of `retire` in `crates/pty-core/src/operation/settle.rs:655-890`: the command that
ends an operation whose writer and participants are gone. It takes the writer role,
records the request, ends the held child and removes the registry's row, and records
how that went.
-/

namespace PtySpec.Operation

open Lib

/-- `RetireRefusal`, `settle.rs:657`. -/
structure RetireRefusal where
  code : String
  detail : String
  deriving DecidableEq, Repr

namespace Recovery

/-- What `pty operation retire` was asked; `path` is the record's file. -/
structure Request where
  operationId : String
  envelopeSha256 : String
  requestId : String
  incarnation : Option String
  path : String

/-- The closure `refuse`, `settle.rs:703`. -/
def refuse (code detail : String) : Act (Except RetireRefusal Verdict) :=
  return .error ⟨code, detail⟩

/-- `liveness_now`, `record.rs:102`. -/
def livenessNow (id : ProcessId) (boot : Option String) : Act Liveness := do
  return id.liveness (← env (.processTableOf id.pid)) boot

/-- `kill_recorded` once the child is pinned, `settle.rs:683`. -/
def killPinned (id : ProcessId) (boot : Option String) : Act Liveness := do
  match ← env (.signalKill id) with
  | .error reason => return .unknown reason
  | .ok () =>
    if ← env (.waitExit id) then env (.livenessAfterExit id boot) else return .live

/-- `kill_recorded`, `settle.rs:674`. -/
def killRecorded (id : ProcessId) (boot : Option String) : Act Liveness := do
  if (← livenessNow id boot) ≠ .live then
    livenessNow id boot
  else
    match ← env (.pin id boot) with
    | .ok true => killPinned id boot
    | .ok false => livenessNow id boot
    | .error reason => return .unknown reason

/-- `unwind_row`, `settle.rs:893`. -/
def unwindRow (record : OperationRecord) : Act String :=
  match record.incarnation with
  | none => return "absent"
  | some inc => env (.unwindRow inc)

/-- The recorded processes that could still act, with their roles, `settle.rs:778`. -/
def actors (record : OperationRecord) : List (String × ProcessId) :=
  [("writer", record.writer.id), ("launcher", record.participants.launcher),
    ("producer", record.participants.producer),
    ("daemon", record.incarnation.map (·.daemon))].filterMap fun p ↦ p.2.map (p.1, ·)

/-- The first recorded process that is not gone, as the refusal it causes, `settle.rs:791`. -/
def refusalOf (table : ProcTable) (boot : Option String) :
    List (String × ProcessId) → Option RetireRefusal
  | [] => none
  | (role, id) :: rest =>
    match id.liveness table boot with
    | .gone => refusalOf table boot rest
    | .live =>
      some ⟨if role = "writer" then "live-writer" else "live-participant",
        role ++ " pid " ++ toString id.pid⟩
    | .unknown reason => some ⟨"participant-unknown", role ++ ": " ++ reason⟩

/-- The closure `snapshot_after`, `settle.rs:753`. -/
def snapshotAfter (q : Request) : Act (Except RetireRefusal Verdict) := do
  env .unlock
  return .ok (← env (.settle ⟨q.operationId, q.envelopeSha256, .retire, some q.requestId⟩))

/-- End the held child of a launched operation, `settle.rs:842`: its evidence and whether
it is gone. -/
def endChild (requested : OperationRecord) (boot : Option String) : Act (Value × Bool) :=
  match (requested.incarnation.bind (·.child)).or requested.participants.child with
  | none => return (.null, true)
  | some child => do
    let after ← killRecorded child boot
    return (.object [("pid", .nat child.pid.toNat), ("status", .string (livenessJson after))],
      after == .gone)

/-- A finished retirement of `requested`, `settle.rs:868`. -/
def retired (q : Request) (requested : OperationRecord) (verified : Bool)
    (evidence : List (String × Value)) : OperationRecord :=
  { requested with
    writer := .nobody
    retirement := some
      ⟨q.requestId, if verified then .verified else .incomplete, .object evidence⟩ }

/-- The terminal record of a retirement that is `requested`, `settle.rs:826`; there is none
for a state that was answered before the request. -/
def terminalRecord (q : Request) (boot : Option String) (requested : OperationRecord) :
    Act (Option OperationRecord) :=
  match requested.state with
  | .reserved => do
    let decision ← Decision.now .withdrawn (some q.requestId) none
    return some { retired q requested true [] with
      state := .cancelled, decision := some decision }
  | .pending => do
    let decision ← Decision.now .producerLost (some q.requestId) none
    return some { retired q requested true [] with
      state := .cancelled, decision := some decision }
  | .launched => do
    let (child, childGone) ← endChild requested boot
    let row ← unwindRow requested
    let rowGone := row == "removed" || row == "absent" || row == "other-generation"
    return some (retired q requested (childGone && rowGone)
      [("child", child), ("row", .string row)])
  | .cancelled | .transferred => return none

/-- Conclude a recorded request, `settle.rs:822`. -/
def conclude (q : Request) (boot : Option String) (requested : OperationRecord) :
    Act (Except RetireRefusal Verdict) := do
  match ← terminalRecord q boot requested with
  | none => refuse "unreachable" "handled above"
  | some terminal =>
    match ← Prog.query (Op.writeCas requested terminal "recovery-terminal") with
    | .error error => refuse "record-write" error.display
    | .ok _ => snapshotAfter q

/-- Everyone who could act is gone: take the writer role and record the request,
`settle.rs:806`. -/
def takeOver (q : Request) (boot : Option String) (record : OperationRecord) :
    Act (Except RetireRefusal Verdict) := do
  match ← env .current with
  | .error error => refuse "identity-unavailable" error
  | .ok me =>
    let next :=
      { record with
        writer := .of .recovery me
        retirement := some ⟨q.requestId, .requested, .object []⟩ }
    match ← Prog.query (Op.writeCas record next "recovery-requested") with
    | .error error => refuse "record-write" error.display
    | .ok requested => conclude q boot requested

/-- The record is the one asked about: answer a finished retirement, else look for
anyone who could still act, `settle.rs:762`. -/
def retireRecord (q : Request) (record : OperationRecord) :
    Act (Except RetireRefusal Verdict) :=
  if record.retirement.any fun r ↦ r.phase != .requested && r.requestId == q.requestId then
    snapshotAfter q
  else if record.state = .cancelled ∨ record.retirementPhase = some .verified then
    snapshotAfter q
  else do
    let boot ← env .bootIdentity
    let table ← env .procTable
    match refusalOf table boot (actors record) with
    | some refusal => return .error refusal
    | none => takeOver q boot record

/-- Why the record is not the one asked about, `settle.rs:728`. -/
def mismatch (q : Request) (record : OperationRecord) : Option RetireRefusal :=
  if record.operationId ≠ q.operationId then
    some ⟨"record-mismatch", "operationId"⟩
  else if record.envelopeSha256 ≠ q.envelopeSha256 then
    some ⟨"wrong-envelope", "envelopeSha256"⟩
  else if record.state = .transferred then
    some ⟨"transferred", "a transferred operation is steady state"⟩
  else if record.state = .launched then
    let recorded := record.incarnationId.getD ""
    match q.incarnation with
    | none => some ⟨"incarnation-required", recorded⟩
    | some given => if given ≠ recorded then some ⟨"wrong-incarnation", recorded⟩ else none
  else
    q.incarnation.map fun given ↦ ⟨"wrong-incarnation", given ++ ": nothing was launched"⟩

/-- `retire`, `settle.rs:696`. -/
def retire (q : Request) : Act (Except RetireRefusal Verdict) := do
  match ← env .lockExclusive with
  | .held => refuse "live-writer" "a writer holds the operation lock"
  | .notFound => refuse "record-missing" q.path
  | .failed error => refuse "lock-unavailable" error
  | .taken =>
    match ← Prog.query Op.readRecord with
    | .ok none => refuse "record-missing" q.path
    | .error error => refuse "record-unreadable" error.display
    | .ok (some record) =>
      match mismatch q record with
      | some refusal => return .error refusal
      | none => retireRecord q record

/-! ### What recovery keeps -/

section Keeps

variable {m : Ghost} {q : Request} {record : OperationRecord} {boot : Option String}

/-- Nothing is promised of a recovery's result. -/
abbrev Any {α : Type} (_ : Ghost) (_ : α) : Prop := True

private theorem keeps_refuse {code detail : String} : (refuse code detail).Keeps duty m Any :=
  trivial

private theorem keeps_snapshotAfter : (snapshotAfter q).Keeps duty m Any := by
  simp [snapshotAfter, Prog.keeps_bind]

private theorem keeps_livenessNow {id : ProcessId} {Q : Ghost → Liveness → Prop}
    (hQ : ∀ l, Q m l) : (livenessNow id boot).Keeps duty m Q := by
  simp only [livenessNow, Prog.keeps_bind, keeps_env]
  exact fun table ↦ hQ _

private theorem keeps_killRecorded {id : ProcessId} {Q : Ghost → Liveness → Prop}
    (hQ : ∀ l, Q m l) : (killRecorded id boot).Keeps duty m Q := by
  rw [killRecorded, Prog.keeps_bind]
  refine keeps_livenessNow fun l ↦ ?_
  split
  · exact keeps_livenessNow hQ
  · simp only [Prog.keeps_bind, keeps_env]
    intro pinned
    split
    · simp only [killPinned, Prog.keeps_bind, keeps_env]
      intro sent
      split
      · exact hQ _
      · simp only [Prog.keeps_bind, keeps_env]
        intro exited
        split
        · exact keeps_env.mpr hQ
        · exact hQ _
    · exact keeps_livenessNow hQ
    · exact hQ _

private theorem keeps_endChild {Q : Ghost → Value × Bool → Prop} (hQ : ∀ p, Q m p) :
    (endChild record boot).Keeps duty m Q := by
  unfold endChild
  split
  · exact hQ _
  · rw [Prog.keeps_bind]
    exact keeps_killRecorded fun l ↦ hQ _

private theorem keeps_unwindRow {Q : Ghost → String → Prop} (hQ : ∀ s, Q m s) :
    (unwindRow record).Keeps duty m Q := by
  unfold unwindRow
  split
  · exact hQ _
  · exact keeps_env.mpr hQ

private theorem move_retired {verified : Bool} {evidence : List (String × Value)} :
    Move record (retired q record verified evidence) :=
  .same rfl rfl rfl rfl rfl rfl fun _ ↦ rfl

/-- The terminal record is a move of the requested one. -/
private theorem keeps_terminalRecord (hc : record.check = .ok ()) :
    (terminalRecord q boot record).Keeps duty m
      fun m' t ↦ m' = m ∧ ∀ n, t = some n → Move record n := by
  unfold terminalRecord
  split
  · next hs =>
    simp only [Prog.keeps_bind, keeps_now]
    refine fun now ↦ ⟨rfl, fun n hn ↦ ?_⟩
    cases hn
    exact .decide hc (.inl hs) rfl rfl rfl (hs ▸ .withdraw) fun _ ↦ rfl
  · next hs =>
    simp only [Prog.keeps_bind, keeps_now]
    refine fun now ↦ ⟨rfl, fun n hn ↦ ?_⟩
    cases hn
    exact .decide hc (.inr hs) rfl rfl rfl (hs ▸ .cancel) fun _ ↦ rfl
  · rw [Prog.keeps_bind]
    refine keeps_endChild fun p ↦ ?_
    obtain ⟨child, gone⟩ := p
    refine Prog.keeps_bind.mpr (keeps_unwindRow fun row ↦ ?_)
    refine Prog.keeps_pure.mpr ⟨rfl, fun n hn ↦ ?_⟩
    cases hn
    exact move_retired
  · exact Prog.keeps_pure.mpr ⟨rfl, by simp⟩
  · exact Prog.keeps_pure.mpr ⟨rfl, by simp⟩

private theorem keeps_conclude (hg : m.granted = []) (hc : record.check = .ok ()) :
    (conclude q boot record).Keeps duty m Any := by
  refine (keeps_terminalRecord hc).seq ?_
  rintro m' t ⟨rfl, ht⟩
  cases t with
  | none => exact keeps_refuse
  | some terminal =>
    refine Prog.keeps_bind.mpr (keeps_writeCas hg (fun hl ↦ absurd hl (by decide))
      (fun _ ↦ ht terminal rfl) (fun _ m' _ now ↦ keeps_snapshotAfter) (fun m' _ e ↦ keeps_refuse))

private theorem keeps_retireRecord (hg : m.granted = []) :
    (retireRecord q record).Keeps duty m Any := by
  unfold retireRecord
  split
  · exact keeps_snapshotAfter
  · split
    · exact keeps_snapshotAfter
    · simp only [Prog.keeps_bind, keeps_env]
      intro boot table
      split
      · trivial
      · simp only [takeOver, Prog.keeps_bind, keeps_env]
        intro current
        split
        · exact keeps_refuse
        · refine Prog.keeps_bind.mpr (keeps_writeCas hg (fun hl ↦ absurd hl (by decide))
            (fun _ ↦ .same rfl rfl rfl rfl rfl rfl fun _ ↦ rfl)
            (fun hc m' hg' now ↦ keeps_conclude hg' hc) (fun m' _ e ↦ keeps_refuse))

/-- Every write of recovery is a move of the record it read or wrote last. -/
theorem keeps_retire (hg : m.granted = []) : (retire q).Keeps duty m Any := by
  simp only [retire, Prog.keeps_bind, keeps_env]
  intro lock
  split
  · exact keeps_refuse
  · exact keeps_refuse
  · exact keeps_refuse
  · refine Prog.keeps_bind.mpr (keeps_op.mpr ⟨trivial, fun read _ ↦ ?_⟩)
    split
    · exact keeps_refuse
    · exact keeps_refuse
    · split
      · trivial
      · exact keeps_retireRecord hg

end Keeps
end Recovery
end PtySpec.Operation
