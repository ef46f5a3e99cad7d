import PtySpec.Operation.Record

/-!
# The process table and exact liveness

Model of `crates/pty-core/src/proctable.rs` as far as the operations read it, and of
`ProcessId::liveness` (`record.rs:77`): what one snapshot of the process table says
of a recorded process. A pid alone never answers, and silence is not absence.
-/

namespace PtySpec.Operation

/-- Why a fact is not available, `proctable.rs:38`. -/
inductive Unknown where
  | tableUnreadable
  | fieldEmpty
  | fieldUnparsable
  deriving DecidableEq, Repr

/-- What the process table said about one thing, `proctable.rs:57`. -/
inductive Answer (α : Type) where
  | known (a : α)
  | notPresent
  | unknown (u : Unknown)

/-- The columns of a row that the operations read, `proctable.rs:250`. -/
structure Row where
  pid : Int32
  state : String
  identity : Option String
  deriving DecidableEq, Repr

/-- `Row::is_zombie`, `proctable.rs:275`. -/
def Row.isZombie (r : Row) : Bool :=
  r.state.toList.head? == some 'Z' || r.state.toList.head? == some 'X'

/-- `Row::is_exiting`, `proctable.rs:284`. -/
def Row.isExiting (r : Row) : Bool := r.state.toList.head? == some 'E'

/-- A snapshot of the process table, `proctable.rs:297`. -/
structure ProcTable where
  rows : Int32 → Option Row
  readable : Bool
  complete : Bool

namespace ProcTable

/-- `ProcTable::unreadable`, `proctable.rs:405`. -/
def unreadable : ProcTable := ⟨fun _ ↦ none, false, false⟩

/-- `ProcTable::from_rows`, `proctable.rs:415`; a later row of a pid replaces an earlier one. -/
def fromRows (rows : List Row) : ProcTable :=
  ⟨fun pid ↦ rows.reverse.find? (·.pid == pid), true, true⟩

/-- `ProcTable::row`, `proctable.rs:484`. -/
def row (t : ProcTable) (pid : Int32) : Answer Row :=
  if t.readable then
    match t.rows pid with
    | some row => .known row
    | none => .notPresent
  else
    .unknown .tableUnreadable

/-- `ProcTable::is_complete`, `proctable.rs:466`. -/
def isComplete (t : ProcTable) : Bool := t.readable && t.complete

end ProcTable

/-- What a recorded identity's process is doing now, `record.rs:158`. -/
inductive Liveness where
  | live
  | gone
  | unknown (reason : String)
  deriving DecidableEq, Repr

/-- A boot identity of the form macOS records once had, `record.rs:87`. -/
def legacyBoot (bootId : String) : Bool := "darwin:\x7b".toList.isPrefixOf bootId.toList

/-- `ProcessId::liveness`, `record.rs:77`. -/
def ProcessId.liveness (id : ProcessId) (table : ProcTable) (bootId : Option String) : Liveness :=
  match bootId with
  | none => .unknown "boot-identity-unavailable"
  | some boot =>
    let legacy := legacyBoot id.bootId
    if boot ≠ id.bootId ∧ !legacy then
      .gone
    else
      match table.row id.pid.toInt32 with
      | .known row =>
        match row.identity with
        | some identity =>
          if identity ≠ id.startToken then .gone
          else if row.isZombie then .gone
          else if row.isExiting then .unknown "exiting"
          else if legacy then .unknown "boot-identity-legacy"
          else .live
        | none => .unknown "start-identity-unreadable"
      | .notPresent =>
        if table.isComplete then .gone else .unknown "process-table-incomplete"
      | .unknown _ => .unknown "process-table-unreadable"

/-- What proves a recorded process gone: another boot, another or an exited process
under its pid, or a complete table without it. -/
structure GoneProof (id : ProcessId) (table : ProcTable) (boot : String) : Prop where
  proof :
    (boot ≠ id.bootId ∧ legacyBoot id.bootId = false) ∨
      (table.readable = true ∧ ∃ row token, table.rows id.pid.toInt32 = some row ∧
        row.identity = some token ∧ (token ≠ id.startToken ∨ row.isZombie = true)) ∨
      (table.readable = true ∧ table.complete = true ∧ table.rows id.pid.toInt32 = none)

/-- `Gone` is answered exactly with a proof of it, within a known boot. -/
theorem liveness_eq_gone_iff (id : ProcessId) (table : ProcTable) (bootId : Option String) :
    id.liveness table bootId = .gone ↔ ∃ boot, bootId = some boot ∧ GoneProof id table boot := by
  cases bootId with
  | none => simp [ProcessId.liveness]
  | some boot =>
    simp only [Option.some.injEq, exists_eq_left']
    rw [show GoneProof id table boot ↔ _ from ⟨fun h ↦ h.proof, fun h ↦ ⟨h⟩⟩]
    unfold ProcessId.liveness
    dsimp only
    split
    · next h => simp_all
    · next h =>
      have hboot : ¬(boot ≠ id.bootId ∧ legacyBoot id.bootId = false) := by simpa using h
      cases hr : table.readable with
      | false => simp [ProcTable.row, hr, hboot]
      | true =>
        cases hrow : table.rows id.pid.toInt32 with
        | none => simp [ProcTable.row, ProcTable.isComplete, hr, hrow, hboot]
        | some row =>
          simp only [ProcTable.row, hr, hrow, if_true]
          cases hi : row.identity with
          | none => simp [hboot, hi]
          | some token =>
            simp only [hboot, hi, false_or, true_and, Option.some.injEq, reduceCtorEq,
              and_false, or_false, exists_and_left, exists_eq_left']
            by_cases ht : token = id.startToken
            · cases hz : row.isZombie with
              | true => simp [ht]
              | false => cases row.isExiting <;> cases legacyBoot id.bootId <;> simp [ht]
            · simp [ht]

end PtySpec.Operation
