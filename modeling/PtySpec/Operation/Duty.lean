import PtySpec.Operation.Effects
import PtySpec.Operation.Move

/-!
# The contract of an operation's programs

What the launcher, the actor and recovery may ask of their surroundings. Their writes
are moves of the record; the release byte and the transferred flag follow a durable
transfer; a retirement is requested only without a transfer and concluded only without a
committed ticket in flight; no ticket is committed once a retirement was requested, and
none is commanded twice. `Ghost` remembers what of this a program has done.
-/

namespace PtySpec.Operation

open Lib

/-- What a program has done so far, as the contract remembers it. -/
structure Ghost where
  /-- A write of the transferred record succeeded. -/
  committed : Bool := false
  /-- The transferred flag was stored. -/
  flag : Bool := false
  /-- The serving loop was told of the transfer. -/
  told : Bool := false
  /-- The write that requests a retirement was tried. -/
  requested : Bool := false
  /-- A write of a finished retirement was tried. -/
  concluded : Bool := false
  /-- A write other than the note of the release failed. -/
  failed : Bool := false
  /-- The worker or the serving loop was told to stop. -/
  stopped : Bool := false
  /-- The worker was told to start serving. -/
  ready : Bool := false
  /-- The commit request under way: its ticket and its channel. -/
  asker : Option (Nat × Nat) := none
  /-- Tickets the worker was told to use. -/
  commanded : List Nat := []
  /-- Tickets committed and not yet completed. -/
  granted : List Nat := []
  /-- Kills handed to the serving loop. -/
  forwarded : List Nat := []

namespace Ghost

/-- After a write of `next` with that label. -/
def wrote (m : Ghost) (next : OperationRecord) (label : String) (ok : Bool) : Ghost :=
  { m with
    committed := m.committed || (ok && decide (next.state = .transferred))
    requested := m.requested || decide (label = "retirement-requested")
    concluded := m.concluded || next.terminal
    failed := m.failed || (!ok && decide (label ≠ "transfer-released")) }

/-- After an interaction and its answer. -/
def next (m : Ghost) : (o : Op) → o.Ans → Ghost
  | .writeCas _ next label, answer =>
    m.wrote next label (match answer with | .ok _ => true | .error _ => false)
  | .setTransferred, _ => { m with flag := true }
  | .replyCommit _ ticket true, _ => { m with granted := ticket :: m.granted }
  | .replyReady _ true, _ => { m with ready := true }
  | .tellWorker (.publish ticket _ _ _ _), _ | .tellWorker (.forkChild ticket), _ =>
    { m with commanded := ticket :: m.commanded }
  | .tellWorker (.stop _), _ => { m with stopped := true }
  | .tellLoop (.externalKill kill), _ => { m with forwarded := kill :: m.forwarded }
  | .tellLoop .operationTransferred, _ => { m with told := true }
  | .tellLoop (.operationEnd _), _ => { m with stopped := true }
  | _, _ => m

/-- After the worker or the serving loop was told to stop. -/
def halt (m : Ghost) : Ghost := { m with stopped := true }

/-- Why the process may be told to stop: a retirement, a failed write, or nothing serves yet. -/
def Excused (m : Ghost) : Prop := m.requested = true ∨ m.failed = true ∨ m.ready = false

end Ghost

/-- What a program may ask. -/
def mayAsk (m : Ghost) : Op → Prop
  | .writeCas expected next label =>
    (next.check = .ok () → Move expected next) ∧
      (label = "retirement-requested" → m.committed = false) ∧
      (next.terminal = true → m.granted = [])
  | .release _ => m.committed = true
  | .setTransferred => m.committed = true ∧ m.requested = false
  | .replyCommit reply ticket answer => m.asker = some (ticket, reply) ∧
    (answer = true → m.requested = false ∧ m.concluded = false)
  | .tellWorker (.publish ticket _ _ _ _) | .tellWorker (.forkChild ticket) =>
    ticket ∉ m.commanded
  | .replyReady _ true => m.stopped = false
  | .tellWorker (.stop _) | .tellLoop (.operationEnd _) => m.Excused
  | .tellLoop (.externalKill _) => m.told = true
  | .tellLoop .operationTransferred => m.flag = true
  | _ => True

/-- Which answers a program of the operation may rely on: a write that succeeded
published the version it was asked to, and a record that was read passes the check. -/
def mayAnswer : (o : Op) → o.Ans → Prop
  | .writeCas expected next _, answer =>
    ∀ w, answer = .ok w → next.check = .ok () ∧ ∃ now, w = next.stamped expected now
  | .readRecord, answer => ∀ r, answer = .ok (some r) → r.check = .ok ()
  | _, _ => True

/-- The contract of an operation's programs. -/
def duty : Contract Op Op.Ans Ghost where
  asks := mayAsk
  answers _ := mayAnswer
  next := Ghost.next

/-! ### What the contract keeps of the ghost state -/

/-- The order in which the contract lets things happen. -/
structure Ghost.Sane (m : Ghost) : Prop where
  told : m.told = true → m.flag = true
  flag : m.flag = true → m.committed = true
  apart : m.flag = true → m.requested = false
  concluded : m.concluded = true → m.granted = []
  stopped : m.stopped = true → m.Excused

theorem Ghost.Sane.next {m : Ghost} (h : m.Sane) {o : Op} {r : o.Ans} (ha : mayAsk m o) :
    (m.next o r).Sane := by
  cases o with
  | writeCas expected next label =>
    obtain ⟨-, hl, ht⟩ := ha
    refine ⟨h.told, fun hf ↦ ?_, fun hf ↦ ?_, fun hc ↦ ?_, fun hs ↦ ?_⟩
    · simp [Ghost.next, Ghost.wrote, h.flag hf]
    · have hne : label ≠ "retirement-requested" := fun he ↦ by
        have := h.flag hf
        simp [hl he] at this
      simp [Ghost.next, Ghost.wrote, h.apart hf, hne]
    · simp only [Ghost.next, Ghost.wrote, Bool.or_eq_true] at hc
      exact hc.elim h.concluded ht
    · rcases h.stopped hs with hr | hf | hr
      · exact .inl (by simp [Ghost.next, Ghost.wrote, hr])
      · exact .inr (.inl (by simp [Ghost.next, Ghost.wrote, hf]))
      · exact .inr (.inr hr)
  | readRecord => exact h
  | release gate => exact h
  | setTransferred => exact ⟨fun _ ↦ rfl, fun _ ↦ ha.1, fun _ ↦ ha.2, h.concluded, h.stopped⟩
  | replyCommit reply ticket answer =>
    cases answer with
    | false => exact h
    | true =>
      refine ⟨h.told, h.flag, h.apart, fun hc ↦ ?_, h.stopped⟩
      have := (ha.2 rfl).2.symm.trans hc
      cases this
  | replyReady reply answer =>
    cases answer with
    | false => exact h
    | true =>
      refine ⟨h.told, h.flag, h.apart, h.concluded, fun hs ↦ ?_⟩
      have : m.stopped = false := ha
      exact absurd hs (by simp [Ghost.next, this])
  | tellWorker cmd =>
    cases cmd with
    | stop code => exact ⟨h.told, h.flag, h.apart, h.concluded, fun _ ↦ ha⟩
    | publish => exact ⟨h.told, h.flag, h.apart, h.concluded, h.stopped⟩
    | forkChild ticket => exact ⟨h.told, h.flag, h.apart, h.concluded, h.stopped⟩
    | readyPoint => exact h
  | tellLoop msg =>
    cases msg with
    | externalKill kill => exact ⟨h.told, h.flag, h.apart, h.concluded, h.stopped⟩
    | operationTransferred => exact ⟨fun _ ↦ ha, h.flag, h.apart, h.concluded, h.stopped⟩
    | operationEnd code => exact ⟨h.told, h.flag, h.apart, h.concluded, fun _ ↦ ha⟩
  | env q => exact h

/-- What was once done stays done. -/
structure Ghost.Later (m m' : Ghost) : Prop where
  committed : m.committed = true → m'.committed = true
  told : m.told = true → m'.told = true
  requested : m.requested = true → m'.requested = true
  failed : m.failed = true → m'.failed = true
  stopped : m.stopped = true → m'.stopped = true
  ready : m.ready = true → m'.ready = true
  forwarded : ∀ k ∈ m.forwarded, k ∈ m'.forwarded

theorem Ghost.Later.next (m : Ghost) (o : Op) (r : o.Ans) : m.Later (m.next o r) := by
  cases o with
  | writeCas expected next label =>
    refine ⟨fun h ↦ ?_, id, fun h ↦ ?_, fun h ↦ ?_, id, id, fun _ ↦ id⟩
    · simp [Ghost.next, Ghost.wrote, h]
    · simp [Ghost.next, Ghost.wrote, h]
    · simp [Ghost.next, Ghost.wrote, h]
  | replyCommit reply ticket answer => cases answer <;> exact ⟨id, id, id, id, id, id, fun _ ↦ id⟩
  | replyReady reply answer =>
    cases answer with
    | false => exact ⟨id, id, id, id, id, id, fun _ ↦ id⟩
    | true => exact ⟨id, id, id, id, id, fun _ ↦ rfl, fun _ ↦ id⟩
  | tellWorker cmd =>
    cases cmd with
    | stop code => exact ⟨id, id, id, id, fun _ ↦ rfl, id, fun _ ↦ id⟩
    | _ => exact ⟨id, id, id, id, id, id, fun _ ↦ id⟩
  | tellLoop msg =>
    cases msg with
    | externalKill kill => exact ⟨id, id, id, id, id, id, fun _ ↦ List.mem_cons_of_mem _⟩
    | operationTransferred => exact ⟨id, fun _ ↦ rfl, id, id, id, id, fun _ ↦ id⟩
    | operationEnd code => exact ⟨id, id, id, id, fun _ ↦ rfl, id, fun _ ↦ id⟩
  | _ => exact ⟨id, id, id, id, id, id, fun _ ↦ id⟩

/-! ### One rule per interaction -/

section Rules

variable {m : Ghost}

/-- An interaction outside the contract leaves the ghost state alone. -/
@[simp] theorem keeps_env {q : EnvOp} {Q : Ghost → q.Ans → Prop} :
    @Prog.Keeps Op Op.Ans (no_index q.Ans) Ghost duty (env q) m Q ↔ ∀ r, Q m r :=
  ⟨fun h r ↦ h.2 r trivial, fun h ↦ ⟨trivial, fun r _ ↦ h r⟩⟩

@[simp] theorem keeps_now {cause : Cause} {requestId observed : Option String}
    {Q : Ghost → Decision → Prop} :
    (Decision.now cause requestId observed).Keeps duty m Q ↔
      ∀ now, Q m ⟨cause, now, requestId, observed⟩ := by
  simp [Decision.now, Prog.keeps_bind]

/-- One interaction: it is admitted, and every admitted answer keeps what follows. -/
theorem keeps_op {o : Op} {Q : Ghost → o.Ans → Prop} :
    @Prog.Keeps Op Op.Ans (no_index o.Ans) Ghost duty (Prog.query o) m Q ↔
      mayAsk m o ∧ ∀ r, mayAnswer o r → Q (m.next o r) r := Iff.rfl

/-- A write that is a move by a program that commits no tickets: it lands as asked, or not. -/
theorem keeps_writeCas {expected next : OperationRecord} {label : String}
    {Q : Ghost → Except WriteError OperationRecord → Prop} (hg : m.granted = [])
    (hl : label = "retirement-requested" → m.committed = false)
    (hm : next.check = .ok () → Move expected next)
    (hok : next.check = .ok () → ∀ m', m'.granted = [] → ∀ now,
      Q m' (.ok (next.stamped expected now)))
    (hfail : ∀ m', m'.granted = [] → ∀ e, Q m' (.error e)) :
    (Prog.query (Op.writeCas expected next label) : Act _).Keeps duty m Q := by
  refine ⟨⟨hm, hl, fun _ ↦ hg⟩, fun answer ha ↦ ?_⟩
  cases answer with
  | error e => exact hfail (m.wrote next label false) hg e
  | ok w =>
    obtain ⟨hc, now, rfl⟩ := ha w rfl
    exact hok hc (m.wrote next label true) hg now

end Rules

end PtySpec.Operation
