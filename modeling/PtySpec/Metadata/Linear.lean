import PtySpec.Lib.Serial
import PtySpec.Metadata.Patch

/-!
# Concurrent updates of one record

Processes that run locked mutations, compare-and-sets and presentation patches on one
session, `crates/pty-core/src/registry/mutate.rs:151-604`, step by step: the lock, the first
read with the guards and the closure, the second read, the write, the release. The creation
lock is exclusive and the write all or nothing; a process can die between any two steps, and
its lock is then free.
-/

namespace PtySpec.Metadata

open Lib SessionMetadata

/-! ### The steps of a mutation -/

/-- `Unchanged` or `Changed`. -/
def MutateStatus.settles : MutateStatus → Bool
  | .unchanged _ | .changed _ => true
  | _ => false

/-- What a mutation has when it is about to read again. -/
structure Prepared where
  raw : JsonMap
  before : SessionMetadata
  after : SessionMetadata

namespace Prepared

/-- What is written, `mutate.rs:251`. -/
def published (p : Prepared) : JsonMap := applyMetadataDiff p.before p.after p.raw

/-- The status of a mutation that is written, `mutate.rs:256`. -/
def status (p : Prepared) : MutateStatus := .changed ((fromMap p.published).getD p.after)

/-- Whether the second read finds the record of the first, `mutate.rs:244`. -/
def isFresh (serde : SerdeJson) (p : Prepared) (file : Option Bytes) : Bool :=
  (readMetadataMap serde file).any fun latest ↦
    same (some (.object latest)) (some (.object p.raw))

end Prepared

/-- The first read, the guards, the closure and the checks, `mutate.rs:168-243`: the status
that ends the call, or what is to be written. -/
def prepare (serde : SerdeJson) (options : MutateOptions)
    (mutate : SessionMetadata → Option SessionMetadata) (file : Option Bytes) :
    Except MutateStatus Prepared :=
  match readMetadataMap serde file with
  | none => .error .missing
  | some raw =>
    match fromMap raw with
    | none => .error .missing
    | some before =>
      if !guardsHold options before then .error .generationMismatch
      else match mutate before with
        | none => .error (.unchanged before)
        | some after =>
          if !keepsPublication before after then .error .generationMismatch
          else .ok ⟨raw, before, after⟩

/-- The steps make up the mutation. -/
theorem mutateMetadataUnderLock_eq (serde : SerdeJson) (options : MutateOptions)
    (mutate : SessionMetadata → Option SessionMetadata) (io : MutateIo) (file : Option Bytes) :
    mutateMetadataUnderLock serde options mutate io file =
      if !io.locked then ⟨.busy, none⟩
      else match prepare serde options mutate file with
        | .error status => ⟨status, none⟩
        | .ok p =>
          if !p.isFresh serde io.latest then ⟨.stale, none⟩
          else if !io.written then ⟨.stale, none⟩
          else ⟨p.status, some (serde.prettyJson p.published)⟩ := by
  unfold mutateMetadataUnderLock prepare
  split
  · rfl
  cases readMetadataMap serde file with
  | none => rfl
  | some raw =>
    dsimp only
    cases fromMap raw with
    | none => rfl
    | some before =>
      dsimp only
      split
      · rfl
      cases mutate before with
      | none => rfl
      | some after =>
        dsimp only
        split
        · rfl
        unfold Prepared.isFresh
        cases readMetadataMap serde io.latest <;> rfl

theorem prepare_ok {serde : SerdeJson} {options : MutateOptions}
    {mutate : SessionMetadata → Option SessionMetadata} {file : Option Bytes} {p : Prepared}
    (h : prepare serde options mutate file = .ok p) :
    readMetadataMap serde file = some p.raw ∧ fromMap p.raw = some p.before ∧
      guardsHold options p.before = true ∧ mutate p.before = some p.after := by
  unfold prepare at h
  split at h
  · cases h
  next raw hr =>
  split at h
  · cases h
  next before hb =>
  split at h
  · cases h
  next hg =>
  split at h
  · cases h
  next after hm =>
  split at h
  · cases h
  cases h
  exact ⟨hr, hb, by simpa using hg, hm⟩

theorem prepare_error {serde : SerdeJson} {options : MutateOptions}
    {mutate : SessionMetadata → Option SessionMetadata} {file : Option Bytes}
    {status : MutateStatus} (h : prepare serde options mutate file = .error status)
    (hs : status.settles = true) :
    ∃ raw before, readMetadataMap serde file = some raw ∧ fromMap raw = some before ∧
      guardsHold options before = true ∧ mutate before = none ∧ status = .unchanged before := by
  unfold prepare at h
  split at h
  · cases h
    cases hs
  next raw hr =>
  split at h
  · cases h
    cases hs
  next before hb =>
  split at h
  · cases h
    cases hs
  next hg =>
  split at h
  · next hm =>
    cases h
    exact ⟨raw, before, hr, hb, by simpa using hg, hm, rfl⟩
  split at h
  · cases h
    cases hs
  · cases h

/-- A closure that declines ends the call as unchanged. -/
theorem prepare_of_declined {serde : SerdeJson} {options : MutateOptions}
    {mutate : SessionMetadata → Option SessionMetadata} {file : Option Bytes} {raw : JsonMap}
    {before : SessionMetadata} (hr : readMetadataMap serde file = some raw)
    (hb : fromMap raw = some before) (hg : guardsHold options before = true)
    (hm : mutate before = none) :
    prepare serde options mutate file = .error (.unchanged before) := by
  simp [prepare, hr, hb, hg, hm]

/-- A change that the checks allow is prepared. -/
theorem prepare_of_keepsPublication {serde : SerdeJson} {options : MutateOptions}
    {mutate : SessionMetadata → Option SessionMetadata} {file : Option Bytes} {raw : JsonMap}
    {before after : SessionMetadata} (hr : readMetadataMap serde file = some raw)
    (hb : fromMap raw = some before) (hg : guardsHold options before = true)
    (hm : mutate before = some after) (hk : keepsPublication before after = true) :
    prepare serde options mutate file = .ok ⟨raw, before, after⟩ := by
  simp [prepare, hr, hb, hg, hm, hk]

theorem isFresh_of_prepare {serde : SerdeJson} {options : MutateOptions}
    {mutate : SessionMetadata → Option SessionMetadata} {file : Option Bytes} {p : Prepared}
    (h : prepare serde options mutate file = .ok p) : p.isFresh serde file = true := by
  rw [Prepared.isFresh, (prepare_ok h).1]
  exact same_refl _

/-! ### Calls -/

/-- What a process asks of the session. -/
inductive Request where
  | mutate (options : MutateOptions) (f : SessionMetadata → Option SessionMetadata)
  | compareAndSet (q : TagCompareAndSetRequest)
  | patch (p : MetadataPatch)

namespace Request

/-- The guards of the mutation. -/
def options : Request → MutateOptions
  | mutate options _ => options
  | compareAndSet q => q.options
  | patch _ => ⟨none, none⟩

/-- The closure of the mutation. -/
def closure : Request → SessionMetadata → Option SessionMetadata
  | mutate _ f => f
  | compareAndSet q => q.mutate
  | patch p => p.mutate

/-- Whether the call gets as far as the lock: `assert!` at `mutate.rs:302`, `validate` at
`mutate.rs:473`. -/
def admitted : Request → Bool
  | mutate .. => true
  | compareAndSet q => q.tag ≠ ""
  | patch p => p.validate matches .ok _

end Request

/-- A call: its number, how many had returned when it began, and what it asks. -/
structure Call where
  id : Nat
  past : Nat
  request : Request

/-- The mutation's first part for a call. -/
def Call.prepare (c : Call) (serde : SerdeJson) (file : Option Bytes) :
    Except MutateStatus Prepared :=
  Metadata.prepare serde c.request.options c.request.closure file

/-- How far a process has come with its call. -/
inductive Progress where
  | idle
  | waiting (c : Call)
  | locked (c : Call)
  | prepared (c : Call) (p : Prepared)
  | fresh (c : Call) (p : Prepared)
  | settled (c : Call) (status : MutateStatus)

namespace Progress

/-- Whether the process has the lock. -/
def inside : Progress → Bool
  | idle | waiting _ => false
  | _ => true

/-- The call under way. -/
def call : Progress → Option Call
  | idle => none
  | waiting c | locked c | prepared c _ | fresh c _ | settled c _ => some c

end Progress

/-- A call that has come to its status. -/
structure Returned where
  call : Call
  status : MutateStatus

/-- A call that settled: what the file had, its status, and what it wrote, if anything. -/
structure Entry extends Returned where
  seen : Option Bytes
  wrote : Option Bytes

/-- What the file had before and after a call that settled. -/
def passage : Passage Entry (Option Bytes) := ⟨Entry.seen, fun e ↦ e.wrote.or e.seen⟩

/-- The session: its file, the process with the creation lock, the processes' calls, how many
have begun, those that settled in their order, and those that returned. -/
structure Session where
  file : Option Bytes
  holder : Option Nat
  calls : Nat → Progress
  begun : Nat
  log : List Entry
  returned : List Returned

namespace Session

/-- A session on which no call has begun. -/
def start (file : Option Bytes) : Session := ⟨file, none, fun _ ↦ .idle, 0, [], []⟩

/-- With another progress of one process. -/
def setCall (s : Session) (n : Nat) (p : Progress) : Session :=
  { s with calls := Function.update s.calls n p }

/-- With a call of one process settled. -/
def settle (s : Session) (n : Nat) (c : Call) (status : MutateStatus) (wrote : Option Bytes) :
    Session :=
  { s with
    file := wrote.or s.file
    calls := Function.update s.calls n (.settled c status)
    log := s.log ++ [⟨⟨c, status⟩, s.file, wrote⟩] }

/-- One step of a process. -/
inductive Step (serde : SerdeJson) (s : Session) : Session → Prop
  | begin (n : Nat) (request : Request) (hi : s.calls n = .idle)
      (ha : request.admitted = true) :
    Step serde s { s.setCall n (.waiting ⟨s.begun, s.returned.length, request⟩) with
      begun := s.begun + 1 }
  -- a lock that is not had in time, the event lock of a patch among them, or no session
  | turnAway (n : Nat) (c : Call) (status : MutateStatus) (hc : s.calls n = .waiting c)
      (hs : status.settles = false) :
    Step serde s { s.setCall n .idle with returned := s.returned ++ [⟨c, status⟩] }
  | take (n : Nat) (c : Call) (hc : s.calls n = .waiting c) (hh : s.holder = none) :
    Step serde s { s.setCall n (.locked c) with holder := some n }
  | refuse (n : Nat) (c : Call) (status : MutateStatus) (hc : s.calls n = .locked c)
      (hp : c.prepare serde s.file = .error status) (hs : status.settles = false) :
    Step serde s (s.setCall n (.settled c status))
  | decline (n : Nat) (c : Call) (status : MutateStatus) (hc : s.calls n = .locked c)
      (hp : c.prepare serde s.file = .error status) (hs : status.settles = true) :
    Step serde s (s.settle n c status none)
  | read (n : Nat) (c : Call) (p : Prepared) (hc : s.calls n = .locked c)
      (hp : c.prepare serde s.file = .ok p) :
    Step serde s (s.setCall n (.prepared c p))
  | reread (n : Nat) (c : Call) (p : Prepared) (hc : s.calls n = .prepared c p) :
    Step serde s (s.setCall n
      (if p.isFresh serde s.file then .fresh c p else .settled c .stale))
  | write (n : Nat) (c : Call) (p : Prepared) (hc : s.calls n = .fresh c p) :
    Step serde s (s.settle n c p.status (some (serde.prettyJson p.published)))
  | unwritten (n : Nat) (c : Call) (p : Prepared) (hc : s.calls n = .fresh c p) :
    Step serde s (s.setCall n (.settled c .stale))
  | release (n : Nat) (c : Call) (status : MutateStatus) (hc : s.calls n = .settled c status) :
    Step serde s { s.setCall n .idle with
      holder := none
      returned := s.returned ++ [⟨c, status⟩] }
  | crash (n : Nat) :
    Step serde s { s.setCall n .idle with
      holder := if s.holder = some n then none else s.holder }

/-- Sessions reached from a file's contents. -/
abbrev Reached (serde : SerdeJson) (init : Option Bytes) : Session → Prop :=
  Relation.ReflTransGen (Step serde) (start init)

/-! ### What holds between the steps -/

/-- A call that has begun. -/
def Begun (s : Session) (c : Call) : Prop := c.id < s.begun ∧ c.past ≤ s.returned.length

/-- A call that has not settled. -/
def Open (s : Session) (c : Call) : Prop :=
  s.Begun c ∧ ∀ e ∈ s.log, e.call.id ≠ c.id

/-- Where a call that returned a settled status is in the log. -/
def Logged (log : List Entry) (r : Returned) : Prop :=
  r.status.settles = true → ∃ e ∈ log, e.toReturned = r

/-- What a process knows: its call has not settled, what it prepared is what it would prepare
now, or its status is in the log. -/
def Fits (serde : SerdeJson) (s : Session) : Progress → Prop
  | .idle => True
  | .waiting c | .locked c => s.Open c
  | .prepared c p | .fresh c p => s.Open c ∧ c.prepare serde s.file = .ok p
  | .settled c status => s.Begun c ∧ Logged s.log ⟨c, status⟩

/-- A call that settled did what the mutation does, alone, on what it saw. -/
def Alone (serde : SerdeJson) (e : Entry) : Prop :=
  e.status.settles = true ∧
    mutateMetadataUnderLock serde e.call.request.options e.call.request.closure
      ⟨true, e.seen, true⟩ e.seen = ⟨e.status, e.wrote⟩

/-- The settled calls that had returned when one began are before it. -/
def Ordered (s : Session) : Prop :=
  ∀ pre e post, s.log = pre ++ e :: post →
    ∀ r ∈ s.returned.take e.call.past, Logged pre r

/-- The invariant of the steps. -/
structure Inv (serde : SerdeJson) (init : Option Bytes) (s : Session) : Prop where
  lock : ∀ n, (s.calls n).inside = true ↔ s.holder = some n
  apart : ∀ m n c d, (s.calls m).call = some c → (s.calls n).call = some d → c.id = d.id → m = n
  fits : ∀ n, s.Fits serde (s.calls n)
  logged : ∀ e ∈ s.log, s.Begun e.call
  nodup : (s.log.map (·.call.id)).Nodup
  returned : ∀ r ∈ s.returned, Logged s.log r
  ordered : s.Ordered
  serial : passage.Serial init s.log
  current : s.file = passage.leftBy init s.log
  alone : ∀ e ∈ s.log, Alone serde e

variable {serde : SerdeJson} {init : Option Bytes} {s t : Session}

theorem inv_start (serde : SerdeJson) (init : Option Bytes) : Inv serde init (start init) where
  lock n := by simp [start, Progress.inside]
  apart m n c d hc := by cases hc
  fits n := trivial
  logged e he := by cases he
  nodup := List.nodup_nil
  returned r hr := by cases hr
  ordered pre e post h := by simp [start] at h
  serial := passage.serial_nil init
  current := rfl
  alone e he := by cases he

/-- Steps that leave the file and the log. -/
private structure Quiet (s t : Session) (n : Nat) (p : Progress) : Prop where
  file : t.file = s.file
  log : t.log = s.log
  calls : t.calls = Function.update s.calls n p
  begun : s.begun ≤ t.begun
  returned : ∃ rs, t.returned = s.returned ++ rs

private theorem Quiet.begunCall {n : Nat} {p : Progress} (q : Quiet s t n p) {c : Call}
    (h : s.Begun c) : t.Begun c := by
  obtain ⟨rs, hr⟩ := q.returned
  refine ⟨h.1.trans_le q.begun, h.2.trans ?_⟩
  rw [hr, List.length_append]
  omega

private theorem Quiet.fits {n : Nat} {p r : Progress} (q : Quiet s t n p)
    (h : s.Fits serde r) : t.Fits serde r := by
  cases r with
  | idle => trivial
  | waiting c => exact ⟨q.begunCall h.1, by rw [q.log]; exact h.2⟩
  | locked c => exact ⟨q.begunCall h.1, by rw [q.log]; exact h.2⟩
  | prepared c p =>
    exact ⟨⟨q.begunCall h.1.1, by rw [q.log]; exact h.1.2⟩, by rw [q.file]; exact h.2⟩
  | fresh c p =>
    exact ⟨⟨q.begunCall h.1.1, by rw [q.log]; exact h.1.2⟩, by rw [q.file]; exact h.2⟩
  | settled c status => exact ⟨q.begunCall h.1, by rw [q.log]; exact h.2⟩

/-- A step that leaves the file and the log keeps the invariant when it keeps the lock with the
processes that have it, starts no call twice and returns only what settled. -/
private theorem Inv.quiet {n : Nat} {p : Progress} (h : Inv serde init s) (q : Quiet s t n p)
    (hl : ∀ m, (t.calls m).inside = true ↔ t.holder = some m)
    (hc : ∀ c, p.call = some c →
      (s.calls n).call = some c ∨ c.id = s.begun)
    (hf : t.Fits serde p) (hr : ∀ r ∈ t.returned, r ∈ s.returned ∨ Logged s.log r) :
    Inv serde init t where
  lock := hl
  apart m k c d hm hk he := by
    rw [q.calls] at hm hk
    have hlt : ∀ j e, (s.calls j).call = some e → e.id < s.begun := by
      intro j e hj
      have hfit := h.fits j
      revert hj hfit
      cases s.calls j <;> intro hj hfit <;> cases hj
      exacts [hfit.1.1, hfit.1.1, hfit.1.1.1, hfit.1.1.1, hfit.1.1]
    by_cases hmn : m = n <;> by_cases hkn : k = n
    · rw [hmn, hkn]
    · subst hmn
      rw [Function.update_self] at hm
      rw [Function.update_of_ne hkn] at hk
      obtain hc | hc := hc c hm
      · exact h.apart _ _ _ _ hc hk he
      · have := hlt k d hk
        omega
    · subst hkn
      rw [Function.update_self] at hk
      rw [Function.update_of_ne hmn] at hm
      obtain hc | hc := hc d hk
      · exact h.apart _ _ _ _ hm hc he
      · have := hlt m c hm
        omega
    · rw [Function.update_of_ne hmn] at hm
      rw [Function.update_of_ne hkn] at hk
      exact h.apart _ _ _ _ hm hk he
  fits m := by
    rw [q.calls]
    by_cases hm : m = n
    · rw [hm, Function.update_self]
      exact hf
    · rw [Function.update_of_ne hm]
      exact q.fits (h.fits m)
  logged e he := by
    rw [q.log] at he
    exact q.begunCall (h.logged e he)
  nodup := by
    rw [q.log]
    exact h.nodup
  returned r hr' := by
    rw [q.log]
    obtain hm | hm := hr r hr'
    · exact h.returned r hm
    · exact hm
  ordered pre e post hl r hm := by
    rw [q.log] at hl
    obtain ⟨rs, hrs⟩ := q.returned
    have he : s.Begun e.call := h.logged e (by rw [hl]; simp)
    rw [hrs, List.take_append_of_le_length he.2] at hm
    exact h.ordered pre e post hl r hm
  serial := by
    rw [q.log]
    exact h.serial
  current := by
    rw [q.file, q.log]
    exact h.current
  alone e he := h.alone e (q.log ▸ he)

/-- A process that does not have the lock keeps what it knows when another settles. -/
private theorem fits_settle {n : Nat} {c : Call} {status : MutateStatus}
    {wrote : Option Bytes} {r : Progress} (h : s.Fits serde r)
    (hr : r.inside = false) (hc : ∀ d, r.call = some d → c.id ≠ d.id) :
    (s.settle n c status wrote).Fits serde r := by
  have ho : ∀ d, r.call = some d → s.Open d → (s.settle n c status wrote).Open d := by
    rintro d hd ⟨hb, hl⟩
    refine ⟨hb, fun e he ↦ ?_⟩
    obtain he | he := List.mem_append.mp he
    · exact hl e he
    · obtain rfl := List.mem_singleton.mp he
      exact hc d hd
  cases r with
  | idle => trivial
  | waiting d => exact ho d rfl h
  | locked d => cases hr
  | prepared d p => cases hr
  | fresh d p => cases hr
  | settled d status => cases hr

private theorem Logged.mono {l m : List Entry} {r : Returned} (h : Logged l r) :
    Logged (l ++ m) r := fun hs ↦
  have ⟨e, he, hr⟩ := h hs
  ⟨e, List.mem_append_left m he, hr⟩

/-- The process with the lock settles its call by what the mutation does alone. -/
private theorem Inv.settle {n : Nat} {c : Call} {status : MutateStatus} {wrote : Option Bytes}
    (h : Inv serde init s) (hc : (s.calls n).call = some c)
    (hi : (s.calls n).inside = true) (ho : s.Open c)
    (ha : Alone serde ⟨⟨c, status⟩, s.file, wrote⟩) :
    Inv serde init (s.settle n c status wrote) where
  lock m := by
    change (Function.update s.calls n (.settled c status) m).inside = true ↔ s.holder = some m
    rw [← h.lock]
    by_cases hm : m = n
    · rw [hm, Function.update_self, hi]
      rfl
    · rw [Function.update_of_ne hm]
  apart m k d e hm hk he := by
    have hcall : ∀ j, (Function.update s.calls n (.settled c status) j).call =
        (s.calls j).call := by
      intro j
      by_cases hj : j = n
      · rw [hj, Function.update_self, hc]
        rfl
      · rw [Function.update_of_ne hj]
    change (Function.update s.calls n (.settled c status) m).call = some d at hm
    change (Function.update s.calls n (.settled c status) k).call = some e at hk
    rw [hcall] at hm hk
    exact h.apart m k d e hm hk he
  fits m := by
    change (s.settle n c status wrote).Fits serde
      (Function.update s.calls n (.settled c status) m)
    by_cases hm : m = n
    · rw [hm, Function.update_self]
      exact ⟨ho.1, fun _ ↦ ⟨_, List.mem_append_right _ List.mem_cons_self, rfl⟩⟩
    · rw [Function.update_of_ne hm]
      refine fits_settle (h.fits m) ?_ fun d hd he ↦ hm (h.apart _ _ _ _ hd hc he.symm)
      rw [Bool.eq_false_iff]
      intro hin
      have := ((h.lock m).mp hin).symm.trans ((h.lock n).mp hi)
      exact hm (Option.some.inj this)
  logged e he := by
    obtain he | he := List.mem_append.mp he
    · exact h.logged e he
    · obtain rfl := List.mem_singleton.mp he
      exact ho.1
  nodup := by
    change ((s.log ++ [_]).map _).Nodup
    rw [List.map_append, List.nodup_append]
    refine ⟨h.nodup, List.nodup_singleton _, ?_⟩
    rintro a ha b hb rfl
    obtain ⟨e, he, rfl⟩ := List.mem_map.mp ha
    exact ho.2 e he (List.mem_singleton.mp hb)
  returned r hr := (h.returned r hr).mono
  ordered pre e post hl r hm := by
    obtain rfl | ⟨post, x, rfl⟩ := List.eq_nil_or_concat' post
    · obtain ⟨rfl, -⟩ := List.append_inj' hl rfl
      exact h.returned r (List.mem_of_mem_take hm)
    · rw [← List.cons_append, ← List.append_assoc] at hl
      exact h.ordered pre e post (List.append_inj' hl rfl).1 r hm
  serial := h.serial.concat h.current
  current := by
    change _ = passage.leftBy init (s.log ++ [_])
    rw [Passage.leftBy_concat]
    rfl
  alone e he := by
    obtain he | he := List.mem_append.mp he
    · exact h.alone e he
    · obtain rfl := List.mem_singleton.mp he
      exact ha

/-- A process that has the lock after a step as it had it before. -/
private theorem lock_update {n : Nat} {p : Progress} (h : Inv serde init s)
    (hp : p.inside = (s.calls n).inside) (m : Nat) :
    (Function.update s.calls n p m).inside = true ↔ s.holder = some m := by
  rw [← h.lock]
  by_cases hm : m = n
  · rw [hm, Function.update_self, hp]
  · rw [Function.update_of_ne hm]

/-- A process that gives the lock up. -/
private theorem lock_free {n : Nat} {p : Progress} (h : Inv serde init s)
    (hn : (s.calls n).inside = true) (hp : p.inside = false) (m : Nat) :
    (Function.update s.calls n p m).inside = true ↔ (none : Option Nat) = some m := by
  by_cases hm : m = n
  · simp [hm, hp]
  · have hout : (s.calls m).inside = false := by
      rw [Bool.eq_false_iff]
      intro hin
      exact hm (Option.some.inj (((h.lock m).mp hin).symm.trans ((h.lock n).mp hn)))
    simp [Function.update_of_ne hm, hout]

private theorem alone_of_error {c : Call} {status : MutateStatus} {file : Option Bytes}
    (hp : c.prepare serde file = .error status) (hs : status.settles = true) :
    Alone serde ⟨⟨c, status⟩, file, none⟩ := by
  refine ⟨hs, ?_⟩
  rw [mutateMetadataUnderLock_eq]
  change (match c.prepare serde file with
    | .error status => _
    | .ok p => _) = _
  rw [hp]

private theorem alone_of_ok {c : Call} {p : Prepared} {file : Option Bytes}
    (hp : c.prepare serde file = .ok p) :
    Alone serde ⟨⟨c, p.status⟩, file, some (serde.prettyJson p.published)⟩ := by
  refine ⟨rfl, ?_⟩
  rw [mutateMetadataUnderLock_eq]
  change (match c.prepare serde file with
    | .error status => _
    | .ok p => _) = _
  rw [hp]
  have hf := isFresh_of_prepare hp
  simp [hf]

/-- Each step keeps the invariant. -/
theorem Step.inv (hs : Step serde s t) (h : Inv serde init s) : Inv serde init t := by
  cases hs with
  | begin n request hi ha =>
    refine h.quiet (n := n) ⟨rfl, rfl, rfl, Nat.le_succ _, [], (List.append_nil _).symm⟩
      (lock_update h (by rw [hi]; rfl)) (fun c hc ↦ .inr ?_) ?_ fun r hr ↦ .inl hr
    · cases hc
      rfl
    · exact ⟨⟨Nat.lt_succ_self _, le_rfl⟩, fun e he ↦ (h.logged e he).1.ne⟩
  | turnAway n c status hc hs =>
    refine h.quiet (n := n) ⟨rfl, rfl, rfl, le_rfl, [⟨c, status⟩], rfl⟩
      (lock_update h (by rw [hc]; rfl)) (fun c hc ↦ nomatch hc) trivial fun r hr ↦ ?_
    obtain hr | hr := List.mem_append.mp hr
    · exact .inl hr
    · obtain rfl := List.mem_singleton.mp hr
      exact .inr fun ht ↦ absurd ht (by simp [hs])
  | take n c hc hh =>
    have hf := h.fits n
    rw [hc] at hf
    refine h.quiet (n := n) ⟨rfl, rfl, rfl, le_rfl, [], (List.append_nil _).symm⟩
      (fun m ↦ ?_) (fun d hd ↦ .inl (by rw [hc]; exact hd)) hf fun r hr ↦ .inl hr
    change (Function.update s.calls n (.locked c) m).inside = true ↔ some n = some m
    by_cases hm : m = n
    · rw [hm, Function.update_self]
      exact iff_of_true rfl rfl
    · rw [Function.update_of_ne hm, h.lock, hh]
      simp [Ne.symm hm]
  | refuse n c status hc hp hs =>
    have hf := h.fits n
    rw [hc] at hf
    refine h.quiet (n := n) ⟨rfl, rfl, rfl, le_rfl, [], (List.append_nil _).symm⟩
      (lock_update h (by rw [hc]; rfl)) (fun d hd ↦ .inl (by rw [hc]; exact hd))
      ⟨hf.1, fun ht ↦ absurd ht (by simp [hs])⟩ fun r hr ↦ .inl hr
  | decline n c status hc hp hs =>
    have hf := h.fits n
    rw [hc] at hf
    exact h.settle (by rw [hc]; rfl) (by rw [hc]; rfl) hf (alone_of_error hp hs)
  | read n c p hc hp =>
    have hf := h.fits n
    rw [hc] at hf
    exact h.quiet (n := n) ⟨rfl, rfl, rfl, le_rfl, [], (List.append_nil _).symm⟩
      (lock_update h (by rw [hc]; rfl)) (fun d hd ↦ .inl (by rw [hc]; exact hd))
      ⟨hf, hp⟩ fun r hr ↦ .inl hr
  | reread n c p hc =>
    have hf := h.fits n
    rw [hc] at hf
    -- nobody else writes while the lock is held, so the second read finds the first's record
    rw [if_pos (isFresh_of_prepare hf.2)]
    exact h.quiet (n := n) ⟨rfl, rfl, rfl, le_rfl, [], (List.append_nil _).symm⟩
      (lock_update h (by rw [hc]; rfl)) (fun d hd ↦ .inl (by rw [hc]; exact hd))
      hf fun r hr ↦ .inl hr
  | write n c p hc =>
    have hf := h.fits n
    rw [hc] at hf
    exact h.settle (by rw [hc]; rfl) (by rw [hc]; rfl) hf.1 (alone_of_ok hf.2)
  | unwritten n c p hc =>
    have hf := h.fits n
    rw [hc] at hf
    exact h.quiet (n := n) ⟨rfl, rfl, rfl, le_rfl, [], (List.append_nil _).symm⟩
      (lock_update h (by rw [hc]; rfl)) (fun d hd ↦ .inl (by rw [hc]; exact hd))
      ⟨hf.1.1, fun ht ↦ Bool.noConfusion ht⟩ fun r hr ↦ .inl hr
  | release n c status hc =>
    have hf := h.fits n
    rw [hc] at hf
    refine h.quiet (n := n) ⟨rfl, rfl, rfl, le_rfl, [⟨c, status⟩], rfl⟩
      (lock_free h (by rw [hc]; rfl) rfl) (fun c hc ↦ nomatch hc) trivial fun r hr ↦ ?_
    obtain hr | hr := List.mem_append.mp hr
    · exact .inl hr
    · obtain rfl := List.mem_singleton.mp hr
      exact .inr hf.2
  | crash n =>
    refine h.quiet (n := n) ⟨rfl, rfl, rfl, le_rfl, [], (List.append_nil _).symm⟩
      (fun m ↦ ?_) (fun c hc ↦ nomatch hc) trivial fun r hr ↦ .inl hr
    change (Function.update s.calls n .idle m).inside = true ↔ ite _ _ _ = some m
    cases hn : (s.calls n).inside with
    | true =>
      rw [if_pos ((h.lock n).mp hn)]
      exact lock_free h hn rfl m
    | false =>
      rw [if_neg (fun hh ↦ by rw [(h.lock n).mpr hh] at hn; cases hn)]
      exact lock_update (p := .idle) h hn.symm m

/-- Every reached session has the invariant. -/
theorem inv_of_reached (h : Reached serde init s) : Inv serde init s := by
  induction h with
  | refl => exact inv_start serde init
  | tail _ hs ih => exact hs.inv ih

end Session

/-! ### What a call does to the record -/

/-- The value of a key in the record of a file. -/
def keyAt (serde : SerdeJson) (file : Option Bytes) (key : String) : Option Json :=
  (readMetadataMap serde file).bind (·.get key)

/-- The value of a tag in the record of a file. -/
def tagAt (serde : SerdeJson) (file : Option Bytes) (tag : String) : Option Json :=
  (keyAt serde file Field.tags.key).bind (·.get tag)

/-- The value of a tag as a record is written. -/
def writtenTag (m : SessionMetadata) (tag : String) : Option Json :=
  (m.toMap.get Field.tags.key).bind (·.get tag)

namespace Entry

/-- What the call prepared from what it saw. -/
def prepared (serde : SerdeJson) (e : Entry) : Option Prepared :=
  (e.call.prepare serde e.seen).toOption

/-- The call's closure changes the value of a key. -/
def UpdatesKey (serde : SerdeJson) (e : Entry) (key : String) : Prop :=
  ∃ p, e.prepared serde = some p ∧ unchanged p.before p.after key = false

/-- The call's closure changes the value of a tag. -/
def UpdatesTag (serde : SerdeJson) (e : Entry) (tag : String) : Prop :=
  ∃ p, e.prepared serde = some p ∧ writtenTag p.before tag ≠ writtenTag p.after tag

/-- What the call wrote is read back as it was. -/
def ReadsBack (serde : SerdeJson) (e : Entry) : Prop :=
  ∀ p, e.prepared serde = some p →
    serde.fromSlice (serde.prettyJson p.published) = some (.object p.published)

end Entry

variable {serde : SerdeJson}

/-- What a call that settled did: it had a record, and either its closure declined and it
wrote nothing, or it wrote what it prepared. -/
private theorem Session.Alone.cases {e : Entry} (h : Session.Alone serde e) :
    (e.status.isChanged = false ∧ e.wrote = none ∧ e.prepared serde = none ∧
        ∃ raw before, readMetadataMap serde e.seen = some raw ∧ fromMap raw = some before ∧
          guardsHold e.call.request.options before = true ∧
          e.call.request.closure before = none ∧ e.status = .unchanged before) ∨
      ∃ p, e.status.isChanged = true ∧ e.prepared serde = some p ∧ e.status = p.status ∧
        e.wrote = some (serde.prettyJson p.published) := by
  obtain ⟨hs, hm⟩ := h
  rw [mutateMetadataUnderLock_eq] at hm
  have hd : e.prepared serde =
      (prepare serde e.call.request.options e.call.request.closure e.seen).toOption := rfl
  cases hp : prepare serde e.call.request.options e.call.request.closure e.seen with
  | error status =>
    rw [hp] at hm hd
    have hst : status = e.status := congrArg Mutation.status hm
    have hw : none = e.wrote := congrArg Mutation.published hm
    rw [← hst] at hs ⊢
    obtain ⟨raw, before, hr, hb, hg, hc, rfl⟩ := prepare_error hp hs
    exact .inl ⟨rfl, hw.symm, hd, raw, before, hr, hb, hg, hc, rfl⟩
  | ok p =>
    rw [hp] at hm hd
    have hf := isFresh_of_prepare hp
    simp only [hf, Bool.not_true, Bool.false_eq_true, if_false] at hm
    have hst : p.status = e.status := congrArg Mutation.status hm
    have hw : some (serde.prettyJson p.published) = e.wrote := congrArg Mutation.published hm
    exact .inr ⟨p, by rw [← hst]; rfl, hd, hst.symm, hw.symm⟩

private theorem readMetadataMap_of_readsBack {e : Entry} {p : Prepared}
    (hr : e.ReadsBack serde) (hp : e.prepared serde = some p)
    (hw : e.wrote = some (serde.prettyJson p.published)) :
    readMetadataMap serde (passage.left e) = some p.published := by
  have hl : passage.left e = some (serde.prettyJson p.published) := by
    change e.wrote.or e.seen = _
    rw [hw]
    rfl
  rw [hl, readMetadataMap, Option.bind_some, hr p hp]

private theorem prepare_of_prepared {e : Entry} {p : Prepared}
    (hp : e.prepared serde = some p) :
    prepare serde e.call.request.options e.call.request.closure e.seen = .ok p := by
  unfold Entry.prepared Call.prepare at hp
  revert hp
  cases prepare serde e.call.request.options e.call.request.closure e.seen with
  | error status => exact fun hp ↦ nomatch hp
  | ok q => exact fun hp ↦ congrArg _ (Option.some.inj hp)

/-- A call that settled leaves each key its closure does not change. -/
private theorem keyAt_left {e : Entry} (h : Session.Alone serde e) (hr : e.ReadsBack serde)
    {key : String} (hu : ¬ e.UpdatesKey serde key) :
    keyAt serde (passage.left e) key = keyAt serde (passage.saw e) key := by
  obtain ⟨-, hw, -⟩ | ⟨p, -, hp, -, hw⟩ := h.cases
  · change keyAt serde (e.wrote.or e.seen) key = _
    rw [hw]
    rfl
  · have hun : unchanged p.before p.after key = true := by
      rw [← Bool.not_eq_false]
      exact fun hf ↦ hu ⟨p, hp, hf⟩
    unfold keyAt
    rw [readMetadataMap_of_readsBack hr hp hw]
    change _ = (readMetadataMap serde e.seen).bind _
    rw [(prepare_ok (prepare_of_prepared hp)).1, Option.bind_some, Option.bind_some,
      Prepared.published, get_applyMetadataDiff, if_pos hun]

/-- A call that changed a key leaves it with the value its closure gave it. -/
private theorem keyAt_updated {e : Entry} (h : Session.Alone serde e)
    (hr : e.ReadsBack serde) {key : String} {p : Prepared} (hp : e.prepared serde = some p)
    (hu : unchanged p.before p.after key = false) :
    keyAt serde (passage.left e) key = p.after.toMap.get key := by
  obtain ⟨-, -, hn, -⟩ | ⟨q, -, hq, -, hw⟩ := h.cases
  · cases hn.symm.trans hp
  · obtain rfl := Option.some.inj (hq.symm.trans hp)
    unfold keyAt
    rw [readMetadataMap_of_readsBack hr hq hw, Option.bind_some, Prepared.published,
      get_applyMetadataDiff, if_neg (by simp [hu])]

/-- The tags of a record that is read from a map are those of the map. -/
private theorem writtenTag_of_fromMap {raw : JsonMap} {m : SessionMetadata}
    (h : fromMap raw = some m) (tag : String) :
    writtenTag m tag = (raw.get Field.tags.key).bind (·.get tag) := by
  have hw : m.written .tags ≠ some .null := by
    intro hw
    cases written_eq_null hw
  have hr := get_of_read ((fromMap_eq_some.mp h).2.1 .tags) tag
  have hm := get_of_read (Field.tags.codec.read_write (m.field .tags) hw) tag
  rw [writtenTag, get_toMap_key m .tags (extra_of_fromMap h .tags), hr]
  exact hm

/-- The written tags of a record whose extra keys do not override them. -/
private theorem writtenTag_eq {m : SessionMetadata} (h : m.extra.get Field.tags.key = none)
    (tag : String) : writtenTag m tag = (m.tag tag).map .string := by
  have hw : m.written .tags ≠ some .null := by
    intro hw
    cases written_eq_null hw
  have hm := get_of_read (Field.tags.codec.read_write (m.field .tags) hw) tag
  rw [writtenTag, get_toMap_key m .tags h]
  exact hm

/-- The tag of a file whose record is read. -/
private theorem tagAt_eq {file : Option Bytes} {raw : JsonMap} {m : SessionMetadata}
    (hr : readMetadataMap serde file = some raw) (hm : fromMap raw = some m) (tag : String) :
    tagAt serde file tag = (m.tag tag).map .string := by
  rw [← writtenTag_eq (extra_of_fromMap hm .tags), writtenTag_of_fromMap hm, tagAt, keyAt, hr,
    Option.bind_some]

/-- A call that settled leaves each tag its closure does not change. -/
private theorem tagAt_left {e : Entry} (h : Session.Alone serde e) (hr : e.ReadsBack serde)
    {tag : String} (hu : ¬ e.UpdatesTag serde tag) :
    tagAt serde (passage.left e) tag = tagAt serde (passage.saw e) tag := by
  by_cases hk : e.UpdatesKey serde Field.tags.key
  · obtain ⟨p, hp, hk⟩ := hk
    have hw : writtenTag p.before tag = writtenTag p.after tag := by
      by_contra hw
      exact hu ⟨p, hp, hw⟩
    obtain ⟨hraw, hb, -⟩ := prepare_ok (prepare_of_prepared hp)
    unfold tagAt
    rw [keyAt_updated h hr hp hk]
    change writtenTag p.after tag = _
    rw [← hw, writtenTag_of_fromMap hb]
    change _ = ((readMetadataMap serde e.seen).bind _).bind _
    rw [hraw]
    rfl
  · unfold tagAt
    rw [keyAt_left h hr hk]

/-- Tags that differ make the records differ. -/
private theorem unchanged_tags {before after : SessionMetadata}
    (h : unchanged before after Field.tags.key = true) (tag : String) :
    (writtenTag before tag).map Json.normal = (writtenTag after tag).map Json.normal := by
  have hb : ∀ a : Option Json,
      (a.bind (·.get tag)).map Json.normal = (a.map Json.normal).bind (·.get tag) := by
    intro a
    cases a with
    | none => rfl
    | some v => exact (Json.get_normal v tag).symm
  rw [unchanged, same, decide_eq_true_iff] at h
  rw [writtenTag, writtenTag, hb, hb, h]

/-- A call that changed the record leaves the tags its closure gave it, when no extra key
overrides them. -/
private theorem tagAt_updated {e : Entry} (h : Session.Alone serde e)
    (hr : e.ReadsBack serde) {p : Prepared} (hp : e.prepared serde = some p)
    (ha : p.after.extra.get Field.tags.key = none) (tag : String) :
    tagAt serde (passage.left e) tag = (p.after.tag tag).map .string := by
  obtain ⟨hraw, hb, -⟩ := prepare_ok (prepare_of_prepared hp)
  by_cases hk : e.UpdatesKey serde Field.tags.key
  · obtain ⟨q, hq, hk⟩ := hk
    obtain rfl := Option.some.inj (hq.symm.trans hp)
    unfold tagAt
    rw [keyAt_updated h hr hp hk]
    exact writtenTag_eq ha tag
  · have hun : unchanged p.before p.after Field.tags.key = true := by
      rw [← Bool.not_eq_false]
      exact fun hf ↦ hk ⟨p, hp, hf⟩
    have hn := unchanged_tags hun tag
    rw [writtenTag_eq (extra_of_fromMap hb .tags), writtenTag_eq ha] at hn
    have hseen : tagAt serde (passage.left e) tag = (p.before.tag tag).map .string := by
      unfold tagAt
      rw [keyAt_left h hr hk]
      exact tagAt_eq hraw hb tag
    rw [hseen]
    cases hx : p.before.tag tag <;> cases hy : p.after.tag tag <;>
      simp_all [Json.normal]

/-- The tag had the expected value in what the call saw, and the generation was the expected
one. -/
def Entry.Held (serde : SerdeJson) (e : Entry) (q : TagCompareAndSetRequest) : Prop :=
  ∃ raw before, readMetadataMap serde e.seen = some raw ∧ fromMap raw = some before ∧
    before.generation = some q.expectedGeneration ∧ before.tag q.tag = some q.expectedValue

private theorem generation_of_guards {q : TagCompareAndSetRequest} {m : SessionMetadata}
    (h : guardsHold q.options m = true) : m.generation = some q.expectedGeneration := by
  simpa [guardsHold, TagCompareAndSetRequest.options] using h

/-- A compare-and-set that settled changed the record exactly when the tag had the expected
value and the new one is another. -/
private theorem isChanged_iff {e : Entry} (h : Session.Alone serde e)
    {q : TagCompareAndSetRequest} (hq : e.call.request = .compareAndSet q) :
    e.status.isChanged = true ↔ e.Held serde q ∧ q.expectedValue ≠ q.value := by
  obtain ⟨hc, -, -, raw, before, hr, hb, -, hm, -⟩ | ⟨p, hc, hp, -⟩ := h.cases
  · rw [hq] at hm
    refine iff_of_false (by simp [hc]) ?_
    rintro ⟨⟨raw', before', hr', hb', -, ht⟩, hne⟩
    obtain rfl := Option.some.inj (hr.symm.trans hr')
    obtain rfl := Option.some.inj (hb.symm.trans hb')
    have hs := q.mutate_isSome before |>.mpr ⟨ht, hne⟩
    rw [show q.mutate before = none from hm] at hs
    cases hs
  · obtain ⟨hr, hb, hg, hm⟩ := prepare_ok (prepare_of_prepared hp)
    rw [hq] at hg hm
    have hs := q.mutate_isSome p.before |>.mp
      (by rw [show q.mutate p.before = some p.after from hm]; rfl)
    exact iff_of_true hc ⟨⟨p.raw, p.before, hr, hb, generation_of_guards hg, hs.1⟩, hs.2⟩

/-- A compare-and-set that settled without a change had the tag matched exactly when it is
reported as unchanged. -/
private theorem unchanged_iff {e : Entry} (h : Session.Alone serde e)
    {q : TagCompareAndSetRequest} (hq : e.call.request = .compareAndSet q) :
    q.result e.status = .unchanged q.value ↔ e.Held serde q ∧ q.expectedValue = q.value := by
  obtain ⟨-, -, -, raw, before, hr, hb, hg, hm, hst⟩ | ⟨p, hc, hp, hst, -⟩ := h.cases
  · rw [hq] at hg hm
    rw [hst]
    change (if _ then _ else _) = _ ↔ _
    split
    · next ht =>
      refine iff_of_true rfl
        ⟨⟨raw, before, hr, hb, generation_of_guards hg, ht⟩, ?_⟩
      by_contra hne
      have hs := q.mutate_isSome before |>.mpr ⟨ht, hne⟩
      rw [show q.mutate before = none from hm] at hs
      cases hs
    · next ht =>
      refine iff_of_false (fun he ↦ nomatch he) ?_
      rintro ⟨⟨raw', before', hr', hb', -, ht'⟩, -⟩
      obtain rfl := Option.some.inj (hr.symm.trans hr')
      obtain rfl := Option.some.inj (hb.symm.trans hb')
      exact ht ht'
  · have hne := ((isChanged_iff h hq).mp hc).2
    rw [hst]
    exact iff_of_false (fun he ↦ nomatch he) fun hh ↦ hne hh.2

/-- What a compare-and-set is told, where its status is a change. -/
private theorem result_eq_changed (q : TagCompareAndSetRequest) (status : MutateStatus) :
    q.result status = .changed q.value ↔ status.isChanged = true := by
  cases status with
  | unchanged before =>
    refine iff_of_false ?_ (fun h ↦ nomatch h)
    unfold TagCompareAndSetRequest.result
    dsimp only
    split <;> exact fun h ↦ nomatch h
  | changed m => exact iff_of_true rfl rfl
  | _ => exact iff_of_false (fun h ↦ nomatch h) (fun h ↦ nomatch h)

private theorem settles_of_isChanged {status : MutateStatus} (h : status.isChanged = true) :
    status.settles = true := by
  cases status <;> simp_all [MutateStatus.isChanged, MutateStatus.settles]

/-- What a patch that was reported as a change leaves: each requested tag, and the requested
display name. -/
def Entry.Patched (serde : SerdeJson) (e : Entry) (patch : MetadataPatch) : Prop :=
  (∀ tag requested, (patch.tags.getD []).get tag = some requested →
    tagAt serde (passage.left e) tag = requested.map .string) ∧
  ∀ name, patch.displayName = some name →
    Field.displayName.codec.read (keyAt serde (passage.left e) Field.displayName.key) =
      some name

theorem displayName_eq_of_agree {m n : SessionMetadata}
    (h : m.agree n .displayName = true) : m.displayName = n.displayName := by
  have hw : ∀ k : SessionMetadata, k.written .displayName = k.displayName.map .string :=
    fun _ ↦ rfl
  rw [agree, same, decide_eq_true_iff, hw, hw] at h
  cases hm : m.displayName <;> cases hn : n.displayName <;> simp_all [Json.normal]

private theorem patched_of_isChanged {e : Entry} (h : Session.Alone serde e)
    (hr : e.ReadsBack serde) {patch : MetadataPatch} (hq : e.call.request = .patch patch)
    (hc : e.status.isChanged = true) : e.Patched serde patch := by
  obtain ⟨hn, -⟩ | ⟨p, -, hp, -, hw⟩ := h.cases
  · simp [hc] at hn
  obtain ⟨-, hb, -, hm⟩ := prepare_ok (prepare_of_prepared hp)
  rw [hq] at hm
  have ha : p.after = patch.patched p.before := MetadataPatch.mutate_eq_some hm
  have hx : ∀ f : Field, p.after.extra.get f.key = none := by
    intro f
    rw [ha, MetadataPatch.extra_patched]
    exact extra_of_fromMap hb f
  refine ⟨fun tag requested ht ↦ ?_, fun name hname ↦ ?_⟩
  · rw [tagAt_updated h hr hp (hx .tags), ha, MetadataPatch.tag_patched, ht]
    rfl
  · have hnull : p.after.written .displayName ≠ some .null := by
      intro hw
      cases written_eq_null hw
    have hd : p.after.displayName = name := by
      rw [ha, MetadataPatch.displayName_patched, hname]
      rfl
    unfold keyAt
    rw [readMetadataMap_of_readsBack hr hp hw, Option.bind_some, Prepared.published,
      read_applyMetadataDiff hb (hx .displayName) hnull]
    split
    · next hag =>
      rw [← hd, ← displayName_eq_of_agree hag]
      rfl
    · rw [← hd]
      rfl

/-- What the session's calls come to. The calls that settled, those that returned `Changed` or
`Unchanged` among them, are in one order, each once and after those that had returned when it
began; each did what the mutation does alone on what its predecessor left, and the last left
what the file has. A compare-and-set is told `Changed` exactly when at its place the
generation was the expected one and the tag had the expected value, not the new one already,
and `Unchanged` when it had both. A change leaves what it gave, and that is in every later
record until a call whose closure changes the same key, or the same tag. -/
structure Linearized (serde : SerdeJson) (init : Option Bytes) (s : Session) : Prop where
  once : (s.log.map (·.call.id)).Nodup
  returned : ∀ r ∈ s.returned, Session.Logged s.log r
  realTime : s.Ordered
  serial : passage.Serial init s.log
  current : s.file = passage.leftBy init s.log
  alone : ∀ e ∈ s.log, Session.Alone serde e
  changed : ∀ r ∈ s.returned, ∀ q, r.call.request = .compareAndSet q →
    (q.result r.status = .changed q.value ↔
      ∃ e ∈ s.log, e.toReturned = r ∧ e.Held serde q ∧ q.expectedValue ≠ q.value)
  unchanged : ∀ r ∈ s.returned, ∀ q, r.call.request = .compareAndSet q →
    (q.result r.status = .unchanged q.value ↔
      ∃ e ∈ s.log, e.toReturned = r ∧ e.Held serde q ∧ q.expectedValue = q.value)
  key : ∀ e ∈ s.log, ∀ p key, e.prepared serde = some p →
    Metadata.unchanged p.before p.after key = false →
      keyAt serde (passage.left e) key = p.after.toMap.get key
  tag : ∀ e ∈ s.log, ∀ q, e.call.request = .compareAndSet q → e.status.isChanged = true →
    tagAt serde (passage.left e) q.tag = some (.string q.value)
  patch : ∀ e ∈ s.log, ∀ p, e.call.request = .patch p → e.status.isChanged = true →
    e.Patched serde p
  keptKey : ∀ pre e post rest, s.log = pre ++ e :: post ++ rest → ∀ key,
    (∀ d ∈ post, ¬ d.UpdatesKey serde key) →
      keyAt serde (passage.leftBy init (pre ++ e :: post)) key =
        keyAt serde (passage.left e) key
  keptTag : ∀ pre e post rest, s.log = pre ++ e :: post ++ rest → ∀ tag,
    (∀ d ∈ post, ¬ d.UpdatesTag serde tag) →
      tagAt serde (passage.leftBy init (pre ++ e :: post)) tag =
        tagAt serde (passage.left e) tag

/-- Updates are linearizable, in every run in which what is written is read back. -/
theorem linearized_of_reached {init : Option Bytes} {s : Session}
    (h : Session.Reached serde init s) (hr : ∀ e ∈ s.log, e.ReadsBack serde) :
    Linearized serde init s := by
  have hi := Session.inv_of_reached h
  have hmem : ∀ r ∈ s.returned, r.status.settles = true →
      ∃ e ∈ s.log, e.toReturned = r ∧ Session.Alone serde e := by
    intro r hm hs
    obtain ⟨e, he, hee⟩ := hi.returned r hm hs
    exact ⟨e, he, hee, hi.alone e he⟩
  refine ⟨hi.nodup, hi.returned, hi.ordered, hi.serial, hi.current, hi.alone, ?_, ?_, ?_, ?_,
    ?_, ?_, ?_⟩
  · intro r hm q hq
    rw [result_eq_changed]
    constructor
    · intro hc
      obtain ⟨e, he, rfl, ha⟩ := hmem r hm (settles_of_isChanged hc)
      exact ⟨e, he, rfl, (isChanged_iff ha hq).mp hc⟩
    · rintro ⟨e, he, rfl, hh⟩
      exact (isChanged_iff (hi.alone e he) hq).mpr hh
  · intro r hm q hq
    constructor
    · intro hu
      have hs : r.status.settles = true := by
        cases hst : r.status <;> rw [hst] at hu <;> first | rfl | cases hu
      obtain ⟨e, he, rfl, ha⟩ := hmem r hm hs
      exact ⟨e, he, rfl, (unchanged_iff ha hq).mp hu⟩
    · rintro ⟨e, he, rfl, hh⟩
      exact (unchanged_iff (hi.alone e he) hq).mpr hh
  · exact fun e he p key hp hu ↦ keyAt_updated (hi.alone e he) (hr e he) hp hu
  · intro e he q hq hc
    obtain ⟨hn, -⟩ | ⟨p, -, hp, -⟩ := (hi.alone e he).cases
    · simp [hc] at hn
    obtain ⟨-, hb, -, hm⟩ := prepare_ok (prepare_of_prepared hp)
    rw [hq] at hm
    have hx : p.after.extra.get Field.tags.key = none := by
      rw [TagCompareAndSetRequest.mutate_eq_some hm]
      exact extra_of_fromMap hb .tags
    rw [tagAt_updated (hi.alone e he) (hr e he) hp hx,
      TagCompareAndSetRequest.tag_mutate hm, if_pos rfl]
    rfl
  · exact fun e he p hq hc ↦ patched_of_isChanged (hi.alone e he) (hr e he) hq hc
  · intro pre e post rest hl key hp
    refine (hl ▸ hi.serial).left.kept (keyAt serde · key) fun d hd ↦ ?_
    have hm : d ∈ s.log := by
      rw [hl]
      simp [hd]
    exact keyAt_left (hi.alone d hm) (hr d hm) (hp d hd)
  · intro pre e post rest hl tag hp
    refine (hl ▸ hi.serial).left.kept (tagAt serde · tag) fun d hd ↦ ?_
    have hm : d ∈ s.log := by
      rw [hl]
      simp [hd]
    exact tagAt_left (hi.alone d hm) (hr d hm) (hp d hd)

/-! ### Runs of one process -/

/-- A record of one generation with one tag. -/
def oneTag (value : String) : JsonMap :=
  [("generation", .string "g1"), ("tags", .object [("role", .string value)])]

/-- A parser and printer that know the records with the tags `a` and `b`. -/
def tagJson : SerdeJson where
  fromSlice b := if b = [0x61] then some (.object (oneTag "a"))
    else if b = [0x62] then some (.object (oneTag "b")) else none
  prettyJson map := if map = oneTag "b" then [0x62] else [0x61]

/-- The record of `oneTag`. -/
def tagged : SessionMetadata := (fromMap (oneTag "a")).get (by decide)

private theorem fromMap_oneTag : fromMap (oneTag "a") = some tagged := (Option.some_get _).symm

/-- The set of the tag from `a` to a value. -/
def setRole (value : String) : TagCompareAndSetRequest := ⟨"g1", "role", "a", value⟩

/-- The call of that. -/
def setCall (value : String) : Call := ⟨0, 0, .compareAndSet (setRole value)⟩

/-- A process that has the lock for its call. -/
private theorem started (value : String) :
    ∃ s : Session, Session.Reached tagJson (some [0x61]) s ∧ s.file = some [0x61] ∧
      s.calls 0 = .locked (setCall value) ∧ s.log = [] ∧ s.returned = [] := by
  have h₁ := Relation.ReflTransGen.single (@Session.Step.begin tagJson
    (.start (some [0x61])) 0 (.compareAndSet (setRole value)) rfl (by
      simp [Request.admitted, setRole]))
  have h₂ := h₁.tail (.take 0 (setCall value) (by rfl) rfl)
  exact ⟨_, h₂, rfl, by simp [Session.setCall], rfl, rfl⟩

/-- A compare-and-set to the value that the tag has already is not told that it changed it. -/
theorem changed_iff_held_refuted :
    ¬ ∀ (serde : SerdeJson) (init : Option Bytes) (s : Session),
      Session.Reached serde init s → (∀ e ∈ s.log, e.ReadsBack serde) →
        ∀ r ∈ s.returned, ∀ q, r.call.request = .compareAndSet q →
          (q.result r.status = .changed q.value ↔
            ∃ e ∈ s.log, e.toReturned = r ∧ e.Held serde q) := by
  intro hall
  obtain ⟨s, hs, hf, hc, hl, hr⟩ := started "a"
  have hg : guardsHold (setRole "a").options tagged = true := by decide
  have hm : (setRole "a").mutate tagged = none := by
    rw [← Option.not_isSome_iff_eq_none, TagCompareAndSetRequest.mutate_isSome]
    exact fun h ↦ h.2 rfl
  have hraw : readMetadataMap tagJson (some [0x61]) = some (oneTag "a") := by decide
  have hp : (setCall "a").prepare tagJson s.file = .error (.unchanged tagged) := by
    rw [hf]
    exact prepare_of_declined hraw fromMap_oneTag hg hm
  have h₁ := hs.tail (.decline 0 _ _ hc hp rfl)
  have h₂ := h₁.tail (.release 0 (setCall "a") (.unchanged tagged) (by simp [Session.settle]))
  have hiff := hall tagJson (some [0x61]) _ h₂ (by
    intro e he p hp'
    simp only [Session.settle, hl, List.nil_append, Session.setCall, List.mem_singleton] at he
    subst he
    unfold Entry.prepared at hp'
    rw [hp] at hp'
    cases hp') ⟨setCall "a", .unchanged tagged⟩ (by simp [Session.settle, hr])
    (setRole "a") rfl
  have hd : (setRole "a").result (.unchanged tagged) ≠ .changed "a" := by decide
  refine hd (hiff.mpr ⟨⟨⟨setCall "a", .unchanged tagged⟩, s.file, none⟩, ?_, rfl,
    oneTag "a", tagged, ?_, fromMap_oneTag, by decide, by decide⟩)
  · simp [Session.settle, Session.setCall]
  · rw [hf]
    decide

/-- The record with the tag set to `b`. -/
def retagged : SessionMetadata :=
  tagged.set .tags (some ((tagged.tags.getD []).insert "role" "b"))

/-- A compare-and-set to another value changes the record. -/
theorem linearized_of_reached_role :
    ∃ s : Session, Session.Reached tagJson (some [0x61]) s ∧
      (∃ e ∈ s.log, e.status.isChanged = true) ∧ s.file = some [0x62] ∧
      Linearized tagJson (some [0x61]) s := by
  obtain ⟨s, hs, hf, hc, hl, hr⟩ := started "b"
  have hraw : readMetadataMap tagJson (some [0x61]) = some (oneTag "a") := by decide
  have hg : guardsHold (setRole "b").options tagged = true := by decide
  have hm : (setRole "b").mutate tagged = some retagged := by
    unfold TagCompareAndSetRequest.mutate
    rw [if_neg (by decide), if_neg (by decide)]
    rfl
  have hp : (setCall "b").prepare tagJson (some [0x61]) = .ok ⟨oneTag "a", tagged, retagged⟩ :=
    prepare_of_keepsPublication hraw fromMap_oneTag hg hm (by decide)
  have hpub : Prepared.published ⟨oneTag "a", tagged, retagged⟩ = oneTag "b" := by
    decide +kernel
  have h₁ := hs.tail (.read 0 _ _ hc (by rw [hf]; exact hp))
  have h₂ := h₁.tail (.reread 0 (setCall "b") ⟨oneTag "a", tagged, retagged⟩
    (by simp [Session.setCall]))
  have hfresh := isFresh_of_prepare hp
  have h₃ := h₂.tail (.write 0 (setCall "b") ⟨oneTag "a", tagged, retagged⟩ (by
    simp [Session.setCall, hf, hfresh]))
  refine ⟨_, h₃, ⟨_, List.mem_append_right _ List.mem_cons_self, rfl⟩, ?_,
    linearized_of_reached h₃ ?_⟩
  · change some (tagJson.prettyJson _) = _
    rw [hpub]
    decide
  · intro e he p hp'
    simp only [Session.settle, Session.setCall, hl, List.nil_append, List.mem_singleton] at he
    subst he
    unfold Entry.prepared at hp'
    rw [hf, hp] at hp'
    obtain rfl := Option.some.inj hp'
    rw [hpub]
    decide

end PtySpec.Metadata
