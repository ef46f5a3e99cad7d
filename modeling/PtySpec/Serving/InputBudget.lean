import PtySpec.Lib.Trace
import PtySpec.Protocol.Packet

/-!
# The bound on client input

Model of `crates/pty/src/daemon/input_budget.rs` and of the reader threads that hold
against it (`lifecycle.rs:840-860`). The mutex makes the test of `hold` with the addition,
and each drop, one step; a thread that waits may be woken at any time.
-/

namespace PtySpec.Serving

open Lib Protocol

/-- `InputBudget`, `input_budget.rs:21`. -/
structure InputBudget where
  limit : Nat
  pending : Nat
  deriving DecidableEq, Repr

namespace InputBudget

/-- `InputBudget::new`, `input_budget.rs:36`. -/
def new (limit : Nat) : InputBudget := ⟨limit, 0⟩

/-- The condition of the wait in `InputBudget::hold`, `input_budget.rs:47`. -/
def full (b : InputBudget) (bytes : Nat) : Bool :=
  b.pending > 0 && b.pending + bytes > b.limit

/-- `*pending -= self.bytes`, `input_budget.rs:69`; nothing when it would underflow. -/
def release (b : InputBudget) (bytes : Nat) : Option InputBudget :=
  if bytes ≤ b.pending then some { b with pending := b.pending - bytes } else none

end InputBudget

/-- A client's reader thread, `lifecycle.rs:838`: between two packets, about to test the
budget with the mutex in hand, or parked on the condition variable. -/
inductive Reader where
  | reading
  | locking (bytes : Nat)
  | waiting (bytes : Nat)
  deriving DecidableEq, Repr

namespace Reader

/-- The bytes the thread wants held. -/
def wants : Reader → Option Nat
  | reading => none
  | locking bytes => some bytes
  | waiting bytes => some bytes

/-- `Condvar::notify_all`, seen by one thread. -/
def notified : Reader → Reader
  | waiting bytes => locking bytes
  | r => r

@[simp] theorem wants_notified (r : Reader) : r.notified.wants = r.wants := by
  cases r <;> rfl

end Reader

/-- The budget, the reader threads of the daemon and the bytes of the live holds. -/
structure Inputs where
  budget : InputBudget
  readers : List Reader := []
  holds : List Nat := []
  underflowed : Bool := false
  deriving DecidableEq, Repr

/-- A connection, a packet that a reader parsed, the test under the mutex, a wake-up, or
the drop of a hold by whoever has it. -/
inductive InputLabel where
  | connect
  | packet (i : Nat) (packet : Packet)
  | lock (i : Nat)
  | wake (i : Nat)
  | drop (i : Nat)

namespace Inputs

/-- `InputBudget::hold` with the mutex in hand, `input_budget.rs:45`. -/
def lock (s : Inputs) (i bytes : Nat) : Inputs :=
  if s.budget.full bytes then
    { s with readers := s.readers.set i (.waiting bytes) }
  else
    { s with
      budget := { s.budget with pending := s.budget.pending + bytes }
      readers := s.readers.set i .reading
      holds := s.holds ++ [bytes] }

/-- `InputHold::drop`, `input_budget.rs:61`. -/
def drop (s : Inputs) (i bytes : Nat) : Inputs :=
  match s.budget.release bytes with
  | some budget =>
    { s with
      budget := budget
      readers := s.readers.map Reader.notified
      holds := s.holds.eraseIdx i }
  | none => { s with underflowed := true }

/-- One step of a reader thread or of the owner of a hold. Only a DATA packet that
carries bytes is held, `lifecycle.rs:850`. -/
def step (s : Inputs) : InputLabel → Option Inputs
  | .connect => some { s with readers := s.readers ++ [.reading] }
  | .packet i packet =>
    match s.readers[i]? with
    | some .reading =>
      if packet.type_ = .data ∧ packet.payload ≠ [] then
        some { s with readers := s.readers.set i (.locking packet.payload.length) }
      else
        some s
    | _ => none
  | .lock i =>
    match s.readers[i]? with
    | some (.locking bytes) => some (s.lock i bytes)
    | _ => none
  | .wake i =>
    match s.readers[i]? with
    | some (.waiting bytes) => some { s with readers := s.readers.set i (.locking bytes) }
    | _ => none
  | .drop i =>
    match s.holds[i]? with
    | some bytes => some (s.drop i bytes)
    | none => none

/-- The acceptor's start, `lifecycle.rs:767`, with any limit. -/
def Init (limit : Nat) (s : Inputs) : Prop := s = { budget := .new limit }

/-- The states that runs reach under a limit. -/
def Reached (limit : Nat) : Inputs → Prop := Runs (Init limit) step

/-- At most the limit is pending, or a single hold is. -/
def Bounded (s : Inputs) : Prop :=
  s.budget.pending ≤ s.budget.limit ∨ s.holds = [s.budget.pending]

/-- What every reached state satisfies. -/
structure Sound (limit : Nat) (s : Inputs) : Prop where
  limited : s.budget.limit = limit
  total : s.budget.pending = s.holds.sum
  positive : ∀ bytes ∈ s.holds, 0 < bytes
  wanted : ∀ r ∈ s.readers, ∀ bytes, r.wants = some bytes → 0 < bytes
  bounded : s.Bounded
  exact_ : s.underflowed = false

variable {limit : Nat} {s t : Inputs}

/-- With nothing pending there is no hold: every hold has bytes. -/
private theorem Sound.holds_eq_nil (h : s.Sound limit) (hp : s.budget.pending = 0) :
    s.holds = [] := by
  rw [h.total, List.sum_eq_zero_iff] at hp
  apply List.eq_nil_iff_forall_not_mem.mpr
  intro bytes hb
  have := h.positive bytes hb
  have := hp bytes hb
  omega

private theorem sum_eraseIdx {l : List Nat} {i bytes : Nat} (h : l[i]? = some bytes) :
    l.sum = bytes + (l.eraseIdx i).sum := by
  obtain ⟨hi, rfl⟩ := List.getElem?_eq_some_iff.mp h
  have hp := (List.getElem_cons_eraseIdx_perm hi).sum_eq
  rw [List.sum_cons] at hp
  exact hp.symm

/-- A hold that the test lets through leaves the budget bounded. -/
private theorem Sound.admits (h : s.Sound limit) {bytes : Nat}
    (hf : s.budget.full bytes = false) :
    s.budget.pending + bytes ≤ s.budget.limit ∨ s.holds = [] ∧ s.budget.pending = 0 := by
  by_cases hp : s.budget.pending = 0
  · exact .inr ⟨h.holds_eq_nil hp, hp⟩
  · left
    simp only [InputBudget.full, Bool.and_eq_false_iff, decide_eq_false_iff_not] at hf
    omega

private theorem Sound.reader (h : s.Sound limit) (i : Nat) {r : Reader}
    (hr : ∀ bytes, r.wants = some bytes → 0 < bytes) :
    Sound limit { s with readers := s.readers.set i r } where
  limited := h.limited
  total := h.total
  positive := h.positive
  bounded := h.bounded
  exact_ := h.exact_
  wanted r' hr' := by
    rcases List.mem_or_eq_of_mem_set hr' with hm | rfl
    · exact h.wanted r' hm
    · exact hr

private theorem Sound.lock (h : s.Sound limit) (i : Nat) {bytes : Nat} (hb : 0 < bytes) :
    (s.lock i bytes).Sound limit := by
  unfold Inputs.lock
  split
  · apply h.reader i
    intro b hw
    cases hw
    exact hb
  · next hf =>
    have hr := h.reader i (r := .reading) (by simp [Reader.wants])
    refine ⟨h.limited, ?_, ?_, hr.wanted, ?_, h.exact_⟩
    · simp [h.total]
    · intro b hm
      rcases List.mem_append.mp hm with hm | hm
      · exact h.positive b hm
      · rwa [List.mem_singleton.mp hm]
    · rcases h.admits (by simpa using hf) with hl | ⟨hn, hz⟩
      · exact .inl hl
      · right
        simp [hn, hz]

/-- A drop gives back what was held: at most what is pending. -/
private theorem Sound.drop (h : s.Sound limit) {i bytes : Nat} (hi : s.holds[i]? = some bytes) :
    (s.drop i bytes).Sound limit := by
  have hs := sum_eraseIdx hi
  have ht := h.total
  have hle : bytes ≤ s.budget.pending := by omega
  simp only [Inputs.drop, InputBudget.release, hle, if_true]
  constructor
  · exact h.limited
  · show s.budget.pending - bytes = (s.holds.eraseIdx i).sum
    omega
  · intro b hb
    exact h.positive b (List.mem_of_mem_eraseIdx hb)
  · intro r hr b hw
    obtain ⟨r', hm, rfl⟩ := List.mem_map.mp hr
    rw [Reader.wants_notified] at hw
    exact h.wanted r' hm b hw
  · rcases h.bounded with hl | hone
    · left
      show s.budget.pending - bytes ≤ s.budget.limit
      omega
    · left
      show s.budget.pending - bytes ≤ s.budget.limit
      rw [hone] at hi
      have : i = 0 := by
        obtain ⟨hlt, _⟩ := List.getElem?_eq_some_iff.mp hi
        simpa using hlt
      subst this
      simp only [List.getElem?_cons_zero, Option.some.injEq] at hi
      omega
  · exact h.exact_

private theorem Sound.step (h : s.Sound limit) {l : InputLabel} (hs : s.step l = some t) :
    t.Sound limit := by
  cases l with
  | connect =>
    cases hs
    refine ⟨h.limited, h.total, h.positive, ?_, h.bounded, h.exact_⟩
    intro r hr b hw
    rcases List.mem_append.mp hr with hm | hm
    · exact h.wanted r hm b hw
    · rw [List.mem_singleton.mp hm] at hw
      cases hw
  | packet i packet =>
    simp only [Inputs.step] at hs
    split at hs
    · split at hs
      · next hd =>
        cases hs
        apply h.reader i
        intro b hw
        cases hw
        exact List.length_pos_iff.mpr hd.2
      · cases hs
        exact h
    · cases hs
  | lock i =>
    simp only [Inputs.step] at hs
    split at hs
    · next bytes hr =>
      cases hs
      exact h.lock i (h.wanted _ (List.mem_of_getElem? hr) _ rfl)
    · cases hs
  | wake i =>
    simp only [Inputs.step] at hs
    split at hs
    · next bytes hr =>
      cases hs
      apply h.reader i
      intro b hw
      cases hw
      exact h.wanted _ (List.mem_of_getElem? hr) _ rfl
    · cases hs
  | drop i =>
    simp only [Inputs.step] at hs
    split at hs
    · next bytes hi =>
      cases hs
      exact h.drop hi
    · cases hs

private theorem Sound.init : ∀ s, Init limit s → s.Sound limit := by
  rintro s rfl
  exact ⟨rfl, rfl, by simp, by simp, .inl (Nat.zero_le _), rfl⟩

/-- In every reached state the counter is the sum of the live holds, no drop has
underflowed, and at most the limit is pending unless a single hold is; a thread that is let
through brings about such a state. -/
theorem budget_of_reached (h : Reached limit s) :
    s.budget.pending = s.holds.sum ∧ s.underflowed = false ∧
      (∀ bytes ∈ s.holds, bytes ≤ s.budget.pending) ∧
      (s.budget.pending ≤ limit ∨ ∃ bytes, s.holds = [bytes] ∧ limit < bytes) ∧
      ∀ i bytes t, s.readers[i]? = some (.locking bytes) → s.step (.lock i) = some t →
        t.holds = s.holds ∧ t.readers[i]? = some (.waiting bytes) ∨
          t.holds = s.holds ++ [bytes] ∧
            (s.budget.pending + bytes ≤ limit ∨ t.holds = [bytes]) := by
  have hs : s.Sound limit := h.induct Sound.init fun _ _ _ _ hp hst ↦ hp.step hst
  refine ⟨hs.total, hs.exact_, ?_, ?_, ?_⟩
  · intro bytes hb
    rw [hs.total]
    exact List.le_sum_of_mem hb
  · rcases Nat.lt_or_ge limit s.budget.pending with hl | hl
    · right
      refine ⟨s.budget.pending, ?_, hl⟩
      exact hs.bounded.resolve_left (by rw [hs.limited]; omega)
    · exact .inl hl
  · intro i bytes t hr hst
    have hi : i < s.readers.length := (List.getElem?_eq_some_iff.mp hr).1
    simp only [step, hr, Option.some.injEq] at hst
    subst hst
    unfold Inputs.lock
    split
    · left
      simp [hi]
    · next hf =>
      right
      refine ⟨rfl, ?_⟩
      rcases hs.admits (by simpa using hf) with hl | ⟨hn, -⟩
      · rw [hs.limited] at hl
        exact .inl hl
      · right
        simp [hn]

/-- Six bytes are held of ten; twelve more wait until those are dropped, and then pass alone. -/
private def oversize : List InputLabel :=
  [.connect, .connect, .packet 0 ⟨.data, List.replicate 6 0⟩, .lock 0,
    .packet 1 ⟨.data, List.replicate 12 0⟩, .lock 1, .drop 0, .lock 1]

theorem budget_of_reached_oversize : ∃ s, Reached 10 s ∧ s.holds = [12] ∧
    s.budget.pending = s.holds.sum := by
  have h : replay step { budget := .new 10 } oversize =
      some ⟨⟨10, 12⟩, [.reading, .reading], [12], false⟩ := by decide
  have hr : Reached 10 _ := Runs.replay (Reachable.base rfl) h
  exact ⟨_, hr, rfl, (budget_of_reached hr).1⟩

end Inputs
end PtySpec.Serving
