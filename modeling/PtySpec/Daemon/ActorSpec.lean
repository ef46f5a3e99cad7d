import PtySpec.Daemon.Actor
import PtySpec.Operation.Duty

/-!
# What the operation actor promises

One contract covers every interaction of the actor: its writes are moves of the
record, the release byte and the transferred flag follow a durable transfer, a
retirement is recorded only without a transfer and concluded only without a committed
ticket in flight, and no ticket is committed once a retirement was requested. `onEvent`
keeps the contract and the actor's invariant for every event in every order.
-/

namespace PtySpec.Daemon

open Lib Operation

/-- When the actor takes an event: a completed ticket is no longer in flight, and a commit
request is to be answered on its channel. -/
def receive (m : Ghost) : ActorEvent → Ghost
  | .completed ticket _ => { m with granted := m.granted.filter (· ≠ ticket) }
  | .commit ticket reply => { m with asker := some (ticket, reply) }
  | _ => m

/-- The actor after it told its process to stop. -/
def Actor.halt (a : Actor) : Actor := { a with locked := false, stage := .done }

/-! ### The invariant between two events -/

/-- The first ticket of that number is committed. -/
def committedAt (tickets : List Ticket) (t : Nat) : Bool :=
  (tickets.find? (·.id == t)).any (·.state == .committed)

/-- What holds of the actor's fields while it has not ended. -/
structure InvOn (m : Ghost) (record : OperationRecord) (locked : Bool) (stage : Stage)
    (pending : Option Pending) (retiring : Bool) (tickets : List Ticket) : Prop where
  checked : record.check = .ok ()
  locked : locked = true
  deciding : stage = .deciding → record.state = .pending
  launched : stage ≠ .deciding → record.state = .launched ∨ record.state = .transferred
  committed : m.committed = decide (record.state = .transferred)
  flag : m.flag = m.committed
  told : m.told = m.committed
  releasing : pending = some .transferRelease ∨
      (∃ released, pending = some (.transferAck released)) →
    m.committed = true
  requested : m.requested = retiring
  recorded : retiring = true → record.retirement.isSome = true
  unfinished : record.terminal = false
  concluded : m.concluded = false
  granted : ∀ t ∈ m.granted, committedAt tickets t = true
  ready : m.ready = true → stage ≠ .deciding
  commanded : ∀ t ∈ m.commanded, t ≤ tickets.length
  stopped : m.stopped = false

namespace Actor

/-- The actor's invariant while it has not ended. -/
def Inv (m : Ghost) (a : Actor) : Prop :=
  InvOn m a.record a.locked a.stage a.pending a.retiring a.tickets

/-- How the actor may have ended: the transfer is done, or it told its process to stop
because of a retirement, a failed write, or before anything served. A concluded
retirement leaves no committed ticket. -/
structure Ended (m : Ghost) (a : Actor) : Prop where
  why : (m.committed = true ∧ m.flag = true ∧ m.told = true ∧ m.requested = false) ∨
    (m.stopped = true ∧ m.Excused)
  concluded : m.concluded = true ∨ a.record.terminal = true → a.committedInFlight = false

/-- The actor between two events, or after its last one. -/
def Settled (m : Ghost) (a : Actor) : Prop :=
  (a.stage ≠ .done ∧ a.Inv m) ∨ (a.stage = .done ∧ a.Ended m)

end Actor

/-! ### One rule per method -/

section Rules

variable {m : Ghost} {a : Actor}

namespace Actor

@[simp] theorem keeps_frame {kind : String} {more : List (String × Value)}
    {Q : Ghost → Actor → Prop} :
    (a.frame kind more).Keeps duty m Q ↔ Q m { a with seq := a.seq + 1 } := by
  simp [frame, Prog.keeps_bind]

@[simp] theorem keeps_reject {code : RejectCode} {requestId : Option String}
    {Q : Ghost → Actor → Prop} :
    (a.reject code requestId).Keeps duty m Q ↔ Q m { a with seq := a.seq + 1 } := keeps_frame

theorem keeps_stop {code : Int32} {Q : Ghost → Actor → Prop} (hw : m.Excused)
    (hq : Q m.halt a.halt) : (a.stop code).Keeps duty m Q := by
  simp only [stop, Prog.keeps_bind, keeps_env]
  intro _ _
  split
  · exact ⟨hw, fun _ _ ↦ hq⟩
  · exact ⟨hw, fun _ _ ↦ hq⟩

theorem keeps_abandon {at_ : String} {Q : Ghost → Actor → Prop} (hw : m.Excused)
    (hq : Q m.halt a.halt) : (a.abandon at_).Keeps duty m Q := by
  simp only [abandon, Prog.keeps_bind, keeps_env]
  exact fun _ ↦ keeps_stop hw hq

theorem keeps_finish {code : Int32} {Q : Ghost → Actor → Prop} (hw : m.Excused)
    (hq : Q m.halt a.halt) : (a.finish code).Keeps duty m Q := keeps_stop hw hq

/-- A barrier either parks the step or lets it go on. -/
theorem keeps_hold {name : String} {pending : Pending} {Q : Ghost → Bool × Actor → Prop}
    (hp : Q m (true, { a with pending := some pending })) (hn : Q m (false, a)) :
    (a.hold name pending).Keeps duty m Q := by
  simp only [hold, Prog.keeps_bind, keeps_env]
  intro armed
  cases armed with
  | false => simpa using hn
  | true => simpa [Prog.keeps_bind] using hp

/-- A write that is a move either lands, as the version it was asked for, or does not. -/
theorem keeps_write {next : OperationRecord} {label : String} {Q : Ghost → Bool × Actor → Prop}
    (hl : a.locked = true) (hask : mayAsk m (.writeCas a.record next label))
    (hok : next.check = .ok () → ∀ now, Q (m.wrote next label true)
      (true, { a with record := next.stamped a.record now }))
    (hfail : Q (m.wrote next label false) (false, a)) :
    (a.write next label).Keeps duty m Q := by
  rw [write, if_pos hl, Prog.keeps_bind, keeps_op]
  refine ⟨hask, fun answer ha ↦ ?_⟩
  cases answer with
  | error e => simpa [Prog.keeps_bind, Ghost.next] using hfail
  | ok w =>
    obtain ⟨hc, now, rfl⟩ := ha w rfl
    exact hok hc now

end Actor
end Rules

/-! ### Tickets -/

section Tickets

variable {tickets : List Ticket} {t : Nat}

private theorem committedAt_setTicket_of_ne {id : Nat} (h : t ≠ id) (state : TicketState) :
    committedAt (Actor.setTicket tickets id state) t = committedAt tickets t := by
  unfold committedAt
  induction tickets with
  | nil => rfl
  | cons x rest ih =>
    unfold Actor.setTicket
    split
    · next hx =>
      have hne : (x.id == t) = false := by simp [hx, Ne.symm h]
      simp [hne]
    · simp only [List.find?_cons]
      split
      · rfl
      · exact ih

private theorem committedAt_setTicket_self (h : (tickets.find? (·.id == t)).isSome = true) :
    committedAt (Actor.setTicket tickets t .committed) t = true := by
  unfold committedAt
  induction tickets with
  | nil => simp at h
  | cons x rest ih =>
    unfold Actor.setTicket
    split
    · next hx => simp [hx]
    · next hx =>
      have hne : (x.id == t) = false := by simpa using hx
      simp only [List.find?_cons, hne] at h ⊢
      exact ih h

private theorem committedAt_append (x : Ticket) (h : committedAt tickets t = true) :
    committedAt (tickets ++ [x]) t = true := by
  unfold committedAt at h ⊢
  cases hf : tickets.find? (·.id == t) with
  | none => simp [hf] at h
  | some y => simpa [List.find?_append, hf] using h

private theorem commanded_append {commanded : List Nat} {x : Ticket}
    (h : ∀ t ∈ commanded, t ≤ tickets.length) :
    ∀ t ∈ (tickets.length + 1) :: commanded, t ≤ (tickets ++ [x]).length := by
  intro t ht
  rw [List.length_append, List.length_singleton]
  rcases List.mem_cons.mp ht with rfl | ht
  · exact Nat.le_refl _
  · exact Nat.le_succ_of_le (h t ht)

private theorem length_setTicket {id : Nat} {state : TicketState} :
    (Actor.setTicket tickets id state).length = tickets.length := by
  induction tickets with
  | nil => rfl
  | cons x rest ih =>
    unfold Actor.setTicket
    split
    · rfl
    · simp [ih]

private theorem committedAt_revokeIssued (a : Actor) (h : committedAt a.tickets t = true) :
    committedAt a.revokeIssued.tickets t = true := by
  unfold committedAt at h ⊢
  simp only [Actor.revokeIssued, List.find?_map]
  have hid : ((fun x : Ticket ↦ x.id == t) ∘
      fun x : Ticket ↦ if x.state = .issued then { x with state := .revoked } else x) =
      fun x : Ticket ↦ x.id == t := by
    funext x
    simp only [Function.comp]
    split <;> rfl
  rw [hid]
  cases hf : a.tickets.find? (·.id == t) with
  | none => simp [hf] at h
  | some y =>
    simp only [hf, Option.any_some, beq_iff_eq] at h
    simp [h]

private theorem committedInFlight_of_committedAt {a : Actor} (h : committedAt a.tickets t = true) :
    a.committedInFlight = true := by
  unfold committedAt at h
  cases hf : a.tickets.find? (·.id == t) with
  | none => simp [hf] at h
  | some y =>
    simp only [hf, Option.any_some] at h
    exact List.any_eq_true.mpr ⟨y, List.mem_of_find?_eq_some hf, h⟩

end Tickets

/-! ### What the invariant gives -/

namespace Actor

variable {m : Ghost} {a : Actor}

theorem Inv.granted_eq_nil (h : a.Inv m) (hf : a.committedInFlight = false) : m.granted = [] := by
  refine List.eq_nil_iff_forall_not_mem.mpr fun t ht ↦ ?_
  rw [committedInFlight_of_committedAt (h.granted t ht)] at hf
  cases hf

theorem Inv.not_committed (h : a.Inv m) (hr : a.record.retirement.isSome = true) :
    m.committed = false := by
  rw [h.committed]
  cases hs : a.record.state with
  | transferred =>
    have := (OperationRecord.transferred_of_check h.checked hs).1
    rw [this] at hr
    cases hr
  | _ => rfl

/-- A write that keeps the state and the retirement keeps the invariant. -/
theorem Inv.rewrite (h : a.Inv m) {next : OperationRecord} (label : String)
    (hl : label ≠ "retirement-requested") (hc : next.check = .ok ())
    (hs : next.state = a.record.state) (hr : next.retirement = a.record.retirement) (now : String)
    (ok : Bool) :
    ({ a with record := next.stamped a.record now } : Actor).Inv (m.wrote next label ok) where
  checked := hc
  locked := h.locked
  deciding := fun hd ↦ hs ▸ h.deciding hd
  launched := fun hd ↦ by
    have := h.launched hd
    simpa only [OperationRecord.stamped, hs] using this
  committed := by
    have := h.committed
    simp only [Ghost.wrote, OperationRecord.stamped, hs, this]
    cases ok <;> simp
  flag := by
    have hf := h.flag
    have hcm := h.committed
    simp only [Ghost.wrote, hs, hf, hcm]
    cases ok <;> simp
  told := by
    have hf := h.told
    have hcm := h.committed
    simp only [Ghost.wrote, hs, hf, hcm]
    cases ok <;> simp
  releasing := fun hp ↦ by
    have := h.releasing hp
    simp [Ghost.wrote, this]
  requested := by simpa [Ghost.wrote, hl] using h.requested
  recorded := fun hre ↦ by
    have := h.recorded hre
    simpa only [OperationRecord.stamped, hr] using this
  unfinished := by
    have := h.unfinished
    simpa only [OperationRecord.terminal, OperationRecord.retirementPhase,
      OperationRecord.stamped, hr] using this
  concluded := by
    have hu := h.unfinished
    have : next.terminal = false := by
      simpa only [OperationRecord.terminal, OperationRecord.retirementPhase, hr] using hu
    simp [Ghost.wrote, this, h.concluded]
  granted := h.granted
  ready := h.ready
  commanded := h.commanded
  stopped := h.stopped

/-- An actor that told its process to stop, for a reason, has ended well. -/
theorem settled_stop (hw : m.Excused)
    (hc : m.concluded = true ∨ a.record.terminal = true → a.committedInFlight = false) :
    a.halt.Settled m.halt :=
  .inr ⟨rfl, .inr ⟨rfl, hw⟩, hc⟩

private theorem settled_stop_open (hw : m.Excused)
    (hc : m.concluded = false) (hu : a.record.terminal = false) : a.halt.Settled m.halt :=
  settled_stop hw fun h ↦ by simp [hc, hu] at h

private theorem terminal_congr {r n : OperationRecord} (h : n.retirement = r.retirement) :
    n.terminal = r.terminal := by
  simp only [OperationRecord.terminal, OperationRecord.retirementPhase, h]

private theorem Inv.wrote_concluded (h : a.Inv m) {next : OperationRecord}
    (hr : next.retirement = a.record.retirement) (label : String) (ok : Bool) :
    (m.wrote next label ok).concluded = false := by
  simp [Ghost.wrote, h.concluded, terminal_congr hr, h.unfinished]

private theorem excused_of_failed {next : OperationRecord} {label : String}
    (hl : label ≠ "transfer-released") : (m.wrote next label false).Excused :=
  .inr (.inl (by simp [Ghost.wrote, hl]))

/-- A failed write that concludes nothing ends the actor well. -/
private theorem settled_failed {next : OperationRecord} (label : String)
    (hl : label ≠ "transfer-released") (hc : m.concluded = false) (hn : next.terminal = false)
    (hu : a.record.terminal = false) : a.halt.Settled (m.wrote next label false).halt := by
  refine settled_stop_open (excused_of_failed hl) ?_ hu
  simp [Ghost.wrote, hc, hn]

/-- A write that keeps the retirement is admitted when it is a move. -/
private theorem Inv.mayWrite (h : a.Inv m) {next : OperationRecord} {label : String}
    (hl : label ≠ "retirement-requested") (hm : next.check = .ok () → Move a.record next)
    (hr : next.retirement = a.record.retirement) :
    mayAsk m (.writeCas a.record next label) :=
  ⟨hm, fun he ↦ absurd he hl, fun ht ↦ by
    rw [terminal_congr hr, h.unfinished] at ht
    cases ht⟩

/-! ### Before the launch -/

/-- Cancelling before the launch ends the actor. -/
theorem cancelBeforeLaunch_keeps (h : a.Inv m) (hs : a.stage = .deciding) (cause : Cause)
    (requestId observed : Option String) :
    (a.cancelBeforeLaunch cause requestId observed).Keeps duty m
      fun m' a' ↦ m'.stopped = true ∧ a'.Settled m' := by
  have hp := h.deciding hs
  simp only [cancelBeforeLaunch, Prog.keeps_bind, keeps_now]
  intro now
  refine keeps_write h.locked (h.mayWrite (by decide) (fun hc ↦ ?_) rfl) (fun hc now' ↦ ?_) ?_
  · exact .decide h.checked (.inr hp) rfl rfl rfl (hp ▸ .cancel) id
  · have hready : m.ready = false := Bool.eq_false_iff.mpr fun hr ↦ h.ready hr hs
    simp only [Bool.not_true, Bool.false_eq_true, if_false, Prog.keeps_bind, keeps_frame, keeps_env]
    refine fun _ ↦ keeps_finish (.inr (.inr hready)) ⟨rfl, ?_⟩
    exact settled_stop_open (.inr (.inr hready)) (h.wrote_concluded rfl "" true) h.unfinished
  · simp only [Bool.not_false, if_true]
    exact keeps_abandon (excused_of_failed (by decide))
      ⟨rfl, settled_failed "decision" (by decide) h.concluded h.unfinished h.unfinished⟩

/-- The launch decision either lands and starts the launch, or ends the actor. -/
theorem launchDecided_keeps (h : a.Inv m) (hs : a.stage = .deciding) (predecessor : Option String) :
    (a.launchDecided predecessor).Keeps duty m fun m' a' ↦ a'.Settled m' := by
  have hp := h.deciding hs
  have hcommitted : m.committed = false := by simp [h.committed, hp]
  simp only [launchDecided, Prog.keeps_bind, keeps_env, keeps_now, issue]
  intro createdAt generation now
  refine keeps_write h.locked (h.mayWrite (by decide) (fun hc ↦ ?_) rfl) (fun hc now' ↦ ?_) ?_
  · exact .decide h.checked (.inr hp) rfl rfl rfl (hp ▸ .launch) id
  · simp only [Bool.not_true, Bool.false_eq_true, if_false, Prog.keeps_bind, keeps_frame,
      keeps_op, mayAsk, Prog.keeps_pure]
    refine ⟨fun hmem ↦ absurd (h.commanded _ hmem) (by simp), fun _ _ ↦ .inl ⟨by simp, ?_⟩⟩
    refine ⟨hc, h.locked, by simp, fun _ ↦ .inl rfl, ?_, ?_, ?_, ?_, ?_, h.recorded, ?_, ?_, ?_, ?_,
      ?_, ?_⟩
    · simp [Ghost.next, Ghost.wrote, hcommitted, OperationRecord.stamped]
    · simpa [Ghost.next, Ghost.wrote, hcommitted] using h.flag
    · simpa [Ghost.next, Ghost.wrote, hcommitted] using h.told
    · intro hpend
      have := h.releasing hpend
      simp [hcommitted] at this
    · simpa [Ghost.next, Ghost.wrote] using h.requested
    · exact h.unfinished
    · exact h.wrote_concluded rfl "" true
    · intro t ht
      exact committedAt_append _ (h.granted t ht)
    · exact fun _ ↦ by simp
    · exact commanded_append h.commanded
    · exact h.stopped
  · simp only [Bool.not_false, if_true]
    exact keeps_abandon (excused_of_failed (by decide))
      (settled_failed "decision" (by decide) h.concluded h.unfinished h.unfinished)

/-- The decision ends the actor or starts the launch. -/
theorem decide_keeps (h : a.Inv m) (hs : a.stage = .deciding) :
    a.decide.Keeps duty m fun m' a' ↦ a'.Settled m' := by
  simp only [decide, Prog.keeps_bind, keeps_env]
  intro words nonce
  split
  · exact (cancelBeforeLaunch_keeps h hs _ _ _).mono fun _ _ ↦ And.right
  · simp only [Prog.keeps_bind, keeps_env]
    intro occupancy
    split
    · exact (cancelBeforeLaunch_keeps h hs _ _ _).mono fun _ _ ↦ And.right
    · exact launchDecided_keeps h hs _

/-! ### Retirement -/

private theorem verifyChildGone_keeps (child : ChildRecord) {Q : Ghost → String → Prop}
    (h : ∀ s, Q m s) : (verifyChildGone child).Keeps duty m Q := by
  unfold verifyChildGone
  split
  · exact h _
  · simp only [Prog.keeps_bind, keeps_env]
    intro boot _ observed
    split
    · simpa [Prog.keeps_bind] using fun _ ↦ h _
    · simp only [Prog.keeps_bind, keeps_env]
      intro table
      split
      · exact h _
      · simp only [Prog.keeps_bind, keeps_env]
        intro _ waited observed'
        split
        · simpa [Prog.keeps_bind] using fun _ ↦ h _
        · simp only [Prog.keeps_bind, keeps_env]
          intro table'
          split
          · exact h _
          · split <;> exact h _

private theorem retireChild_keeps {Q : Ghost → List (String × Value) × Bool → Prop}
    (h : ∀ r, Q m r) : a.retireChild.Keeps duty m Q := by
  unfold retireChild
  split
  · exact h _
  · simp only [Prog.keeps_bind, keeps_env]
    intro _ _
    exact verifyChildGone_keeps _ fun _ ↦ h _

private theorem retireRow_keeps {Q : Ghost → List (String × Value) × Bool → Prop}
    (h : ∀ r, Q m r) : a.retireRow.Keeps duty m Q := by
  unfold retireRow
  split
  · simpa [Prog.keeps_bind] using fun _ ↦ h _
  · exact h _

/-- Concluding a retirement without a committed ticket ends the actor. -/
theorem completeRetirement_keeps (h : a.Inv m) (hs : a.stage ≠ .done) (hr : a.retiring = true)
    (hf : a.committedInFlight = false) :
    a.completeRetirement.Keeps duty m fun m' a' ↦ m'.requested = true ∧ a'.Settled m' := by
  have hreq : ∀ next ok, (m.wrote next "retirement-terminal" ok).requested = true := by
    simp [Ghost.wrote, h.requested, hr]
  simp only [completeRetirement, hr, hs, Bool.not_true, Bool.false_eq_true, if_false,
    decide_false, Bool.or_self]
  refine Prog.keeps_bind.mpr (retireChild_keeps fun child ↦ ?_)
  simp only [Prog.keeps_bind, keeps_env]
  intro _
  refine retireRow_keeps fun row ↦ ?_
  refine keeps_write h.locked ⟨fun hc ↦ ?_, fun hl ↦ absurd hl (by decide), fun _ ↦ ?_⟩
    (fun hc now ↦ ?_) ?_
  · exact .same rfl rfl rfl rfl rfl rfl fun _ ↦ rfl
  · exact h.granted_eq_nil hf
  · simp only [Bool.not_true, Bool.false_eq_true, if_false, Prog.keeps_bind, keeps_frame]
    exact keeps_finish (.inl (hreq _ _))
      ⟨by simp [Ghost.halt, hreq], settled_stop (.inl (hreq _ _)) fun _ ↦ hf⟩
  · simp only [Bool.not_false, if_true]
    exact keeps_abandon (.inl (hreq _ _))
      ⟨by simp [Ghost.halt, hreq], settled_stop (.inl (hreq _ _)) fun _ ↦ hf⟩

/-- `b` is `a` but for its frames sent and its transfers waiting. -/
private structure Same (a b : Actor) : Prop where
  stage : b.stage = a.stage
  record : b.record = a.record

private theorem Inv.unpark (h : a.Inv m) (seq : Nat) (deferred : Option String) :
    ({ a with seq := seq, pending := none, deferredTransfer := deferred } : Actor).Inv m :=
  { h with releasing := by simp }

private theorem rejectPending_keeps (h : a.Inv m) :
    a.rejectPending.Keeps duty m fun m' b ↦ m' = m ∧ b.Inv m ∧ Same a b := by
  unfold rejectPending
  split
  · simpa using ⟨h.unpark _ _, rfl, rfl⟩
  · exact ⟨rfl, h.unpark _ _, rfl, rfl⟩

private theorem rejectDeferred_keeps (h : a.Inv m) :
    a.rejectDeferred.Keeps duty m fun m' b ↦ m' = m ∧ b.Inv m ∧ Same a b := by
  unfold rejectDeferred
  split
  · simpa using ⟨h, rfl, rfl⟩
  · exact ⟨rfl, h, rfl, rfl⟩

private theorem acknowledge_keeps {cause : Option Cause} {requestId : String}
    {Q : Ghost → Actor → Prop} (h : ∀ seq, Q m { a with seq := seq }) :
    (a.acknowledge cause requestId).Keeps duty m Q := by
  unfold acknowledge
  split
  · exact h a.seq
  · simp only [Prog.keeps_bind, keeps_now, keeps_frame]
    exact fun _ ↦ h _

private theorem Inv.revokeIssued (h : a.Inv m) : a.revokeIssued.Inv m :=
  { h with
    granted := fun t ht ↦ committedAt_revokeIssued a (h.granted t ht)
    commanded := by simpa [Actor.revokeIssued] using h.commanded }

/-- The invariant once the request of a retirement is recorded. -/
private theorem Inv.request (h : a.Inv m) {next : OperationRecord} {retirement : Retirement}
    (hn : next = { a.record with retirement := some retirement })
    (hp : retirement.phase = .requested) (hc : next.check = .ok ())
    (hcommitted : m.committed = false) (now : String) (seq : Nat) :
    ({ a with record := next.stamped a.record now, retiring := true, seq := seq } : Actor).Inv
      (m.wrote next "retirement-requested" true) := by
  have hstate : next.state = a.record.state := by rw [hn]
  have hterm : next.terminal = false := by
    simp [hn, OperationRecord.terminal, OperationRecord.retirementPhase, hp]
  have hnt : a.record.state ≠ .transferred := by
    have := h.committed
    simpa [hcommitted] using this
  refine ⟨hc, h.locked, fun hd ↦ hstate ▸ h.deciding hd, fun hd ↦ ?_, ?_, ?_, ?_, fun hpend ↦ ?_,
    ?_, fun _ ↦ by simp [hn, OperationRecord.stamped], hterm, ?_, h.granted, h.ready,
    h.commanded, h.stopped⟩
  · simpa only [OperationRecord.stamped, hstate] using h.launched hd
  · simp [Ghost.wrote, hcommitted, OperationRecord.stamped, hstate, hnt]
  · simpa [Ghost.wrote, hcommitted, hstate, hnt] using h.flag
  · simpa [Ghost.wrote, hcommitted, hstate, hnt] using h.told
  · have := h.releasing hpend
    simp [hcommitted] at this
  · simp [Ghost.wrote]
  · simp [Ghost.wrote, hterm, h.concluded]

private theorem recordRetirement_keeps (h : a.Inv m) (hs : a.stage ≠ .done)
    (ht : a.isTransferred = false) (cause : Option Cause)
    (requestId : String) :
    (a.recordRetirement cause requestId).Keeps duty m
      fun m' a' ↦ a'.Settled m' ∧ m'.requested = true := by
  have hcommitted : m.committed = false := by
    have : a.record.state ≠ .transferred := by simpa [isTransferred] using ht
    simp [h.committed, this]
  have hreq : ∀ next ok, (m.wrote next "retirement-requested" ok).requested = true := by
    simp [Ghost.wrote]
  refine Prog.keeps_bind.mpr (keeps_write h.locked
    ⟨fun hc ↦ ?_, fun _ ↦ hcommitted, fun hr ↦ by cases hr⟩ (fun hc now ↦ ?_) ?_)
  · exact .same rfl rfl rfl rfl rfl rfl fun _ ↦ rfl
  · simp only [Bool.not_true, Bool.false_eq_true, if_false]
    refine Prog.keeps_bind.mpr (acknowledge_keeps fun seq ↦ ?_)
    have hi := h.request rfl rfl hc hcommitted now seq
    split
    · next hf =>
      refine (completeRetirement_keeps hi hs rfl (by simpa using hf)).mono fun m' a' ha ↦ ?_
      exact ⟨ha.2, ha.1⟩
    · exact ⟨.inl ⟨hs, hi⟩, hreq _ _⟩
  · simp only [Bool.not_false, if_true]
    exact keeps_abandon (.inl (hreq _ _))
      ⟨settled_failed "retirement-requested" (by decide) h.concluded rfl h.unfinished,
        by simp [Ghost.halt, hreq]⟩

/-- A retirement that may begin is recorded and, without a committed ticket in flight,
concluded. -/
theorem retire_keeps (h : a.Inv m) (hs : a.stage ≠ .done) (cause : Option Cause)
    (requestId : String) :
    (a.retire cause requestId).Keeps duty m fun m' a' ↦
      a'.Settled m' ∧ (a.isTransferred = true ∨ m'.requested = true) := by
  unfold retire
  split
  · next hc =>
    refine ⟨.inl ⟨hs, h⟩, ?_⟩
    simp only [Bool.or_eq_true, decide_eq_true_eq] at hc
    rcases hc with (hr | hd) | ht
    · exact .inr (h.requested.trans hr)
    · exact absurd hd hs
    · exact .inl ht
  · next hc =>
    simp only [Bool.or_eq_true, decide_eq_true_eq, not_or, Bool.not_eq_true] at hc
    obtain ⟨-, ht⟩ := hc
    refine (rejectPending_keeps h).seq ?_
    rintro m' b ⟨rfl, hb, hsb⟩
    refine (rejectDeferred_keeps hb).seq ?_
    rintro m' c ⟨rfl, hc, hsc⟩
    refine (recordRetirement_keeps hc.revokeIssued ?_ ?_ cause requestId).mono
      fun _ _ h ↦ ⟨h.1, .inr h.2⟩
    · exact fun he ↦ hs (hsb.stage ▸ hsc.stage ▸ he)
    · simpa [isTransferred, Actor.revokeIssued, hsc.record, hsb.record] using ht

/-! ### Transfer -/

private theorem Inv.not_requested (h : a.Inv m) (hc : m.committed = true) :
    m.requested = false := by
  rw [h.requested]
  cases hr : a.retiring with
  | false => rfl
  | true =>
    rw [h.not_committed (h.recorded hr)] at hc
    cases hc

/-- A committed actor may park any step. -/
private theorem Inv.park (h : a.Inv m) (hc : m.committed = true) (pending : Option Pending) :
    ({ a with pending := pending } : Actor).Inv m :=
  { h with releasing := fun _ ↦ hc }

/-- A committed actor that ends has told the serving loop and was never asked to retire. -/
private theorem Inv.settled_done (h : a.Inv m) (hc : m.committed = true) (seq : Nat) :
    ({ a with seq := seq, locked := false, stage := .done } : Actor).Settled m := by
  refine .inr ⟨rfl, .inl ⟨hc, h.flag.trans hc, h.told.trans hc, h.not_requested hc⟩, fun hcon ↦ ?_⟩
  simp [h.concluded, h.unfinished] at hcon

/-- The end of a committed transfer ends the actor, whether or not its last write lands. -/
theorem finishTransfer_keeps (h : a.Inv m) (hc : m.committed = true) (released : Bool) :
    (a.finishTransfer released).Keeps duty m fun m' a' ↦ a'.Settled m' := by
  simp only [finishTransfer, Prog.keeps_bind, keeps_env]
  intro _
  refine keeps_write h.locked (h.mayWrite (by decide)
    (fun _ ↦ .same rfl rfl rfl rfl rfl rfl id) rfl) (fun hck now ↦ ?_) ?_
  · simp only [keeps_frame]
    intro _ _
    have hinv := h.rewrite "transfer-released" (by decide) hck rfl rfl now true
    exact hinv.settled_done (by simp [Ghost.wrote, hc]) _
  · simp only [keeps_frame]
    intro _ _
    refine .inr ⟨rfl, .inl ⟨by simp [Ghost.wrote, hc], h.flag.trans hc, h.told.trans hc, ?_⟩, ?_⟩
    · simpa [Ghost.wrote] using h.not_requested hc
    · intro hcon
      rcases hcon with hcon | hcon
      · have := (h.wrote_concluded rfl "" false).symm.trans hcon
        cases this
      · have := h.unfinished.symm.trans hcon
        cases this

/-- The release byte follows the commit. -/
theorem releaseTransfer_keeps (h : a.Inv m) (hs : a.stage ≠ .done) (hc : m.committed = true) :
    a.releaseTransfer.Keeps duty m fun m' a' ↦ a'.Settled m' := by
  have hrel : (releaseChild a.child).Keeps duty m fun m' _ ↦ m' = m := by
    unfold releaseChild
    split
    · exact keeps_op.mpr ⟨hc, fun _ _ ↦ rfl⟩
    · exact rfl
  refine hrel.seq ?_
  rintro m' released rfl
  refine Prog.keeps_bind.mpr (keeps_hold ?_ ?_)
  · exact .inl ⟨hs, h.park hc _⟩
  · exact finishTransfer_keeps (show ({ a with child := none } : Actor).Inv m' from h) hc released

/-- The invariant once a transfer is committed and the serving loop told. -/
private theorem Inv.commit (h : a.Inv m) (hr : a.retiring = false) {next : OperationRecord}
    (hck : next.check = .ok ()) (hst : next.state = .transferred)
    (hret : next.retirement = a.record.retirement) (hl : a.record.state ≠ .pending)
    (now : String) (label : String) (hlabel : label ≠ "retirement-requested") :
    ({ a with record := next.stamped a.record now } : Actor).Inv
      { m.wrote next label true with flag := true, told := true } := by
  refine ⟨hck, h.locked, fun hd ↦ absurd (h.deciding hd) hl, fun _ ↦ .inr hst, ?_, ?_, ?_, ?_, ?_,
    fun hr' ↦ ?_, ?_, h.wrote_concluded hret label true, h.granted,
    h.ready, h.commanded, h.stopped⟩
  · simp [Ghost.wrote, hst, OperationRecord.stamped]
  · simp [Ghost.wrote, hst]
  · simp [Ghost.wrote, hst]
  · simp [Ghost.wrote, hst]
  · simpa [Ghost.wrote, hlabel] using h.requested
  · rw [hr] at hr'
    cases hr'
  · exact (terminal_congr hret).trans h.unfinished

/-- A committed transfer is told to the serving loop before anything is released. -/
theorem commitTransfer_keeps (h : a.Inv m) (hs : a.stage ≠ .done) (requestId : String) :
    (a.commitTransfer requestId).Keeps duty m fun m' a' ↦ a'.Settled m' := by
  unfold commitTransfer
  split
  · simp only [keeps_reject]
    exact .inl ⟨hs, h⟩
  · next hg =>
    simp only [Bool.or_eq_true, decide_eq_true_eq, not_or, Bool.not_eq_true] at hg
    simp only [Prog.keeps_bind, keeps_env]
    intro committedAt
    -- a transferred record that passes the check was launched
    have hlaunched : ({ a.record with
        state := .transferred
        transfer := some ⟨requestId, committedAt, none⟩ } : OperationRecord).check = .ok () →
        a.record.state = .launched ∨ a.record.state = .transferred := fun hc ↦ by
      have hcause := OperationRecord.launch_of_check hc (.inr rfl)
      exact OperationRecord.launched_or_transferred_of_check h.checked hcause
    refine keeps_write h.locked (h.mayWrite (by decide) (fun hc ↦ ?_) rfl) (fun hc now ↦ ?_) ?_
    · refine ⟨rfl, rfl, rfl, ?_, fun _ ↦ id, fun i hi ↦ by simp [hi], id⟩
      rcases hlaunched hc with hl | hl
      · exact hl ▸ .transfer
      · exact hl ▸ .stay _
    · simp only [Bool.not_true, Bool.false_eq_true, if_false, Prog.keeps_bind, keeps_op, mayAsk,
        Ghost.next]
      have hi := h.commit hg.1 hc rfl rfl (by rcases hlaunched hc with h | h <;> simp [h]) now
        "transfer-commit" (by decide)
      refine ⟨⟨by simp [Ghost.wrote], by simpa [Ghost.wrote] using h.requested.trans hg.1⟩,
        fun _ _ ↦ ⟨trivial, fun _ _ ↦ ?_⟩⟩
      refine keeps_hold ?_ ?_
      · exact .inl ⟨hs, hi.park (by simp [Ghost.wrote]) _⟩
      · exact releaseTransfer_keeps hi hs (by simp [Ghost.wrote])
    · simp only [Bool.not_false, if_true, Prog.keeps_bind, keeps_reject]
      exact keeps_abandon (excused_of_failed (by decide)) <|
        settled_failed "transfer-commit" (by decide) h.concluded h.unfinished h.unfinished

theorem startTransfer_keeps (h : a.Inv m) (hs : a.stage ≠ .done) (requestId : String) :
    (a.startTransfer requestId).Keeps duty m fun m' a' ↦ a'.Settled m' := by
  refine Prog.keeps_bind.mpr (keeps_hold ?_ ?_)
  · exact .inl ⟨hs, { h with releasing := by simp }⟩
  · exact commitTransfer_keeps h hs requestId

/-! ### Events -/

/-- A ticket is committed only while no retirement was requested. -/
theorem onCommit_keeps (h : a.Inv m) (hs : a.stage ≠ .done) (ticket reply : Nat) :
    (a.onCommit ticket reply).Keeps duty (receive m (.commit ticket reply))
      fun m' a' ↦ a'.Settled m' := by
  have h' : a.Inv (receive m (.commit ticket reply)) := { h with flag := h.flag }
  have hask : mayAsk (receive m (.commit ticket reply)) (.replyCommit reply ticket false) :=
    ⟨rfl, fun hf ↦ by cases hf⟩
  unfold onCommit
  split
  · exact ⟨hask, fun _ _ ↦ .inl ⟨hs, h'⟩⟩
  · next t ht =>
    have hsome : (a.tickets.find? (·.id == ticket)).isSome = true := by
      simp [show a.tickets.find? (·.id == ticket) = some t from ht]
    split
    · next hi =>
      have hr : a.retiring = false := by simpa using hi.2
      refine ⟨⟨rfl, fun _ ↦ ⟨h.requested.trans hr, h.concluded⟩⟩, fun _ _ ↦ ?_⟩
      refine .inl ⟨hs, { h' with granted := ?_, commanded := ?_ }⟩
      · intro t' ht'
        by_cases he : t' = ticket
        · rw [he]
          exact committedAt_setTicket_self hsome
        · rw [committedAt_setTicket_of_ne he]
          exact h.granted t' ((List.mem_cons.mp ht').resolve_left he)
      · rw [length_setTicket]
        exact h.commanded
    · refine ⟨hask, fun _ _ ↦ .inl ⟨hs, { h' with granted := fun t' ht' ↦ ?_, commanded := ?_ }⟩⟩
      · split
        · next hi =>
          -- a granted ticket is committed, so it is not the one that is revoked
          rw [committedAt_setTicket_of_ne]
          · exact h.granted t' ht'
          · rintro rfl
            have := h.granted t' ht'
            rw [committedAt, show a.tickets.find? (·.id == t') = some t from ht] at this
            simp [hi] at this
        · exact h.granted t' ht'
      · split
        · rw [length_setTicket]
          exact h.commanded
        · exact h.commanded

private theorem onPublished_keeps (h : a.Inv m) (hs : a.stage ≠ .done) :
    a.onPublished.Keeps duty m fun m' a' ↦ a'.Settled m' := by
  simp only [onPublished, Prog.keeps_bind, keeps_env]
  intro _
  split
  · exact .inl ⟨hs, h⟩
  · have hi : (a.issue .forkChild).2.Inv m :=
      { h with
        granted := fun t ht ↦ committedAt_append _ (h.granted t ht)
        commanded := fun t ht ↦ commanded_append h.commanded t (List.mem_cons_of_mem _ ht) }
    refine Prog.keeps_bind.mpr (keeps_write (a := (a.issue .forkChild).2) h.locked
      (hi.mayWrite (by decide) (fun _ ↦ .same rfl rfl rfl rfl rfl rfl id) rfl)
      (fun hc now ↦ ?_) ?_)
    · have hw := hi.rewrite "child-forking" (by decide) hc rfl rfl now true
      simp only [if_true, Prog.keeps_bind, keeps_op, mayAsk, Prog.keeps_pure]
      refine ⟨fun hmem ↦ absurd (h.commanded _ hmem) (by simp [issue]), fun _ _ ↦ .inl ⟨hs, ?_⟩⟩
      exact { hw with commanded := commanded_append h.commanded }
    · simp only [Bool.false_eq_true, if_false]
      exact keeps_abandon (excused_of_failed (by decide)) <|
        settled_failed "child-forking" (by decide) h.concluded h.unfinished h.unfinished

private theorem onForked_keeps (h : a.Inv m) (hs : a.stage ≠ .done) (pid : Int32) (gate : Nat) :
    (a.onForked pid gate).Keeps duty m fun m' a' ↦ a'.Settled m' := by
  simp only [onForked, Prog.keeps_bind, keeps_env]
  intro found
  split
  · exact .inl ⟨hs, h⟩
  · split
    · exact (retire_keeps (a := { a with child := some ⟨found.toOption, pid, gate⟩ })
        h hs none _).mono fun _ _ ↦ And.left
    · refine Prog.keeps_bind.mpr (keeps_write
        (a := { a with child := some ⟨found.toOption, pid, gate⟩ }) h.locked
        (h.mayWrite (by decide) (fun _ ↦ ?_) rfl) (fun hc now ↦ ?_) ?_)
      · refine .same rfl rfl rfl rfl rfl ?_ id
        cases a.record.incarnation <;> rfl
      · exact .inl ⟨hs, h.rewrite "child-preparing" (by decide) hc rfl rfl now true⟩
      · simp only [Bool.false_eq_true, if_false]
        exact keeps_abandon (excused_of_failed (by decide)) <|
          settled_failed "child-preparing" (by decide) h.concluded h.unfinished h.unfinished

private theorem onResult_keeps (h : a.Inv m) (hs : a.stage ≠ .done) (kind : TicketKind)
    (result : Except String Completion) :
    (a.onResult kind result).Keeps duty m fun m' a' ↦ a'.Settled m' := by
  unfold onResult
  split
  · exact onPublished_keeps h hs
  · exact onForked_keeps h hs _ _
  · exact .inl ⟨hs, h⟩
  · simp only [Prog.keeps_bind, keeps_env]
    intro _
    split
    · exact .inl ⟨hs, h⟩
    · exact (retire_keeps h hs none _).mono fun _ _ ↦ And.left

/-- A completed ticket is no longer in flight, and the last one concludes a retirement. -/
theorem onCompleted_keeps (h : a.Inv m) (hs : a.stage ≠ .done) (id : Nat)
    (result : Except String Completion) :
    (a.onCompleted id result).Keeps duty (receive m (.completed id result))
      fun m' a' ↦ a'.Settled m' := by
  unfold onCompleted
  split
  · refine .inl ⟨hs, { h with granted := fun t ht ↦ h.granted t (List.mem_filter.mp ht).1 }⟩
  · next t ht =>
    have hi : ({ a with tickets := setTicket a.tickets id .completed } : Actor).Inv
        (receive m (.completed id result)) := by
      refine { h with granted := fun t ht ↦ ?_, commanded := ?_ }
      · obtain ⟨hm, hne⟩ := List.mem_filter.mp ht
        rw [committedAt_setTicket_of_ne (by simpa using hne)]
        exact h.granted t hm
      · rw [length_setTicket]
        exact h.commanded
    refine (onResult_keeps hi hs t.kind result).seq fun m' b hb ↦ ?_
    split
    · next hc =>
      simp only [Bool.and_eq_true, Bool.not_eq_true'] at hc
      rcases hb with ⟨hsb, hb⟩ | ⟨hsb, hb⟩
      · exact (completeRetirement_keeps hb hsb hc.1 hc.2).mono fun _ _ ↦ And.right
      · simp only [completeRetirement, hc.1, hsb, Bool.not_true, decide_true, Bool.or_true, if_true,
          Prog.keeps_pure]
        exact .inr ⟨hsb, hb⟩
    · exact hb

theorem onAck_keeps (h : a.Inv m) (hs : a.stage ≠ .done) (ack : Ack) :
    (a.onAck ack).Keeps duty m fun m' a' ↦ a'.Settled m' := by
  unfold onAck
  split
  · exact .inl ⟨hs, h⟩
  · next hg =>
    simp only [Bool.or_eq_true, decide_eq_true_eq, not_or, Decidable.not_not] at hg
    split
    · refine Prog.keeps_bind.mpr (keeps_write h.locked (h.mayWrite (by decide)
        (fun _ ↦ .same rfl rfl rfl rfl rfl rfl id) rfl) (fun hc now ↦ ?_) ?_)
      · simp only [Bool.not_true, Bool.false_eq_true, if_false, Prog.keeps_bind, keeps_frame,
          keeps_op, mayAsk, true_and, Prog.keeps_pure]
        intro _ _
        refine .inl ⟨by simp, ?_⟩
        have hi := h.rewrite "held" (by decide) hc rfl rfl now true
        exact { hi with
          deciding := fun hd ↦ by cases hd
          launched := fun _ ↦ hi.launched (by simp [hg.2])
          ready := fun _ ↦ by simp }
      · simp only [Bool.not_false, if_true]
        exact keeps_abandon (excused_of_failed (by decide)) <|
          settled_failed "held" (by decide) h.concluded h.unfinished h.unfinished
    · simp only [Prog.keeps_bind, keeps_env]
      exact fun _ ↦ (retire_keeps h hs none _).mono fun _ _ ↦ And.left
    · exact (retire_keeps h hs none _).mono fun _ _ ↦ And.left

theorem onReadyPoint_keeps (h : a.Inv m) (hs : a.stage ≠ .done) (reply : Nat) :
    (a.onReadyPoint reply).Keeps duty m fun m' a' ↦ a'.Settled m' := by
  unfold onReadyPoint
  split
  · next hg =>
    simp only [Prog.keeps_bind, keeps_frame, keeps_op, mayAsk]
    refine ⟨h.stopped, fun _ _ ↦ ?_⟩
    have hi : ({ a with stage := .ready, serving := true, seq := a.seq + 1 } : Actor).Inv
        { m with ready := true } :=
      { h with
        deciding := fun hd ↦ by cases hd
        launched := fun _ ↦ h.launched (by simp [hg.1])
        ready := fun _ ↦ by simp }
    split
    · exact startTransfer_keeps (a := { a with
          stage := .ready, serving := true, seq := a.seq + 1,
          deferredTransfer := none }) hi (by simp) _
    · exact .inl ⟨by simp, hi⟩
  · simp only [Prog.keeps_bind, keeps_op, mayAsk, true_and, Prog.keeps_pure]
    exact fun _ _ ↦ .inl ⟨hs, h⟩

theorem onReleased_keeps (h : a.Inv m) (hs : a.stage ≠ .done) (name : String) :
    (a.onReleased name).Keeps duty m fun m' a' ↦ a'.Settled m' := by
  have hn : ({ a with pending := none } : Actor).Inv m := { h with releasing := by simp }
  unfold onReleased
  split
  · split
    · simp only [beginSync, Prog.keeps_bind, keeps_env, Prog.keeps_pure]
      exact fun _ ↦ .inl ⟨hs, hn⟩
    · exact .inl ⟨hs, h⟩
  · split
    · exact commitTransfer_keeps hn hs _
    · exact .inl ⟨hs, h⟩
  · next hp =>
    split
    · exact releaseTransfer_keeps hn hs (h.releasing (.inl hp))
    · exact .inl ⟨hs, h⟩
  · next released hp =>
    split
    · exact finishTransfer_keeps hn (h.releasing (.inr ⟨released, hp⟩)) _
    · exact .inl ⟨hs, h⟩
  · exact .inl ⟨hs, h⟩

private theorem onOwnerDeciding_keeps (h : a.Inv m) (hs : a.stage = .deciding)
    (input : OwnerInput) :
    (a.onOwnerDeciding input).Keeps duty m fun m' a' ↦ a'.Settled m' := by
  have hlive : a.stage ≠ .done := by simp [hs]
  unfold onOwnerDeciding
  split
  · exact (cancelBeforeLaunch_keeps h hs _ _ _).mono fun _ _ ↦ And.right
  · simp only [Prog.keeps_bind, keeps_reject]
    exact (cancelBeforeLaunch_keeps (a := { a with seq := a.seq + 1 }) h hs _ _ _).mono
      fun _ _ ↦ And.right
  · exact (cancelBeforeLaunch_keeps h hs _ _ _).mono fun _ _ ↦ And.right
  · exact keeps_reject.mpr (.inl ⟨hlive, h⟩)
  · exact keeps_reject.mpr (.inl ⟨hlive, h⟩)

private theorem onTransfer_keeps (h : a.Inv m) (hs : a.stage ≠ .done)
    (requestId incarnationId generation : String) :
    (a.onTransfer requestId incarnationId generation).Keeps duty m fun m' a' ↦ a'.Settled m' := by
  unfold onTransfer
  split
  · exact keeps_reject.mpr (.inl ⟨hs, h⟩)
  · split
    · exact keeps_reject.mpr (.inl ⟨hs, h⟩)
    · split
      · exact keeps_reject.mpr (.inl ⟨hs, h⟩)
      · split
        · exact keeps_reject.mpr (.inl ⟨hs, h⟩)
        · split
          · exact .inl ⟨hs, h⟩
          · exact startTransfer_keeps h hs _

private theorem onOwnerDecided_keeps (h : a.Inv m) (hs : a.stage ≠ .done) (input : OwnerInput) :
    (a.onOwnerDecided input).Keeps duty m fun m' a' ↦ a'.Settled m' := by
  unfold onOwnerDecided
  split
  · split
    · exact keeps_reject.mpr (.inl ⟨hs, h⟩)
    · split
      · exact keeps_reject.mpr (.inl ⟨hs, h⟩)
      · exact (retire_keeps h hs _ _).mono fun _ _ ↦ And.left
  · exact onTransfer_keeps h hs _ _ _
  · exact keeps_reject.mpr (.inl ⟨hs, h⟩)
  · simp only [Prog.keeps_bind, keeps_reject]
    split
    · exact (retire_keeps (a := { a with seq := a.seq + 1 }) h hs _ _).mono fun _ _ ↦ And.left
    · exact .inl ⟨hs, h⟩
  · split
    · exact (retire_keeps h hs _ _).mono fun _ _ ↦ And.left
    · exact .inl ⟨hs, h⟩

/-- What has become of an event once it was handled: a kill retired or cancelled the
operation or was handed to the serving loop, and a child's exit retired it unless the
transfer was committed or nothing serves yet. -/
def Answered : ActorEvent → Ghost → Prop
  | .shutdown kill, m => m.requested = true ∨ m.stopped = true ∨ kill ∈ m.forwarded
  | .childExited, m => m.requested = true ∨ m.committed = true ∨ m.ready = false
  | _, _ => True

private theorem onShutdown_keeps (h : a.Inv m) (hs : a.stage ≠ .done) (kill : Nat) :
    (a.onShutdown kill).Keeps duty m fun m' a' ↦
      a'.Settled m' ∧ Answered (.shutdown kill) m' := by
  unfold onShutdown
  split
  · next hst =>
    refine (retire_keeps h hs none _).mono fun m' a' ha ↦ ⟨ha.1, .inl (ha.2.resolve_left ?_)⟩
    simp [isTransferred, hst]
  · next hst =>
    split
    · next hd =>
      exact (cancelBeforeLaunch_keeps h hd _ _ _).mono fun m' a' ha ↦ ⟨ha.2, .inr (.inl ha.1)⟩
    · next hd =>
      rcases h.launched hd with hl | hl <;> simp [hst] at hl
  · next hst =>
    simp only [Prog.keeps_bind, keeps_op, mayAsk, Ghost.next, Prog.keeps_pure]
    refine ⟨by simp [h.told, h.committed, hst], fun _ _ ↦ ?_⟩
    exact ⟨.inl ⟨hs, { h with flag := h.flag }⟩, .inr (.inr (by simp))⟩
  · next hn₁ hn₂ hn₃ =>
    by_cases hd : a.stage = .deciding
    · exact absurd (h.deciding hd) hn₂
    · rcases h.launched hd with hl | hl
      · exact absurd hl hn₁
      · exact absurd hl hn₃

/-- Every event, in every state the actor can be in, keeps the contract and leaves the
actor settled with the event answered. -/
theorem onEvent_keeps (h : a.Inv m) (hs : a.stage ≠ .done) (event : ActorEvent) :
    (a.onEvent event).Keeps duty (receive m event) fun m' a' ↦
      a'.Settled m' ∧ Answered event m' := by
  unfold onEvent
  split
  · refine Prog.Keeps.mono ?_ fun _ _ h ↦ ⟨h, trivial⟩
    split
    · next hd => exact decide_keeps (a := { a with syncing := false }) h hd.1
    · exact .inl ⟨hs, h⟩
  · exact (onReleased_keeps h hs _).mono fun _ _ h ↦ ⟨h, trivial⟩
  · exact (onCommit_keeps h hs _ _).mono fun _ _ h ↦ ⟨h, trivial⟩
  · exact (onCompleted_keeps h hs _ _).mono fun _ _ h ↦ ⟨h, trivial⟩
  · exact (onAck_keeps h hs _).mono fun _ _ h ↦ ⟨h, trivial⟩
  · exact (onReadyPoint_keeps h hs _).mono fun _ _ h ↦ ⟨h, trivial⟩
  · split
    · next hst =>
      refine (retire_keeps h hs none _).mono fun m' a' ha ↦ ⟨ha.1, .inl (ha.2.resolve_left ?_)⟩
      simp [isTransferred, hst]
    · next hst =>
      refine ⟨.inl ⟨hs, h⟩, ?_⟩
      by_cases hd : a.stage = .deciding
      · exact .inr (.inr (Bool.eq_false_iff.mpr fun hr ↦ h.ready hr hd))
      · exact .inr (.inl (by simp [receive, h.committed, (h.launched hd).resolve_left hst]))
  · exact onShutdown_keeps h hs _
  · refine Prog.Keeps.mono ?_ fun _ _ h ↦ ⟨h, trivial⟩
    split
    · next hd => exact onOwnerDeciding_keeps h hd _
    · exact onOwnerDecided_keeps h hs _

/-- The head of the actor's loop keeps the contract too. -/
theorem start_keeps (h : a.Inv m) (hs : a.stage ≠ .done) :
    a.start.Keeps duty m fun m' a' ↦ a'.Settled m' := by
  simp only [start, Prog.keeps_bind, keeps_frame]
  refine keeps_hold ?_ ?_
  · exact .inl ⟨hs, { h with releasing := by simp }⟩
  · simp only [Bool.false_eq_true, if_false, beginSync, Prog.keeps_bind, keeps_env, Prog.keeps_pure]
    exact fun _ ↦ .inl ⟨hs, h⟩

end Actor

end PtySpec.Daemon
