import PtySpec.Operation.Store

/-!
# How a record may move

`Move r n` is what every write of the launcher, the actor and recovery keeps: the
operation's name and envelope, the decision and the incarnation once they are set, and
the one-way order of the states. It is stated on its own, without the programs.
-/

namespace PtySpec.Operation

/-- The edges of the operation's states; a record may also stay where it is. -/
inductive State.Edge : State → State → Prop where
  | stay (s : State) : Edge s s
  | claim : Edge .reserved .pending
  | withdraw : Edge .reserved .cancelled
  | cancel : Edge .pending .cancelled
  | launch : Edge .pending .launched
  | transfer : Edge .launched .transferred

/-- What of an incarnation names it: everything but the child, which is filled in later. -/
def Incarnation.identity (i : Incarnation) : String × String × String × ProcessId :=
  (i.id, i.runtimeId, i.generation, i.daemon)

/-- `n` may follow `r`. -/
structure Move (r n : OperationRecord) : Prop where
  operationId : n.operationId = r.operationId
  envelope : n.envelope = r.envelope
  envelopeSha256 : n.envelopeSha256 = r.envelopeSha256
  state : r.state.Edge n.state
  decision : ∀ d, r.decision = some d → n.decision = some d
  incarnation : ∀ i, r.incarnation = some i →
    (n.incarnation.map Incarnation.identity) = some i.identity
  retirement : r.retirement.isSome = true → n.retirement.isSome = true

namespace Move

variable {r n : OperationRecord}

/-- The stamp of a write changes nothing a move is about. -/
theorem stamped (h : Move r n) (now : String) : Move r (n.stamped r now) :=
  ⟨h.operationId, h.envelope, h.envelopeSha256, h.state, h.decision, h.incarnation, h.retirement⟩

/-- A write that keeps the state, the decision and the incarnation's identity. -/
theorem same (hid : n.operationId = r.operationId) (henv : n.envelope = r.envelope)
    (hsha : n.envelopeSha256 = r.envelopeSha256) (hs : n.state = r.state)
    (hd : n.decision = r.decision)
    (hi : n.incarnation.map Incarnation.identity = r.incarnation.map Incarnation.identity)
    (hr : r.retirement.isSome = true → n.retirement.isSome = true) : Move r n where
  operationId := hid
  envelope := henv
  envelopeSha256 := hsha
  state := hs ▸ .stay _
  decision := fun d h ↦ hd ▸ h
  incarnation := fun i h ↦ by rw [hi, h]; rfl
  retirement := hr

/-- A write that takes an undecided record along an edge. -/
theorem decide (hc : r.check = .ok ()) (hu : r.state = .reserved ∨ r.state = .pending)
    (hid : n.operationId = r.operationId) (henv : n.envelope = r.envelope)
    (hsha : n.envelopeSha256 = r.envelopeSha256) (hs : r.state.Edge n.state)
    (hr : r.retirement.isSome = true → n.retirement.isSome = true) : Move r n := by
  obtain ⟨hd, hi, -⟩ := OperationRecord.undecided_of_check hc hu
  refine ⟨hid, henv, hsha, hs, fun d h ↦ ?_, fun i h ↦ ?_, hr⟩
  · rw [hd] at h
    cases h
  · rw [hi] at h
    cases h

end Move

/-! ### What a history keeps -/

/-- What a later version keeps of an earlier one, however many writes lie between them. -/
structure Kept (r n : OperationRecord) : Prop where
  operationId : n.operationId = r.operationId
  envelope : n.envelope = r.envelope
  envelopeSha256 : n.envelopeSha256 = r.envelopeSha256
  ended : r.state = .cancelled ∨ r.state = .transferred → n.state = r.state
  decision : ∀ d, r.decision = some d → n.decision = some d
  incarnation : ∀ i, r.incarnation = some i →
    (n.incarnation.map Incarnation.identity) = some i.identity
  retirement : r.retirement.isSome = true → n.retirement.isSome = true

/-- Nothing leads out of a cancelled or a transferred record. -/
theorem State.Edge.of_ended {s t : State} (h : s.Edge t)
    (hs : s = .cancelled ∨ s = .transferred) : t = s := by
  cases h <;> simp_all

theorem Move.kept {r n : OperationRecord} (h : Move r n) : Kept r n :=
  ⟨h.operationId, h.envelope, h.envelopeSha256, h.state.of_ended, h.decision, h.incarnation,
    h.retirement⟩

theorem Kept.trans {a b c : OperationRecord} (h : Kept a b) (k : Kept b c) : Kept a c where
  operationId := k.operationId.trans h.operationId
  envelope := k.envelope.trans h.envelope
  envelopeSha256 := k.envelopeSha256.trans h.envelopeSha256
  ended := fun hs ↦ by
    have hb := h.ended hs
    rw [k.ended (hb ▸ hs), hb]
  decision := fun d hd ↦ k.decision d (h.decision d hd)
  incarnation := fun i hi ↦ by
    obtain ⟨j, hj, hij⟩ := Option.map_eq_some_iff.mp (h.incarnation i hi)
    rw [k.incarnation j hj, hij]
  retirement := fun hr ↦ k.retirement (h.retirement hr)

/-- `newer` was written over `older`. -/
structure Follows (newer older : OperationRecord) : Prop where
  revision : newer.revision = older.revision + 1
  move : Move older newer

end PtySpec.Operation
