import PtySpec.Lib.Trace
import PtySpec.Serving.Clients

/-!
# The outbound side of one client

Model of `Client::send` and of the writer thread at the grain of their atomic operations:
`crates/pty/src/daemon/clients.rs:75-206`, `lifecycle.rs:800-829`. The daemon's thread tests
`rejected`, charges the frame, then queues it; the writer takes a frame, writes it, then
drops it, and the drop gives the charge back. `sent`, `accepted` and `delivered` remember
the frames given to `send`, those queued and those written whole.
-/

namespace PtySpec.Serving

open Lib Protocol

/-- The bytes of a packet with the capacity of their buffer. -/
structure Frame where
  bytes : List UInt8
  capacity : Nat
  deriving DecidableEq, Repr

/-- `QueuedBytes`, `clients.rs:81`. -/
structure QueuedBytes where
  frame : Frame
  charge : Nat
  deriving DecidableEq, Repr

/-- `Out`, `clients.rs:73`. -/
inductive Out where
  | bytes (queued : QueuedBytes)
  | end_
  | destroy
  deriving DecidableEq, Repr

/-- What of an `Out` is charged. -/
def Out.queued? : Out → Option QueuedBytes
  | bytes queued => some queued
  | end_ => none
  | destroy => none

/-- The charged frames of a queue. -/
def queuedIn (queue : List Out) : List QueuedBytes := queue.filterMap Out.queued?

/-- Where the daemon's thread is in `Client::send`: between calls, past the test of
`rejected`, with a charged frame in hand, refusing one, or about to shut the socket; or the
client is dropped. -/
inductive Sender where
  | idle
  | checking (frame : Frame)
  | charged (queued : QueuedBytes)
  | refusing (frame : Frame)
  | shutting
  | gone
  deriving DecidableEq, Repr

/-- Where the writer thread is, `lifecycle.rs:810`: waiting, with a frame to write, with one
written or failed that is not dropped yet, past its loop, or with its receiver dropped. -/
inductive Writer where
  | receiving
  | holding (queued : QueuedBytes)
  | wrote (queued : QueuedBytes)
  | failed (queued : QueuedBytes)
  | ending
  | discarding
  deriving DecidableEq, Repr

/-- The charged frame in the hand of the daemon's thread. -/
def Sender.queued? : Sender → Option QueuedBytes
  | charged queued => some queued
  | _ => none

/-- The frame that is neither queued nor refused yet. -/
def Sender.frame? : Sender → Option Frame
  | checking frame => some frame
  | charged queued => some queued.frame
  | refusing frame => some frame
  | _ => none

/-- The frame in the hand of the writer. -/
def Writer.queued? : Writer → Option QueuedBytes
  | holding queued => some queued
  | wrote queued => some queued
  | failed queued => some queued
  | _ => none

/-- The frame the writer has taken and not written. -/
def Writer.frame? : Writer → Option Frame
  | holding queued => some queued.frame
  | _ => none

/-- The writer is in its loop and has not failed. -/
def Writer.serves : Writer → Bool
  | receiving => true
  | holding _ => true
  | wrote _ => true
  | _ => false

@[simp] theorem queuedIn_bytes (q : QueuedBytes) (rest : List Out) :
    queuedIn (.bytes q :: rest) = q :: queuedIn rest := rfl
@[simp] theorem queuedIn_end (rest : List Out) : queuedIn (.end_ :: rest) = queuedIn rest := rfl
@[simp] theorem queuedIn_destroy (rest : List Out) :
    queuedIn (.destroy :: rest) = queuedIn rest := rfl
@[simp] theorem queuedIn_append (l k : List Out) :
    queuedIn (l ++ k) = queuedIn l ++ queuedIn k := by
  simp [queuedIn]
@[simp] theorem queuedIn_nil : queuedIn [] = [] := rfl
@[simp] theorem Sender.queued?_idle : Sender.idle.queued? = none := rfl
@[simp] theorem Sender.queued?_checking (f : Frame) : (Sender.checking f).queued? = none := rfl
@[simp] theorem Sender.queued?_charged (q : QueuedBytes) :
    (Sender.charged q).queued? = some q := rfl
@[simp] theorem Sender.queued?_refusing (f : Frame) : (Sender.refusing f).queued? = none := rfl
@[simp] theorem Sender.queued?_shutting : Sender.shutting.queued? = none := rfl
@[simp] theorem Sender.queued?_gone : Sender.gone.queued? = none := rfl
@[simp] theorem Writer.queued?_receiving : Writer.receiving.queued? = none := rfl
@[simp] theorem Writer.queued?_holding (q : QueuedBytes) :
    (Writer.holding q).queued? = some q := rfl
@[simp] theorem Writer.queued?_wrote (q : QueuedBytes) : (Writer.wrote q).queued? = some q := rfl
@[simp] theorem Writer.queued?_failed (q : QueuedBytes) : (Writer.failed q).queued? = some q := rfl
@[simp] theorem Writer.queued?_ending : Writer.ending.queued? = none := rfl
@[simp] theorem Writer.queued?_discarding : Writer.discarding.queued? = none := rfl

/-- The outbound side of a client, shared by the daemon's thread and its writer. -/
structure Outbound where
  pending : Nat := 0
  rejected : Bool := false
  hungUp : Bool := false
  shut : Bool := false
  queue : List Out := []
  sender : Sender := .idle
  writer : Writer := .receiving
  sent : List Frame := []
  accepted : List Frame := []
  delivered : List Frame := []
  deriving DecidableEq, Repr

/-- The atomic steps of the two threads. -/
inductive OutLabel where
  | send (frame : Frame)
  | charge
  | enqueue
  | refuse
  | shutdown
  | finish (destroy : Bool)
  | leave
  | recv
  | write
  | writeFails
  | release
  | hangUp
  | discard

/-- `usize::checked_add`. -/
def checkedAdd (a b : Nat) : Option Nat := if a + b < 2 ^ 64 then some (a + b) else none

/-- `AtomicUsize::fetch_sub`, which wraps. -/
def fetchSub (a b : Nat) : Nat := (a + 2 ^ 64 - b) % 2 ^ 64

namespace Outbound

/-- The charge of a frame and the new total, when both fit, `clients.rs:164-174`. -/
def chargeFor (pending : Nat) (frame : Frame) : Option (Nat × Nat) :=
  (checkedAdd frame.capacity OUTBOUND_ITEM_OVERHEAD).bind fun charge ↦
    ((checkedAdd pending charge).filter (· ≤ OUTBOUND_QUEUE_BYTES)).map fun total ↦
      (charge, total)

/-- `Client::send`, `clients.rs:160-206`, one atomic operation at a time. -/
def sendStep (s : Outbound) : OutLabel → Option Outbound
  | .send frame =>
    if s.sender = .idle then
      some { s with
        sent := s.sent ++ [frame]
        sender := if s.rejected then .idle else .checking frame }
    else none
  | .charge =>
    match s.sender with
    | .checking frame =>
      match chargeFor s.pending frame with
      | some (charge, total) => some { s with pending := total, sender := .charged ⟨frame, charge⟩ }
      | none => some { s with sender := .refusing frame }
    | _ => none
  | .enqueue =>
    match s.sender with
    | .charged queued =>
      -- a failed send gives the item back, and its drop releases the charge
      if s.hungUp then
        some { s with pending := fetchSub s.pending queued.charge, sender := .shutting }
      else
        some { s with
          queue := s.queue ++ [.bytes queued]
          accepted := s.accepted ++ [queued.frame]
          sender := .idle }
    | _ => none
  | .refuse =>
    match s.sender with
    | .refusing _ => some { s with rejected := true, sender := .shutting }
    | _ => none
  | .shutdown =>
    if s.sender = .shutting then some { s with shut := true, sender := .idle } else none
  | .finish destroy =>
    if s.sender = .idle then
      if s.hungUp then some { s with sender := .shutting }
      else some { s with queue := s.queue ++ [if destroy then .destroy else .end_] }
    else none
  | .leave => if s.sender = .idle then some { s with sender := .gone } else none
  | _ => none

/-- The writer thread, `lifecycle.rs:810-829`. -/
def writerStep (s : Outbound) : OutLabel → Option Outbound
  | .recv =>
    if s.writer = .receiving then
      match s.queue with
      | .bytes queued :: rest => some { s with queue := rest, writer := .holding queued }
      | .end_ :: rest => some { s with queue := rest, shut := true }
      | .destroy :: rest => some { s with queue := rest, writer := .ending }
      | [] => if s.sender = .gone then some { s with writer := .ending } else none
    else none
  | .write =>
    match s.writer with
    | .holding queued =>
      if s.shut then none
      else some { s with writer := .wrote queued, delivered := s.delivered ++ [queued.frame] }
    | _ => none
  | .writeFails =>
    match s.writer with
    | .holding queued => some { s with writer := .failed queued }
    | _ => none
  | .release =>
    match s.writer with
    | .wrote queued =>
      some { s with writer := .receiving, pending := fetchSub s.pending queued.charge }
    | .failed queued =>
      some { s with writer := .ending, pending := fetchSub s.pending queued.charge }
    | _ => none
  | .hangUp =>
    if s.writer = .ending then
      some { s with writer := .discarding, hungUp := true, shut := true }
    else none
  | .discard =>
    if s.writer = .discarding then
      match s.queue with
      | .bytes queued :: rest =>
        some { s with queue := rest, pending := fetchSub s.pending queued.charge }
      | _ :: rest => some { s with queue := rest }
      | [] => none
    else none
  | _ => none

/-- One step of either thread. -/
def step (s : Outbound) (l : OutLabel) : Option Outbound :=
  (s.sendStep l).or (s.writerStep l)

/-- A new client, `clients.rs:136`. -/
def Init (s : Outbound) : Prop := s = {}

/-- The states that runs reach. -/
def Reached : Outbound → Prop := Runs Init step

/-- The frames that are queued or in flight: in the hand of the daemon's thread, of the
writer, or in the queue. -/
def outstanding (s : Outbound) : List QueuedBytes :=
  s.sender.queued?.toList ++ (s.writer.queued?.toList ++ queuedIn s.queue)

/-- The frames in the queue. -/
def queued (s : Outbound) : List Frame := (queuedIn s.queue).map (·.frame)

/-! ### Charges -/

/-- The counter is the sum of the charges of the frames queued or in flight, and bounded. -/
structure Charged (s : Outbound) : Prop where
  total : s.pending = (s.outstanding.map (·.charge)).sum
  bounded : s.pending ≤ OUTBOUND_QUEUE_BYTES
  measured : ∀ q ∈ s.outstanding, q.charge = q.frame.capacity + OUTBOUND_ITEM_OVERHEAD

variable {s t : Outbound} {l : OutLabel}

private theorem fetchSub_eq {a b : Nat} (hb : b ≤ a) (ha : a ≤ OUTBOUND_QUEUE_BYTES) :
    fetchSub a b = a - b := by
  have hlt : a - b < 2 ^ 64 := by
    unfold OUTBOUND_QUEUE_BYTES at ha
    omega
  have hadd : a + 2 ^ 64 - b = (a - b) + 2 ^ 64 := by omega
  rw [fetchSub, hadd, Nat.add_mod_right, Nat.mod_eq_of_lt hlt]

/-- A frame is admitted with its exact charge when the total stays within the bound; neither
addition can overflow then. -/
private theorem chargeFor_eq (pending : Nat) (frame : Frame) :
    chargeFor pending frame =
      if pending + (frame.capacity + OUTBOUND_ITEM_OVERHEAD) ≤ OUTBOUND_QUEUE_BYTES then
        some (frame.capacity + OUTBOUND_ITEM_OVERHEAD,
          pending + (frame.capacity + OUTBOUND_ITEM_OVERHEAD))
      else none := by
  unfold chargeFor checkedAdd
  generalize frame.capacity + OUTBOUND_ITEM_OVERHEAD = charge
  by_cases hf : pending + charge ≤ OUTBOUND_QUEUE_BYTES
  · have h₂ : pending + charge < 2 ^ 64 := by
      unfold OUTBOUND_QUEUE_BYTES at hf
      omega
    have h₁ : charge < 2 ^ 64 := by omega
    rw [if_pos h₁, Option.bind_some, if_pos h₂, Option.filter_some, if_pos (by simpa using hf),
      Option.map_some, if_pos hf]
  · rw [if_neg hf]
    split
    · rw [Option.bind_some]
      split
      · rw [Option.filter_some, if_neg (by simpa using hf), Option.map_none]
      · rfl
    · rfl

/-- Giving back the charge of an outstanding frame leaves the others outstanding. -/
private theorem Charged.release (h : s.Charged) {q : QueuedBytes}
    (hp : s.outstanding.Perm (q :: t.outstanding))
    (ht : t.pending = fetchSub s.pending q.charge := by rfl) : t.Charged := by
  have hs : s.pending = q.charge + (t.outstanding.map (·.charge)).sum := by
    rw [h.total, (hp.map _).sum_eq, List.map_cons, List.sum_cons]
  have hb := h.bounded
  have hsub := fetchSub_eq (a := s.pending) (b := q.charge) (by omega) hb
  constructor
  · omega
  · omega
  · intro q' hq'
    exact h.measured q' (hp.mem_iff.mpr (List.mem_cons_of_mem _ hq'))

/-- The same frames outstanding, in whatever hands, under the same counter. -/
private theorem Charged.congr (h : s.Charged) (hp : t.pending = s.pending)
    (ho : t.outstanding.Perm s.outstanding) : t.Charged := by
  constructor
  · rw [hp, h.total, (ho.map _).sum_eq]
  · rw [hp]
    exact h.bounded
  · intro q hq
    exact h.measured q (ho.mem_iff.mp hq)

private theorem Charged.sendStep (h : s.Charged) (hs : s.sendStep l = some t) : t.Charged := by
  unfold Outbound.sendStep at hs
  split at hs
  · split at hs
    · next hi =>
      cases hs
      refine h.congr rfl ?_
      cases hr : s.rejected <;> simp [outstanding, hi]
    · cases hs
  · split at hs
    · next frame hi =>
      split at hs
      · next charge total ha =>
        rw [chargeFor_eq, Option.ite_none_right_eq_some, Option.some.injEq, Prod.mk.injEq] at ha
        obtain ⟨hle, hc, rfl⟩ := ha
        cases hs
        refine ⟨?_, hle, ?_⟩
        · rw [h.total]
          simp [outstanding, hi, Nat.add_comm, ← hc]
        · intro q hq
          rcases List.mem_cons.mp hq with rfl | hq
          · exact hc.symm
          · exact h.measured q (by simpa [outstanding, hi] using hq)
      · cases hs
        exact h.congr rfl (by simp [outstanding, hi])
    · cases hs
  · split at hs
    · next queued hi =>
      split at hs
      · cases hs
        exact h.release (q := queued) (by simp [outstanding, hi])
      · cases hs
        refine h.congr rfl ?_
        simp [outstanding, hi, ← List.append_assoc]
    · cases hs
  · split at hs
    · next frame hi =>
      cases hs
      exact h.congr rfl (by simp [outstanding, hi])
    · cases hs
  · split at hs
    · next hi =>
      cases hs
      exact h.congr rfl (by simp [outstanding, hi])
    · cases hs
  · next destroy =>
    split at hs
    · next hi =>
      split at hs
      · cases hs
        exact h.congr rfl (by simp [outstanding, hi])
      · cases hs
        refine h.congr rfl ?_
        cases destroy <;> simp [outstanding]
    · cases hs
  · split at hs
    · next hi =>
      cases hs
      exact h.congr rfl (by simp [outstanding, hi])
    · cases hs
  · cases hs

private theorem Charged.writerStep (h : s.Charged) (hs : s.writerStep l = some t) :
    t.Charged := by
  unfold Outbound.writerStep at hs
  split at hs
  · split at hs
    · next hw =>
      split at hs
      · next queued rest hq =>
        cases hs
        exact h.congr rfl (by simp [outstanding, hw, hq])
      · next rest hq =>
        cases hs
        exact h.congr rfl (by simp [outstanding, hq])
      · next rest hq =>
        cases hs
        exact h.congr rfl (by simp [outstanding, hw, hq])
      · next hq =>
        split at hs
        · cases hs
          exact h.congr rfl (by simp [outstanding, hw])
        · cases hs
    · cases hs
  · split at hs
    · next queued hw =>
      split at hs
      · cases hs
      · cases hs
        exact h.congr rfl (by simp [outstanding, hw])
    · cases hs
  · split at hs
    · next queued hw =>
      cases hs
      exact h.congr rfl (by simp [outstanding, hw])
    · cases hs
  · split at hs
    · next queued hw =>
      cases hs
      exact h.release (q := queued) (by simp [outstanding, hw])
    · next queued hw =>
      cases hs
      exact h.release (q := queued) (by simp [outstanding, hw])
    · cases hs
  · split at hs
    · next hw =>
      cases hs
      exact h.congr rfl (by simp [outstanding, hw])
    · cases hs
  · split at hs
    · next hw =>
      split at hs
      · next queued rest hq =>
        cases hs
        exact h.release (q := queued) (by simp [outstanding, hw, hq])
      · next out rest hne hq =>
        cases hs
        refine h.congr rfl ?_
        cases out with
        | bytes queued => exact absurd rfl (hne queued)
        | end_ => simp [outstanding, hq]
        | destroy => simp [outstanding, hq]
      · cases hs
    · cases hs
  · cases hs

/-! ### Order -/

/-- The frames delivered, accepted and sent lie in this order, each list a beginning of the
next; nothing is lost before a rejection or the end of the writer. -/
structure Ordered (s : Outbound) : Prop where
  accepted_le : s.accepted <+: s.sent
  open_ : s.rejected = false → s.hungUp = false → s.sent = s.accepted ++ s.sender.frame?.toList
  refused : s.rejected = true → s.sender.frame? = none
  delivered_le : s.delivered <+: s.accepted
  serving : s.writer.serves = true →
    s.accepted = s.delivered ++ (s.writer.frame?.toList ++ s.queued)
  hung : s.hungUp = true → s.writer = .discarding

/-- Only the place of the daemon's thread changes, and no frame is taken up or let go. -/
private theorem Ordered.sender (h : s.Ordered) {sender : Sender}
    (hf : sender.frame? = s.sender.frame?) : Ordered { s with sender := sender } := by
  refine ⟨h.accepted_le, ?_, ?_, h.delivered_le, h.serving, h.hung⟩
  · intro hr hh
    rw [h.open_ hr hh]
    simp [hf]
  · intro hr
    exact hf.trans (h.refused hr)

/-- Once rejected or without a writer, what the daemon's thread has in hand is not queued. -/
private theorem Ordered.cutOff (h : s.Ordered) {sender : Sender} {pending : Nat}
    {rejected shut : Bool}
    (hc : rejected = true ∨ s.hungUp = true) (hf : sender.frame? = none) :
    Ordered { s with
      pending := pending, rejected := rejected, shut := shut, sender := sender } := by
  refine ⟨h.accepted_le, ?_, fun _ ↦ hf, h.delivered_le, h.serving, h.hung⟩
  intro hr hh
  rcases hc with hc | hc
  · exact absurd (hc.symm.trans hr) (by decide)
  · exact absurd (hc.symm.trans hh) (by decide)

private theorem Ordered.enqueue (h : s.Ordered) {queued : QueuedBytes}
    (hi : s.sender = .charged queued) (hh : s.hungUp = false) :
    Ordered { s with
      queue := s.queue ++ [.bytes queued]
      accepted := s.accepted ++ [queued.frame]
      sender := .idle } := by
  have hr : s.rejected = false := by
    cases hr : s.rejected with
    | false => rfl
    | true => simpa [hi, Sender.frame?] using h.refused hr
  have hsent : s.sent = s.accepted ++ [queued.frame] := by
    simpa [hi, Sender.frame?] using h.open_ hr hh
  refine ⟨?_, ?_, fun _ ↦ rfl, ?_, ?_, h.hung⟩
  · rw [hsent]
  · intro _ _
    simpa [Sender.frame?] using hsent
  · exact h.delivered_le.trans (List.prefix_append _ _)
  · intro hw
    show s.accepted ++ [queued.frame] = _
    rw [h.serving hw]
    simp [Outbound.queued]

private theorem Ordered.sendStep (h : s.Ordered) (hs : s.sendStep l = some t) : t.Ordered := by
  unfold Outbound.sendStep at hs
  split at hs
  · next frame =>
    split at hs
    · next hi =>
      cases hs
      refine ⟨h.accepted_le.trans (List.prefix_append _ _), ?_, ?_, h.delivered_le, h.serving,
        h.hung⟩
      · intro hr hh
        show s.sent ++ [frame] = _
        rw [h.open_ hr hh, hi]
        simp [show s.rejected = false from hr, Sender.frame?]
      · intro hr
        simp [show s.rejected = true from hr, Sender.frame?]
    · cases hs
  · split at hs
    · next frame hi =>
      split at hs
      · cases hs
        exact Ordered.mk h.accepted_le (by simpa [hi, Sender.frame?] using h.open_)
          (by simpa [hi, Sender.frame?] using h.refused) h.delivered_le h.serving h.hung
      · cases hs
        exact h.sender (by simp [hi, Sender.frame?])
    · cases hs
  · split at hs
    · next queued hi =>
      split at hs
      · next hh =>
        cases hs
        exact h.cutOff (.inr hh) rfl
      · next hh =>
        cases hs
        exact h.enqueue hi (by simpa using hh)
    · cases hs
  · split at hs
    · cases hs
      exact h.cutOff (.inl rfl) rfl
    · cases hs
  · split at hs
    · next hi =>
      cases hs
      refine ⟨h.accepted_le, ?_, fun _ ↦ rfl, h.delivered_le, h.serving, h.hung⟩
      intro hr hh
      simpa [hi, Sender.frame?] using h.open_ hr hh
    · cases hs
  · next destroy =>
    split at hs
    · next hi =>
      split at hs
      · next hh =>
        cases hs
        exact h.cutOff (.inr hh) rfl
      · cases hs
        refine ⟨h.accepted_le, h.open_, h.refused, h.delivered_le, ?_, h.hung⟩
        intro hw
        rw [show s.accepted = _ from h.serving hw]
        cases destroy <;> simp [Outbound.queued]
    · cases hs
  · split at hs
    · next hi =>
      cases hs
      exact h.sender (by simp [hi, Sender.frame?])
    · cases hs
  · cases hs

/-- The writer moves on without having failed. -/
private theorem Ordered.writes (h : s.Ordered) {queue : List Out} {writer : Writer}
    {delivered : List Frame} {pending : Nat} {shut : Bool} (hw : s.writer.serves = true)
    (hd : delivered ++ (writer.frame?.toList ++ (queuedIn queue).map (·.frame)) =
      s.delivered ++ (s.writer.frame?.toList ++ s.queued)) :
    Ordered { s with
      pending := pending, shut := shut, queue := queue, writer := writer,
      delivered := delivered } := by
  have ha := (h.serving hw).trans hd.symm
  refine ⟨h.accepted_le, h.open_, h.refused, ?_, fun _ ↦ ha, ?_⟩
  · rw [show s.accepted = _ from ha]
    exact List.prefix_append _ _
  · intro hh
    rw [h.hung hh] at hw
    cases hw

/-- The writer is past its loop: what it has not written stays unwritten. -/
private theorem Ordered.ends (h : s.Ordered) {queue : List Out} {writer : Writer} {pending : Nat}
    {hungUp shut : Bool} (hw : writer.serves = false)
    (hh : hungUp = true → writer = .discarding) (hu : hungUp = false → s.hungUp = false) :
    Ordered { s with
      pending := pending, hungUp := hungUp, shut := shut, queue := queue, writer := writer } := by
  refine ⟨h.accepted_le, ?_, h.refused, h.delivered_le, ?_, hh⟩
  · intro hr hf
    exact h.open_ hr (hu hf)
  · intro hs
    exact absurd (hw.symm.trans hs) (by decide)

private theorem Ordered.writerStep (h : s.Ordered) (hs : s.writerStep l = some t) :
    t.Ordered := by
  have hun : s.writer ≠ .discarding → s.hungUp = false := by
    intro hne
    cases hh : s.hungUp with
    | false => rfl
    | true => exact absurd (h.hung hh) hne
  unfold Outbound.writerStep at hs
  split at hs
  · split at hs
    · next hw =>
      have hsv : s.writer.serves = true := by rw [hw]; rfl
      split at hs
      · next queued rest hq =>
        cases hs
        exact h.writes hsv (by simp [hw, hq, Outbound.queued, Writer.frame?])
      · next rest hq =>
        cases hs
        exact h.writes hsv (by simp [hw, hq, Outbound.queued, Writer.frame?])
      · cases hs
        exact h.ends rfl (by simp [hun, hw]) (by simp [hun, hw])
      · split at hs
        · cases hs
          exact h.ends rfl (by simp [hun, hw]) (by simp [hun, hw])
        · cases hs
    · cases hs
  · split at hs
    · next queued hw =>
      have hsv : s.writer.serves = true := by rw [hw]; rfl
      split at hs
      · cases hs
      · cases hs
        exact h.writes hsv (by simp [hw, Outbound.queued, Writer.frame?])
    · cases hs
  · split at hs
    · next queued hw =>
      cases hs
      exact h.ends rfl (by simp [hun, hw]) (by simp [hun, hw])
    · cases hs
  · split at hs
    · next queued hw =>
      have hsv : s.writer.serves = true := by rw [hw]; rfl
      cases hs
      exact h.writes hsv (by simp [hw, Outbound.queued, Writer.frame?])
    · next queued hw =>
      cases hs
      exact h.ends rfl (by simp [hun, hw]) (by simp [hun, hw])
    · cases hs
  · split at hs
    · cases hs
      exact h.ends rfl (by simp) (by simp)
    · cases hs
  · split at hs
    · next hw =>
      split at hs
      · cases hs
        exact h.ends (by rw [hw]; rfl) (fun _ ↦ hw) (fun hf ↦ hf)
      · cases hs
        exact h.ends (by rw [hw]; rfl) (fun _ ↦ hw) (fun hf ↦ hf)
      · cases hs
    · cases hs
  · cases hs

/-! ### Runs -/

private theorem Charged.step (h : s.Charged) (hs : s.step l = some t) : t.Charged := by
  rcases Option.or_eq_some_iff.mp hs with hs | ⟨-, hs⟩
  · exact h.sendStep hs
  · exact h.writerStep hs

private theorem Ordered.step (h : s.Ordered) (hs : s.step l = some t) : t.Ordered := by
  rcases Option.or_eq_some_iff.mp hs with hs | ⟨-, hs⟩
  · exact h.sendStep hs
  · exact h.writerStep hs

private theorem reached_charged (h : Reached s) : s.Charged :=
  h.induct (by rintro _ rfl; exact ⟨rfl, Nat.zero_le _, by simp [outstanding]⟩)
    fun _ _ _ _ hp hst ↦ hp.step hst

private theorem reached_ordered (h : Reached s) : s.Ordered :=
  h.induct (by rintro _ rfl; exact ⟨by simp, fun _ _ ↦ rfl, by simp, by simp, fun _ ↦ rfl, by simp⟩)
    fun _ _ _ _ hp hst ↦ hp.step hst

/-- After a rejection the daemon's thread queues no frame: it has none in hand and takes up
none. -/
private theorem Ordered.rejected_sendStep (h : s.Ordered) (hr : s.rejected = true)
    (hs : s.sendStep l = some t) :
    t.rejected = true ∧ t.accepted = s.accepted ∧ t.queued = s.queued := by
  have hno := h.refused hr
  unfold Outbound.sendStep at hs
  split at hs
  · split at hs
    · cases hs
      exact ⟨hr, rfl, rfl⟩
    · cases hs
  · split at hs
    · next frame hi => simp [hi, Sender.frame?] at hno
    · cases hs
  · split at hs
    · next queued hi => simp [hi, Sender.frame?] at hno
    · cases hs
  · split at hs
    · next frame hi => simp [hi, Sender.frame?] at hno
    · cases hs
  · split at hs
    · cases hs
      exact ⟨hr, rfl, rfl⟩
    · cases hs
  · next destroy =>
    split at hs
    · split at hs
      · cases hs
        exact ⟨hr, rfl, rfl⟩
      · cases hs
        refine ⟨hr, rfl, ?_⟩
        cases destroy <;> simp [queued]
    · cases hs
  · split at hs
    · cases hs
      exact ⟨hr, rfl, rfl⟩
    · cases hs
  · cases hs

/-- The writer only takes from the queue. -/
private theorem writerStep_queued (hs : s.writerStep l = some t) :
    t.rejected = s.rejected ∧ t.accepted = s.accepted ∧ t.queued <:+ s.queued := by
  unfold Outbound.writerStep at hs
  split at hs
  · split at hs
    · split at hs
      · next hq =>
        cases hs
        exact ⟨rfl, rfl, by simp [queued, hq]⟩
      · next hq =>
        cases hs
        exact ⟨rfl, rfl, by simp [queued, hq]⟩
      · next hq =>
        cases hs
        exact ⟨rfl, rfl, by simp [queued, hq]⟩
      · split at hs
        · cases hs
          exact ⟨rfl, rfl, by simp [queued]⟩
        · cases hs
    · cases hs
  · split at hs
    · split at hs
      · cases hs
      · cases hs
        exact ⟨rfl, rfl, by simp [queued]⟩
    · cases hs
  · split at hs
    · cases hs
      exact ⟨rfl, rfl, by simp [queued]⟩
    · cases hs
  · split at hs
    · cases hs
      exact ⟨rfl, rfl, by simp [queued]⟩
    · cases hs
      exact ⟨rfl, rfl, by simp [queued]⟩
    · cases hs
  · split at hs
    · cases hs
      exact ⟨rfl, rfl, by simp [queued]⟩
    · cases hs
  · split at hs
    · split at hs
      · next hq =>
        cases hs
        exact ⟨rfl, rfl, by simp [queued, hq]⟩
      · next out rest _ hq =>
        cases hs
        refine ⟨rfl, rfl, ?_⟩
        rw [queued, queued, hq]
        exact ((List.suffix_cons out rest).filterMap _).map _
      · cases hs
    · cases hs
  · cases hs

/-- A run after a rejection queues no frame. -/
private theorem Ordered.rejected_run (h : s.Ordered) (hr : s.rejected = true)
    (ht : Relation.ReflTransGen (fun s t ↦ ∃ l, s.step l = some t) s t) :
    t.Ordered ∧ t.rejected = true ∧ t.accepted = s.accepted ∧ t.queued <:+ s.queued := by
  induction ht with
  | refl => exact ⟨h, hr, rfl, List.suffix_refl _⟩
  | tail _ hst ih =>
    obtain ⟨l, hst⟩ := hst
    obtain ⟨ho, hr', ha, hq⟩ := ih
    refine ⟨ho.step hst, ?_⟩
    rcases Option.or_eq_some_iff.mp hst with hs | ⟨-, hs⟩
    · obtain ⟨hr'', ha', hq'⟩ := ho.rejected_sendStep hr' hs
      exact ⟨hr'', ha'.trans ha, hq' ▸ hq⟩
    · obtain ⟨hr'', ha', hq'⟩ := writerStep_queued hs
      exact ⟨hr''.trans hr', ha'.trans ha, hq'.trans hq⟩

/-- In every state that sends, dequeues, completions and rejections reach, the counter is
the sum of the charges of the frames queued or in flight, at most `OUTBOUND_QUEUE_BYTES`,
and each of them can be given back; after a rejection no frame is queued any more, and
the frames delivered are the first of those sent. -/
theorem outbound_of_reached (h : Reached s) :
    s.pending = (s.outstanding.map (·.charge)).sum ∧
      (∀ q ∈ s.outstanding, q.charge = q.frame.capacity + OUTBOUND_ITEM_OVERHEAD) ∧
      (∀ q ∈ s.outstanding, q.charge ≤ s.pending) ∧
      s.pending ≤ OUTBOUND_QUEUE_BYTES ∧
      (s.rejected = true →
        ∀ t, Relation.ReflTransGen (fun s t ↦ ∃ l, s.step l = some t) s t →
          t.rejected = true ∧ t.accepted = s.accepted ∧ t.queued <:+ s.queued) ∧
      s.delivered <+: s.sent := by
  have hc := reached_charged h
  have ho := reached_ordered h
  refine ⟨hc.total, hc.measured, ?_, hc.bounded, ?_, ho.delivered_le.trans ho.accepted_le⟩
  · intro q hq
    rw [hc.total]
    exact List.le_sum_of_mem (List.mem_map_of_mem hq)
  · intro hr t ht
    exact (ho.rejected_run hr ht).2

/-- One frame is delivered, a second waits in the queue, and a third does not fit. -/
private def slow : List OutLabel :=
  [.send ⟨[1], 16⟩, .charge, .enqueue, .recv, .send ⟨[2], OUTBOUND_QUEUE_BYTES / 2⟩, .write,
    .charge, .release, .enqueue, .send ⟨[3], OUTBOUND_QUEUE_BYTES / 2⟩, .charge, .refuse, .shutdown]

theorem outbound_of_reached_slow : ∃ s, Reached s ∧ s.rejected = true ∧
    s.delivered = [⟨[1], 16⟩] ∧ s.delivered <+: s.sent := by
  have h : (replay step {} slow).map (fun s ↦ (s.rejected, s.delivered)) =
      some (true, [⟨[1], 16⟩]) := by decide +kernel
  obtain ⟨s, hs, hp⟩ := Option.map_eq_some_iff.mp h
  rw [Prod.mk.injEq] at hp
  have hrun : Reached s := Runs.replay (Reachable.base rfl) hs
  exact ⟨s, hrun, hp.1, hp.2, (outbound_of_reached hrun).2.2.2.2.2⟩

/-! ### The client of the message handlers -/

/-- The outbound side of a client that no thread is working on. -/
structure Shows (capacity : Packet → Nat) (c : Client) (s : Outbound) : Prop where
  pending : s.pending = c.pendingBytes
  rejected : s.rejected = c.rejected
  hungUp : s.hungUp = c.hungUp
  queue : s.queue = c.tx.map fun p ↦ .bytes ⟨⟨p.encode, capacity p⟩, charge capacity p⟩
  idle : s.sender = .idle

/-- `Client.send` is what the daemon's thread does when the writer stands still. -/
theorem Shows.send {capacity : Packet → Nat} {c : Client} (h : Shows capacity c s)
    (position : Nat) (packet : Packet) :
    ∃ labels t, replay sendStep s labels = some t ∧
      Shows capacity (c.send capacity position packet) t := by
  have hadm : chargeFor c.pendingBytes ⟨packet.encode, capacity packet⟩ =
      if c.pendingBytes + charge capacity packet ≤ OUTBOUND_QUEUE_BYTES then
        some (charge capacity packet, c.pendingBytes + charge capacity packet)
      else none := chargeFor_eq _ _
  unfold Client.send
  split
  · next hr =>
    refine ⟨[.send ⟨packet.encode, capacity packet⟩], ?_⟩
    simp only [replay, sendStep, h.idle, if_true, h.rejected, hr, Option.bind_some]
    exact ⟨_, rfl, h.pending, hr.symm, h.hungUp, h.queue, rfl⟩
  · next hr =>
    rw [Bool.not_eq_true] at hr
    split
    · next hf =>
      rw [if_pos hf] at hadm
      split
      · next hu =>
        refine ⟨[.send ⟨packet.encode, capacity packet⟩, .charge, .enqueue, .shutdown], ?_⟩
        simp only [replay, sendStep, h.idle, if_true, h.rejected, hr, Bool.false_eq_true, if_false,
          Option.bind_some, h.pending, hadm, h.hungUp, hu]
        refine ⟨_, rfl, ?_, hr.symm, hu.symm, h.queue, rfl⟩
        exact (fetchSub_eq (Nat.le_add_left _ _) hf).trans (Nat.add_sub_cancel _ _)
      · next hu =>
        refine ⟨[.send ⟨packet.encode, capacity packet⟩, .charge, .enqueue], ?_⟩
        rw [Bool.not_eq_true] at hu
        simp only [replay, sendStep, h.idle, if_true, h.rejected, hr, Bool.false_eq_true, if_false,
          Option.bind_some, h.pending, hadm, h.hungUp, hu]
        refine ⟨_, rfl, rfl, rfl, rfl, ?_, rfl⟩
        simp [h.queue]
    · next hf =>
      rw [if_neg hf] at hadm
      refine ⟨[.send ⟨packet.encode, capacity packet⟩, .charge, .refuse, .shutdown], ?_⟩
      simp only [replay, sendStep, h.idle, if_true, h.rejected, hr, Bool.false_eq_true, if_false,
        Option.bind_some, h.pending, hadm]
      exact ⟨_, rfl, rfl, rfl, h.hungUp, h.queue, rfl⟩

end Outbound
end PtySpec.Serving
