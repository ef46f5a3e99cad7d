import Mathlib

/-!
# Attachment queues

The bounded event queue that the actor, one stream and the reader of the terminal share,
`pty-spawn/src/substrate.rs:205`. Every operation is one critical section of its lock. The
size of an event's own value, which the compiler chooses, is a parameter.
-/

namespace PtySpec.Substrate

/-- `ExitStatus`, `substrate.rs:90`. -/
structure ExitStatus where
  code : Option Int
  signal : Option Int
  deriving DecidableEq, Repr

/-- `Lifecycle`, `substrate.rs:147`. -/
inductive Lifecycle where
  | running
  | exited (status : ExitStatus)
  | ownerLost
  deriving DecidableEq, Repr

/-- `PtySize` of the terminal library. -/
structure PtySize where
  rows : Nat
  cols : Nat
  pixelWidth : Nat
  pixelHeight : Nat
  deriving DecidableEq, Repr

/-- `SessionEvent`, `substrate.rs:155`. -/
inductive SessionEvent where
  | data (bytes : List UInt8)
  | outputClosed
  | lifecycle (state : Lifecycle)
  | geometry (size : PtySize)
  deriving DecidableEq, Repr

/-- `SessionError`, `substrate.rs:166`. -/
inductive SessionError where
  | staleGeneration (expected actual : String)
  | ownerLost
  | exited (status : ExitStatus)
  | closed
  | io (message : String)
  | overflowed (capacity : Nat)
  | inputBackpressure
  deriving DecidableEq, Repr

/-- `MIN_ATTACHMENT_CAPACITY`. -/
def minAttachmentCapacity : Nat := 64 * 1024

/-- `READ_CHUNK`. -/
def readChunk : Nat := 16 * 1024

/-- `INPUT_QUEUE_DEPTH`. -/
def inputQueueDepth : Nat := 64

/-- `event_cost`, `substrate.rs:205`. -/
def eventCost (size : Nat) : SessionEvent → Nat
  | .data bytes => size + bytes.length
  | _ => size

/-- The cost of events together. -/
def cost (size : Nat) (events : List SessionEvent) : Nat := (events.map (eventCost size)).sum

/-- The data of events. -/
def datas : List SessionEvent → List (List UInt8)
  | [] => []
  | .data bytes :: rest => bytes :: datas rest
  | _ :: rest => datas rest

/-- The lifecycle values of events. -/
def lifecycles : List SessionEvent → List Lifecycle
  | [] => []
  | .lifecycle state :: rest => state :: lifecycles rest
  | _ :: rest => lifecycles rest

/-- `OnFull`, `substrate.rs:214`. -/
inductive OnFull where
  | detach
  | holdReader
  deriving DecidableEq, Repr

/-- `Queue` and its `QueueState`, `substrate.rs:223`. -/
structure Queue where
  capacity : Nat
  onFull : OnFull
  events : List SessionEvent
  queued : Nat
  reserved : Nat
  overflowed : Bool
  senderGone : Bool
  receiverGone : Bool
  deriving DecidableEq, Repr

namespace Queue

/-- `Queue::new`, `substrate.rs:244`. -/
def new (capacity : Nat) (onFull : OnFull) : Queue :=
  ⟨capacity, onFull, [], 0, 0, false, false, false⟩

/-- Bytes that arrive are not on their way any more. -/
def unreserve (q : Queue) : SessionEvent → Queue
  | .data bytes => { q with reserved := q.reserved - bytes.length }
  | _ => q

/-- `Queue::push`, `substrate.rs:267`. -/
def push (size : Nat) (q : Queue) (event : SessionEvent) : Queue × Bool :=
  if q.receiverGone || q.overflowed then (q, false)
  else
    let r := q.unreserve event
    if r.onFull = .detach ∧ r.queued + eventCost size event > r.capacity then
      ({ r with overflowed := true }, false)
    else
      ({ r with queued := r.queued + eventCost size event, events := r.events ++ [event] }, true)

/-- `Queue::wait_for_room` returns, `substrate.rs:289`. -/
def hasRoom (q : Queue) : Bool :=
  q.receiverGone || q.senderGone || decide (q.queued + q.reserved < q.capacity)

/-- `Queue::reserve`, `substrate.rs:299`. -/
def reserve (q : Queue) (bytes : Nat) : Queue := { q with reserved := q.reserved + bytes }

/-- `Queue::pop`, `substrate.rs:303`; it waits on `none`. -/
def pop (size : Nat) (q : Queue) : Option (Except SessionError SessionEvent × Queue) :=
  match q.events with
  | event :: rest =>
    some (.ok event, { q with events := rest, queued := q.queued - eventCost size event })
  | [] =>
    if q.overflowed then some (.error (.overflowed q.capacity), q)
    else if q.senderGone then some (.error .closed, q)
    else none

/-- The actor drops its end, `substrate.rs:340`. -/
def dropSender (q : Queue) : Queue := { q with senderGone := true }

/-- The stream is dropped, `substrate.rs:368`. -/
def dropReceiver (q : Queue) : Queue :=
  { q with receiverGone := true, events := [], queued := 0 }

end Queue

/-! ### Events and their cost -/

@[simp] theorem cost_nil (size : Nat) : cost size [] = 0 := rfl

@[simp] theorem cost_cons (size : Nat) (e : SessionEvent) (es : List SessionEvent) :
    cost size (e :: es) = eventCost size e + cost size es := by
  simp [cost]

@[simp] theorem cost_append (size : Nat) (es fs : List SessionEvent) :
    cost size (es ++ fs) = cost size es + cost size fs := by
  simp [cost]

@[simp] theorem datas_append (es fs : List SessionEvent) :
    datas (es ++ fs) = datas es ++ datas fs := by
  induction es with
  | nil => rfl
  | cons e es ih => cases e <;> simp [datas, ih]

@[simp] theorem lifecycles_append (es fs : List SessionEvent) :
    lifecycles (es ++ fs) = lifecycles es ++ lifecycles fs := by
  induction es with
  | nil => rfl
  | cons e es ih => cases e <;> simp [lifecycles, ih]

/-! ### The fields of a queue -/

namespace Queue

variable {size : Nat} {q : Queue} {e : SessionEvent}

@[simp] theorem capacity_unreserve : (q.unreserve e).capacity = q.capacity := by
  cases e <;> rfl

@[simp] theorem onFull_unreserve : (q.unreserve e).onFull = q.onFull := by
  cases e <;> rfl

@[simp] theorem events_unreserve : (q.unreserve e).events = q.events := by
  cases e <;> rfl

@[simp] theorem queued_unreserve : (q.unreserve e).queued = q.queued := by
  cases e <;> rfl

@[simp] theorem overflowed_unreserve : (q.unreserve e).overflowed = q.overflowed := by
  cases e <;> rfl

@[simp] theorem senderGone_unreserve : (q.unreserve e).senderGone = q.senderGone := by
  cases e <;> rfl

@[simp] theorem receiverGone_unreserve : (q.unreserve e).receiverGone = q.receiverGone := by
  cases e <;> rfl

/-- Everything that a push does: it is refused by a queue that is done, it makes a queue
overflow, or the event is queued. -/
theorem push_cases (size : Nat) (q : Queue) (e : SessionEvent) :
    ((q.receiverGone = true ∨ q.overflowed = true) ∧ q.push size e = (q, false)) ∨
    (q.receiverGone = false ∧ q.overflowed = false ∧ q.onFull = .detach ∧
      q.capacity < q.queued + eventCost size e ∧
      q.push size e = ({ q.unreserve e with overflowed := true }, false)) ∨
    (q.receiverGone = false ∧ q.overflowed = false ∧
      (q.onFull = .detach → q.queued + eventCost size e ≤ q.capacity) ∧
      q.push size e = ({ q.unreserve e with
        queued := q.queued + eventCost size e, events := q.events ++ [e] }, true)) := by
  unfold push
  split
  · next h => exact .inl ⟨by simpa using h, rfl⟩
  · next h =>
    have hg : q.receiverGone = false ∧ q.overflowed = false := by simpa using h
    right
    simp only [onFull_unreserve, queued_unreserve, capacity_unreserve, events_unreserve]
    split
    · next hf => exact .inl ⟨hg.1, hg.2, hf.1, hf.2, rfl⟩
    · next hf =>
      refine .inr ⟨hg.1, hg.2, fun hd ↦ ?_, rfl⟩
      by_contra hc
      exact hf ⟨hd, by omega⟩

/-- Everything that a pop does: it gives the oldest event, or says why there is none. -/
theorem pop_cases {r : Except SessionError SessionEvent} {q' : Queue}
    (h : q.pop size = some (r, q')) :
    (∃ e rest, q.events = e :: rest ∧ r = .ok e ∧
      q' = { q with events := rest, queued := q.queued - eventCost size e }) ∨
    (q.events = [] ∧ q' = q ∧
      ((q.overflowed = true ∧ r = .error (.overflowed q.capacity)) ∨
        (q.overflowed = false ∧ q.senderGone = true ∧ r = .error .closed))) := by
  unfold pop at h
  split at h
  · next e rest he =>
    cases h
    exact .inl ⟨e, rest, he, rfl, rfl⟩
  · next he =>
    right
    split at h
    · next ho =>
      cases h
      exact ⟨he, rfl, .inl ⟨ho, rfl⟩⟩
    · next ho =>
      split at h
      · next hs =>
        cases h
        exact ⟨he, rfl, .inr ⟨by simpa using ho, hs, rfl⟩⟩
      · cases h

end Queue
end PtySpec.Substrate
