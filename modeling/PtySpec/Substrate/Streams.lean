import PtySpec.Substrate.Notices

/-!
# What a stream holds

Every step changes a stream by one operation of its queue. The accounting of the queue and
what the stream has been given follow from the operations alone.
-/

namespace PtySpec.Substrate

variable {size : Nat}

/-- The queue's own counters, and what a stream has been given of what was queued. -/
structure Stream.Sound (size : Nat) (st : Stream) : Prop where
  queued : st.queue.queued = cost size st.queue.events
  detach : st.queue.onFull = .detach → st.queue.queued ≤ st.queue.capacity
  hold : st.queue.onFull = .holdReader → st.queue.overflowed = false
  gone : st.queue.receiverGone = true → st.queue.events = []
  given : st.delivered <+: st.enqueued
  waiting : st.queue.receiverGone = false → st.delivered ++ st.queue.events = st.enqueued
  failure : ∀ capacity, st.failure = some (.overflowed capacity) →
    capacity = st.queue.capacity ∧ st.queue.overflowed = true ∧ st.delivered = st.enqueued

/-- A change of a stream that queues nothing and takes back no end. -/
structure Stream.Kept (st st' : Stream) : Prop where
  joined : st'.joined = st.joined
  enqueued : st'.enqueued = st.enqueued
  capacity : st'.queue.capacity = st.queue.capacity
  onFull : st'.queue.onFull = st.queue.onFull
  overflowed : st.queue.overflowed = true → st'.queue.overflowed = true
  receiverGone : st.queue.receiverGone = true → st'.queue.receiverGone = true

namespace Stream

variable {st st' : Stream} {e : SessionEvent}

theorem Kept.refl (st : Stream) : Kept st st := ⟨rfl, rfl, rfl, rfl, id, id⟩

theorem sound_new (capacity : Nat) (onFull : OnFull) : (new capacity onFull).Sound size := by
  refine ⟨rfl, fun _ ↦ Nat.zero_le _, fun _ ↦ rfl, fun _ ↦ rfl, List.prefix_rfl,
    fun _ ↦ rfl, ?_⟩
  intro c h
  cases h

/-- Everything that a push to a stream does. -/
theorem push_cases (size : Nat) (st : Stream) (e : SessionEvent) :
    ((st.queue.receiverGone = true ∨ st.queue.overflowed = true) ∧ st.push size e = (st, false)) ∨
    (st.queue.receiverGone = false ∧ st.queue.overflowed = false ∧ st.queue.onFull = .detach ∧
      st.push size e = ({ st with queue := { st.queue.unreserve e with overflowed := true } },
        false)) ∨
    (st.queue.receiverGone = false ∧ st.queue.overflowed = false ∧
      (st.queue.onFull = .detach → st.queue.queued + eventCost size e ≤ st.queue.capacity) ∧
      st.push size e = ({ st with
        queue := { st.queue.unreserve e with
          queued := st.queue.queued + eventCost size e, events := st.queue.events ++ [e] }
        enqueued := st.enqueued ++ [e] }, true)) := by
  unfold push
  rcases Queue.push_cases size st.queue e with ⟨hg, hq⟩ | ⟨hr, ho, hd, _, hq⟩ | ⟨hr, ho, hd, hq⟩
  · exact .inl ⟨hg, by rw [hq]; rfl⟩
  · exact .inr (.inl ⟨hr, ho, hd, by rw [hq]; rfl⟩)
  · exact .inr (.inr ⟨hr, ho, hd, by rw [hq]; rfl⟩)

theorem onFull_push (e : SessionEvent) : (st.push size e).1.queue.onFull = st.queue.onFull := by
  rcases push_cases size st e with ⟨_, hq⟩ | ⟨_, _, _, hq⟩ | ⟨_, _, _, hq⟩ <;> simp [hq]

theorem Sound.push (h : st.Sound size) (e : SessionEvent) : (st.push size e).1.Sound size := by
  rcases push_cases size st e with ⟨_, hq⟩ | ⟨hr, ho, hd, hq⟩ | ⟨hr, ho, hd, hq⟩
  · rw [hq]
    exact h
  · rw [hq]
    refine ⟨by simpa using h.queued, ?_, ?_, by simpa using h.gone, h.given, ?_, ?_⟩
    · simpa using h.detach
    · intro hh
      rw [show ({ st.queue.unreserve e with overflowed := true } : Queue).onFull =
        st.queue.onFull by simp, hd] at hh
      cases hh
    · simpa using h.waiting
    · intro c hc
      have := h.failure c hc
      simp [ho] at this
  · rw [hq]
    refine ⟨?_, ?_, ?_, by simp [hr], h.given.trans (List.prefix_append _ _), ?_, ?_⟩
    · simp [h.queued]
    · simpa using hd
    · simpa using h.hold
    · intro _
      rw [← List.append_assoc, h.waiting hr]
    · intro c hc
      have := h.failure c hc
      simp [ho] at this

theorem Sound.pushAll (h : st.Sound size) (es : List SessionEvent) :
    (st.pushAll size es).1.Sound size := by
  induction es generalizing st with
  | nil => exact h
  | cons e es ih =>
    unfold Stream.pushAll
    split
    · exact ih (h.push e)
    · exact h.push e

/-- Pushes that were all taken have queued all events in a queue that is not done. -/
theorem pushAll_live (es : List SessionEvent) (h : (st.pushAll size es).2 = true) :
    (st.pushAll size es).1.enqueued = st.enqueued ++ es := by
  induction es generalizing st with
  | nil => simp [pushAll]
  | cons e es ih =>
    unfold pushAll at h ⊢
    split
    · next hp =>
      rw [if_pos hp] at h
      rw [ih h]
      rcases push_cases size st e with ⟨_, hq⟩ | ⟨_, _, _, hq⟩ | ⟨_, _, _, hq⟩
      · simp [hq] at hp
      · simp [hq] at hp
      · simp [hq]
    · next hp => simp [hp] at h

theorem Sound.received {r : Except SessionError SessionEvent × Queue} (h : st.Sound size)
    (alive : st.queue.receiverGone = false) (hr : st.queue.pop size = some r) :
    (st.received r).Sound size := by
  obtain ⟨r, q⟩ := r
  rcases Queue.pop_cases hr with ⟨e, rest, he, rfl, rfl⟩ | ⟨he, rfl, ⟨ho, rfl⟩ | ⟨ho, _, rfl⟩⟩
  · have hq := h.queued
    have hw := h.waiting alive
    rw [he] at hq hw
    rw [cost_cons] at hq
    refine ⟨by simp [Stream.received, hq], fun hd ↦ ?_, h.hold, ?_, ⟨rest, ?_⟩, fun _ ↦ ?_, ?_⟩
    · exact (Nat.sub_le _ _).trans (h.detach hd)
    · simp [Stream.received, alive]
    · simp [Stream.received, ← hw]
    · simpa [Stream.received] using hw
    · intro c hc
      have := h.failure c hc
      rw [← hw] at this
      simp at this
  · have hw := h.waiting alive
    rw [he, List.append_nil] at hw
    refine ⟨h.queued, h.detach, h.hold, h.gone, h.given, h.waiting, ?_⟩
    intro c hc
    cases hc
    exact ⟨rfl, ho, hw⟩
  · refine ⟨h.queued, h.detach, h.hold, h.gone, h.given, h.waiting, ?_⟩
    intro c hc
    cases hc

theorem kept_received {r : Except SessionError SessionEvent × Queue}
    (hr : st.queue.pop size = some r) : st.Kept (st.received r) := by
  obtain ⟨r, q⟩ := r
  rcases Queue.pop_cases hr with ⟨e, rest, he, rfl, rfl⟩ | ⟨he, rfl, ⟨ho, rfl⟩ | ⟨ho, _, rfl⟩⟩
  · exact ⟨rfl, rfl, rfl, rfl, id, id⟩
  · exact ⟨rfl, rfl, rfl, rfl, id, id⟩
  · exact ⟨rfl, rfl, rfl, rfl, id, id⟩

theorem Sound.dropReceiver (h : st.Sound size) :
    Sound size { st with queue := st.queue.dropReceiver } := by
  refine ⟨rfl, fun _ ↦ Nat.zero_le _, h.hold, fun _ ↦ rfl, h.given, ?_, h.failure⟩
  intro hg
  cases hg

end Stream

/-! ### Every step -/

/-- How one step changes one stream. -/
inductive Stream.Change (size : Nat) (st : Stream) : Stream → Prop where
  | kept (st' : Stream) (h : st.Kept st') (sound : st.Sound size → st'.Sound size) :
    Change size st st'
  | push (e : SessionEvent) : Change size st (st.push size e).1
  | refuse (es : List SessionEvent) (dead : (st.pushAll size es).2 = false) :
    Change size st (st.pushAll size es).1
  | enrol (es : List SessionEvent) (j : Joined) (live : (st.pushAll size es).2 = true) :
    Change size st { (st.pushAll size es).1 with joined := some j }

private theorem onFull_pushAll (st : Stream) (es : List SessionEvent) :
    (st.pushAll size es).1.queue.onFull = st.queue.onFull := by
  induction es generalizing st with
  | nil => rfl
  | cons e es ih =>
    unfold Stream.pushAll
    split
    · rw [ih, Stream.onFull_push]
    · exact Stream.onFull_push e

/-- No step changes what a full queue does. -/
theorem Stream.Change.onFull {st st' : Stream} (h : st.Change size st') :
    st'.queue.onFull = st.queue.onFull := by
  cases h with
  | kept _ h => exact h.onFull
  | push e => exact Stream.onFull_push e
  | refuse es => exact onFull_pushAll st es
  | enrol es => exact onFull_pushAll st es

theorem Stream.Change.sound {st st' : Stream} (h : st.Change size st') (hs : st.Sound size) :
    st'.Sound size := by
  cases h with
  | kept _ _ sound => exact sound hs
  | push e => exact hs.push e
  | refuse es => exact hs.pushAll es
  | enrol es =>
    have := hs.pushAll es
    exact ⟨this.queued, this.detach, this.hold, this.gone, this.given, this.waiting, this.failure⟩

private theorem change_refl (st : Stream) : st.Change size st := .kept st (.refl st) id

private theorem change_withStream {s : System} {i k : Nat} {st new st' : Stream}
    (hi : s.streams i = some st) (hk : (s.withStream i new).streams k = some st')
    (hc : st.Change size new) :
    ∃ old, s.streams k = some old ∧ old.Change size st' := by
  by_cases h : k = i
  · subst h
    simp only [System.streams_withStream_self, Option.some.injEq] at hk
    subst hk
    exact ⟨st, hi, hc⟩
  · rw [System.streams_withStream_of_ne s _ h] at hk
    exact ⟨st', hk, change_refl st'⟩

private theorem change_reserve {s : System} {n k : Nat} {st' : Stream}
    (hk : (s.reserve n).streams k = some st') :
    ∃ old, s.streams k = some old ∧ old.Change size st' := by
  unfold System.reserve at hk
  split at hk
  · exact ⟨st', hk, change_refl st'⟩
  · next i _ =>
    split at hk
    · exact ⟨st', hk, change_refl st'⟩
    · next st hst =>
      exact change_withStream hst hk (.kept _ ⟨rfl, rfl, rfl, rfl, id, id⟩ fun h ↦
        ⟨h.queued, h.detach, h.hold, h.gone, h.given, h.waiting, h.failure⟩)

/-- A step opens a stream, or changes each by one operation. -/
theorem Step.change {s t : System} {k : Nat} {st' : Stream} (hs : Step size s t)
    (hk : t.streams k = some st') :
    (s.streams k = none ∧ ∃ capacity, st' = .new capacity .detach) ∨
      ∃ st, s.streams k = some st ∧ st.Change size st' := by
  cases hs with
  | reader hs =>
    right
    cases hs with
    | reserve chunk =>
      exact change_reserve (s := s.withReader (.reserved chunk)) hk
    | room | read | retry | send | close => exact ⟨st', hk, change_refl st'⟩
  | reaper hs => cases hs <;> exact .inr ⟨st', hk, change_refl st'⟩
  | writer hs => cases hs <;> exact .inr ⟨st', hk, change_refl st'⟩
  | client hs =>
    cases hs with
    | attach session capacity i reply _ free =>
      by_cases h : k = i
      · subst h
        simp only [System.streams_withStream_self, Option.some.injEq] at hk
        exact .inl ⟨free, capacity, hk.symm⟩
      · rw [System.streams_withStream_of_ne s _ h] at hk
        exact .inr ⟨st', hk, change_refl st'⟩
    | attached session i reply st _ _ hst =>
      exact .inr (change_withStream hst hk (.kept _ ⟨rfl, rfl, rfl, rfl, id, id⟩ fun h ↦
        ⟨h.queued, h.detach, h.hold, h.gone, h.given, h.waiting, h.failure⟩))
    | recv i st r hst _ alive hr =>
      exact .inr (change_withStream hst hk
        (.kept _ (Stream.kept_received hr) fun h ↦ h.received alive hr))
    | dropStream i st hst =>
      exact .inr (change_withStream hst hk
        (.kept _ ⟨rfl, rfl, rfl, rfl, id, fun _ ↦ rfl⟩ fun h ↦ h.dropReceiver))
    | request | query | rejected | clone | drop | loseOwnership | dropOwner =>
      exact .inr ⟨st', hk, change_refl st'⟩
  | actor hs =>
    right
    cases hs with
    | tell e i todo rest st _ hst => exact change_withStream hst hk (.push e)
    | detach e i todo rest st _ hst => exact change_withStream hst hk (.push e)
    | enrol i rest st _ hst live => exact change_withStream hst hk (.enrol _ _ live)
    | refuse i rest st _ hst dead => exact change_withStream hst hk (.refuse _ dead)
    | forget i rest st _ hst =>
      exact change_withStream hst hk (.kept _ ⟨rfl, rfl, rfl, rfl, id, id⟩ fun h ↦
        ⟨h.queued, h.detach, h.hold, h.gone, h.given, h.waiting, h.failure⟩)
    | receive | timeout | disconnected | broadcast | told | closeGate | submit | full | gone
    | resize | nobody | lock | late | kill | answer | leave =>
      exact ⟨st', hk, change_refl st'⟩

/-- Every stream of every run is sound. -/
theorem sound {session : SessionRef} {pid capacity : Option Nat} {s : System}
    (h : Reachable size session pid capacity s) {i : Nat} {st : Stream}
    (hi : s.streams i = some st) : st.Sound size := by
  induction h generalizing i st with
  | refl =>
    simp only [System.start] at hi
    split at hi
    · obtain ⟨c, _, rfl⟩ := Option.map_eq_some_iff.mp hi
      have : (Stream.new c .holdReader).Sound size := Stream.sound_new c .holdReader
      exact ⟨this.queued, this.detach, this.hold, this.gone, this.given, this.waiting, this.failure⟩
    · cases hi
  | tail _ hs ih =>
    rcases hs.change hi with ⟨_, c, rfl⟩ | ⟨st₀, h₀, hc⟩
    · exact Stream.sound_new c .detach
    · exact hc.sound (ih h₀)

end PtySpec.Substrate
