import PtySpec.Substrate.Order

/-!
# The bound of a queue

A queue that detaches never holds more than its capacity. The owner's queue, which holds the
reader back, counts the bytes of the reads on their way but not the cost of their events, so
it is bounded only when the reader goes on at a cost that fits.
-/

namespace PtySpec.Substrate

variable {size : Nat} {s t : System}

/-- The cost of reads when they are queued. -/
def readCost (size : Nat) (chunks : List (List UInt8)) : Nat := cost size (chunks.map .data)

/-- The bytes of reads. -/
def byteCount (chunks : List (List UInt8)) : Nat := (chunks.map List.length).sum

/-- The events that are not data. -/
def others : List SessionEvent → Nat
  | [] => 0
  | .data _ :: rest => others rest
  | _ :: rest => others rest + 1

/-- The reads that are not queued yet. -/
def System.underway (s : System) (st : Stream) : List (List UInt8) :=
  s.tape.reads.drop (datas st.enqueued).length

/-- The bytes that were read and are not reserved yet. -/
def ReaderPhase.unreserved : ReaderPhase → Nat
  | .got chunk => chunk.length
  | _ => 0

/-- The cost of a read of the largest size. -/
def maxReadCost (size : Nat) : Nat := size + readChunk

/-- The queue that holds the reader back has room for what is on its way. -/
def System.Spare (size : Nat) (s : System) : Prop :=
  ∀ i st, s.reader.flow = some i → s.streams i = some st →
    st.queue.receiverGone = true ∨ st.queue.senderGone = true ∨
      st.queue.queued + readCost size (s.underway st) < st.queue.capacity

/-- A step that lets the reader on only if what is on its way fits. -/
structure CarefulStep (size : Nat) (s t : System) : Prop where
  step : Step size s t
  spare : s.reader.phase = .waiting → t.reader.phase = .reading → s.Spare size

/-- The states that runs of careful steps reach. -/
def CarefulRun (size : Nat) (session : SessionRef) (pid capacity : Option Nat) (s : System) :
    Prop :=
  Relation.ReflTransGen (CarefulStep size) (.start session pid capacity) s

theorem CarefulRun.reachable {session : SessionRef} {pid capacity : Option Nat}
    (h : CarefulRun size session pid capacity s) : Reachable size session pid capacity s :=
  Relation.ReflTransGen.mono (fun _ _ hs ↦ hs.step) _ _ h

/-! ### Counting -/

@[simp] theorem readCost_append (xs ys : List (List UInt8)) :
    readCost size (xs ++ ys) = readCost size xs + readCost size ys := by
  simp [readCost]

@[simp] theorem readCost_nil : readCost size [] = 0 := rfl

@[simp] theorem readCost_cons (x : List UInt8) (xs : List (List UInt8)) :
    readCost size (x :: xs) = size + x.length + readCost size xs := by
  simp [readCost, eventCost]

@[simp] theorem byteCount_append (xs ys : List (List UInt8)) :
    byteCount (xs ++ ys) = byteCount xs + byteCount ys := by
  simp [byteCount]

@[simp] theorem byteCount_nil : byteCount [] = 0 := rfl

@[simp] theorem byteCount_cons (x : List UInt8) (xs : List (List UInt8)) :
    byteCount (x :: xs) = x.length + byteCount xs := by
  simp [byteCount]

@[simp] theorem others_append (es fs : List SessionEvent) :
    others (es ++ fs) = others es + others fs := by
  induction es with
  | nil => simp [others]
  | cons e es ih => cases e <;> simp [others, ih] <;> omega

/-- The cost of events is that of their data, and a fixed one for each other event. -/
theorem cost_eq (es : List SessionEvent) :
    cost size es = readCost size (datas es) + size * others es := by
  induction es with
  | nil => rfl
  | cons e es ih =>
    cases e <;> simp only [cost_cons, eventCost, datas, others, readCost_cons, ih] <;> ring

theorem readCost_le_of_prefix {xs ys : List (List UInt8)} (h : xs <+: ys) :
    readCost size xs ≤ readCost size ys := by
  obtain ⟨zs, rfl⟩ := h
  simp

private theorem others_le (es : List SessionEvent) (hg : ∀ area, .geometry area ∉ es) :
    others es ≤ (lifecycles es).length + (plain es).count .outputClosed := by
  induction es with
  | nil => simp [others]
  | cons e es ih =>
    have := ih fun area hm ↦ hg area (List.mem_cons_of_mem _ hm)
    cases e with
    | data b => simpa [others, lifecycles, plain] using this
    | outputClosed =>
      simp only [others, lifecycles, plain, List.count_cons_self]
      omega
    | lifecycle l =>
      simp only [others, lifecycles, plain, List.length_cons]
      omega
    | geometry area => exact absurd (List.mem_cons_self ..) (hg area)

/-- At most three of the broadcasts of a session are not data. -/
theorem others_notices_le (h : Tracks s) : others s.notices ≤ 3 := by
  have h1 := others_le s.notices (not_geometry h)
  have h2 : (lifecycles s.notices).length ≤ 2 := by
    rw [h.lifecycles]
    split <;> simp
  have h3 : (plain s.notices).count .outputClosed ≤ 1 := by
    refine (h.prefix_said.sublist.count_le _).trans ?_
    rw [System.said, List.count_append, List.count_eq_zero.mpr (by simp)]
    split <;> simp
  omega

/-! ### The owner's queue -/

/-- What a read that is allowed and not made may still cost. -/
def ReaderPhase.allowed (size : Nat) : ReaderPhase → Nat
  | .reading => maxReadCost size
  | _ => 0

/-- The owner's queue: its reserved bytes are those on their way and, in a careful run, what it
holds and is to hold of data fits with one more read. -/
structure OwnerQueue (size : Nat) (careful : Prop) (s : System) (st : Stream) : Prop where
  onFull : st.queue.onFull = .holdReader
  joined : st.joined = some ⟨0, 0, .running, []⟩
  live : 0 ∈ s.actor.attachments →
    st.queue.senderGone = false ∧ .forget 0 ∉ s.actor.effects
  reserved : st.queue.reserved + s.reader.phase.unreserved + byteCount (datas st.enqueued) =
    byteCount s.tape.reads
  room : careful → 0 ∈ s.actor.attachments → st.queue.receiverGone = false →
    readCost size (datas st.queue.events) + readCost size s.tape.reads +
        s.reader.phase.allowed size ≤
      st.queue.capacity + maxReadCost size + readCost size (datas st.enqueued)
  bound : careful →
    readCost size (datas st.queue.events) ≤ st.queue.capacity + maxReadCost size

/-- The queue that holds the reader back is the owner's. -/
def Owned (size : Nat) (careful : Prop) (s : System) : Prop :=
  s.reader.flow = none ∨
    s.reader.flow = some 0 ∧ ∃ st, s.streams 0 = some st ∧ OwnerQueue size careful s st

variable {careful : Prop} {st st' : Stream}

/-- What the owner's queue depends on. -/
private theorem OwnerQueue.of_eq (h : OwnerQueue size careful s st)
    (ha : 0 ∈ t.actor.attachments → 0 ∈ s.actor.attachments)
    (he : .forget 0 ∈ t.actor.effects → .forget 0 ∈ s.actor.effects)
    (hu : t.reader.phase.unreserved = s.reader.phase.unreserved)
    (hal : t.reader.phase.allowed size ≤ s.reader.phase.allowed size)
    (hr : t.tape.reads = s.tape.reads) : OwnerQueue size careful t st where
  onFull := h.onFull
  joined := h.joined
  live hm := ⟨(h.live (ha hm)).1, fun hf ↦ (h.live (ha hm)).2 (he hf)⟩
  reserved := by rw [hu, hr, h.reserved]
  room hc hm hg := by
    have := h.room hc (ha hm) hg
    rw [hr]
    omega
  bound := h.bound

private theorem Owned.of_eq (h : Owned size careful s) (hf : t.reader.flow = s.reader.flow)
    (hs : t.streams 0 = s.streams 0)
    (ha : 0 ∈ t.actor.attachments → 0 ∈ s.actor.attachments)
    (he : .forget 0 ∈ t.actor.effects → .forget 0 ∈ s.actor.effects)
    (hu : t.reader.phase.unreserved = s.reader.phase.unreserved)
    (hal : t.reader.phase.allowed size ≤ s.reader.phase.allowed size)
    (hr : t.tape.reads = s.tape.reads) : Owned size careful t := by
  rcases h with h | ⟨h, st, hst, ho⟩
  · exact .inl (hf.trans h)
  · exact .inr ⟨hf.trans h, st, hs.trans hst, ho.of_eq ha he hu hal hr⟩

/-- Output that was handled was read, and is not in the reader's hands. -/
private theorem byteCount_handled_le (h : Tracks s) :
    byteCount s.tape.handled + s.reader.phase.unreserved ≤ byteCount s.tape.reads := by
  have hp := congrArg datas h.plain
  have hsaid : datas s.said = s.tape.reads := by
    rw [System.said, datas_append, datas_map_data]
    split <;> simp [datas]
  rw [datas_append, datas_append, datas_plain, ← h.handled, hsaid] at hp
  rw [← hp, byteCount_append, byteCount_append]
  have : s.reader.phase.unreserved ≤ byteCount (datas s.reader.phase.hand) := by
    cases s.reader.phase <;> simp [ReaderPhase.unreserved, ReaderPhase.hand, datas]
  omega

private theorem prefix_enqueued (hf : Fed s) (ht : Tracks s) (hst : s.streams 0 = some st)
    (hj : st.joined = some ⟨0, 0, .running, []⟩) : datas st.enqueued <+: s.tape.handled := by
  obtain ⟨zs, hz⟩ := (hf.linked 0 st _ hst hj).taken
  rw [List.nil_append, List.drop_zero] at hz
  refine ⟨datas zs ++ datas (pending s.actor.effects), ?_⟩
  rw [ht.handled, System.notices, ← hz]
  simp

/-- The events that a stream has not given yet are among those that it was given. -/
private theorem others_events_le (hs : st.Sound size) : others st.queue.events ≤
    others st.enqueued := by
  by_cases hg : st.queue.receiverGone = true
  · rw [hs.gone hg]
    exact Nat.zero_le _
  · rw [← hs.waiting (by simpa using hg), others_append]
    omega

/-- One more event is queued for the owner. -/
private theorem OwnerQueue.push (h : OwnerQueue size careful s st) (ht : Tracks t)
    (hfed : Fed t) {e : SessionEvent} (hst : t.streams 0 = some (st.push size e).1)
    (hlive : (st.push size e).2 = true) (hm : 0 ∈ s.actor.attachments)
    (ha : 0 ∈ t.actor.attachments → 0 ∈ s.actor.attachments)
    (he : .forget 0 ∈ t.actor.effects → .forget 0 ∈ s.actor.effects)
    (hr : t.reader = s.reader) (hreads : t.tape.reads = s.tape.reads) :
    OwnerQueue size careful t (st.push size e).1 := by
  rcases Stream.push_cases size st e with ⟨_, hp⟩ | ⟨_, _, _, hp⟩ | ⟨hg, _, _, hp⟩
  · simp [hp] at hlive
  · simp [hp] at hlive
  · have hj : (st.push size e).1.joined = some ⟨0, 0, .running, []⟩ := h.joined
    have hpre := prefix_enqueued hfed ht hst hj
    have hread := hpre.trans (handled_prefix_reads ht)
    have hbytes : byteCount (datas (st.push size e).1.enqueued) + t.reader.phase.unreserved ≤
        byteCount t.tape.reads := by
      obtain ⟨zs, hz⟩ := hpre
      have := byteCount_handled_le ht
      rw [← hz, byteCount_append] at this
      omega
    have hcost : readCost size _ ≤ readCost size _ := readCost_le_of_prefix hread
    rw [hp] at hst hbytes hcost hj ⊢
    rw [hr] at hbytes
    rw [hreads] at hbytes hcost
    simp only [datas_append, byteCount_append, readCost_append] at hbytes hcost
    have hres := h.reserved
    have hroom : careful → readCost size (datas (st.queue.events ++ [e])) +
        readCost size s.tape.reads + s.reader.phase.allowed size ≤
        st.queue.capacity + maxReadCost size + readCost size (datas (st.enqueued ++ [e])) := by
      intro hc
      have := h.room hc hm hg
      simp only [datas_append, readCost_append]
      omega
    constructor
    · simpa using h.onFull
    · exact hj
    · intro hm'
      simpa using ⟨(h.live (ha hm')).1, fun hf ↦ (h.live (ha hm')).2 (he hf)⟩
    · rw [hr, hreads]
      cases e with
      | data b =>
        simp only [Queue.unreserve, datas_append, byteCount_append, datas, byteCount_cons,
          byteCount_nil] at hbytes ⊢
        omega
      | outputClosed => simpa [Queue.unreserve, datas] using hres
      | lifecycle l => simpa [Queue.unreserve, datas] using hres
      | geometry g => simpa [Queue.unreserve, datas] using hres
    · intro hc _ _
      rw [hr, hreads]
      simpa using hroom hc
    · intro hc
      have := hroom hc
      simp only [datas_append, readCost_append] at this ⊢
      simp only [Queue.capacity_unreserve]
      omega

private theorem forget_handle {a : Actor} (h : a.effects = []) (c : Command) (i : Nat)
    (hm : .forget i ∈ (a.handle c).effects) : i ∈ attaching [c] := by
  cases c with
  | request session kind reply =>
    cases hr : (a.check session >>= fun _ ↦ a.isRunning) <;> cases kind <;>
      simp [Actor.handle, hr, Actor.accept, Actor.emit, h] at hm
  | query session reply =>
    cases hr : a.check session <;> simp [Actor.handle, hr, Actor.emit, h] at hm
  | attach session attachment reply =>
    cases hr : a.check session with
    | ok => simp [Actor.handle, hr, Actor.emit, h] at hm
    | error e => simpa [Actor.handle, hr, Actor.emit, h, attaching] using hm
  | output bytes => by_cases ho : a.outputClosed <;> simp [Actor.handle, ho, Actor.emit, h] at hm
  | reaped status =>
    by_cases hl : a.lifecycle = .running <;> by_cases ho : a.outputClosed <;>
      by_cases hp : a.published = .exited status <;>
      simp [Actor.handle, hl, ho, hp, Actor.publishLifecycle, Actor.emit, h] at hm
  | readerClosed =>
    by_cases hp : a.published = a.lifecycle <;>
      simp [Actor.handle, hp, Actor.publishLifecycle, Actor.emit, h] at hm
  | ownerLost =>
    by_cases hl : a.lifecycle = .running <;> by_cases hp : a.published = .ownerLost <;>
      simp [Actor.handle, hl, hp, Actor.publishLifecycle, Actor.emit, h] at hm

private theorem forget_finish {a : Actor} (h : a.effects = []) (i : Nat) :
    .forget i ∉ a.publishLifecycle.effects ∧ .forget i ∉ a.finish.effects := by
  by_cases hp : a.published = a.lifecycle <;>
    simp [Actor.finish, Actor.publishLifecycle, Actor.emit, hp, h]

/-- The owner's stream is not one that is to be attached. -/
private theorem zero_not_admitted (hf : Fed s) (hst : s.streams 0 = some st)
    (hj : st.joined = some ⟨0, 0, .running, []⟩) : 0 ∉ s.admits := by
  intro hm
  obtain ⟨st', hst', hn, _⟩ := hf.fresh 0 hm
  rw [hst] at hst'
  cases hst'
  rw [hj] at hn
  cases hn

private theorem owned_reader (h : Owned size careful s) (hs : ReaderStep s t)
    (hsound : ∀ st, s.streams 0 = some st → st.Sound size) (ht : Tracks s) (hf : Fed s)
    (hspare : careful → s.reader.phase = .waiting → t.reader.phase = .reading →
      s.Spare size) : Owned size careful t := by
  rcases h with h | ⟨h, st, hst, ho⟩
  · left
    cases hs with
    | reserve chunk =>
      unfold System.reserve
      split <;> [exact h; skip]
      split <;> exact h
    | room | read | retry | send | close => exact h
  · cases hs with
    | room hp hroom =>
      refine .inr ⟨h, st, hst, ho.onFull, ho.joined, ho.live, ?_, ?_, ho.bound⟩
      · have := ho.reserved
        rw [hp] at this
        exact this
      · intro hc hm hg
        have hq := (hsound st hst).queued
        rw [cost_eq] at hq
        have hpre := (prefix_enqueued hf ht hst ho.joined).trans (handled_prefix_reads ht)
        rcases hspare hc hp rfl 0 st h hst with hgone | hgone | hlt
        · rw [hg] at hgone
          cases hgone
        · rw [(ho.live hm).1] at hgone
          cases hgone
        · have hsplit : readCost size s.tape.reads =
              readCost size (datas st.enqueued) + readCost size (s.underway st) := by
            obtain ⟨zs, hz⟩ := hpre
            rw [System.underway, ← hz, List.drop_left, readCost_append]
          change _ + readCost size s.tape.reads + maxReadCost size ≤ _
          omega
    | read chunk hp _ hbound =>
      refine .inr ⟨h, st, hst, ho.onFull, ho.joined, ho.live, ?_, ?_, ho.bound⟩
      · have := ho.reserved
        rw [hp] at this
        change st.queue.reserved + chunk.length + byteCount (datas st.enqueued) =
          byteCount (s.tape.reads ++ [chunk])
        simp only [ReaderPhase.unreserved, Nat.add_zero] at this
        rw [byteCount_append, ← this]
        simp
        omega
      · intro hc hm hg
        have := ho.room hc hm hg
        rw [hp] at this
        change _ + readCost size (s.tape.reads ++ [chunk]) + 0 ≤ _
        simp only [ReaderPhase.allowed, maxReadCost] at this ⊢
        rw [readCost_append, readCost_cons, readCost_nil]
        omega
    | retry hp =>
      exact .inr ⟨h, st, hst, ho.of_eq id id (by rw [hp]; rfl) (Nat.zero_le _) rfl⟩
    | reserve chunk hp =>
      have hflow : (s.withReader (.reserved chunk)).reader.flow = some 0 := h
      have hst' : (s.withReader (.reserved chunk)).streams 0 = some st := hst
      have heq : (s.withReader (.reserved chunk)).reserve chunk.length =
          (s.withReader (.reserved chunk)).withStream 0
            { st with queue := st.queue.reserve chunk.length } := by
        unfold System.reserve
        rw [hflow]
        simp only [hst']
      rw [heq]
      refine .inr ⟨h, _, rfl, ho.onFull, ho.joined, ho.live, ?_, ?_,
        ho.bound⟩
      · have := ho.reserved
        rw [hp] at this
        change st.queue.reserved + chunk.length + 0 + byteCount (datas st.enqueued) =
          byteCount s.tape.reads
        rw [← this]
        rfl
      · intro hc hm hg
        have := ho.room hc hm hg
        rw [hp] at this
        exact this
    | send chunk hp | close hp =>
      exact .inr ⟨h, st, hst, ho.of_eq id id (by rw [hp]; rfl) (Nat.zero_le _) rfl⟩

private theorem owned_client (h : Owned size careful s) (hs : ClientStep size s t) :
    Owned size careful t := by
  cases hs with
  | request | query | rejected | clone | drop | loseOwnership | dropOwner =>
    exact h.of_eq rfl rfl id id rfl (Nat.le_refl _) rfl
  | attach session capacity i reply _ free =>
    rcases h with h | ⟨h, st, hst, ho⟩
    · exact .inl h
    · have hne : 0 ≠ i := by
        rintro rfl
        rw [free] at hst
        cases hst
      exact .inr ⟨h, st, (s.streams_withStream_of_ne _ hne).trans hst,
        ho.of_eq id id rfl (Nat.le_refl _) rfl⟩
  | attached session i reply st₀ _ _ hst₀ =>
    rcases h with h | ⟨h, st, hst, ho⟩
    · exact .inl h
    · by_cases hi : 0 = i
      · subst hi
        rw [hst] at hst₀
        cases hst₀
        exact .inr ⟨h, _, rfl, ho.onFull, ho.joined, ho.live,
          ho.reserved, ho.room, ho.bound⟩
      · exact .inr ⟨h, st, (s.streams_withStream_of_ne _ hi).trans hst,
          ho.of_eq id id rfl (Nat.le_refl _) rfl⟩
  | recv i st₀ r hst₀ _ _ hr =>
    rcases h with h | ⟨h, st, hst, ho⟩
    · exact .inl h
    · by_cases hi : 0 = i
      · subst hi
        rw [hst] at hst₀
        cases hst₀
        refine .inr ⟨h, _, rfl, ?_⟩
        obtain ⟨r, q⟩ := r
        rcases Queue.pop_cases hr with ⟨e, rest, he, rfl, rfl⟩ | ⟨_, rfl, ⟨_, rfl⟩ | ⟨_, _, rfl⟩⟩
        · have hle : readCost size (datas rest) ≤ readCost size (datas st₀.queue.events) := by
            rw [he]
            cases e <;> simp [datas]
          refine ⟨ho.onFull, ho.joined, ho.live, ho.reserved, fun hc hm hg ↦ ?_, fun hc ↦ ?_⟩
          · exact (Nat.add_le_add_right (Nat.add_le_add_right hle _) _).trans (ho.room hc hm hg)
          · exact hle.trans (ho.bound hc)
        · exact ⟨ho.onFull, ho.joined, ho.live, ho.reserved, ho.room, ho.bound⟩
        · exact ⟨ho.onFull, ho.joined, ho.live, ho.reserved, ho.room, ho.bound⟩
      · exact .inr ⟨h, st, (s.streams_withStream_of_ne _ hi).trans hst,
          ho.of_eq id id rfl (Nat.le_refl _) rfl⟩
  | dropStream i st₀ hst₀ =>
    rcases h with h | ⟨h, st, hst, ho⟩
    · exact .inl h
    · by_cases hi : 0 = i
      · subst hi
        rw [hst] at hst₀
        cases hst₀
        refine .inr ⟨h, _, rfl, ho.onFull, ho.joined, ho.live,
          ho.reserved, fun _ _ hg ↦ ?_, fun _ ↦ Nat.zero_le _⟩
        cases hg
      · exact .inr ⟨h, st, (s.streams_withStream_of_ne _ hi).trans hst,
          ho.of_eq id id rfl (Nat.le_refl _) rfl⟩

/-- Another stream than the owner's is changed. -/
private theorem Owned.other (h : Owned size careful s) {i : Nat} {new : Stream}
    (hi : s.reader.flow = some 0 → i ≠ 0) (hf : t.reader = s.reader)
    (hs : t.streams = (s.withStream i new).streams)
    (ha : 0 ∈ t.actor.attachments → 0 ∈ s.actor.attachments)
    (he : s.reader.flow = some 0 → .forget 0 ∈ t.actor.effects → .forget 0 ∈ s.actor.effects)
    (hr : t.tape.reads = s.tape.reads) : Owned size careful t := by
  rcases h with h | ⟨h, st, hst, ho⟩
  · exact .inl (by rw [hf, h])
  · refine .inr ⟨by rw [hf, h], st, ?_, ho.of_eq ha (he h) (by rw [hf]) (by rw [hf]) hr⟩
    rw [hs, s.streams_withStream_of_ne new (hi h).symm, hst]

private theorem owned_actor (h : Owned size careful s) (hs : ActorStep size s t) (hf : Fed s)
    (ht : Tracks t) (hf' : Fed t) : Owned size careful t := by
  have hnone : s.reader.flow = some 0 → 0 ∉ s.admits := by
    intro hflow
    rcases h with h | ⟨_, st, hst, ho⟩
    · rw [h] at hflow
      cases hflow
    · exact zero_not_admitted hf hst ho.joined
  cases hs with
  | receive c rest idle _ hi =>
    have hreads : ((s.tape.take c).note s.actor (s.actor.handle c)).reads = s.tape.reads := by
      unfold Tape.note
      split <;> cases c <;> rfl
    rcases h with h | ⟨h, st, hst, ho⟩
    · exact .inl h
    · refine .inr ⟨h, st, hst, ho.of_eq (fun hm ↦ ?_) (fun hm ↦ ?_) rfl (Nat.le_refl _) hreads⟩
      · rw [← Actor.attachments_handle c]
        exact hm
      · have := forget_handle idle c 0 hm
        refine absurd ?_ (hnone h)
        rw [System.admits, hi, ← List.singleton_append, attaching_append]
        exact List.mem_append_right _ (List.mem_append_left _ this)
  | timeout idle =>
    have hreads : (s.tape.note s.actor s.actor.publishLifecycle).reads = s.tape.reads := by
      unfold Tape.note
      split <;> rfl
    exact h.of_eq rfl rfl (fun hm ↦ Actor.attachments_publishLifecycle ▸ hm)
      (fun hm ↦ absurd hm (forget_finish idle 0).1) rfl (Nat.le_refl _) hreads
  | disconnected idle =>
    have hreads : (s.tape.note s.actor s.actor.finish).reads = s.tape.reads := by
      unfold Tape.note
      split <;> rfl
    exact h.of_eq rfl rfl (fun hm ↦ Actor.attachments_finish ▸ hm)
      (fun hm ↦ absurd hm (forget_finish idle 0).2) rfl (Nat.le_refl _) hreads
  | broadcast e rest hq =>
    refine h.of_eq rfl rfl id (fun hm ↦ ?_) rfl (Nat.le_refl _) rfl
    rw [hq]
    simpa [System.proceed] using hm
  | told e rest hq =>
    refine h.of_eq rfl rfl id (fun hm ↦ ?_) rfl (Nat.le_refl _) rfl
    rw [hq]
    exact List.mem_cons_of_mem _ hm
  | tell e i todo rest st₀ hq hst₀ live =>
    have heff : .forget 0 ∈ (.tell e todo :: rest : List Effect) →
        .forget 0 ∈ s.actor.effects := by
      intro hm
      rw [hq]
      simpa using hm
    by_cases hi : i = 0
    · subst hi
      rcases h with h | ⟨h, st, hst, ho⟩
      · exact .inl h
      · rw [hst] at hst₀
        cases hst₀
        have hm : 0 ∈ s.actor.attachments :=
          hf.reaching 0 (by simp [System.todo, hq, tells])
        exact .inr ⟨h, _, rfl, ho.push ht hf' rfl live hm id heff rfl rfl⟩
    · exact h.other (fun _ ↦ hi) rfl rfl id (fun _ ↦ heff) rfl
  | detach e i todo rest st₀ hq hst₀ dead =>
    by_cases hi : i = 0
    · subst hi
      rcases h with h | ⟨h, st, hst, ho⟩
      · exact .inl h
      · rw [hst] at hst₀
        cases hst₀
        have hsame : (st₀.push size e).1 = st₀ := by
          rcases Stream.push_cases size st₀ e with ⟨_, hp⟩ | ⟨_, _, hd, _⟩ | ⟨_, _, _, hp⟩
          · rw [hp]
          · rw [ho.onFull] at hd
            cases hd
          · simp [hp] at dead
        have hno : 0 ∉ s.actor.attachments.erase 0 := List.Nodup.not_mem_erase hf.nodup
        refine .inr ⟨h, st₀, ?_, ho.onFull, ho.joined, fun hm ↦ absurd hm hno, ho.reserved,
          fun _ hm ↦ absurd hm hno, ho.bound⟩
        exact congrArg some hsame
    · refine h.other (fun _ ↦ hi) rfl rfl List.mem_of_mem_erase (fun _ hm ↦ ?_) rfl
      rw [hq]
      simpa [Ne.symm hi] using hm
  | enrol i rest st₀ hq hst₀ =>
    have hi : s.reader.flow = some 0 → i ≠ 0 := by
      rintro hflow rfl
      exact hnone hflow (by simp [System.admits, hq, admitted])
    by_cases hflow : s.reader.flow = some 0
    · refine h.other hi rfl rfl (fun hm ↦ ?_) (fun _ hm ↦ ?_) rfl
      · simpa [Ne.symm (hi hflow)] using hm
      · rw [hq]
        exact List.mem_cons_of_mem _ hm
    · rcases h with h | ⟨h, _⟩
      · exact .inl h
      · exact absurd h hflow
  | refuse i rest st₀ hq hst₀ =>
    have hi : s.reader.flow = some 0 → i ≠ 0 := by
      rintro hflow rfl
      exact hnone hflow (by simp [System.admits, hq, admitted])
    refine h.other hi rfl rfl id (fun hflow hm ↦ ?_) rfl
    rw [hq]
    simpa [System.proceed, Ne.symm (hi hflow)] using hm
  | forget i rest st₀ hq hst₀ =>
    have heff : .forget 0 ∈ rest → .forget 0 ∈ s.actor.effects := by
      intro hm
      rw [hq]
      exact List.mem_cons_of_mem _ hm
    by_cases hi : i = 0
    · subst hi
      rcases h with h | ⟨h, st, hst, ho⟩
      · exact .inl h
      · rw [hst] at hst₀
        cases hst₀
        have hno : 0 ∉ s.actor.attachments := fun hm ↦ (ho.live hm).2 (by rw [hq]; simp)
        exact .inr ⟨h, _, rfl, ho.onFull, ho.joined,
          fun hm ↦ absurd hm hno, ho.reserved, fun _ hm ↦ absurd hm hno, ho.bound⟩
    · exact h.other (fun _ ↦ hi) rfl rfl id (fun _ ↦ heff) rfl
  | closeGate _ rest hq | submit _ _ rest hq | answer _ _ rest hq =>
    refine h.of_eq rfl rfl id (fun hm ↦ ?_) rfl (Nat.le_refl _) rfl
    rw [hq]
    exact List.mem_cons_of_mem _ hm
  | full _ _ rest hq | gone _ _ rest hq | resize _ _ rest _ hq | lock _ _ _ rest hq =>
    refine h.of_eq rfl rfl id (fun hm ↦ ?_) rfl (Nat.le_refl _) rfl
    rw [hq]
    simpa [System.proceed] using hm
  | nobody _ _ reply rest hq | late _ _ reply rest hq | kill _ _ reply rest _ _ hq =>
    refine h.of_eq rfl rfl id (fun hm ↦ ?_) rfl (Nat.le_refl _) rfl
    rw [hq]
    cases reply <;> simpa [System.proceed, answerTo] using hm
  | leave rest hq =>
    rcases h with h | ⟨h, st, hst, ho⟩
    · exact .inl h
    · exact .inr ⟨h, st, hst, ho.onFull, ho.joined, fun hm ↦ absurd hm List.not_mem_nil,
        ho.reserved, fun _ hm ↦ absurd hm List.not_mem_nil, ho.bound⟩

/-- The owner's queue keeps its account in every step, and its bound in every careful one. -/
private theorem owned_step (h : Owned size careful s) (hs : Step size s t)
    (hsound : ∀ st, s.streams 0 = some st → st.Sound size) (hr : Routed s) (hf : Fed s)
    (ht : Tracks s)
    (hspare : careful → s.reader.phase = .waiting → t.reader.phase = .reading →
      s.Spare size) : Owned size careful t := by
  have ht' := hs.tracks ht
  have hf' := hs.fed hf hr ht
  cases hs with
  | reader hs => exact owned_reader h hs hsound ht hf hspare
  | reaper hs => cases hs <;> exact h.of_eq rfl rfl id id rfl (Nat.le_refl _) rfl
  | writer hs => cases hs <;> exact h.of_eq rfl rfl id id rfl (Nat.le_refl _) rfl
  | client hs => exact owned_client h hs
  | actor hs => exact owned_actor h hs hf ht' hf'

variable {session : SessionRef} {pid capacity : Option Nat}

private theorem owned_start : Owned size careful (.start session pid capacity) := by
  cases capacity with
  | none => exact .inl rfl
  | some c =>
    refine .inr ⟨rfl, _, rfl, rfl, rfl, fun _ ↦ ⟨rfl, ?_⟩, rfl, fun _ _ _ ↦ ?_, fun _ ↦ ?_⟩
    · simp [System.start, Actor.start]
    · exact Nat.zero_le _
    · exact Nat.zero_le _

private theorem Reachable.owned (h : Reachable size session pid capacity s) :
    Owned size False s := by
  induction h with
  | refl => exact owned_start
  | tail hr hs ih =>
    exact owned_step ih hs (fun _ hst ↦ sound hr hst) (Reachable.routed hr) (Reachable.fed hr)
      (Reachable.tracks hr) (fun hc ↦ hc.elim)

private theorem CarefulRun.owned (h : CarefulRun size session pid capacity s) :
    Owned size True s := by
  induction h with
  | refl => exact owned_start
  | tail hr hs ih =>
    have hr := CarefulRun.reachable hr
    exact owned_step ih hs.step (fun _ hst ↦ sound hr hst) hr.routed hr.fed hr.tracks
      (fun _ ↦ hs.spare)

private theorem Step.flow (hs : Step size s t) : t.reader.flow = s.reader.flow := by
  cases hs with
  | reader hs =>
    cases hs with
    | reserve =>
      unfold System.reserve
      split <;> [rfl; skip]
      split <;> rfl
    | room | read | retry | send | close => rfl
  | reaper hs => cases hs <;> rfl
  | writer hs => cases hs <;> rfl
  | client hs => cases hs <;> rfl
  | actor hs => cases hs <;> rfl

/-- Only the owner's queue holds the reader back. -/
private theorem Reachable.flow (h : Reachable size session pid capacity s) {i : Nat}
    {st : Stream} (hi : s.streams i = some st) (hh : st.queue.onFull = .holdReader) :
    s.reader.flow = some i := by
  induction h generalizing i st with
  | refl =>
    cases capacity with
    | none => simp [System.start] at hi
    | some c =>
      simp only [System.start] at hi ⊢
      split at hi
      · next h0 => rw [h0]; rfl
      · cases hi
  | tail _ hs ih =>
    rw [hs.flow]
    rcases hs.change hi with ⟨_, c, rfl⟩ | ⟨st₀, h₀, hc⟩
    · cases hh
    · exact ih h₀ (hc.onFull ▸ hh)

private theorem queued_le (h : Reachable size session pid capacity s) (ho : Owned size True s)
    {i : Nat} {st : Stream} (hi : s.streams i = some st)
    (hh : st.queue.onFull = .holdReader) :
    st.queue.queued ≤ st.queue.capacity + maxReadCost size + 3 * size := by
  have hflow := h.flow hi hh
  rcases ho with ho | ⟨ho, st', hst', hq⟩
  · rw [hflow] at ho
    cases ho
  · rw [hflow] at ho
    cases ho
    rw [hi] at hst'
    cases hst'
    have hs := sound h hi
    have hothers : others st.queue.events ≤ 3 := by
      refine (others_events_le hs).trans ?_
      obtain ⟨zs, hz⟩ := (h.fed.linked 0 st _ hi hq.joined).taken
      rw [List.nil_append, List.drop_zero] at hz
      have := others_notices_le h.tracks
      rw [System.notices, ← hz, others_append, others_append] at this
      omega
    have hb := hq.bound trivial
    rw [hs.queued, cost_eq]
    have : size * others st.queue.events ≤ 3 * size := by
      rw [Nat.mul_comm 3]
      exact Nat.mul_le_mul_left size hothers
    omega

/-- Every attachment queue of every run counts the cost of its events, one that detaches never
exceeds its capacity, and the owner's counts the bytes read and not yet queued. In a run that
lets the reader on only while the queue and the reads on their way cost less than the capacity,
the owner's queue never exceeds it by more than one read and three other events. -/
theorem queue_bounded (h : Reachable size session pid capacity s) {i : Nat} {st : Stream}
    (hi : s.streams i = some st) :
    st.queue.queued = cost size st.queue.events ∧
      (st.queue.onFull = .detach → st.queue.queued ≤ st.queue.capacity) ∧
      (st.queue.onFull = .holdReader →
        st.queue.reserved + s.reader.phase.unreserved = byteCount (s.underway st)) ∧
      (CarefulRun size session pid capacity s → st.queue.onFull = .holdReader →
        st.queue.queued ≤ st.queue.capacity + maxReadCost size + 3 * size) := by
  have hs := sound h hi
  refine ⟨hs.queued, hs.detach, fun hh ↦ ?_, fun hc hh ↦ queued_le h hc.owned hi hh⟩
  have hflow := h.flow hi hh
  rcases h.owned with ho | ⟨ho, st', hst', hq⟩
  · rw [hflow] at ho
    cases ho
  · rw [hflow] at ho
    cases ho
    rw [hi] at hst'
    cases hst'
    obtain ⟨zs, hz⟩ :=
      (prefix_enqueued h.fed h.tracks hi hq.joined).trans (handled_prefix_reads h.tracks)
    have := hq.reserved
    rw [← hz, byteCount_append] at this
    rw [System.underway, ← hz, List.drop_left]
    omega

/-- A careful run whose reader has gone on once. -/
theorem queue_bounded_read :
    ∃ (s : System) (st : Stream),
      CarefulRun 24 ⟨"/private", "a", "generation-a"⟩ (some 7) (some 65536) s ∧
      s.streams 0 = some st ∧ s.tape.reads = [[104]] ∧ st.queue.queued = cost 24 st.queue.events ∧
      st.queue.queued ≤ st.queue.capacity + maxReadCost 24 + 3 * 24 := by
  have h₀ : CarefulRun 24 ⟨"/private", "a", "generation-a"⟩ (some 7) (some 65536) _ := .refl
  have h₁ := h₀.tail ⟨.actor (.broadcast _ _ rfl), fun _ h ↦ by cases h⟩
  have h₂ := h₁.tail ⟨.actor (.tell _ _ _ _ _ rfl rfl rfl), fun _ h ↦ by cases h⟩
  have h₃ := h₂.tail ⟨.reader (.room rfl (by
    intro i st hi hs
    cases hi
    cases hs
    rfl)), fun _ _ i st hi hs ↦ by
      cases hi
      cases hs
      exact .inr (.inr (by decide))⟩
  have h₄ := h₃.tail ⟨.reader (.read [104] rfl (by simp) (by decide)), fun h ↦ by cases h⟩
  have hb := queue_bounded (CarefulRun.reachable h₄) (i := 0) rfl
  exact ⟨_, _, h₄, rfl, rfl, hb.1, hb.2.2.2 h₄ rfl⟩

/-! ### A slow actor -/

/-- The actor is behind by so many one-byte reads, and the owner's queue holds so much. -/
structure Behind (s : System) (n q : Nat) : Prop where
  reader : s.reader = ⟨some 0, .waiting⟩
  idle : s.actor.effects = []
  attachments : s.actor.attachments = [0]
  output : s.actor.outputClosed = false
  alive : s.ended = false
  inbox : s.inbox = List.replicate n (.output [0])
  stream : ∃ st, s.streams 0 = some st ∧ st.queue.onFull = .holdReader ∧
    st.queue.capacity = 65536 ∧ st.queue.receiverGone = false ∧ st.queue.overflowed = false ∧
    st.queue.queued = q ∧ st.queue.reserved = n

private theorem Behind.read (size : Nat) {n q : Nat} (h : Behind s n q)
    (hroom : q + n < 65536) :
    ∃ t, Steps size s t ∧ Behind t (n + 1) q := by
  obtain ⟨hr, hi, ha, ho, hal, hin, st, hst, hf, hc, hg, hov, hq, hres⟩ := h
  have hflow : s.reader.flow = some 0 := by rw [hr]
  have s₁ : Step size s (s.withReader .reading) := .reader (.room (by rw [hr]) (by
    intro k st' hk hst'
    rw [hflow] at hk
    cases hk
    rw [hst] at hst'
    cases hst'
    simp only [Queue.hasRoom, hq, hres, hc, Bool.or_eq_true, decide_eq_true_eq]
    exact .inr hroom))
  refine ⟨_, ((Relation.ReflTransGen.single s₁).tail (.reader (.read [0] rfl (by simp)
    (by decide)))).tail (.reader (.reserve [0] rfl)) |>.tail (.reader (.send [0] ?_)), ?_⟩
  · unfold System.reserve
    split <;> [rfl; skip]
    split <;> rfl
  · unfold System.reserve
    simp only [System.withReader, hflow, hst]
    refine ⟨rfl, hi, ha, ho, hal, ?_, _, rfl, hf, hc, hg, hov, hq, ?_⟩
    · change s.inbox ++ [.output [0]] = _
      rw [hin, List.replicate_succ']
    · change st.queue.reserved + 1 = n + 1
      rw [hres]

private theorem Behind.handle (size : Nat) {n q : Nat} (h : Behind s (n + 1) q) :
    ∃ t, Steps size s t ∧ Behind t n (q + (size + 1)) := by
  obtain ⟨hr, hi, ha, ho, hal, hin, st, hst, hf, hc, hg, hov, hq, hres⟩ := h
  rw [List.replicate_succ] at hin
  have hh : s.actor.handle (.output [0]) = s.actor.emit (.broadcast (.data [0])) := by
    simp [Actor.handle, ho]
  have hp : (st.push size (.data [0])) =
      ({ st with
        queue := { st.queue with
          reserved := n, queued := q + (size + 1), events := st.queue.events ++ [.data [0]] }
        enqueued := st.enqueued ++ [.data [0]] }, true) := by
    simp [Stream.push, Queue.push, Queue.unreserve, hg, hov, hf, hq, hres, eventCost]
  have s₁ : Step size s (s.take (.output [0]) (List.replicate n (.output [0]))) :=
    .actor (.receive _ _ hi hal hin)
  have h₁ : (s.take (.output [0]) (List.replicate n (.output [0]))).actor.effects =
      [.broadcast (.data [0])] := by
    simp [System.take, hh, Actor.emit, hi]
  have hatt : (s.take (.output [0]) (List.replicate n (.output [0]))).actor.attachments = [0] := by
    simp [System.take, hh, Actor.emit, ha]
  have s₂ := (Relation.ReflTransGen.single s₁).tail (.actor (.broadcast _ _ h₁))
  rw [hatt] at s₂
  have s₃ := (s₂.tail (.actor (.tell _ _ _ _ st rfl hst (by rw [hp])))).tail
    (.actor (.told _ _ rfl))
  refine ⟨_, s₃, hr, rfl, ?_, ?_, hal, rfl, _, rfl, ?_⟩
  · exact hatt
  · simp [System.take, System.proceed, System.withStream, hh, Actor.emit, ho]
  · rw [hp]
    exact ⟨hf, hc, hg, hov, rfl, rfl⟩

private theorem Behind.reads (size n : Nat) {q : Nat} (h : Behind s 0 q)
    (hroom : q + n ≤ 65536) :
    ∃ t, Steps size s t ∧ Behind t n q := by
  induction n with
  | zero => exact ⟨s, .refl, h⟩
  | succ n ih =>
    obtain ⟨t, hst, ht⟩ := ih (by omega)
    obtain ⟨u, htu, hu⟩ := ht.read size (by omega)
    exact ⟨u, hst.trans htu, hu⟩

private theorem Behind.handles (size : Nat) {n q : Nat} (h : Behind s n q) :
    ∃ t, Steps size s t ∧ Behind t 0 (q + n * (size + 1)) := by
  induction n generalizing s q with
  | zero => exact ⟨s, .refl, by simpa using h⟩
  | succ n ih =>
    obtain ⟨t, hst, ht⟩ := h.handle size
    obtain ⟨u, htu, hu⟩ := ih ht
    refine ⟨u, hst.trans htu, ?_⟩
    rw [show q + (n + 1) * (size + 1) = q + (size + 1) + n * (size + 1) by ring]
    exact hu

private theorem behind_start (session : SessionRef) (pid : Option Nat) : ∃ s,
    Reachable 24 session pid (some 65536) s ∧ Behind s 0 24 := by
  have h₀ : Reachable 24 session pid (some 65536) _ := .refl
  have h₁ := h₀.tail (.actor (.broadcast _ _ rfl))
  have h₂ := h₁.tail (.actor (.tell _ _ _ _ _ rfl rfl rfl))
  have h₃ := h₂.tail (.actor (.told _ _ rfl))
  exact ⟨_, h₃, rfl, rfl, rfl, rfl, rfl, rfl, _, rfl, rfl, rfl, rfl, rfl, rfl, rfl⟩

/-- Four thousand reads of one byte before the actor handles any of them bring the owner's
queue far beyond its capacity. -/
theorem tiny_reads_unbounded :
    ¬ ∀ s, Reachable 24 ⟨"/private", "tiny", "generation-a"⟩ (some 7) (some 65536) s →
      ∀ i st, s.streams i = some st → st.queue.onFull = .holdReader →
        st.queue.queued ≤ st.queue.capacity + maxReadCost 24 + 3 * 24 := by
  intro hall
  obtain ⟨s, hs, hb⟩ := behind_start ⟨"/private", "tiny", "generation-a"⟩ (some 7)
  obtain ⟨t, hst, ht⟩ := hb.reads 24 4000 (by omega)
  obtain ⟨u, htu, hu⟩ := ht.handles 24
  obtain ⟨st, hi, hf, hc, _, _, hq, _⟩ := hu.stream
  have := hall u (hs.trans (hst.trans htu)) 0 st hi hf
  rw [hq, hc, maxReadCost, readChunk] at this
  omega

end PtySpec.Substrate
