import PtySpec.Protocol.Packet

/-!
# What arrives before an over-long header

A client's reader thread, `crates/pty/src/daemon/lifecycle.rs:844`, hands on the packets of each
read, and stops at the first error. `PacketReader::feed` returns an error instead of packets,
so the packets that the same read has completed are lost: all packets before the header arrive
exactly if the read that completes the header starts no earlier than it.
-/

namespace PtySpec.Protocol

open PtySpec.Lib

/-- The packets handed on before the first error, and the error, `lifecycle.rs:844`. -/
def PacketReader.deliver (r : PacketReader) :
    List (List UInt8) → List Packet × Option IoError
  | [] => ([], none)
  | chunk :: chunks =>
    match r.feed chunk with
    | (_, .error e) => ([], some e)
    | (r', .ok packets) => (packets ++ (r'.deliver chunks).1, (r'.deliver chunks).2)

/-- Where the bytes end that whole packets are made of: at the over-long header if there is
one. -/
def headerAt (stream : List UInt8) : Nat := stream.length - (frames.drain stream).rest.length

/-- Where a read makes an over-long header known, it starts no earlier than the header. The
stream goes on from `buffer`. -/
def HeaderApart (buffer : List UInt8) (chunks : List (List UInt8)) : Prop :=
  ∀ pre chunk post, chunks = pre ++ chunk :: post →
    (frames.drain (buffer ++ pre.flatten)).error = none →
    (frames.drain (buffer ++ pre.flatten ++ chunk)).error ≠ none →
    headerAt (buffer ++ chunks.flatten) ≤ (buffer ++ pre.flatten).length

/-! ### What is left of a stream -/

/-- Draining only takes bytes off the front. -/
private theorem length_drain_rest (b : List UInt8) :
    (frames.drain b).rest.length ≤ b.length := by
  induction hn : b.length using Nat.strongRecOn generalizing b with
  | ind n ih =>
    subst hn
    cases h : frames.next b with
    | more => rw [frames.drain_more h]
    | fail e => rw [frames.drain_fail h]
    | item p r =>
      have hlt := frames.length_lt h
      rw [frames.drain_item h]
      exact (ih r.length hlt r rfl).trans hlt.le

/-- What follows a failing buffer is left behind it. -/
private theorem drain_rest_append {b : List UInt8} (c : List UInt8) {e : IoError}
    (h : (frames.drain b).error = some e) :
    (frames.drain (b ++ c)).rest = (frames.drain b).rest ++ c := by
  induction hn : b.length using Nat.strongRecOn generalizing b with
  | ind n ih =>
    subst hn
    cases hb : frames.next b with
    | more =>
      rw [frames.drain_more hb] at h
      cases h
    | fail e' => rw [frames.drain_fail hb, frames.drain_fail (frames.fail_append c hb)]
    | item p r =>
      rw [frames.drain_item hb] at h ⊢
      rw [frames.drain_item (frames.item_append c hb)]
      exact ih r.length (frames.length_lt hb) h rfl

/-- A packet that a buffer does not have whole ends within the bytes that follow it. -/
private theorem length_rest_lt {b c r : List UInt8} {p : Packet} (hb : nextFrame b = .more)
    (h : nextFrame (b ++ c) = .item p r) : r.length < c.length := by
  unfold nextFrame at h
  split at h
  · next t w x y z body hbody =>
    dsimp only at h
    split at h
    · cases h
    · next hmax =>
      split at h
      · cases h
      · next hlen =>
        cases h
        have hsum := congrArg List.length hbody
        simp only [List.length_append, List.length_cons] at hsum
        rw [List.length_drop]
        by_cases h5 : b.length < 5
        · omega
        · -- the header is in the buffer, and the packet is longer than it
          obtain ⟨tail, rfl⟩ : ∃ tail, b = t :: w :: x :: y :: z :: tail := by
            match b, h5 with
            | t' :: w' :: x' :: y' :: z' :: tail, _ =>
              simp only [List.cons_append, List.cons.injEq] at hbody
              obtain ⟨rfl, rfl, rfl, rfl, rfl, -⟩ := hbody
              exact ⟨tail, rfl⟩
            | [], h5 | [_], h5 | [_, _], h5 | [_, _, _], h5 | [_, _, _, _], h5 =>
              simp at h5
          simp only [nextFrame, if_neg hmax] at hb
          split at hb
          · next hlt =>
            simp only [List.length_cons] at hsum
            omega
          · cases hb
  · cases h

/-- A buffer without a whole packet gives none with more bytes exactly if the header that stops
it starts within it. -/
private theorem items_eq_nil_iff {b c : List UInt8} (hb : nextFrame b = .more) :
    (frames.drain (b ++ c)).items = [] ↔ headerAt (b ++ c) ≤ b.length := by
  unfold headerAt
  cases h : frames.next (b ++ c) with
  | more => simp [frames.drain_more h]
  | fail e => simp [frames.drain_fail h]
  | item p r =>
    have hlt := length_rest_lt hb h
    have hrest := length_drain_rest r
    rw [frames.drain_item h, List.length_append]
    simp only [List.cons_ne_nil, false_iff]
    omega

/-! ### Reads -/

/-- A read that completes the over-long header hands on nothing. -/
private theorem feed_of_error (r : PacketReader) (data : List UInt8) {e : IoError}
    (h : (frames.drain (r.buffer ++ data)).error = some e) : r.feed data = (⟨[]⟩, .error e) := by
  rw [PacketReader.feed, feedLoop_eq_drain, h]

private theorem headerAt_append {b c rest : List UInt8} (he : (frames.drain b).error = none)
    (hr : (frames.drain b).rest = rest) :
    headerAt (b ++ c) = b.length - rest.length + headerAt (rest ++ c) := by
  subst hr
  have h₁ := length_drain_rest b
  have h₂ := length_drain_rest ((frames.drain b).rest ++ c)
  unfold headerAt
  rw [frames.drain_append b c he]
  simp only [List.length_append] at h₂ ⊢
  omega

/-- After a read without an error, the condition is one on what is left. -/
private theorem headerApart_cons {b chunk : List UInt8} {chunks : List (List UInt8)}
    (he : (frames.drain (b ++ chunk)).error = none) :
    HeaderApart b (chunk :: chunks) ↔ HeaderApart (frames.drain (b ++ chunk)).rest chunks := by
  have herror : ∀ c, (frames.drain (b ++ chunk ++ c)).error =
      (frames.drain ((frames.drain (b ++ chunk)).rest ++ c)).error := fun c ↦ by
    rw [frames.drain_append _ c he]
  have hlen := length_drain_rest (b ++ chunk)
  have hat := headerAt_append (c := chunks.flatten) he rfl
  constructor
  · intro h pre c post hc hnone hsome
    have hthis := h (chunk :: pre) c post (by rw [hc]; rfl)
      (by rw [List.flatten_cons, ← List.append_assoc, herror]; exact hnone)
      (by rw [List.flatten_cons, ← List.append_assoc, List.append_assoc (b ++ chunk), herror,
        ← List.append_assoc]; exact hsome)
    rw [List.flatten_cons, List.flatten_cons, ← List.append_assoc, ← List.append_assoc,
      hat] at hthis
    simp only [List.length_append] at hthis hlen ⊢
    omega
  · intro h pre c post hc hnone hsome
    cases pre with
    | nil =>
      obtain ⟨rfl, rfl⟩ := List.cons.inj hc
      rw [List.flatten_nil, List.append_nil, he] at hsome
      exact absurd rfl hsome
    | cons x pre =>
      obtain ⟨rfl, htail⟩ := List.cons.inj hc
      rw [List.flatten_cons, ← List.append_assoc, herror] at hnone
      rw [List.flatten_cons, ← List.append_assoc, List.append_assoc (b ++ chunk), herror,
        ← List.append_assoc] at hsome
      have hthis := h pre c post htail hnone hsome
      rw [List.flatten_cons, List.flatten_cons, ← List.append_assoc, ← List.append_assoc, hat]
      simp only [List.length_append] at hthis hlen ⊢
      omega

/-- The packets of the reads of a stream are all of its packets exactly where the reads leave an
over-long header apart. -/
private theorem deliver_iff (chunks : List (List UInt8)) (r : PacketReader)
    (hr : nextFrame r.buffer = .more) :
    r.deliver chunks = ((frames.drain (r.buffer ++ chunks.flatten)).items,
        (frames.drain (r.buffer ++ chunks.flatten)).error) ↔ HeaderApart r.buffer chunks := by
  induction chunks generalizing r with
  | nil =>
    have hdrain : frames.drain r.buffer = ⟨[], r.buffer, none⟩ := frames.drain_more hr
    rw [List.flatten_nil, List.append_nil, hdrain]
    exact ⟨fun _ pre c post hc ↦ absurd hc (by simp), fun _ ↦ rfl⟩
  | cons chunk chunks ih =>
    rw [List.flatten_cons, ← List.append_assoc]
    cases he : (frames.drain (r.buffer ++ chunk)).error with
    | none =>
      rw [headerApart_cons he, ← ih ⟨_⟩ (frames.next_drain_rest _ he), PacketReader.deliver,
        feed_eq r chunk he, frames.drain_append _ chunks.flatten he]
      simp only [Prod.mk.injEq, List.append_cancel_left_eq]
      exact ⟨fun h ↦ Prod.ext h.1 h.2, fun h ↦ ⟨congrArg Prod.fst h, congrArg Prod.snd h⟩⟩
    | some e =>
      obtain ⟨hitems, herror⟩ := frames.drain_append_of_error _ chunks.flatten e he
      have hat : headerAt (r.buffer ++ chunk ++ chunks.flatten) =
          headerAt (r.buffer ++ chunk) := by
        unfold headerAt
        have := length_drain_rest (r.buffer ++ chunk)
        rw [drain_rest_append chunks.flatten he]
        simp only [List.length_append] at this ⊢
        omega
      rw [PacketReader.deliver, feed_of_error r chunk he, hitems, herror]
      simp only [Prod.mk.injEq, and_true]
      rw [eq_comm, items_eq_nil_iff hr, ← hat]
      constructor
      · intro h pre c post hc hnone _
        cases pre with
        | nil => rwa [List.flatten_cons, ← List.append_assoc, List.flatten_nil, List.append_nil]
        | cons x pre =>
          obtain ⟨rfl, -⟩ := List.cons.inj hc
          have hsome := (frames.drain_append_of_error _ pre.flatten e he).2
          rw [List.flatten_cons, ← List.append_assoc, hsome] at hnone
          cases hnone
      · intro h
        have hnone : (frames.drain
            (r.buffer ++ ([] : List (List UInt8)).flatten)).error = none := by
          rw [List.flatten_nil, List.append_nil, show frames.drain r.buffer = _ from
            frames.drain_more hr]
        have hthis := h [] chunk chunks rfl hnone (by
          rw [List.flatten_nil, List.append_nil, he]
          exact Option.some_ne_none e)
        rwa [List.flatten_cons, ← List.append_assoc, List.flatten_nil, List.append_nil] at hthis

/-- For every stream and every way of cutting it into reads, the packets handed on before an
over-long header, or before the end, are all of those that precede it, exactly if the read that
completes the header starts no earlier than the header. -/
theorem deliver_eq_drain_iff (chunks : List (List UInt8)) :
    ({} : PacketReader).deliver chunks =
        ((frames.drain chunks.flatten).items, (frames.drain chunks.flatten).error) ↔
      HeaderApart [] chunks :=
  deliver_iff chunks {} rfl

/-- A DATA packet and an over-long header: in two reads the packet arrives, in one it is lost. -/
theorem deliver_eq_drain_lost :
    let packet : List UInt8 := [0, 0, 0, 0, 1, 104]
    let header : List UInt8 := [0, 255, 255, 255, 255]
    (({} : PacketReader).deliver [packet, header]).1 = [⟨.data, [104]⟩] ∧
      (({} : PacketReader).deliver [packet ++ header]).1 = [] := by
  intro packet header
  let error : IoError := .invalidData (tooLargeMessage 4294967295)
  have hheader : frames.drain header = ⟨[], header, some error⟩ := frames.drain_fail rfl
  have hpacket : frames.drain packet = ⟨[⟨.data, [104]⟩], [], none⟩ := by
    rw [frames.drain_item (show frames.next packet = .item ⟨.data, [104]⟩ [] from rfl),
      frames.drain_more rfl]
  have hboth : frames.drain (packet ++ header) = ⟨[⟨.data, [104]⟩], header, some error⟩ := by
    rw [frames.drain_item (show frames.next (packet ++ header) = .item ⟨.data, [104]⟩ header
      from rfl), hheader]
  constructor
  · rw [PacketReader.deliver, feed_eq {} packet (congrArg (·.error) hpacket),
      show frames.drain (({} : PacketReader).buffer ++ packet) = _ from hpacket]
    dsimp only
    rw [PacketReader.deliver, feed_of_error ⟨[]⟩ header (congrArg (·.error) hheader)]
    rfl
  · rw [PacketReader.deliver, feed_of_error {} (packet ++ header) (congrArg (·.error) hboth)]

end PtySpec.Protocol
