import PtySpec.Serving.Clients

/-!
# What a client of a serving daemon receives

After a SCREEN a client receives what the terminal puts out from the moment the SCREEN
was serialized, and EXIT once, until it asks for another SCREEN; while it waits for one
it receives neither. A client that is cut off has received the beginning of that.
-/

namespace PtySpec.Serving

open Lib Protocol

/-- The packets of a client's log. -/
def packets (log : List (Handed Packet UInt8)) : List Packet :=
  log.filterMap fun i ↦
    match i with
    | .snapshot packet _ | .ending packet | .other packet => some packet
    | .chunk bytes => some (.data bytes)
    | .paused _ _ => none

/-- What holds of a client when the terminal has put out `output` and the child has exited
or not; `waiting` says whether it waits for a SCREEN. -/
structure Told (output : List UInt8) (exited waiting : Bool) (c : Client) : Prop where
  current : c.cutOff = false → Handed.Exact output exited c.log ∧ Handed.waiting c.log = waiting
  behind : ∃ output' exited', output' <+: output ∧ (exited' = true → exited = true) ∧
    Handed.Exact output' exited' c.log
  queued : c.hungUp = false → packets c.log = c.written ++ c.inFlight.toList ++ c.tx
  gone : c.hungUp = true → c.inFlight = none ∧ c.tx = []
  received : c.written <+: packets c.log

namespace Told

variable {output : List UInt8} {exited waiting : Bool} {c : Client}

/-- A client that was just connected. -/
theorem new (rows cols : UInt16) : Told output exited false { rows := rows, cols := cols } where
  current := fun _ ↦ ⟨.nil, rfl⟩
  behind := ⟨output, exited, List.prefix_refl _, id, .nil⟩
  queued := fun _ ↦ rfl
  gone := nofun
  received := List.prefix_refl _

/-- Only the log, the queue and the end of the connection matter. -/
theorem congr (h : Told output exited waiting c) {d : Client} (hr : d.rejected = c.rejected)
    (hu : d.hungUp = c.hungUp) (ht : d.tx = c.tx) (hf : d.inFlight = c.inFlight)
    (hw : d.written = c.written) (hl : d.log = c.log) : Told output exited waiting d where
  current := by
    rw [Client.cutOff, hr, hu, hl]
    exact h.current
  behind := hl ▸ h.behind
  queued := by
    rw [hu, ht, hf, hw, hl]
    exact h.queued
  gone := by
    rw [hu, ht, hf]
    exact h.gone
  received := by
    rw [hw, hl]
    exact h.received

/-- A client that is cut off stays as it is. -/
theorem of_cutOff (h : Told output exited waiting c) (hc : c.cutOff = true)
    {output' : List UInt8} {exited' : Bool} (ho : output <+: output')
    (he : exited = true → exited' = true) (waiting' : Bool) :
    Told output' exited' waiting' c := by
  refine ⟨fun hn ↦ by simp [hc] at hn, ?_, h.queued, h.gone, h.received⟩
  obtain ⟨o, e, hop, hep, hx⟩ := h.behind
  exact ⟨o, e, hop.trans ho, fun h ↦ he (hep h), hx⟩

/-- Output and exit pass by a client that waits for its SCREEN. -/
theorem of_waiting (h : Told output exited true c) {output' : List UInt8} {exited' : Bool}
    (ho : output <+: output') (he : exited = true → exited' = true) :
    Told output' exited' true c := by
  cases hc : c.cutOff with
  | true => exact h.of_cutOff hc ho he true
  | false =>
    obtain ⟨hx, hw⟩ := h.current hc
    have hx' := hx.of_waiting hw ho exited'
    exact ⟨fun _ ↦ ⟨hx', hw⟩, ⟨output', exited', List.prefix_refl _, id, hx'⟩, h.queued,
      h.gone, h.received⟩

theorem packets_append_handed (log : List (Handed Packet UInt8)) (packet : Packet)
    (position : Nat) : packets (log ++ [handed packet position]) = packets log ++ [packet] := by
  obtain ⟨type_, payload⟩ := packet
  cases type_ <;> simp [packets, handed, Packet.data]

/-- One more packet, when the client may be handed it next. -/
theorem send (h : Told output exited waiting c) (capacity : Packet → Nat) {position : Nat}
    {packet : Packet} {output' : List UInt8} {exited' waiting' : Bool}
    (hn : Handed.Next output exited waiting (handed packet position) output' exited')
    (hw : ((handed packet position).isPaused ||
      (!(handed packet position).isSnapshot && waiting)) = waiting')
    (ho : output <+: output') (he : exited = true → exited' = true) :
    Told output' exited' waiting' (c.send capacity position packet) := by
  rcases c.send_cases capacity position packet with ⟨hc, heq⟩ | ⟨hc, heq⟩ | heq
  · rw [heq]
    obtain ⟨hx, hwait⟩ := h.current hc
    have hx' := hx.next hwait hn
    have hu : c.hungUp = false := (Bool.or_eq_false_iff.mp hc).2
    refine ⟨fun _ ↦ ⟨hx', ?_⟩, ⟨output', exited', List.prefix_refl _, id, hx'⟩, fun _ ↦ ?_,
      fun hu' ↦ ?_, ?_⟩
    · rw [Handed.waiting_append_singleton, hwait, hw]
    · rw [packets_append_handed, h.queued hu, List.append_assoc]
    · have := hu.symm.trans hu'
      cases this
    · rw [packets_append_handed]
      exact h.received.trans (List.prefix_append _ _)
  · rw [heq]
    exact h.of_cutOff hc ho he waiting'
  · rw [heq]
    obtain ⟨o, e, hop, hep, hx⟩ := h.behind
    exact ⟨fun hn ↦ by simp [Client.cutOff] at hn,
      ⟨o, e, hop.trans ho, fun h ↦ he (hep h), hx⟩, h.queued, h.gone, h.received⟩

/-- A packet that is not of the stream. -/
theorem sendOther (h : Told output exited waiting c) (capacity : Packet → Nat) {position : Nat}
    {packet : Packet} (hp : handed packet position = .other packet) :
    Told output exited waiting (c.send capacity position packet) := by
  refine h.send capacity (hp ▸ .other waiting packet) ?_ (List.prefix_refl _) id
  simp [hp, Handed.isPaused, Handed.isSnapshot]

/-- DATA, to a client that does not wait. -/
theorem sendData (h : Told output exited false c) (capacity : Packet → Nat) {position : Nat}
    (bytes : List UInt8) :
    Told (output ++ bytes) exited false (c.send capacity position (.data bytes)) :=
  h.send capacity (.chunk bytes) rfl (List.prefix_append _ _) id

/-- EXIT, to a client that does not wait. -/
theorem sendExit (h : Told output false false c) (capacity : Packet → Nat) {position : Nat}
    (code : Int32) : Told output true false (c.send capacity position (.exit code)) :=
  h.send capacity (.ending (Packet.exit code) rfl) rfl (List.prefix_refl _) nofun

/-- A client that waits starts to wait anew. -/
theorem settle (h : Told output exited waiting c) (deadline generation : Nat) (kind : CutKind) :
    Told output exited true (c.settle output.length exited deadline generation kind) := by
  cases hc : c.cutOff with
  | true =>
    have hc' : (c.settle output.length exited deadline generation kind).cutOff = true := hc
    refine (h.of_cutOff hc (List.prefix_refl _) id true).congr rfl rfl rfl rfl rfl ?_
    simp [Client.settle, hc]
  | false =>
    obtain ⟨hx, hw⟩ := h.current hc
    have hx' := hx.next hw (.paused waiting)
    have hlog : (c.settle output.length exited deadline generation kind).log =
        c.log ++ [.paused output.length exited] := by simp [Client.settle, hc]
    have hpackets : packets (c.log ++ [.paused output.length exited]) = packets c.log := by
      simp [packets]
    refine ⟨fun _ ↦ ?_, ?_, fun hu ↦ ?_, h.gone, ?_⟩
    · rw [hlog]
      exact ⟨hx', by simp [Handed.isPaused]⟩
    · rw [hlog]
      exact ⟨output, exited, List.prefix_refl _, id, hx'⟩
    · rw [hlog, hpackets]
      exact h.queued hu
    · rw [hlog, hpackets]
      exact h.received

/-- Nothing reaches a client that is cut off. -/
theorem send_of_cutOff (h : Told output exited waiting c) (hc : c.cutOff = true)
    (capacity : Packet → Nat) (position : Nat) (packet : Packet) (waiting' : Bool) :
    Told output exited waiting' (c.send capacity position packet) ∧
      (c.send capacity position packet).cutOff = true := by
  have h' := h.of_cutOff hc (List.prefix_refl _) id waiting'
  rcases c.send_cases capacity position packet with ⟨hn, -⟩ | ⟨-, heq⟩ | heq
  · simp [hc] at hn
  · rw [heq]
    exact ⟨h', hc⟩
  · rw [heq]
    exact ⟨⟨fun hn ↦ by simp [Client.cutOff] at hn, h'.behind, h'.queued, h'.gone, h'.received⟩,
      by simp [Client.cutOff]⟩

/-- SCREEN, then live, then EXIT when the child is gone. -/
theorem screen (h : Told output exited true c) (capacity : Packet → Nat) (bytes : List UInt8)
    (code : Int32) :
    let d := { c.send capacity output.length (.screen bytes) with phase := .live }
    Told output exited false
      (if exited then d.send capacity output.length (.exit code) else d) := by
  intro d
  cases hc : c.cutOff with
  | true =>
    obtain ⟨hd, hcut⟩ := h.send_of_cutOff hc capacity output.length (.screen bytes) false
    have hd : Told output exited false d := hd.congr rfl rfl rfl rfl rfl rfl
    split
    · exact (hd.send_of_cutOff hcut capacity output.length (.exit code) false).1
    · exact hd
  | false =>
    -- the SCREEN starts a turn in which EXIT is still to come
    obtain ⟨hx, hw⟩ := h.current hc
    have hx' := hx.of_waiting hw (List.prefix_refl _) false
    have hreopen : Told output false true c :=
      ⟨fun _ ↦ ⟨hx', hw⟩, ⟨output, false, List.prefix_refl _, id, hx'⟩, h.queued, h.gone,
        h.received⟩
    have hsent : Told output false false (c.send capacity output.length (.screen bytes)) :=
      hreopen.send capacity (.snapshot (Packet.screen bytes)) rfl (List.prefix_refl _) id
    have hd : Told output false false d := hsent.congr rfl rfl rfl rfl rfl rfl
    cases exited with
    | true => exact hd.sendExit capacity code
    | false => exact hd

/-- The writer takes a packet. -/
theorem writerTakes (h : Told output exited waiting c) :
    Told output exited waiting (Daemon.writerTakes c) := by
  unfold Daemon.writerTakes
  split
  · next hf ht =>
    refine ⟨h.current, h.behind, fun hu ↦ ?_, fun hu ↦ ?_, h.received⟩
    · rw [h.queued hu, hf, ht]
      simp
    · have := (h.gone hu).2
      simp [ht] at this
  · exact h

/-- The writer has written a packet. -/
theorem writerWrote (h : Told output exited waiting c) (capacity : Packet → Nat) :
    Told output exited waiting (Daemon.writerWrote capacity c) := by
  unfold Daemon.writerWrote
  split
  · next packet hf =>
    have hu : c.hungUp = false := by
      cases hu : c.hungUp with
      | false => rfl
      | true => simp [(h.gone hu).1] at hf
    have hq : packets c.log = c.written ++ [packet] ++ c.tx := by simp [h.queued hu, hf]
    refine ⟨h.current, h.behind, fun _ ↦ ?_, fun hu' ↦ ?_, ?_⟩
    · rw [hq]
      simp
    · exact ⟨rfl, (h.gone hu').2⟩
    · rw [hq]
      exact List.prefix_append _ _
  · exact h

/-- The writer ends. -/
theorem writerEnds (h : Told output exited waiting c) (capacity : Packet → Nat) :
    Told output exited waiting (Daemon.writerEnds capacity c) where
  current := fun hc ↦ by simp [Daemon.writerEnds, Client.cutOff] at hc
  behind := h.behind
  queued := nofun
  gone := fun _ ↦ ⟨rfl, rfl⟩
  received := h.received

end Told

namespace Daemon

section Clients

variable {T : Type} {s : Daemon T}

/-- Every client was told what it should have been. -/
def Streams (s : Daemon T) : Prop :=
  ∀ p ∈ s.clients, Told s.output s.exited p.2.isSettling p.2

/-! ### One lemma per operation -/

/-- A change of one client that keeps what it was told. -/
theorem Streams.modify (h : Streams s) {id : Nat} {f : Client → Client}
    (hf : ∀ c, s.client id = some c → Told s.output s.exited c.isSettling c →
      Told s.output s.exited (f c).isSettling (f c)) : Streams (s.modify id f) := by
  intro p hp
  rcases mem_update hp with hp | ⟨c, hl, hc, rfl⟩
  · exact h p hp
  · exact hf c hl (h _ hc)

/-- A change of every client that keeps what it was told. -/
theorem Streams.map (h : Streams s) {t : Daemon T} {f : Client → Client}
    (ht : t.clients = s.clients.map fun (i, c) ↦ (i, f c))
    (hf : ∀ c, Told s.output s.exited c.isSettling c →
      Told t.output t.exited (f c).isSettling (f c)) : Streams t := by
  intro p hp
  rw [ht] at hp
  obtain ⟨⟨i, c⟩, hq, rfl⟩ := List.mem_map.mp hp
  exact hf c (h _ hq)

/-- The rest of the daemon does not matter. -/
theorem Streams.congr (h : Streams s) {t : Daemon T} (hc : ∀ p ∈ t.clients, p ∈ s.clients)
    (ho : t.output = s.output) (he : t.exited = s.exited) : Streams t := by
  intro p hp
  rw [ho, he]
  exact h p (hc p hp)

/-- A change of what the daemon knows of a client. -/
theorem Streams.modifyFacts (h : Streams s) {id : Nat} {f : Client → Client}
    (hr : ∀ c, (f c).rejected = c.rejected ∧ (f c).hungUp = c.hungUp ∧ (f c).tx = c.tx ∧
      (f c).inFlight = c.inFlight ∧ (f c).written = c.written ∧ (f c).log = c.log ∧
      (f c).phase = c.phase) : Streams (s.modify id f) := by
  refine h.modify fun c _ hc ↦ ?_
  obtain ⟨h₁, h₂, h₃, h₄, h₅, h₆, h₇⟩ := hr c
  have hs : (f c).isSettling = c.isSettling := by simp [Client.isSettling, h₇]
  rw [hs]
  exact hc.congr h₁ h₂ h₃ h₄ h₅ h₆

@[simp] theorem isSettling_send (capacity : Packet → Nat) (position : Nat) (c : Client)
    (packet : Packet) : (c.send capacity position packet).isSettling = c.isSettling := by
  unfold Client.send
  split
  · rfl
  · split
    · split <;> rfl
    · rfl

theorem Streams.sendTo (h : Streams s) (id : Nat) {packet : Packet}
    (hp : ∀ n, handed packet n = .other packet) : Streams (s.sendTo id packet) := by
  refine h.modify fun c _ hc ↦ ?_
  rw [isSettling_send]
  exact hc.sendOther s.capacity (hp _)

theorem Streams.broadcastGeometry (h : Streams s) (rows cols : UInt16) :
    Streams (s.broadcastGeometry rows cols) := by
  refine h.map (f := fun c ↦ if c.getsGeometry then
    c.send s.capacity s.output.length (.geometry rows cols) else c) rfl fun c hc ↦ ?_
  split
  · rw [isSettling_send]
    exact hc.sendOther s.capacity rfl
  · exact hc

/-- The terminal puts out `bytes`, which every client that does not wait is sent. -/
theorem Streams.broadcastData (h : Streams s) {t : Daemon T} (bytes : List UInt8)
    (hc : t.clients = s.clients) (ho : t.output = s.output ++ bytes) (he : t.exited = s.exited) :
    Streams (t.broadcast (.data bytes)) := by
  refine h.map (f := fun c ↦ if c.isSettling then c else
    c.send t.capacity t.output.length (.data bytes)) ?_ fun c ht ↦ ?_
  · rw [← hc]
    rfl
  · have hout : (t.broadcast (.data bytes)).output = s.output ++ bytes := ho
    have hex : (t.broadcast (.data bytes)).exited = s.exited := he
    rw [hout, hex]
    cases hs : c.isSettling with
    | true =>
      rw [hs] at ht
      rw [if_pos rfl, hs]
      exact ht.of_waiting (List.prefix_append _ _) id
    | false =>
      rw [hs] at ht
      rw [if_neg (by simp), isSettling_send, hs]
      exact ht.sendData t.capacity bytes

end Clients

section Operations

variable {T : Type} [Terminal T] {s : Daemon T}

theorem Streams.negotiateSize (h : Streams s) (now : Nat) : Streams (s.negotiateSize now).2 := by
  unfold Daemon.negotiateSize
  dsimp only
  split
  · exact h
  · split
    · exact h
    · split
      · exact h
      · have hr : Streams { s with
            actor := Terminal.resize s.actor (negotiated s.clients).2 (negotiated s.clients).1 } :=
          h.congr (fun _ ↦ id) rfl rfl
        exact (hr.broadcastGeometry _ _).congr (fun _ ↦ id) rfl rfl

theorem Streams.noteClientChange (h : Streams s) (attach : Bool) :
    Streams (s.noteClientChange attach) := by
  unfold Daemon.noteClientChange
  split
  · exact h
  · exact h.congr (fun _ ↦ id) rfl rfl

theorem Streams.adoptCellSize (h : Streams s) (payload : List UInt8) :
    Streams (s.adoptCellSize payload).2 := by
  unfold Daemon.adoptCellSize
  split
  · dsimp only
    split
    · exact h.congr (fun _ ↦ id) rfl rfl
    · exact h
  · exact h

theorem Streams.applyCellSize (h : Streams s) (cellChanged resized : Bool) :
    Streams (s.applyCellSize cellChanged resized) := by
  unfold Daemon.applyCellSize
  split
  · exact h.congr (fun _ ↦ id) rfl rfl
  · exact h

theorem Streams.answerGeometry (h : Streams s) (id : Nat) (resized : Bool) :
    Streams (s.answerGeometry id resized) := by
  unfold Daemon.answerGeometry
  split
  · exact h
  · exact h.sendTo id fun _ ↦ rfl

theorem Streams.nudgeAfterCut (h : Streams s) (now : Nat) (kind : CutKind) :
    Streams (s.nudgeAfterCut now kind) := by
  unfold Daemon.nudgeAfterCut nudgeRedraw
  split
  · split
    · dsimp only
      split
      · exact h
      · exact h.congr (fun _ ↦ id) rfl rfl
    · exact h
  · exact h

theorem Streams.handScreen (h : Streams s) {id : Nat} {c : Client} (kind : CutKind)
    (hc : s.client id = some c) (hs : c.isSettling = true) : Streams (s.handScreen id kind) := by
  refine h.modify fun d hd ht ↦ ?_
  obtain rfl : c = d := Option.some.inj (hc.symm.trans hd)
  rw [hs] at ht
  have hlive : ∀ d : Client, { d with phase := Phase.live }.isSettling = false := fun _ ↦ rfl
  have hscreen := ht.screen s.capacity (Daemon.screen s.actor kind) s.exitCode
  dsimp only at hscreen ⊢
  split at hscreen
  · next he =>
    rw [if_pos he, isSettling_send, hlive]
    exact hscreen
  · next he =>
    rw [if_neg he, hlive]
    exact hscreen

theorem Streams.cut (h : Streams s) (now id : Nat) : Streams (s.cut now id) := by
  unfold Daemon.cut
  split
  · exact h
  · next c hc =>
    split
    · exact h
    · next hp =>
      split
      · exact h
      · refine (h.handScreen _ hc ?_).nudgeAfterCut now _
        simp [Client.isSettling, hp]

theorem Streams.scheduleCut (h : Streams s) (now id generation : Nat) (kind : CutKind)
    (delay : Option Nat) : Streams (s.scheduleCut now id generation kind delay) := by
  have hsettle : Streams (s.modify id
      (·.settle s.output.length s.exited (now + delay.getD 0) generation kind)) :=
    h.modify fun c _ hc ↦ hc.settle _ _ _
  unfold Daemon.scheduleCut
  dsimp only
  split
  · exact hsettle.cut now id
  · exact hsettle

theorem Streams.serviceCuts (h : Streams s) (now : Nat) : Streams (s.serviceCuts now) := by
  unfold Daemon.serviceCuts
  dsimp only
  generalize s.clients.filterMap _ = due
  induction due generalizing s with
  | nil => exact h
  | cons id due ih => exact ih (h.cut now id)

/-! ### Messages -/

theorem Streams.onAttach (h : Streams s) (now id : Nat) (payload : List UInt8) :
    Streams (s.onAttach now id payload) := by
  unfold Daemon.onAttach
  split
  · exact h
  · split
    · exact h
    · refine Streams.scheduleCut (Streams.noteClientChange (Streams.answerGeometry
        (Streams.applyCellSize (Streams.negotiateSize (Streams.modifyFacts ?_ fun c ↦ ?_) _)
          _ _) _ _) _) _ _ _ _ _
      · exact (h.adoptCellSize payload).congr (fun _ hp ↦ hp) rfl rfl
      · exact ⟨rfl, rfl, rfl, rfl, rfl, rfl, rfl⟩

theorem Streams.onPeek (h : Streams s) (now id : Nat) (payload : List UInt8) :
    Streams (s.onPeek now id payload) := by
  unfold Daemon.onPeek
  split
  · exact h
  · next c hc =>
    have hrole : Streams (s.modify id fun d ↦
        { d with role := .readonly, generation := c.generation + 1 }) :=
      h.modifyFacts fun d ↦ ⟨rfl, rfl, rfl, rfl, rfl, rfl, rfl⟩
    have hanswered := (hrole.negotiateSize now).answerGeometry id
      ((s.modify id fun d ↦
        { d with role := .readonly, generation := c.generation + 1 }).negotiateSize now).1
    refine Streams.scheduleCut ?_ _ _ _ _ _
    dsimp only
    split
    · exact hanswered.noteClientChange false
    · exact hanswered

theorem Streams.onResize (h : Streams s) (now id : Nat) (payload : List UInt8) :
    Streams (s.onResize now id payload) := by
  unfold Daemon.onResize
  split
  · exact h
  · split
    · exact h
    · refine Streams.noteClientChange (Streams.applyCellSize (Streams.negotiateSize
        (Streams.adoptCellSize (Streams.modifyFacts ?_ fun c ↦ ?_) _) _) _ _) _
      · exact h.congr (fun _ hp ↦ hp) rfl rfl
      · exact ⟨rfl, rfl, rfl, rfl, rfl, rfl, rfl⟩

theorem Streams.onClosed (h : Streams s) (now id : Nat) : Streams (s.onClosed now id) := by
  unfold Daemon.onClosed
  split
  · exact h
  · have hfewer : Streams { s with clients := s.clients.filter (·.1 ≠ id) } :=
      h.congr (fun _ hp ↦ (List.mem_filter.mp hp).1) rfl rfl
    dsimp only
    split
    · exact (hfewer.negotiateSize now).noteClientChange false
    · exact hfewer.negotiateSize now

theorem Streams.onResetInputModes (h : Streams s) (id : Nat) (payload : List UInt8) :
    Streams (s.onResetInputModes id payload) := by
  unfold Daemon.onResetInputModes
  split
  · exact h.broadcastData _ rfl rfl rfl
  · exact h

theorem Streams.onPacket (h : Streams s) (now id : Nat) (packet : Packet) (reply : List UInt8) :
    Streams (s.onPacket now id packet reply) := by
  unfold Daemon.onPacket
  split
  · exact h.onAttach now id _
  · exact h.onPeek now id _
  · exact h.onResize now id _
  · exact h.onClosed now id
  · exact h.onResetInputModes id _
  · exact h.sendTo id fun _ ↦ rfl
  · exact h.sendTo id fun _ ↦ rfl
  · exact h.sendTo id fun _ ↦ rfl
  · exact h.sendTo id fun _ ↦ rfl
  · exact h

theorem Streams.onPtyData (h : Streams s) (bytes : List UInt8) : Streams (s.onPtyData bytes) := by
  unfold Daemon.onPtyData
  dsimp only
  split
  · next hnil =>
    refine h.congr (fun _ hp ↦ hp) ?_ rfl
    dsimp only
    rw [hnil, List.append_nil]
  · exact h.broadcastData _ rfl rfl rfl

/-- The child's exit, which every client that does not wait is told. -/
theorem Streams.finalizeExit (h : Streams s) (hx : s.exited = false) : Streams s.finalizeExit := by
  refine h.map (f := fun c ↦ if c.isSettling then c else
    c.send s.capacity s.output.length (.exit (exitCodeOf s.childStatus))) rfl fun c ht ↦ ?_
  have hout : s.finalizeExit.output = s.output := rfl
  have hex : s.finalizeExit.exited = true := rfl
  rw [hout, hex]
  rw [hx] at ht
  cases hs : c.isSettling with
  | true =>
    rw [hs] at ht
    rw [if_pos rfl, hs]
    exact ht.of_waiting (List.prefix_refl _) nofun
  | false =>
    rw [hs] at ht
    rw [if_neg (by simp), isSettling_send, hs]
    exact ht.sendExit s.capacity _

theorem Streams.onChildExited (h : Streams s) (now : Nat) (status : ExitStatus) :
    Streams (s.onChildExited now status) := by
  unfold Daemon.onChildExited
  split
  · exact h
  · have hknown : Streams { s with childStatus := some status } :=
      h.congr (fun _ hp ↦ hp) rfl rfl
    dsimp only
    split
    · split
      · exact hknown
      · next hx => exact hknown.finalizeExit (by simpa using hx)
    · exact hknown.congr (fun _ hp ↦ hp) rfl rfl

theorem Streams.handle (h : Streams s) (now : Nat) (msg : Msg) : Streams (s.handle now msg) := by
  unfold Daemon.handle
  split
  · exact h.onPtyData _
  · have heof : Streams { s with ptyEof := true } := h.congr (fun _ hp ↦ hp) rfl rfl
    dsimp only
    split
    · next hx =>
      refine heof.finalizeExit ?_
      simpa using (Bool.and_eq_true_iff.mp hx).2
    · exact heof
  · split
    · exact h
    · exact h.onChildExited now _
  · intro p hp
    rcases mem_insert hp with rfl | hp
    · exact .new _ _
    · exact h p hp
  · exact h.onPacket now _ _ _
  · exact h.onClosed now _

theorem Streams.serviceTimers (h : Streams s) (now : Nat) : Streams (s.serviceTimers now) := by
  have hcuts := h.serviceCuts now
  unfold Daemon.serviceTimers
  dsimp only
  split
  · have htimer : Streams { s.serviceCuts now with exitDrainDeadline := none } :=
      hcuts.congr (fun _ hp ↦ hp) rfl rfl
    split
    · next hx =>
      refine htimer.finalizeExit ?_
      simpa using (Bool.and_eq_true_iff.mp hx).1
    · exact htimer
  · exact hcuts

theorem Streams.step (h : Streams s) (l : Label) : Streams (s.step l) := by
  have hwriter : ∀ (id : Nat) (f : Client → Client), (∀ c, (f c).phase = c.phase) →
      (∀ c, Told s.output s.exited c.isSettling c → Told s.output s.exited c.isSettling (f c)) →
      Streams (s.modify id f) := by
    intro id f hp hf
    refine h.modify fun c _ hc ↦ ?_
    have hs : (f c).isSettling = c.isSettling := by simp [Client.isSettling, hp]
    rw [hs]
    exact hf c hc
  cases l with
  | handle now msg => exact h.handle now msg
  | timers now => exact h.serviceTimers now
  | close => exact fun p hp ↦ by cases hp
  | reaped => exact h.congr (fun _ ↦ id) rfl rfl
  | writerTakes id =>
    refine hwriter id _ (fun c ↦ ?_) fun c hc ↦ hc.writerTakes
    unfold Daemon.writerTakes
    split <;> rfl
  | writerWrote id =>
    refine hwriter id _ (fun c ↦ ?_) fun c hc ↦ hc.writerWrote s.capacity
    unfold Daemon.writerWrote
    split <;> rfl
  | writerEnds id => exact hwriter id _ (fun c ↦ rfl) fun c hc ↦ hc.writerEnds s.capacity

/-- Every reached state tells its clients what it should. -/
theorem streams_of_reached (h : Reached s) : Streams s := by
  refine h.induct (fun s hi p hp ↦ ?_) fun s t _ hs ⟨l, ht⟩ ↦ ht ▸ hs.step l
  rw [hi.1] at hp
  cases hp

/-- In every run, what a client received is the beginning of what it was sent. Unless it
is cut off it was sent all there is: after each SCREEN the output since, and EXIT once,
up to its next ATTACH or PEEK; and between those and the SCREEN, which is when it is
settling, neither DATA nor EXIT. A client that is cut off was sent all there was at some
earlier moment. -/
theorem client_streams_of_reached (s : Daemon T) (h : Reached s) (id : Nat) (c : Client)
    (hc : s.client id = some c) :
    c.written <+: packets c.log ∧
      (c.cutOff = false → Handed.Exact s.output s.exited c.log ∧
        Handed.waiting c.log = c.isSettling ∧
        packets c.log = c.written ++ c.inFlight.toList ++ c.tx) ∧
      ∃ output exited, output <+: s.output ∧ (exited = true → s.exited = true) ∧
        Handed.Exact output exited c.log := by
  obtain ⟨l₁, l₂, hl, -⟩ := List.lookup_eq_some_iff.mp hc
  have hmem : (id, c) ∈ s.clients := by
    rw [hl]
    exact List.mem_append_right _ List.mem_cons_self
  have ht := streams_of_reached h (id, c) hmem
  refine ⟨ht.received, fun hcut ↦ ?_, ht.behind⟩
  obtain ⟨hx, hw⟩ := ht.current hcut
  exact ⟨hx, hw, ht.queued (Bool.or_eq_false_iff.mp hcut).2⟩

/-- A run from a reached state. -/
theorem Reached.run (h : Reached s) (ls : List Label) : Reached (ls.foldl step s) := by
  induction ls generalizing s with
  | nil => exact h
  | cons l ls ih => exact ih (h.tail ⟨l, rfl⟩)

end Operations

/-! ### A child that prints text and exits -/

/-- A terminal that has been given nothing but text on one line. -/
structure Line where
  text : List UInt8 := []

instance : Terminal Line where
  rows _ := 24
  cols _ := 80
  cellSize _ := (0, 0)
  setCellSize t _ := t
  setClipboardClientAvailable t _ := t
  setEnhancedPasteAvailable t _ := t
  write t bytes := (bytes, ⟨t.text ++ bytes⟩)
  takePtyReplies t := ([], t)
  resize t _ _ := t
  resetInputModes t := ([], t)
  endStream t := t
  serialize t _ := t.text
  plain t _ := t.text

/-- A daemon of that terminal before anything has happened. -/
def quiet : Daemon Line where
  actor := {}
  session := { size := ⟨24, 80, 0, 0⟩ }
  settle := 80
  capacity packet := packet.payload.length + HEADER_SIZE
  publishedClientFacts := ⟨24, 80, []⟩

/-- A client peeks, the child prints and exits, and the client peeks again. -/
def peeksTwice : List Label :=
  [.handle 0 (.connect 1), .handle 0 (.ptyData [104]), .handle 0 (.packet 1 ⟨.peek, [1]⟩ []),
    .handle 0 (.ptyData [105]), .handle 0 (.childExited ⟨some 0, none⟩ false), .handle 0 .ptyEof,
    .handle 0 (.packet 1 ⟨.peek, [1]⟩ [])]

/-- The log of that client. -/
def peekedTwice : List (Handed Packet UInt8) :=
  [.chunk [104], .other (.geometry 24 80), .paused 1 false, .snapshot (.screen [104]) 1,
    .chunk [105], .ending (.exit 0), .other (.geometry 24 80), .paused 2 true,
    .snapshot (.screen [104, 105]) 2, .ending (.exit 0)]

private theorem peekedTwice_reached : ∃ s : Daemon Line, ∃ c, Reached s ∧ s.client 1 = some c ∧
    c.cutOff = false ∧ c.log = peekedTwice ∧ s.exited = true ∧ s.output = [104, 105] := by
  have hrun : ((peeksTwice.foldl step quiet).client 1).map (fun c ↦ (c.cutOff, c.log)) =
      some (false, peekedTwice) := rfl
  obtain ⟨c, hc, heq⟩ := Option.map_eq_some_iff.mp hrun
  obtain ⟨hcut, hlog⟩ := Prod.mk.inj heq
  have hinit : Init quiet := ⟨rfl, rfl, rfl, rfl⟩
  exact ⟨_, c, Reached.run (.base hinit) peeksTwice, hc, hcut, hlog, rfl, rfl⟩

/-- The streams of a client that peeks twice. -/
theorem client_streams_of_reached_peeks : ∃ s : Daemon Line, ∃ c, Reached s ∧
    s.client 1 = some c ∧ c.log = peekedTwice ∧ Handed.Exact s.output s.exited c.log := by
  obtain ⟨s, c, hs, hc, hcut, hlog, -, -⟩ := peekedTwice_reached
  exact ⟨s, c, hs, hc, hlog, ((client_streams_of_reached s hs 1 c hc).2.1 hcut).1⟩

/-- Every SCREEN is followed by all the output since, whatever the client asks for then,
and by one EXIT once the child has exited. -/
def WholeStream (output : List UInt8) (exited : Bool) (log : List (Handed Packet UInt8)) : Prop :=
  ∀ pre x p post, log = pre ++ .snapshot x p :: post →
    Handed.chunks post = output.drop p ∧ (exited = true → Handed.endings post = 1)

/-- A client that peeks again after the exit receives EXIT again. -/
theorem exit_sent_twice : ∃ s : Daemon Line, ∃ c, Reached s ∧ s.client 1 = some c ∧
    c.cutOff = false ∧ ¬WholeStream s.output s.exited c.log := by
  obtain ⟨s, c, hs, hc, hcut, hlog, hx, -⟩ := peekedTwice_reached
  refine ⟨s, c, hs, hc, hcut, fun hwhole ↦ ?_⟩
  have hsplit : c.log = peekedTwice.take 3 ++ .snapshot (.screen [104]) 1 :: peekedTwice.drop 4 :=
    hlog
  exact absurd ((hwhole _ _ _ _ hsplit).2 hx) (by decide)

end Daemon

end PtySpec.Serving
