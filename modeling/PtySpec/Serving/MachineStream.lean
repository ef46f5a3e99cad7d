import PtySpec.Serving.Geometry
import PtySpec.Serving.Stream

/-!
# The attach stream that a client accepts

Model of `MachineStream::accept`, `crates/pty-client/src/stream.rs:157`, and of what a daemon
sends on one connection. A connection is sent GEOMETRY when it asks for the terminal and SCREEN
after it, so its stream is accepted, unless output or an exit was broadcast before it asked.
-/

namespace PtySpec.Serving

open Lib Protocol

namespace MachineStream

/-- `Phase`, `stream.rs:82`. -/
inductive Phase where
  | geometry
  | screen
  | ready
  deriving DecidableEq, Repr

/-- `Accepted`, `stream.rs:123`. -/
inductive Accepted where
  | skipped
  | forwarded
  deriving DecidableEq, Repr

/-- `is_stream_event`. -/
def isStreamEvent (type_ : MessageType) : Bool :=
  type_ = .geometry || type_ = .screen || type_ = .data || type_ = .exit

/-- `MachineStream::accept`, `stream.rs:157`, up to the write. -/
def accept (phase : Phase) (packet : Packet) : Except String (Accepted × Phase) :=
  if !isStreamEvent packet.type_ then .ok (.skipped, phase)
  else if phase = .geometry ∧ packet.type_ ≠ .geometry then
    .error "expected GEOMETRY before terminal events"
  else if phase = .screen ∧ packet.type_ ≠ .geometry ∧ packet.type_ ≠ .screen then
    .error ("expected SCREEN before " ++ if packet.type_ = .data then "DATA" else "EXIT")
  else
    .ok (.forwarded,
      if phase = .geometry ∧ packet.type_ = .geometry then .screen
      else if phase = .screen ∧ packet.type_ = .screen then .ready
      else phase)

/-- The phase after a packet. -/
def after (phase : Phase) (packet : Packet) : Except String Phase :=
  (accept phase packet).map Prod.snd

/-- The phase after some packets. -/
def acceptAll (phase : Phase) (packets : List Packet) : Except String Phase :=
  packets.foldlM after phase

/-- How far a stream has come. -/
def Phase.rank : Phase → Nat
  | .geometry => 0
  | .screen => 1
  | .ready => 2

theorem acceptAll_append_singleton {phase q : Phase} {l : List Packet} {packet : Packet}
    (h : acceptAll phase l = .ok q) : acceptAll phase (l ++ [packet]) = after q packet := by
  unfold acceptAll at h ⊢
  rw [List.foldlM_append, h]
  exact bind_pure (after q packet)

theorem after_geometry (phase : Phase) (packet : Packet) (h : packet.type_ = .geometry) :
    ∃ q, after phase packet = .ok q ∧ max phase.rank 1 ≤ q.rank := by
  cases phase <;> simp [after, accept, isStreamEvent, h, Except.map, Phase.rank]

theorem after_screen {phase : Phase} {packet : Packet} (h : packet.type_ = .screen)
    (hp : 1 ≤ phase.rank) : ∃ q, after phase packet = .ok q ∧ 2 ≤ q.rank := by
  cases phase with
  | geometry => cases hp
  | screen | ready => simp [after, accept, isStreamEvent, h, Except.map, Phase.rank]

theorem after_ready {phase : Phase} (packet : Packet) (hp : 2 ≤ phase.rank) :
    after phase packet = .ok phase := by
  cases phase with
  | geometry => cases hp
  | screen =>
    change 2 ≤ 1 at hp
    omega
  | ready =>
    cases hs : isStreamEvent packet.type_ <;> simp [after, accept, hs, Except.map]

theorem after_other (phase : Phase) {packet : Packet} (h : isStreamEvent packet.type_ = false) :
    after phase packet = .ok phase := by
  simp [after, accept, h, Except.map]

end MachineStream

open MachineStream (accept acceptAll after isStreamEvent after_geometry after_screen after_ready
  after_other acceptAll_append_singleton)

/-! ### One connection -/

/-- A client's stream has come that far, or the client is cut off; nothing was refused. -/
def AtLeast (k : Nat) (c : Client) : Prop :=
  ∃ phase, acceptAll .geometry (packets c.log) = .ok phase ∧ (c.cutOff = false → k ≤ phase.rank)

/-- How far the stream of a client must have come: one that has asked for the terminal has been
sent GEOMETRY, and SCREEN unless it is settling. -/
def needed (c : Client) : Nat :=
  if c.generation = 0 then 0 else if c.isSettling then 1 else 2

/-- What a cut makes of a client. -/
def screened (capacity : Packet → Nat) (position : Nat) (exited : Bool) (code : Int32)
    (bytes : List UInt8) (c : Client) : Client :=
  let d := { c.send capacity position (.screen bytes) with phase := .live }
  if exited then d.send capacity position (.exit code) else d

/-- What holds of a client between two steps. -/
structure Sound (c : Client) : Prop where
  unasked : c.generation = 0 → c.isSettling = false ∧ c.getsGeometry = false
  stream : AtLeast (needed c) c

theorem AtLeast.mono {j k : Nat} {c : Client} (h : AtLeast k c) (hjk : j ≤ k) : AtLeast j c := by
  obtain ⟨phase, ha, hk⟩ := h
  exact ⟨phase, ha, fun hc ↦ hjk.trans (hk hc)⟩

theorem AtLeast.congr {k : Nat} {c d : Client} (h : AtLeast k c)
    (hl : packets d.log = packets c.log) (hc : d.cutOff = c.cutOff) : AtLeast k d := by
  obtain ⟨phase, ha, hk⟩ := h
  exact ⟨phase, hl ▸ ha, fun hd ↦ hk (hc ▸ hd)⟩

/-- A packet that a stream of that rank accepts. -/
theorem AtLeast.send {j k : Nat} {c : Client} (h : AtLeast j c) (capacity : Packet → Nat)
    (position : Nat) {packet : Packet}
    (hp : ∀ phase : MachineStream.Phase, j ≤ phase.rank →
      ∃ q, after phase packet = .ok q ∧ k ≤ q.rank) :
    AtLeast k (c.send capacity position packet) := by
  obtain ⟨phase, ha, hj⟩ := h
  obtain ⟨hc, he⟩ | ⟨hc, he⟩ | he := c.send_cases capacity position packet
  · rw [he]
    obtain ⟨q, hq, hk⟩ := hp phase (hj hc)
    refine ⟨q, ?_, fun _ ↦ hk⟩
    rw [Told.packets_append_handed, acceptAll_append_singleton ha, hq]
  · rw [he]
    exact ⟨phase, ha, fun hn ↦ by rw [hc] at hn; cases hn⟩
  · rw [he]
    exact ⟨phase, ha, Bool.noConfusion⟩

/-- Nothing more reaches a client that is cut off. -/
theorem AtLeast.send_of_cutOff {j : Nat} {c : Client} (h : AtLeast j c) (hc : c.cutOff = true)
    (k : Nat) (capacity : Packet → Nat) (position : Nat) (packet : Packet) :
    AtLeast k (c.send capacity position packet) := by
  obtain ⟨phase, ha, -⟩ := h
  have hk : AtLeast k c := ⟨phase, ha, fun hn ↦ by rw [hc] at hn; cases hn⟩
  obtain ⟨hn, -⟩ | ⟨-, he⟩ | he := c.send_cases capacity position packet
  · rw [hc] at hn
    cases hn
  · rwa [he]
  · rw [he]
    exact ⟨phase, ha, Bool.noConfusion⟩

@[simp] theorem generation_send (capacity : Packet → Nat) (position : Nat) (c : Client)
    (packet : Packet) : (c.send capacity position packet).generation = c.generation := by
  obtain ⟨-, he⟩ | ⟨-, he⟩ | he := c.send_cases capacity position packet <;> rw [he]

@[simp] theorem getsGeometry_send (capacity : Packet → Nat) (position : Nat) (c : Client)
    (packet : Packet) : (c.send capacity position packet).getsGeometry = c.getsGeometry :=
  (Client.Alike.send c capacity position packet).getsGeometry

@[simp] theorem needed_send (capacity : Packet → Nat) (position : Nat) (c : Client)
    (packet : Packet) : needed (c.send capacity position packet) = needed c := by
  rw [needed, needed, generation_send, Daemon.isSettling_send]

theorem generation_screened (capacity : Packet → Nat) (position : Nat) (exited : Bool)
    (code : Int32) (bytes : List UInt8) (c : Client) :
    (screened capacity position exited code bytes c).generation = c.generation := by
  unfold screened
  dsimp only
  split
  · rw [generation_send]
    exact generation_send ..
  · exact generation_send ..

namespace Sound

variable {c : Client}

/-- A packet that keeps the stream as far as it must have come. -/
theorem send (h : Sound c) (capacity : Packet → Nat) (position : Nat) {packet : Packet}
    (hs : AtLeast (needed c) (c.send capacity position packet)) :
    Sound (c.send capacity position packet) where
  unasked := by
    rw [generation_send, Daemon.isSettling_send, getsGeometry_send]
    exact h.unasked
  stream := by rwa [needed_send]

theorem sendGeometry (h : Sound c) (capacity : Packet → Nat) (position : Nat)
    (rows cols : UInt16) : Sound (c.send capacity position (.geometry rows cols)) :=
  h.send capacity position <| h.stream.send capacity position fun phase hp ↦ by
    obtain ⟨q, hq, hr⟩ := after_geometry phase (.geometry rows cols) rfl
    exact ⟨q, hq, hp.trans ((le_max_left _ _).trans hr)⟩

theorem sendOther (h : Sound c) (capacity : Packet → Nat) (position : Nat) {packet : Packet}
    (hp : isStreamEvent packet.type_ = false) : Sound (c.send capacity position packet) :=
  h.send capacity position <| h.stream.send capacity position fun phase hr ↦
    ⟨phase, after_other phase hp, hr⟩

/-- DATA or EXIT, to a client that has asked and does not settle, or is cut off. -/
theorem sendLive (h : Sound c) (capacity : Packet → Nat) (position : Nat) (packet : Packet)
    (hs : c.isSettling = false) (hg : c.generation = 0 → c.cutOff = true) :
    Sound (c.send capacity position packet) := by
  refine h.send capacity position ?_
  by_cases hz : c.generation = 0
  · exact h.stream.send_of_cutOff (hg hz) _ capacity position packet
  · have hn : needed c = 2 := by simp [needed, hz, hs]
    rw [hn]
    refine (hn ▸ h.stream).send capacity position fun phase hr ↦ ⟨phase, after_ready packet hr, hr⟩

/-- Only a client that has asked settles. -/
theorem generation_ne (h : Sound c) (hs : c.isSettling = true) : c.generation ≠ 0 := by
  intro hz
  rw [(h.unasked hz).1] at hs
  cases hs

/-- SCREEN to a client that settles, and EXIT after it when the child is gone. -/
theorem screened (h : Sound c) (hs : c.isSettling = true) (capacity : Packet → Nat)
    (position : Nat) (exited : Bool) (code : Int32) (bytes : List UInt8) :
    Sound (screened capacity position exited code bytes c) := by
  have hz := h.generation_ne hs
  have hn : needed c = 1 := by simp [needed, hz, hs]
  have hsent : AtLeast 2 (c.send capacity position (.screen bytes)) :=
    (hn ▸ h.stream).send capacity position fun phase hp ↦ after_screen rfl hp
  have hlive : Sound { c.send capacity position (.screen bytes) with phase := .live } := by
    have hg : (c.send capacity position (.screen bytes)).generation ≠ 0 := by
      rwa [generation_send]
    exact ⟨fun he ↦ absurd he hg, (hsent.congr rfl rfl).mono (by simp [needed, hz,
      Client.isSettling])⟩
  unfold Serving.screened
  dsimp only
  split
  · refine hlive.sendLive capacity position (.exit code) rfl fun he ↦ absurd he ?_
    change (c.send capacity position (.screen bytes)).generation ≠ 0
    rwa [generation_send]
  · exact hlive

end Sound

/-- A client that has asked for the terminal and is about to wait for its SCREEN. -/
structure Asked (k : Nat) (c : Client) : Prop where
  generation : c.generation ≠ 0
  geometry : c.getsGeometry = true
  stream : AtLeast k c

theorem Asked.sendGeometry {k : Nat} {c : Client} (h : Asked k c) (capacity : Packet → Nat)
    (position : Nat) (rows cols : UInt16) :
    Asked (max k 1) (c.send capacity position (.geometry rows cols)) where
  generation := by
    rw [generation_send]
    exact h.generation
  geometry := by
    rw [getsGeometry_send]
    exact h.geometry
  stream := h.stream.send capacity position fun phase hp ↦ by
    obtain ⟨q, hq, hr⟩ := after_geometry phase (.geometry rows cols) rfl
    exact ⟨q, hq, (max_le_max_right 1 hp).trans hr⟩

/-- The client waits for its SCREEN. -/
theorem Asked.settle {c : Client} (h : Asked 1 c) (position : Nat) (exited : Bool)
    (deadline generation : Nat) (kind : CutKind) :
    Sound (c.settle position exited deadline generation kind) := by
  have hg : (c.settle position exited deadline generation kind).generation ≠ 0 := h.generation
  have hl : packets (c.settle position exited deadline generation kind).log = packets c.log := by
    unfold Client.settle
    dsimp only
    split
    · rfl
    · simp [packets]
  refine ⟨fun he ↦ absurd he hg, (h.stream.congr hl rfl).mono ?_⟩
  simp [needed, h.generation, Client.isSettling, Client.settle]

namespace Daemon

/-! ### One lemma per operation -/

variable {T : Type} {s t : Daemon T} {id : Nat} {P Q : Client → Prop}

/-- What holds of the client of a connection, while there is one. -/
def At (id : Nat) (P : Client → Prop) (s : Daemon T) : Prop := ∀ c, s.client id = some c → P c

theorem lookup_map (f : Client → Client) (clients : List (Nat × Client)) (id : Nat) :
    (clients.map fun (i, c) ↦ (i, f c)).lookup id = (clients.lookup id).map f := by
  induction clients with
  | nil => rfl
  | cons p clients ih =>
    obtain ⟨i, c⟩ := p
    rw [List.map_cons, List.lookup_cons, List.lookup_cons, ih]
    split <;> rfl

theorem lookup_update_of_ne {id other : Nat} (hn : id ≠ other) (f : Client → Client)
    (clients : List (Nat × Client)) : (update other f clients).lookup id = clients.lookup id := by
  induction clients with
  | nil => rfl
  | cons p clients ih =>
    obtain ⟨i, c⟩ := p
    unfold update
    split
    · next he =>
      subst he
      rw [List.lookup_cons, List.lookup_cons, beq_false_of_ne hn]
    · rw [List.lookup_cons, List.lookup_cons, ih]

theorem lookup_filter_of_ne {id other : Nat} (hn : id ≠ other) (clients : List (Nat × Client)) :
    (clients.filter (·.1 ≠ other)).lookup id = clients.lookup id := by
  induction clients with
  | nil => rfl
  | cons p clients ih =>
    obtain ⟨i, c⟩ := p
    rw [List.filter_cons]
    split
    · rw [List.lookup_cons, List.lookup_cons, ih]
    · next hi =>
      have hio : i = other := by simpa using hi
      rw [ih, List.lookup_cons, hio, beq_false_of_ne hn]

theorem lookup_insert_of_ne {id other : Nat} (hn : id ≠ other) (c : Client)
    (clients : List (Nat × Client)) : (insert other c clients).lookup id = clients.lookup id := by
  induction clients with
  | nil => rw [insert, List.lookup_cons, beq_false_of_ne hn]
  | cons p clients ih =>
    obtain ⟨i, d⟩ := p
    unfold insert
    split
    · rw [List.lookup_cons, beq_false_of_ne hn]
    · split
      · next he =>
        rw [List.lookup_cons, List.lookup_cons, ← he, beq_false_of_ne hn]
      · rw [List.lookup_cons, List.lookup_cons, ih]

namespace At

theorem mono (h : At id P s) (hPQ : ∀ c, P c → Q c) : At id Q s := fun c hc ↦ hPQ c (h c hc)

theorem congr (h : At id P s) (hc : t.clients = s.clients) : At id P t := fun c ht ↦
  h c (by rwa [client, hc] at ht)

theorem map (h : At id P s) {f : Client → Client}
    (hc : t.clients = s.clients.map fun (i, c) ↦ (i, f c)) (hf : ∀ c, P c → Q (f c)) :
    At id Q t := by
  intro d hd
  rw [client, hc, lookup_map] at hd
  obtain ⟨c, hl, rfl⟩ := Option.map_eq_some_iff.mp hd
  exact hf c (h c hl)

theorem modify_self (h : At id P s) {f : Client → Client}
    (hf : ∀ c, s.client id = some c → P c → Q (f c)) : At id Q (s.modify id f) := by
  intro d hd
  rw [client, modify, lookup_update] at hd
  obtain ⟨c, hl, rfl⟩ := Option.map_eq_some_iff.mp hd
  exact hf c hl (h c hl)

theorem modify_ne (h : At id P s) {other : Nat} (hn : id ≠ other) (f : Client → Client) :
    At id P (s.modify other f) := by
  intro d hd
  rw [client, modify, lookup_update_of_ne hn] at hd
  exact h d hd

theorem modify (h : At id P s) (other : Nat) {f : Client → Client}
    (hf : ∀ c, s.client other = some c → P c → P (f c)) : At id P (s.modify other f) := by
  by_cases hn : id = other
  · subst hn
    exact h.modify_self hf
  · exact h.modify_ne hn f

theorem sendTo (h : At id Sound s) (other : Nat) {packet : Packet}
    (hp : isStreamEvent packet.type_ = false) : At id Sound (s.sendTo other packet) :=
  h.modify other fun _ _ hc ↦ hc.sendOther _ _ hp

/-- A broadcast, when a client that has not asked is cut off. -/
theorem broadcast (h : At id (fun c ↦ Sound c ∧ (c.generation = 0 → c.cutOff = true)) s)
    (packet : Packet) : At id Sound (s.broadcast packet) := by
  refine h.map (f := fun c ↦ if c.isSettling then c else
    c.send s.capacity s.output.length packet) rfl fun c ⟨hc, hg⟩ ↦ ?_
  cases hs : c.isSettling with
  | true =>
    rw [if_pos rfl]
    exact hc
  | false =>
    rw [if_neg Bool.false_ne_true]
    exact hc.sendLive _ _ packet hs hg

end At

section Operations

variable [Terminal T]

namespace At

/-- A new size is broadcast as GEOMETRY. -/
theorem negotiateSize (h : At id P s) (now : Nat)
    (hP : ∀ c, P c → c.getsGeometry = true → ∀ rows cols,
      P (c.send s.capacity s.output.length (.geometry rows cols))) :
    At id P (s.negotiateSize now).2 := by
  obtain ⟨he, -⟩ | ⟨rows, cols, t, -, -, he, hr⟩ := s.negotiateSize_cases now
  · rw [he]
    exact h
  · rw [he]
    refine h.map (f := fun c ↦ if c.getsGeometry then
      c.send s.capacity s.output.length (.geometry rows cols) else c) hr.clients fun c hc ↦ ?_
    split
    · next hg => exact hP c hc hg rows cols
    · exact hc

theorem applyCellSize (h : At id P s) (cellChanged resized : Bool) :
    At id P (s.applyCellSize cellChanged resized) := by
  unfold Daemon.applyCellSize
  split
  · exact h.congr rfl
  · exact h

theorem adoptCellSize (h : At id P s) (payload : List UInt8) :
    At id P (s.adoptCellSize payload).2 := by
  unfold Daemon.adoptCellSize
  split
  · dsimp only
    split
    · exact h.congr rfl
    · exact h
  · exact h

theorem noteClientChange (h : At id P s) (attach : Bool) :
    At id P (s.noteClientChange attach) := by
  unfold Daemon.noteClientChange
  split
  · exact h
  · exact h.congr rfl

theorem nudgeAfterCut (h : At id P s) (now : Nat) (kind : CutKind) :
    At id P (s.nudgeAfterCut now kind) := by
  unfold Daemon.nudgeAfterCut nudgeRedraw
  split
  · split
    · dsimp only
      split
      · exact h
      · exact h.congr rfl
    · exact h
  · exact h

/-- A cut hands a settling client its SCREEN. -/
theorem cut (h : At id P s) (now other : Nat)
    (hP : ∀ c kind, c.isSettling = true → P c →
      P (screened s.capacity s.output.length s.exited s.exitCode
        (Daemon.screen s.actor kind) c)) :
    At id P (s.cut now other) := by
  unfold Daemon.cut
  split
  · exact h
  · next c hc =>
    split
    · exact h
    · next deadline generation kind hp =>
      split
      · exact h
      · refine At.nudgeAfterCut (h.modify other fun d hd hPd ↦ ?_) now kind
        rw [hc, Option.some_inj] at hd
        subst hd
        exact hP c kind (by simp [Client.isSettling, hp]) hPd

theorem cutSound (h : At id Sound s) (now other : Nat) : At id Sound (s.cut now other) :=
  h.cut now other fun _ _ hs hc ↦ hc.screened hs _ _ _ _ _

/-- A client that has asked is sent GEOMETRY, whether the size has changed or not. -/
theorem greet (h : At id (Asked 0) s) (now : Nat) (cellChanged : Bool) :
    At id (Asked 1)
      (((s.negotiateSize now).2.applyCellSize cellChanged (s.negotiateSize now).1).answerGeometry
        id (s.negotiateSize now).1) := by
  obtain ⟨he, -⟩ | ⟨rows, cols, t, -, -, he, hr⟩ := s.negotiateSize_cases now
  · rw [he]
    refine At.modify_self (h.applyCellSize cellChanged false) fun c _ hc ↦ ?_
    exact hc.sendGeometry _ _ _ _
  · rw [he]
    refine At.applyCellSize ?_ cellChanged true
    refine h.map (f := fun c ↦ if c.getsGeometry then
      c.send s.capacity s.output.length (.geometry rows cols) else c) hr.clients fun c hc ↦ ?_
    rw [if_pos hc.geometry]
    exact hc.sendGeometry _ _ _ _

theorem scheduleCut_self (h : At id (Asked 1) s) (now generation : Nat) (kind : CutKind)
    (delay : Option Nat) : At id Sound (s.scheduleCut now id generation kind delay) := by
  have hsettle : At id Sound (s.modify id
      (·.settle s.output.length s.exited (now + delay.getD 0) generation kind)) :=
    h.modify_self fun c _ hc ↦ hc.settle _ _ _ _ _
  unfold Daemon.scheduleCut
  dsimp only
  split
  · exact hsettle.cutSound now id
  · exact hsettle

theorem scheduleCut_ne (h : At id Sound s) {other : Nat} (hn : id ≠ other)
    (now generation : Nat) (kind : CutKind) (delay : Option Nat) :
    At id Sound (s.scheduleCut now other generation kind delay) := by
  unfold Daemon.scheduleCut
  dsimp only
  split
  · exact (h.modify_ne hn _).cutSound now other
  · exact h.modify_ne hn _

theorem negotiateSound (h : At id Sound s) (now : Nat) :
    At id Sound (s.negotiateSize now).2 :=
  h.negotiateSize now fun _ hc _ _ _ ↦ hc.sendGeometry _ _ _ _

theorem answerGeometry (h : At id Sound s) (other : Nat) (resized : Bool) :
    At id Sound (s.answerGeometry other resized) := by
  unfold Daemon.answerGeometry
  split
  · exact h
  · exact h.modify other fun c _ hc ↦ hc.sendGeometry _ _ _ _

theorem onAttach (h : At id Sound s) (now other : Nat) (payload : List UInt8) :
    At id Sound (s.onAttach now other payload) := by
  unfold Daemon.onAttach
  split
  · exact h
  · split
    · exact h
    · next c hc =>
      dsimp only
      have hcell := h.adoptCellSize payload
      by_cases hn : id = other
      · subst hn
        refine At.scheduleCut_self (At.noteClientChange (At.greet ?_ now _) true) now _ _ _
        refine At.modify_self (hcell.congr rfl) fun d _ hd ↦ ?_
        exact ⟨Nat.succ_ne_zero _, by simp [Client.getsGeometry],
          (hd.stream.mono (Nat.zero_le _)).congr rfl rfl⟩
      · refine At.scheduleCut_ne (At.noteClientChange (At.answerGeometry (At.applyCellSize
          (At.negotiateSound ?_ now) _ _) other _) true) hn now _ _ _
        exact At.modify_ne (hcell.congr rfl) hn _

theorem onPeek (h : At id Sound s) (now other : Nat) (payload : List UInt8) :
    At id Sound (s.onPeek now other payload) := by
  unfold Daemon.onPeek
  split
  · exact h
  · next c hc =>
    dsimp only
    have hnote : ∀ {P : Client → Prop} {u : Daemon T}, At id P u →
        At id P (if c.constrainsSize then u.noteClientChange false else u) := by
      intro P u hu
      split
      · exact hu.noteClientChange false
      · exact hu
    by_cases hn : id = other
    · subst hn
      refine At.scheduleCut_self (hnote (At.greet ?_ now false)) now _ _ _
      refine At.modify_self h fun d _ hd ↦ ?_
      exact ⟨Nat.succ_ne_zero _, by simp [Client.getsGeometry],
        (hd.stream.mono (Nat.zero_le _)).congr rfl rfl⟩
    · refine At.scheduleCut_ne (hnote (At.answerGeometry (At.negotiateSound ?_ now) other _)) hn
        now _ _ _
      exact h.modify_ne hn _

theorem onResize (h : At id Sound s) (now other : Nat) (payload : List UInt8) :
    At id Sound (s.onResize now other payload) := by
  unfold Daemon.onResize
  split
  · exact h
  · next c hc =>
    split
    · exact h
    · next ha =>
      dsimp only
      refine At.noteClientChange (At.applyCellSize (At.negotiateSound
        (At.adoptCellSize ?_ payload) now) _ _) false
      refine At.modify (h.congr rfl) other fun d hd hsound ↦ ?_
      have hd' : s.client other = some d := hd
      rw [hc, Option.some_inj] at hd'
      subst hd'
      -- only a client that has asked has an attach sequence
      have hg : c.generation ≠ 0 := by
        intro hz
        have hget := (hsound.unasked hz).2
        simp only [Client.getsGeometry, Bool.or_eq_false_iff, decide_eq_false_iff_not] at hget
        exact ha (.inr (.inl (by omega)))
      exact ⟨fun hz ↦ absurd hz hg, hsound.stream.congr rfl rfl⟩

theorem onClosed (h : At id Sound s) (now other : Nat) :
    At id Sound (s.onClosed now other) := by
  unfold Daemon.onClosed
  split
  · exact h
  · next c hc =>
    dsimp only
    have hf : At id Sound { s with clients := s.clients.filter (·.1 ≠ other) } := by
      intro d hd
      refine h d ?_
      have hne : id ≠ other := by
        have hm := (List.mem_filter.mp (mem_of_lookup hd)).2
        simpa using hm
      rwa [client, lookup_filter_of_ne hne] at hd
    split
    · exact (hf.negotiateSound now).noteClientChange false
    · exact hf.negotiateSound now

/-- A client that has not asked for the terminal is cut off. -/
def Spared (c : Client) : Prop := Sound c ∧ (c.generation = 0 → c.cutOff = true)

theorem onResetInputModes (h : At id Sound s) (other : Nat) (payload : List UInt8)
    (hs : payload = [] → (s.client other).any (·.role = .writable) = true → At id Spared s) :
    At id Sound (s.onResetInputModes other payload) := by
  unfold Daemon.onResetInputModes
  split
  · next hp => exact At.broadcast ((hs hp.1 hp.2).congr rfl) _
  · exact h

theorem serviceCuts (h : At id P s) (now : Nat)
    (hP : ∀ (c : Client) (t : Daemon T) kind, c.isSettling = true → P c →
      P (screened t.capacity t.output.length t.exited t.exitCode (screen t.actor kind) c)) :
    At id P (s.serviceCuts now) := by
  unfold Daemon.serviceCuts
  dsimp only
  induction s.clients.filterMap _ generalizing s with
  | nil => exact h
  | cons other due ih => exact ih (h.cut now other fun c kind ↦ hP c s kind)

theorem onPacket (h : At id Sound s) (now other : Nat) (packet : Packet) (reply : List UInt8)
    (hs : packet.type_ = .resetInputModes → packet.payload = [] →
      (s.client other).any (·.role = .writable) = true → At id Spared s) :
    At id Sound (s.onPacket now other packet reply) := by
  unfold Daemon.onPacket
  split
  · exact h.onAttach now other _
  · exact h.onPeek now other _
  · exact h.onResize now other _
  · exact h.onClosed now other
  · next hp => exact h.onResetInputModes other _ (hs hp)
  · exact h.sendTo other rfl
  · exact h.sendTo other rfl
  · exact h.sendTo other rfl
  · exact h.sendTo other rfl
  · exact h

theorem finalizeExit (h : At id Spared s) : At id Sound s.finalizeExit :=
  At.broadcast (h.congr rfl) _

end At

/-! ### Steps -/

/-- What the exit depends on is not changed by a cut. -/
theorem cut_exit (s : Daemon T) (now other : Nat) :
    (s.cut now other).exited = s.exited ∧ (s.cut now other).childStatus = s.childStatus ∧
      (s.cut now other).exitDrainDeadline = s.exitDrainDeadline := by
  have hnudge : ∀ (t : Daemon T) kind, (t.nudgeAfterCut now kind).exited = t.exited ∧
      (t.nudgeAfterCut now kind).childStatus = t.childStatus ∧
        (t.nudgeAfterCut now kind).exitDrainDeadline = t.exitDrainDeadline := by
    intro t kind
    unfold nudgeAfterCut nudgeRedraw
    split
    · split
      · dsimp only
        split <;> exact ⟨rfl, rfl, rfl⟩
      · exact ⟨rfl, rfl, rfl⟩
    · exact ⟨rfl, rfl, rfl⟩
  unfold cut
  split
  · exact ⟨rfl, rfl, rfl⟩
  · split
    · exact ⟨rfl, rfl, rfl⟩
    · split
      · exact ⟨rfl, rfl, rfl⟩
      · exact hnudge _ _

theorem serviceCuts_exit (s : Daemon T) (now : Nat) :
    (s.serviceCuts now).exited = s.exited ∧ (s.serviceCuts now).childStatus = s.childStatus ∧
      (s.serviceCuts now).exitDrainDeadline = s.exitDrainDeadline := by
  unfold serviceCuts
  dsimp only
  induction s.clients.filterMap _ generalizing s with
  | nil => exact ⟨rfl, rfl, rfl⟩
  | cons other due ih =>
    obtain ⟨h₁, h₂, h₃⟩ := ih (s.cut now other)
    obtain ⟨g₁, g₂, g₃⟩ := s.cut_exit now other
    exact ⟨h₁.trans g₁, h₂.trans g₂, h₃.trans g₃⟩

/-- The output that the clients are sent for the child's, `lifecycle.rs:1167`. -/
def cleaned (s : Daemon T) (bytes : List UInt8) : List UInt8 :=
  let answering := answeringClientAvailable s.clients
  let actor := Terminal.setClipboardClientAvailable s.actor answering
  (Terminal.write (Terminal.setEnhancedPasteAvailable actor answering) bytes).1

/-- Whether a step broadcasts DATA or EXIT. -/
def broadcasts (s : Daemon T) : Label → Bool
  | .handle _ (.ptyData bytes) => decide (s.cleaned bytes ≠ [])
  | .handle _ .ptyEof => s.childStatus.isSome && !s.exited
  | .handle _ (.childExited _ held) =>
    !held && s.childStatus.isNone && s.ptyEof && !s.exited
  | .handle _ (.packet other packet _) =>
    decide (packet.type_ = .resetInputModes ∧ packet.payload = []) &&
      (s.client other).any (·.role = .writable)
  | .timers now =>
    s.exitDrainDeadline.any (· ≤ now) && !s.exited && s.childStatus.isSome
  | _ => false

theorem At.step (h : At id Sound s) {l : Label} (hl : ∀ now, l ≠ .handle now (.connect id))
    (hs : s.broadcasts l = true → At id Spared s) : At id Sound (s.step l) := by
  have hwriter : ∀ (other : Nat) (f : Client → Client),
      (∀ c, Sound c → Sound (f c)) → At id Sound (s.modify other f) :=
    fun other f hf ↦ h.modify other fun c _ ↦ hf c
  cases l with
  | handle now msg =>
    cases msg with
    | ptyData bytes =>
      change At id Sound (s.onPtyData bytes)
      unfold onPtyData
      dsimp only
      split
      · exact h.congr rfl
      · next hc => exact At.broadcast ((hs (decide_eq_true hc)).congr rfl) _
    | ptyEof =>
      change At id Sound (if s.childStatus.isSome && !s.exited then
        { s with ptyEof := true }.finalizeExit else { s with ptyEof := true })
      split
      · next hx => exact At.finalizeExit ((hs hx).congr rfl)
      · exact h.congr rfl
    | childExited status held =>
      change At id Sound (if held then s else s.onChildExited now status)
      split
      · exact h
      · next hheld =>
        unfold onChildExited
        split
        · exact h
        · next hstatus =>
          dsimp only
          split
          · next heof =>
            split
            · exact h.congr rfl
            · next hx =>
              refine At.finalizeExit ((hs ?_).congr rfl)
              simp only [broadcasts, heof]
              simp_all
          · exact h.congr rfl
    | connect other =>
      have hn : id ≠ other := fun he ↦ hl now (he ▸ rfl)
      intro c hc
      have hc' : (insert other _ s.clients).lookup id = some c := hc
      rw [lookup_insert_of_ne hn] at hc'
      exact h c hc'
    | packet other packet reply =>
      refine h.onPacket now other packet reply fun hp hpay hw ↦ hs ?_
      simp only [broadcasts, hp, hpay, hw]
      rfl
    | closed other => exact h.onClosed now other
  | timers now =>
    change At id Sound (s.serviceTimers now)
    obtain ⟨hexited, hstatus, hdeadline⟩ := s.serviceCuts_exit now
    unfold serviceTimers
    dsimp only
    rw [hexited, hstatus, hdeadline]
    split
    · next hd =>
      split
      · next hx =>
        refine At.finalizeExit (At.congr (s := s.serviceCuts now) ?_ rfl)
        refine (hs ?_).serviceCuts now fun c t kind hset hc ↦ ?_
        · simp only [broadcasts, hd, hx, Bool.true_and]
        · exact ⟨hc.1.screened hset _ _ _ _ _, fun hz ↦
            absurd (generation_screened .. ▸ hz) (hc.1.generation_ne hset)⟩
      · refine At.congr (s := s.serviceCuts now) ?_ rfl
        exact h.serviceCuts now fun c t kind hset hc ↦ hc.screened hset _ _ _ _ _
    · exact h.serviceCuts now fun c t kind hset hc ↦ hc.screened hset _ _ _ _ _
  | close => exact fun c hc ↦ by cases hc
  | reaped => exact h.congr rfl
  | writerTakes other =>
    refine hwriter other _ fun c hc ↦ ?_
    unfold writerTakes
    split
    · exact ⟨hc.unasked, hc.stream.congr rfl rfl⟩
    · exact hc
  | writerWrote other =>
    refine hwriter other _ fun c hc ↦ ?_
    unfold writerWrote
    split
    · exact ⟨hc.unasked, hc.stream.congr rfl rfl⟩
    · exact hc
  | writerEnds other =>
    refine hwriter other _ fun c hc ↦ ?_
    obtain ⟨phase, ha, -⟩ := hc.stream
    refine ⟨hc.unasked, phase, ha, fun hcut ↦ ?_⟩
    simp [writerEnds, Client.cutOff] at hcut

/-! ### Runs -/

/-- A connection that has not asked for the terminal is cut off. -/
def Unheard (c : Client) : Prop := c.generation = 0 → c.cutOff = true

/-- No step of a run broadcasts DATA or EXIT while the connection could be sent it and has not
asked for the terminal. -/
def Undisturbed (id : Nat) : Daemon T → List Label → Prop
  | _, [] => True
  | s, l :: ls => (s.broadcasts l = true → At id Unheard s) ∧ Undisturbed id (s.step l) ls

/-- A connection that was just accepted. -/
theorem At.connect (s : Daemon T) (now id : Nat) :
    At id Sound (s.step (.handle now (.connect id))) := by
  have hl : ∀ (c : Client) clients, (insert id c clients).lookup id = some c := by
    intro c clients
    induction clients with
    | nil => exact List.lookup_cons_self
    | cons p clients ih =>
      obtain ⟨i, d⟩ := p
      unfold insert
      split
      · exact List.lookup_cons_self
      · split
        · exact List.lookup_cons_self
        · next hne => rw [List.lookup_cons, beq_false_of_ne hne, ih]
  intro c hc
  obtain rfl := Option.some.inj ((hl _ s.clients).symm.trans hc)
  exact ⟨fun _ ↦ ⟨rfl, rfl⟩, .geometry, rfl, fun _ ↦ Nat.zero_le _⟩

theorem At.run {ls : List Label} (h : At id Sound s)
    (hls : ∀ l ∈ ls, ∀ now, l ≠ .handle now (.connect id)) (hu : Undisturbed id s ls) :
    At id Sound (ls.foldl Daemon.step s) := by
  induction ls generalizing s with
  | nil => exact h
  | cons l ls ih =>
    refine ih (h.step (hls l List.mem_cons_self) fun hb c hc ↦ ?_)
      (fun k hk ↦ hls k (List.mem_cons_of_mem _ hk)) hu.2
    exact ⟨h c hc, hu.1 hb c hc⟩

/-- Whatever a daemon sends on a connection is accepted, in every run after the connection was
made in which nothing is broadcast to it before it asks for the terminal. -/
theorem machine_stream_accepted (s : Daemon T) (now id : Nat) (ls : List Label)
    (hls : ∀ l ∈ ls, ∀ now, l ≠ .handle now (.connect id))
    (hu : Undisturbed id (s.step (.handle now (.connect id))) ls) (c : Client)
    (hc : (ls.foldl Daemon.step (s.step (.handle now (.connect id)))).client id = some c) :
    ∃ phase, acceptAll .geometry (packets c.log) = .ok phase := by
  obtain ⟨phase, hphase, -⟩ := (At.run (At.connect s now id) hls hu c hc).stream
  exact ⟨phase, hphase⟩

end Operations

/-! ### A child that prints before or after the ATTACH -/

/-- ATTACH with 24 rows and 80 columns. -/
private def attachesOne : Label := .handle 0 (.packet 1 ⟨.attach, [0, 24, 0, 80]⟩ [])

/-- The stream of a client that attaches before the child prints. -/
theorem machine_stream_accepted_attached : ∃ c : Client,
    ([attachesOne, .handle 0 (.ptyData [104])].foldl step
        (quiet.step (.handle 0 (.connect 1)))).client 1 = some c ∧
      (packets c.log).length = 3 ∧
        ∃ phase, acceptAll .geometry (packets c.log) = .ok phase := by
  refine ⟨_, rfl, rfl, machine_stream_accepted quiet 0 1 [attachesOne, .handle 0 (.ptyData [104])]
    ?_ ?_ _ rfl⟩
  · intro l hl now he
    subst he
    simp [attachesOne] at hl
  · refine ⟨Bool.noConfusion, fun _ c hc hz ↦ ?_, trivial⟩
    cases hc
    cases hz

/-- Output that is handled between the accept and the ATTACH is sent as DATA, and refused. -/
theorem data_before_geometry : ∃ s : Daemon Line, ∃ c, Reached s ∧ s.client 1 = some c ∧
    c.attached = true ∧ c.cutOff = false ∧
      acceptAll .geometry (packets c.log) =
        .error "expected GEOMETRY before terminal events" := by
  have hinit : Init quiet := ⟨rfl, rfl, rfl, rfl⟩
  exact ⟨_, _, Reached.run (.base hinit)
    [.handle 0 (.connect 1), .handle 0 (.ptyData [104]), attachesOne], rfl, rfl, rfl, rfl⟩

end Daemon
end PtySpec.Serving
