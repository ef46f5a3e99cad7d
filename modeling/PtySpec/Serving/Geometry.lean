import PtySpec.Lib.Trace
import PtySpec.Serving.Quiet

/-!
# One size in three places

The terminal, the pty and the clients each have the size of a session, and so do the client
facts it publishes. Over every run of the clients' messages they agree after each message,
as long as the session was started with at least one row and one column: the terminal then
takes one, `actor.rs:266`, where the pty and the published facts keep the zero.
-/

namespace PtySpec.Serving
namespace Daemon

open Lib Protocol

variable {T : Type} [Terminal T] {s t u : Daemon T}

/-! ### Negotiation -/

/-- What holds between the parts of a message; `owed` is the client that is still to be
shown the size. -/
structure Base (owed : Option Nat) (s : Daemon T) : Prop where
  keyed : (s.clients.map Prod.fst).Nodup
  rows_ne : Terminal.rows s.actor ≠ 0
  cols_ne : Terminal.cols s.actor ≠ 0
  shown : ∀ p ∈ s.clients, owed ≠ some p.1 → s.Shows p.2
  sized : s.Sized

theorem Base.quiet {owed : Option Nat} (h : Base owed s) (q : Quiet s t) : Base owed t where
  keyed := keys_of_likes q.clients ▸ h.keyed
  rows_ne := q.rows ▸ h.rows_ne
  cols_ne := q.cols ▸ h.cols_ne
  shown := by
    intro p hp ho hg hc
    obtain ⟨o, hmem, hid, hlike⟩ := exists_of_likes q.clients p hp
    rw [q.rows, q.cols, hlike.shown]
    exact h.shown o hmem (hid ▸ ho) (hlike.getsGeometry ▸ hg) (hlike.cutOff hc)
  sized := q.sized h.sized

theorem Settled.quiet (h : s.Settled) (q : Quiet s t) : t.Settled := by
  intro rows cols hw
  rw [wanted_congr (constraints_of_likes q.clients)] at hw
  rw [q.rows, q.cols]
  exact h rows cols hw

/-- A client is sent GEOMETRY if it gets any. -/
def geometryTo (s : Daemon T) (rows cols : UInt16) (p : Nat × Client) : Nat × Client :=
  (p.1, if p.2.getsGeometry then
    p.2.send s.capacity s.output.length (.geometry rows cols) else p.2)

/-- A session is resized. -/
structure Resized (rows cols : UInt16) (s t : Daemon T) : Prop where
  clients : t.clients = s.clients.map (s.geometryTo rows cols)
  actor : t.actor = (Terminal.takePtyReplies (Terminal.resize s.actor cols rows)).2
  session : ∃ width height, t.session = s.session.resize ⟨rows, cols, width, height⟩
  published : t.publishedClientFacts = s.publishedClientFacts
  generation : t.clientGeneration = s.clientGeneration

/-- Negotiation leaves a settled session alone, or sets the size that is asked for. -/
theorem negotiateSize_cases (s : Daemon T) (now : Nat) :
    (s.negotiateSize now = (false, s) ∧ s.Settled) ∨
      ∃ rows cols t, wanted s.clients = some (rows, cols) ∧
        ¬(rows = Terminal.rows s.actor ∧ cols = Terminal.cols s.actor) ∧
        s.negotiateSize now = (true, t) ∧ Resized rows cols s t := by
  have hw : wanted s.clients = wanted s.clients := rfl
  conv at hw => lhs; unfold wanted
  unfold negotiateSize
  dsimp only at hw ⊢
  split
  · next hz =>
    rw [if_pos hz] at hw
    exact .inl ⟨rfl, fun _ _ h ↦ by rw [← hw] at h; cases h⟩
  · next hz =>
    rw [if_neg hz] at hw
    split
    · next hl =>
      rw [if_pos hl] at hw
      exact .inl ⟨rfl, fun _ _ h ↦ by rw [← hw] at h; cases h⟩
    · next hl =>
      rw [if_neg hl] at hw
      split
      · next he => exact .inl ⟨rfl, fun _ _ h ↦ by rw [← hw] at h; cases h; exact he⟩
      · next hne => exact .inr ⟨_, _, _, hw.symm, hne, rfl, rfl, rfl, ⟨_, _, rfl⟩, rfl, rfl⟩

theorem Settled.negotiateSize (h : s.Settled) (now : Nat) : s.negotiateSize now = (false, s) := by
  rcases s.negotiateSize_cases now with ⟨heq, -⟩ | ⟨rows, cols, t, hw, hne, -⟩
  · exact heq
  · exact absurd (h rows cols hw) hne

omit [Terminal T] in
private theorem alikes_geometryTo (rows cols : UInt16) (p : Nat × Client) :
    Alikes p (s.geometryTo rows cols p) := by
  refine ⟨rfl, ?_⟩
  unfold geometryTo
  dsimp only
  split
  · exact .send _ _ _ _
  · exact .refl _

/-- What a negotiation that publishes nothing has done. -/
structure Negotiated (owed : Option Nat) (s t : Daemon T) : Prop where
  base : Base owed t
  settled : t.Settled
  published : t.publishedClientFacts = s.publishedClientFacts
  generation : t.clientGeneration = s.clientGeneration

/-! ### Messages -/

/-- What holds between two messages. -/
structure Inv (s : Daemon T) : Prop where
  base : Base none s
  settled : s.Settled
  published : s.publishedClientFacts = s.clientFacts

/-- The client generation went up by one if the facts changed or a client attached, and
stayed otherwise. -/
def Counted (attached : Bool) (s t : Daemon T) : Prop :=
  t.clientGeneration =
    if attached = true ∨ t.clientFacts ≠ s.clientFacts then s.clientGeneration + 1
    else s.clientGeneration

/-- Whether a packet is an ATTACH that is handled: a known client asks, and names a size. -/
def attaches (s : Daemon T) (id : Nat) (packet : Packet) : Bool :=
  packet.type_ = .attach && 4 ≤ packet.payload.length && (s.client id).isSome

/-- A message that left the facts as they were. -/
private theorem Inv.kept (h : s.Inv) (hb : Base none t)
    (hr : Terminal.rows t.actor = Terminal.rows s.actor)
    (hk : Terminal.cols t.actor = Terminal.cols s.actor)
    (hc : constraints t.clients = constraints s.clients)
    (hp : t.publishedClientFacts = s.publishedClientFacts)
    (hg : t.clientGeneration = s.clientGeneration) : t.Inv ∧ Counted false s t := by
  have hf : t.clientFacts = s.clientFacts := by
    rw [clientFacts_eq, clientFacts_eq, hr, hk, hc]
  refine ⟨⟨hb, ?_, by rw [hp, hf, h.published]⟩, ?_⟩
  · intro rows cols hw
    rw [wanted_congr hc] at hw
    rw [hr, hk]
    exact h.settled rows cols hw
  · simp [Counted, hf, hg]

private theorem Inv.quiet (h : s.Inv) (q : Quiet s t) : t.Inv ∧ Counted false s t :=
  h.kept (h.base.quiet q) q.rows q.cols (constraints_of_likes q.clients) q.published q.generation

/-- A quiet end of a message changes nothing of what the message has done. -/
private theorem Counted.quiet {attached : Bool} (h : t.Inv ∧ Counted attached s t)
    (q : Quiet t u) : u.Inv ∧ Counted attached s u := by
  refine ⟨(h.1.quiet q).1, ?_⟩
  have := h.2
  unfold Counted at this ⊢
  rw [q.generation, q.clientFacts_eq]
  exact this

/-- The facts are published once the size is negotiated and shown. -/
private theorem Negotiated.noteClientChange (h : s.Inv) (n : Negotiated none s t)
    (attached : Bool) :
    (t.noteClientChange attached).Inv ∧ Counted attached s (t.noteClientChange attached) := by
  have hpub : t.publishedClientFacts = s.clientFacts := n.published.trans h.published
  unfold Daemon.noteClientChange
  split
  · next hsame =>
    simp only [Bool.and_eq_true, Bool.not_eq_true', decide_eq_true_eq] at hsame
    obtain ⟨rfl, hfacts⟩ := hsame
    refine ⟨⟨n.base, n.settled, hfacts.symm⟩, ?_⟩
    simp [Counted, n.generation, hfacts, hpub]
  · next hchanged =>
    simp only [Bool.and_eq_true, Bool.not_eq_true', decide_eq_true_eq, not_and] at hchanged
    refine ⟨⟨⟨n.base.keyed, n.base.rows_ne, n.base.cols_ne, n.base.shown, n.base.sized⟩,
      n.settled, rfl⟩, ?_⟩
    show t.clientGeneration + 1 = if attached = true ∨ t.clientFacts ≠ s.clientFacts then _ else _
    rw [if_pos, n.generation]
    by_cases ha : attached = true
    · exact .inl ha
    · exact .inr fun hf ↦ hchanged (Bool.not_eq_true _ ▸ ha) (hf.trans hpub.symm)

/-- A client is changed and is owed its size. -/
private theorem Base.owe (h : Base none s) (id : Nat) (f : Client → Client) :
    Base (some id) (s.modify id f) where
  keyed := (map_fst_update id f s.clients).symm ▸ h.keyed
  rows_ne := h.rows_ne
  cols_ne := h.cols_ne
  shown := by
    intro p hp ho
    rcases mem_update hp with hp | ⟨c, -, -, rfl⟩
    · exact h.shown p hp (by simp)
    · exact absurd rfl ho
  sized := h.sized

private theorem Negotiated.quiet {owed : Option Nat} (n : Negotiated owed s t) (q : Quiet t u) :
    Negotiated owed s u :=
  ⟨n.base.quiet q, n.settled.quiet q, q.published.trans n.published,
    q.generation.trans n.generation⟩

private theorem Negotiated.after {owed : Option Nat} (n : Negotiated owed t u)
    (hp : t.publishedClientFacts = s.publishedClientFacts)
    (hg : t.clientGeneration = s.clientGeneration) : Negotiated owed s u :=
  ⟨n.base, n.settled, n.published.trans hp, n.generation.trans hg⟩

omit [Terminal T] in
private theorem constraints_sendTo (s : Daemon T) (id : Nat) (packet : Packet) :
    constraints (s.sendTo id packet).clients = constraints s.clients :=
  constraints_of_alikes (forall₂_update Alikes.refl id
    (·.send s.capacity s.output.length packet) (fun c ↦ ⟨rfl, .send c _ _ _⟩) s.clients)

/-- The client that is owed its size gets it. -/
private theorem Negotiated.answerGeometry {id : Nat} {resized : Bool}
    (n : Negotiated (if resized then none else some id) s t) :
    Negotiated none s (t.answerGeometry id resized) := by
  unfold Daemon.answerGeometry
  cases resized with
  | true => exact n
  | false =>
    obtain ⟨hb, hs, hp, hg⟩ := n
    refine ⟨⟨(map_fst_update id _ t.clients).symm ▸ hb.keyed, hb.rows_ne, hb.cols_ne, ?_,
      hb.sized⟩, ?_, hp, hg⟩
    · intro p hmem _ hget hcut
      rcases mem_update_of_keyed hb.keyed hmem with ⟨hp, hne⟩ | ⟨c, -, rfl⟩
      · exact hb.shown p hp (by simpa using Ne.symm hne) hget hcut
      · exact Client.lastGeometry_send c _ _ _ _ hcut
    · intro rows cols hw
      exact hs rows cols ((wanted_congr (constraints_sendTo t id _)).symm.trans hw)

variable [SizedTerminal T]

private theorem Resized.negotiated {rows cols : UInt16} {owed : Option Nat} (h : Base owed s)
    (hw : wanted s.clients = some (rows, cols)) (r : Resized rows cols s t) :
    Negotiated none s t := by
  obtain ⟨hr, hc⟩ := wanted_ne_zero hw
  have hrows : Terminal.rows t.actor = rows := by simp [r.actor, max_one_of_ne hr]
  have hcols : Terminal.cols t.actor = cols := by simp [r.actor, max_one_of_ne hc]
  refine ⟨⟨?_, hrows ▸ hr, hcols ▸ hc, ?_, ?_⟩, ?_, r.published, r.generation⟩
  · rw [r.clients, List.map_map]
    exact h.keyed
  · intro p hp _ hg hcut
    rw [r.clients] at hp
    obtain ⟨o, ho, rfl⟩ := List.mem_map.mp hp
    rw [hrows, hcols]
    unfold geometryTo at hg hcut ⊢
    dsimp only at hg hcut ⊢
    split at hcut
    · next hy =>
      rw [if_pos hy]
      exact Client.lastGeometry_send _ _ _ _ _ hcut
    · next hn =>
      rw [if_neg hn] at hg
      exact absurd hg hn
  · intro hrun
    obtain ⟨width, height, hs⟩ := r.session
    rw [hs] at hrun ⊢
    simp only [Session.resize] at hrun ⊢
    split
    · exact ⟨hrows.symm, hcols.symm⟩
    · next hstopped => simp [hstopped] at hrun
  · intro rows' cols' hw'
    rw [r.clients, wanted_congr
      (constraints_of_alikes (forall₂_map (alikes_geometryTo rows cols) s.clients)), hw] at hw'
    cases hw'
    exact ⟨hrows.symm, hcols.symm⟩

/-- After a negotiation only a client that was owed its size before, and got no new one with
the others, is still owed it. -/
theorem Base.negotiateSize {owed : Option Nat} (h : Base owed s) (now : Nat) :
    Negotiated (if (s.negotiateSize now).1 then none else owed) s (s.negotiateSize now).2 := by
  rcases s.negotiateSize_cases now with ⟨heq, hs⟩ | ⟨rows, cols, t, hw, -, heq, r⟩
  · rw [heq]
    exact ⟨h, hs, rfl, rfl⟩
  · rw [heq]
    exact r.negotiated h hw

/-- A client asks for a size, the session is negotiated and the client is answered. -/
private theorem Inv.renegotiate (h : s.Inv) (q : Quiet s t) (now id : Nat)
    (f : Client → Client) (cellChanged : Bool) :
    let r := (t.modify id f).negotiateSize now
    Negotiated none s ((r.2.applyCellSize cellChanged r.1).answerGeometry id r.1) := by
  have hn := (((h.base.quiet q).owe id f).negotiateSize now).after (s := s) q.published q.generation
  exact (hn.quiet (.applyCellSize _ _ _)).answerGeometry

/-- What a message has published stands when the SCREEN is cut. -/
private theorem Counted.scheduleCut {attached : Bool} (h : t.Inv ∧ Counted attached s t)
    (now id generation : Nat) (kind : CutKind) (delay : Option Nat) :
    (t.scheduleCut now id generation kind delay).Inv ∧
      Counted attached s (t.scheduleCut now id generation kind delay) :=
  Counted.quiet h (.scheduleCut h.1.base.rows_ne h.1.base.cols_ne _ _ _ _ _)

theorem Inv.onAttach (h : s.Inv) (now id : Nat) {payload : List UInt8} {c : Client}
    (hlen : 4 ≤ payload.length) (hc : s.client id = some c) :
    (s.onAttach now id payload).Inv ∧ Counted true s (s.onAttach now id payload) := by
  unfold Daemon.onAttach
  rw [if_neg (by omega), hc]
  dsimp only
  apply Counted.scheduleCut
  apply Negotiated.noteClientChange h
  apply h.renegotiate
  exact (Quiet.adoptCellSize s payload).trans (.terminal rfl rfl rfl rfl rfl rfl)

theorem Inv.onPeek (h : s.Inv) (now id : Nat) (payload : List UInt8) :
    (s.onPeek now id payload).Inv ∧ Counted false s (s.onPeek now id payload) := by
  unfold Daemon.onPeek
  split
  · exact h.quiet (.refl s)
  · next c hc =>
    dsimp only
    apply Counted.scheduleCut
    have hn := h.renegotiate (.refl s) now id
      (fun d ↦ { d with role := .readonly, generation := c.generation + 1 }) false
    split
    · exact hn.noteClientChange h false
    · next hcon =>
      -- neither before nor after does the client count, so nothing is negotiated
      have hcs : constraints (s.modify id fun d ↦
          { d with role := .readonly, generation := c.generation + 1 }).clients =
            constraints s.clients :=
        constraints_update hc (by simpa using hcon) (by simp [Client.constrainsSize])
      have hset : (s.modify id fun d ↦
          { d with role := .readonly, generation := c.generation + 1 }).Settled :=
        fun rows cols hw ↦ h.settled rows cols ((wanted_congr hcs).symm.trans hw)
      rw [hset.negotiateSize] at hn ⊢
      exact h.kept hn.base rfl rfl ((constraints_sendTo _ _ _).trans hcs) rfl rfl

/-- A size is asked for by a client that has been shown the last one. -/
private theorem Base.resize (h : Base none t)
    (hp : t.publishedClientFacts = s.publishedClientFacts)
    (hg : t.clientGeneration = s.clientGeneration) (now : Nat) (payload : List UInt8) :
    Negotiated none s (((t.adoptCellSize payload).2.negotiateSize now).2.applyCellSize
      (t.adoptCellSize payload).1 ((t.adoptCellSize payload).2.negotiateSize now).1) := by
  have hq := Quiet.adoptCellSize t payload
  have hn := (h.quiet hq).negotiateSize now
  rw [ite_self] at hn
  exact (hn.quiet (.applyCellSize _ _ _)).after (hq.published.trans hp) (hq.generation.trans hg)

theorem Inv.onResize (h : s.Inv) (now id : Nat) (payload : List UInt8) :
    (s.onResize now id payload).Inv ∧ Counted false s (s.onResize now id payload) := by
  unfold Daemon.onResize
  split
  · exact h.quiet (.refl s)
  · next c hc =>
    split
    · exact h.quiet (.refl s)
    · next hok =>
      dsimp only
      simp only [not_or, not_not, not_lt] at hok
      apply Negotiated.noteClientChange h
      refine Base.resize ?_ (by rfl) (by rfl) now payload
      -- the client is shown its size already
      refine ⟨(map_fst_update id _ s.clients).symm ▸ h.base.keyed, h.base.rows_ne,
        h.base.cols_ne, fun p hp _ ↦ ?_, h.base.sized⟩
      rcases mem_update hp with hp | ⟨d, hd, hmem, rfl⟩
      · exact h.base.shown p hp (by simp)
      · obtain rfl : c = d := Option.some.inj (hc.symm.trans hd)
        intro _ hcut
        refine h.base.shown (id, c) hmem (by simp) ?_ hcut
        have := hok.2.1
        simp only [Client.getsGeometry, Bool.or_eq_true, decide_eq_true_eq]
        omega

theorem Inv.onClosed (h : s.Inv) (now id : Nat) :
    (s.onClosed now id).Inv ∧ Counted false s (s.onClosed now id) := by
  unfold Daemon.onClosed
  split
  · exact h.quiet (.refl s)
  · next c hc =>
    dsimp only
    have hb : Base none { s with clients := s.clients.filter (·.1 ≠ id) } := by
      refine ⟨?_, h.base.rows_ne, h.base.cols_ne, fun p hp ↦ ?_, h.base.sized⟩
      · exact h.base.keyed.sublist (List.filter_sublist.map _)
      · exact h.base.shown p (List.mem_filter.mp hp).1
    split
    · have hn := hb.negotiateSize now
      rw [ite_self] at hn
      exact (hn.after (s := s) rfl rfl).noteClientChange h false
    · next hcon =>
      have hcs : constraints (s.clients.filter (·.1 ≠ id)) = constraints s.clients :=
        constraints_filter h.base.keyed hc (by simpa using hcon)
      have hk : Inv _ ∧ Counted false s _ := h.kept hb rfl rfl hcs rfl rfl
      rw [hk.1.settled.negotiateSize]
      exact hk

theorem Inv.onPacket (h : s.Inv) (now id : Nat) {packet : Packet} (reply : List UInt8)
    (hp : packet.type_ ≠ .resetInputModes) :
    (s.onPacket now id packet reply).Inv ∧
      Counted (s.attaches id packet) s (s.onPacket now id packet reply) := by
  have hother : packet.type_ ≠ .attach → s.attaches id packet = false := by
    intro hne
    simp [attaches, hne]
  unfold Daemon.onPacket
  split
  · next ht =>
    cases ha : s.attaches id packet with
    | true =>
      simp only [attaches, ht, Bool.and_eq_true, decide_eq_true_eq, Option.isSome_iff_exists] at ha
      obtain ⟨⟨-, hlen⟩, c, hc⟩ := ha
      exact h.onAttach now id hlen hc
    | false =>
      have hs : s.onAttach now id packet.payload = s := by
        unfold Daemon.onAttach
        split
        · rfl
        · next hlen =>
          have hnone : s.client id = none := by
            simpa [attaches, ht, Nat.le_of_not_lt hlen] using ha
          rw [hnone]
      rw [hs]
      exact h.quiet (.refl s)
  · next ht => exact hother (by simp [ht]) ▸ h.onPeek now id _
  · next ht => exact hother (by simp [ht]) ▸ h.onResize now id _
  · next ht => exact hother (by simp [ht]) ▸ h.onClosed now id
  · next ht => exact absurd ht hp
  · next ht => exact hother (by simp [ht]) ▸ h.quiet (.sendTo s id fun _ ↦ rfl)
  · next ht => exact hother (by simp [ht]) ▸ h.quiet (.sendTo s id fun _ ↦ rfl)
  · next ht => exact hother (by simp [ht]) ▸ h.quiet (.sendTo s id fun _ ↦ rfl)
  · next ht => exact hother (by simp [ht]) ▸ h.quiet (.sendTo s id fun _ ↦ rfl)
  · next hne _ _ _ _ _ _ _ _ => exact hother hne ▸ h.quiet (.refl s)

/-! ### Runs -/

/-- The steps of clients' connections and messages and of the daemon's own timers: nothing
is printed to the terminal, and a connection has a number of its own. -/
def byClients (s : Daemon T) : Label → Bool
  | .handle _ (.ptyData _) => false
  | .handle _ (.connect id) => (s.client id).isNone
  | .handle _ (.packet _ packet _) => packet.type_ ≠ .resetInputModes
  | .close => false
  | _ => true

/-- One of these steps. -/
def clientStep : Daemon T → Label → Option (Daemon T) :=
  gate byClients fun s l ↦ some (s.step l)

/-- Whether the step handles an ATTACH. -/
def attachesBy (s : Daemon T) : Label → Bool
  | .handle _ (.packet id packet _) => s.attaches id packet
  | _ => false

/-- `Daemon::assemble`, `lifecycle.rs:947`, for a session configured with that size, whose
pty was opened with it, `lifecycle.rs:375`. -/
structure Started (rows cols : UInt16) (s : Daemon T) : Prop where
  clients : s.clients = []
  actor : Terminal.rows s.actor = max rows 1 ∧ Terminal.cols s.actor = max cols 1
  running : s.session.running = true
  size : s.session.size.rows = rows ∧ s.session.size.cols = cols
  published : s.publishedClientFacts = ⟨rows, cols, []⟩
  generation : s.clientGeneration = 0

omit [SizedTerminal T] in
theorem Inv.agrees (h : s.Inv) : s.Agrees :=
  ⟨fun _ _ hc ↦ h.base.shown _ (mem_of_lookup hc) (by simp), h.base.sized⟩

private theorem Inv.onPtyEof (h : s.Inv) (now : Nat) :
    (s.handle now .ptyEof).Inv ∧ Counted false s (s.handle now .ptyEof) := by
  have heof : Quiet s { s with ptyEof := true } := .terminal rfl rfl rfl rfl rfl rfl
  simp only [handle]
  split
  · exact h.quiet (heof.trans (.finalizeExit _))
  · exact h.quiet heof

omit [SizedTerminal T] in
private theorem Inv.onConnect (h : s.Inv) (now : Nat) {id : Nat} (hid : s.client id = none) :
    (s.handle now (.connect id)).Inv ∧ Counted false s (s.handle now (.connect id)) := by
  have hfresh : id ∉ s.clients.map Prod.fst := by
    intro hmem
    obtain ⟨p, hp, rfl⟩ := List.mem_map.mp hmem
    have := lookup_of_mem h.base.keyed hp
    rw [Daemon.client, this] at hid
    cases hid
  refine h.kept ⟨nodup_insert h.base.keyed hfresh, h.base.rows_ne, h.base.cols_ne, ?_,
    h.base.sized⟩ rfl rfl (constraints_insert rfl hfresh) rfl rfl
  intro p hp ho
  rcases mem_insert hp with rfl | hp
  · exact fun hg ↦ by simp [Client.getsGeometry] at hg
  · exact h.base.shown p hp ho

/-- What one step does to a session whose sizes agree. -/
theorem Inv.step (h : s.Inv) {l : Label} (hl : s.byClients l = true) :
    (s.step l).Inv ∧ Counted (s.attachesBy l) s (s.step l) := by
  cases l with
  | handle now msg =>
    cases msg with
    | ptyData bytes => cases hl
    | ptyEof => exact h.onPtyEof now
    | childExited status held =>
      refine h.quiet ?_
      show Quiet s (if held = true then s else s.onChildExited now status)
      split
      · exact .refl s
      · exact .onChildExited s now status
    | connect id => exact h.onConnect now (Option.isNone_iff_eq_none.mp hl)
    | packet id packet reply =>
      exact h.onPacket now id reply (by simpa [byClients] using hl)
    | closed id => exact h.onClosed now id
  | timers now => exact h.quiet (.serviceTimers h.base.rows_ne h.base.cols_ne now)
  | close => cases hl
  | reaped =>
    refine h.quiet ⟨List.forall₂_same.mpr fun p _ ↦ .refl p, rfl, rfl, fun _ hrun ↦ ?_, rfl, rfl⟩
    cases hrun
  | writerTakes id =>
    refine h.quiet (.modify s id fun c ↦ ?_)
    unfold Daemon.writerTakes
    split
    · exact ⟨⟨rfl, rfl, rfl, rfl⟩, fun h ↦ h, rfl⟩
    · exact .refl c
  | writerWrote id =>
    refine h.quiet (.modify s id fun c ↦ ?_)
    unfold Daemon.writerWrote
    split
    · exact ⟨⟨rfl, rfl, rfl, rfl⟩, fun h ↦ h, rfl⟩
    · exact .refl c
  | writerEnds id =>
    refine h.quiet (.modify s id fun c ↦ ⟨⟨rfl, rfl, rfl, rfl⟩, fun hcut ↦ ?_, rfl⟩)
    simp [writerEnds, Client.cutOff] at hcut

omit [SizedTerminal T] in
theorem Started.inv {rows cols : UInt16} (h : Started rows cols s) (hr : rows ≠ 0)
    (hc : cols ≠ 0) : s.Inv := by
  obtain ⟨hrows, hcols⟩ := h.actor
  rw [max_one_of_ne hr] at hrows
  rw [max_one_of_ne hc] at hcols
  refine ⟨⟨?_, hrows ▸ hr, hcols ▸ hc, ?_, fun _ ↦ ?_⟩, ?_, ?_⟩
  · simp [h.clients]
  · simp [h.clients]
  · rw [hrows, hcols]
    exact h.size
  · intro rows cols hw
    rw [h.clients] at hw
    cases hw
  · rw [h.published, clientFacts_eq, hrows, hcols, h.clients]
    rfl

theorem inv_of_runs {rows cols : UInt16} {s₀ : Daemon T} (h₀ : Started rows cols s₀)
    (hr : rows ≠ 0) (hc : cols ≠ 0) (h : Runs (· = s₀) clientStep s) : s.Inv := by
  apply h.induct
  · rintro _ rfl
    exact h₀.inv hr hc
  · intro s l t _ ih hs
    obtain ⟨hl, ht⟩ := gate_eq_some.mp hs
    cases ht
    exact (ih.step hl).1

omit [SizedTerminal T] in
/-- A connection is the first thing a session without rows or columns sees. -/
private theorem Started.disagrees {rows cols : UInt16} {s₀ : Daemon T}
    (h₀ : Started rows cols s₀) (h : rows = 0 ∨ cols = 0) :
    clientStep s₀ (.handle 0 (.connect 0)) = some (s₀.step (.handle 0 (.connect 0))) ∧
      ¬(s₀.step (.handle 0 (.connect 0))).Sized ∧
      (s₀.step (.handle 0 (.connect 0))).publishedClientFacts ≠
        (s₀.step (.handle 0 (.connect 0))).clientFacts := by
  refine ⟨?_, fun hs ↦ ?_, fun hf ↦ ?_⟩
  · simp [clientStep, gate, byClients, Daemon.client, h₀.clients]
  · obtain ⟨hr, hc⟩ := hs h₀.running
    rcases h with rfl | rfl
    · exact max_one_ne 0 (h₀.actor.1.symm.trans (hr.symm.trans h₀.size.1))
    · exact max_one_ne 0 (h₀.actor.2.symm.trans (hc.symm.trans h₀.size.2))
  · have hp : (⟨rows, cols, []⟩ : ClientFacts) = _ := h₀.published.symm.trans hf
    obtain ⟨hr, hc, -⟩ := ClientFacts.mk.inj hp
    rcases h with rfl | rfl
    · exact max_one_ne 0 (h₀.actor.1.symm.trans hr.symm)
    · exact max_one_ne 0 (h₀.actor.2.symm.trans hc.symm)

/-- After each message of any run the terminal, the pty and every client that gets GEOMETRY
have the same size, exactly if the session was started with at least one row and column. -/
theorem agrees_iff {rows cols : UInt16} {s₀ : Daemon T} (h₀ : Started rows cols s₀) :
    (∀ s l t, Runs (· = s₀) clientStep s → clientStep s l = some t → t.Agrees) ↔
      rows ≠ 0 ∧ cols ≠ 0 := by
  constructor
  · intro h
    by_contra hz
    obtain ⟨hs, hn, -⟩ := h₀.disagrees (by rwa [← not_ne_iff, ← not_ne_iff, ← not_and_or])
    exact hn (h _ _ _ (.base rfl) hs).sized
  · rintro ⟨hr, hc⟩ s l t hs hl
    exact (inv_of_runs h₀ hr hc (.tail hs ⟨l, hl⟩)).agrees

/-- After each message of any run the facts last published are those that hold, and the
generation counted the message if it changed them or was an ATTACH, exactly if the session
was started with at least one row and column. -/
theorem published_iff {rows cols : UInt16} {s₀ : Daemon T} (h₀ : Started rows cols s₀) :
    (∀ s l t, Runs (· = s₀) clientStep s → clientStep s l = some t →
        t.publishedClientFacts = t.clientFacts ∧ Counted (s.attachesBy l) s t) ↔
      rows ≠ 0 ∧ cols ≠ 0 := by
  constructor
  · intro h
    by_contra hz
    obtain ⟨hs, -, hn⟩ := h₀.disagrees (by rwa [← not_ne_iff, ← not_ne_iff, ← not_and_or])
    exact hn (h _ _ _ (.base rfl) hs).1
  · rintro ⟨hr, hc⟩ s l t hs hl
    obtain ⟨hok, ht⟩ := gate_eq_some.mp hl
    cases ht
    have hstep := (inv_of_runs h₀ hr hc hs).step hok
    exact ⟨hstep.1.published, hstep.2⟩

/-! ### A terminal that is only a size -/

/-- A terminal that shows nothing. -/
structure Grid where
  rows : UInt16
  cols : UInt16

instance : Terminal Grid where
  rows := Grid.rows
  cols := Grid.cols
  cellSize _ := (0, 0)
  setCellSize t _ := t
  setClipboardClientAvailable t _ := t
  setEnhancedPasteAvailable t _ := t
  write t bytes := (bytes, t)
  takePtyReplies t := ([], t)
  resize _ cols rows := ⟨max rows 1, max cols 1⟩
  resetInputModes t := ([], t)
  endStream t := t
  serialize _ _ := []
  plain _ _ := []

instance : SizedTerminal Grid where
  rows_resize _ _ _ := rfl
  cols_resize _ _ _ := rfl
  rows_setCellSize _ _ := rfl
  cols_setCellSize _ _ := rfl
  rows_takePtyReplies _ := rfl
  cols_takePtyReplies _ := rfl
  rows_endStream _ := rfl
  cols_endStream _ := rfl

/-- A session configured with that size. -/
def grid (rows cols : UInt16) : Daemon Grid where
  actor := ⟨max rows 1, max cols 1⟩
  session := { size := ⟨rows, cols, 0, 0⟩ }
  settle := 80
  capacity packet := packet.payload.length + HEADER_SIZE
  publishedClientFacts := ⟨rows, cols, []⟩

private theorem grid_started (rows cols : UInt16) : Started rows cols (grid rows cols) :=
  ⟨rfl, ⟨rfl, rfl⟩, rfl, ⟨rfl, rfl⟩, rfl, rfl⟩

/-- A client connects and attaches with that size. -/
private def attachesWith (rows cols : UInt16) : List Label :=
  [.handle 0 (.connect 1), .handle 0 (.packet 1 ⟨.attach, sizePayload rows cols⟩ [])]

/-- A client attaches to a session of 24 rows and makes it smaller. -/
theorem agrees_iff_grid : ∃ s t, Runs (· = grid 24 80) clientStep s ∧
    clientStep s (.handle 0 (.packet 1 ⟨.resize, sizePayload 20 70⟩ [])) = some t ∧
    t.session.size.rows = 20 ∧ t.Agrees := by
  have hrun : ∃ s t, replay clientStep (grid 24 80) (attachesWith 30 100) = some s ∧
      clientStep s (.handle 0 (.packet 1 ⟨.resize, sizePayload 20 70⟩ [])) = some t ∧
      t.session.size.rows = 20 := ⟨_, _, rfl, rfl, rfl⟩
  obtain ⟨s, t, hs, ht, hrows⟩ := hrun
  have hr : Runs (· = grid 24 80) clientStep s := Runs.replay (.base rfl) hs
  have hagree := (agrees_iff (grid_started 24 80)).mpr (by decide)
  exact ⟨s, t, hr, ht, hrows, hagree s _ t hr ht⟩

/-- The facts published after that. -/
theorem published_iff_grid : ∃ s t, Runs (· = grid 24 80) clientStep s ∧
    clientStep s (.handle 0 (.packet 1 ⟨.resize, sizePayload 20 70⟩ [])) = some t ∧
    t.publishedClientFacts = ⟨20, 70, [(1, 20, 70)]⟩ ∧
    t.publishedClientFacts = t.clientFacts ∧ Counted false s t := by
  have hrun : ∃ s t, replay clientStep (grid 24 80) (attachesWith 30 100) = some s ∧
      clientStep s (.handle 0 (.packet 1 ⟨.resize, sizePayload 20 70⟩ [])) = some t ∧
      t.publishedClientFacts = ⟨20, 70, [(1, 20, 70)]⟩ := ⟨_, _, rfl, rfl, rfl⟩
  obtain ⟨s, t, hs, ht, hfacts⟩ := hrun
  have hr : Runs (· = grid 24 80) clientStep s := Runs.replay (.base rfl) hs
  have hpub := (published_iff (grid_started 24 80)).mpr (by decide)
  exact ⟨s, t, hr, ht, hfacts, hpub s _ t hr ht⟩

/-- A session started with no rows: a client attaches with one row, the terminal has one,
and the pty none. -/
theorem zero_rows_disagree : ∃ s t : Daemon Grid, Started 0 80 (grid 0 80) ∧
    Runs (· = grid 0 80) clientStep s ∧
    clientStep s (.handle 0 (.packet 1 ⟨.attach, sizePayload 1 80⟩ [])) = some t ∧
    ¬t.Agrees := by
  have hrun : ∃ s t, replay clientStep (grid 0 80) [.handle 0 (.connect 1)] = some s ∧
      clientStep s (.handle 0 (.packet 1 ⟨.attach, sizePayload 1 80⟩ [])) = some t ∧
      t.session = ⟨true, 0, 80, 0, 0⟩ ∧ t.actor = ⟨1, 80⟩ := ⟨_, _, rfl, rfl, rfl, rfl⟩
  obtain ⟨s, t, hs, ht, hsession, hactor⟩ := hrun
  refine ⟨s, t, grid_started 0 80, Runs.replay (.base rfl) hs, ht, fun hagree ↦ ?_⟩
  have hrows := (hagree.sized (by rw [hsession])).1
  rw [hsession, hactor] at hrows
  exact absurd hrows (by decide)

/-- A session started with no rows publishes none, until a client attaches; a connection
that peeks sees one. -/
theorem zero_rows_unpublished : ∃ s t : Daemon Grid, Started 0 80 (grid 0 80) ∧
    Runs (· = grid 0 80) clientStep s ∧
    clientStep s (.handle 0 (.packet 1 ⟨.peek, []⟩ [])) = some t ∧
    t.publishedClientFacts ≠ t.clientFacts := by
  have hrun : ∃ s t, replay clientStep (grid 0 80) [.handle 0 (.connect 1)] = some s ∧
      clientStep s (.handle 0 (.packet 1 ⟨.peek, []⟩ [])) = some t ∧
      t.publishedClientFacts = ⟨0, 80, []⟩ ∧ t.clientFacts = ⟨1, 80, []⟩ :=
    ⟨_, _, rfl, rfl, rfl, rfl⟩
  obtain ⟨s, t, hs, ht, hpub, hfacts⟩ := hrun
  refine ⟨s, t, grid_started 0 80, Runs.replay (.base rfl) hs, ht, ?_⟩
  rw [hpub, hfacts]
  decide

end Daemon
end PtySpec.Serving
