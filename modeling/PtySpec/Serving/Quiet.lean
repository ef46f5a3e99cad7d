import PtySpec.Serving.Clients

/-!
# What leaves the size of a session alone

The size of a session is changed only by negotiation and by the redraw nudge, which restores
what it changes. Everything else a daemon does is `Quiet`: it keeps the sizes and what the
clients ask for, and shows no client another size.
-/

namespace PtySpec.Serving

open Lib Protocol

/-- How `TerminalActor` treats its size, `actor.rs:814`: it has at least one row and one
column, and only `resize` changes it. What the child's output does to it is left open. -/
class SizedTerminal (T : Type) [Terminal T] : Prop where
  rows_resize (t : T) (cols rows : UInt16) :
    Terminal.rows (Terminal.resize t cols rows) = max rows 1
  cols_resize (t : T) (cols rows : UInt16) :
    Terminal.cols (Terminal.resize t cols rows) = max cols 1
  rows_setCellSize (t : T) (cell : UInt32 × UInt32) :
    Terminal.rows (Terminal.setCellSize t cell) = Terminal.rows t
  cols_setCellSize (t : T) (cell : UInt32 × UInt32) :
    Terminal.cols (Terminal.setCellSize t cell) = Terminal.cols t
  rows_takePtyReplies (t : T) : Terminal.rows (Terminal.takePtyReplies t).2 = Terminal.rows t
  cols_takePtyReplies (t : T) : Terminal.cols (Terminal.takePtyReplies t).2 = Terminal.cols t
  rows_endStream (t : T) : Terminal.rows (Terminal.endStream t) = Terminal.rows t
  cols_endStream (t : T) : Terminal.cols (Terminal.endStream t) = Terminal.cols t

attribute [simp] SizedTerminal.rows_resize SizedTerminal.cols_resize
  SizedTerminal.rows_setCellSize SizedTerminal.cols_setCellSize
  SizedTerminal.rows_takePtyReplies SizedTerminal.cols_takePtyReplies
  SizedTerminal.rows_endStream SizedTerminal.cols_endStream

theorem max_one_of_ne {n : UInt16} (h : n ≠ 0) : max n 1 = n := by
  have hn : n.toNat ≠ 0 := fun he ↦ h (UInt16.toNat_inj.mp he)
  show (if n ≤ 1 then 1 else n) = n
  split
  · next hle =>
    have : n.toNat ≤ 1 := UInt16.le_iff_toNat_le.mp hle
    apply UInt16.toNat_inj.mp
    show 1 = n.toNat
    omega
  · rfl

theorem max_one_ne (n : UInt16) : max n 1 ≠ 0 := by
  show (if n ≤ 1 then 1 else n) ≠ 0
  split
  · decide
  · next hle =>
    rintro rfl
    exact hle (by decide)

/-! ### One client -/

/-- The GEOMETRY among what a client was handed. -/
def geometry? : Handed Packet UInt8 → Option Packet
  | .other packet => if packet.type_ = .geometry then some packet else none
  | _ => none

namespace Client

/-- The last GEOMETRY sent to the client. -/
def lastGeometry (c : Client) : Option Packet := (c.log.filterMap geometry?).getLast?

/-- What the client asks for and whether it counts are as before. -/
structure Alike (c d : Client) : Prop where
  role : d.role = c.role
  rows : d.rows = c.rows
  cols : d.cols = c.cols
  attachSeq : d.attachSeq = c.attachSeq

/-- The client is alike and was shown no other size. -/
structure Like (c d : Client) : Prop extends Alike c d where
  cutOff : d.cutOff = false → c.cutOff = false
  shown : d.lastGeometry = c.lastGeometry

theorem Alike.refl (c : Client) : Alike c c := ⟨rfl, rfl, rfl, rfl⟩

theorem Like.refl (c : Client) : Like c c := ⟨.refl c, id, rfl⟩

theorem Like.trans {c d e : Client} (h : Like c d) (h' : Like d e) : Like c e where
  role := h'.role.trans h.role
  rows := h'.rows.trans h.rows
  cols := h'.cols.trans h.cols
  attachSeq := h'.attachSeq.trans h.attachSeq
  cutOff := h.cutOff ∘ h'.cutOff
  shown := h'.shown.trans h.shown

theorem Alike.constrainsSize {c d : Client} (h : Alike c d) :
    d.constrainsSize = c.constrainsSize := by
  simp [Client.constrainsSize, h.role, h.attachSeq]

theorem Alike.getsGeometry {c d : Client} (h : Alike c d) :
    d.getsGeometry = c.getsGeometry := by
  simp [Client.getsGeometry, h.role, h.attachSeq]

theorem Alike.send (c : Client) (capacity : Packet → Nat) (position : Nat) (packet : Packet) :
    Alike c (c.send capacity position packet) := by
  rcases c.send_cases capacity position packet with ⟨-, heq⟩ | ⟨-, heq⟩ | heq
  all_goals
    rw [heq]
    exact ⟨rfl, rfl, rfl, rfl⟩

theorem Like.send (c : Client) (capacity : Packet → Nat) (position : Nat) {packet : Packet}
    (hp : geometry? (handed packet position) = none) :
    Like c (c.send capacity position packet) := by
  refine ⟨.send c _ _ _, ?_, ?_⟩
  all_goals rcases c.send_cases capacity position packet with ⟨hc, heq⟩ | ⟨hc, heq⟩ | heq
  all_goals rw [heq]
  · exact id
  · exact id
  · exact fun h ↦ by simp [Client.cutOff] at h
  · simp [lastGeometry, List.filterMap_append, hp]
  · rfl

theorem Like.settle (c : Client) (position : Nat) (exited : Bool) (deadline generation : Nat)
    (kind : CutKind) : Like c (c.settle position exited deadline generation kind) := by
  refine ⟨⟨rfl, rfl, rfl, rfl⟩, id, ?_⟩
  unfold Client.settle lastGeometry
  dsimp only
  split
  · rfl
  · simp [List.filterMap_append, geometry?]

/-- A client that a GEOMETRY reaches is shown that size. -/
theorem lastGeometry_send (c : Client) (capacity : Packet → Nat) (position : Nat)
    (rows cols : UInt16)
    (h : (c.send capacity position (.geometry rows cols)).cutOff = false) :
    (c.send capacity position (.geometry rows cols)).lastGeometry =
      some (.geometry rows cols) := by
  rcases c.send_cases capacity position (.geometry rows cols) with ⟨hc, heq⟩ | ⟨hc, heq⟩ | heq
  · rw [heq]
    simp [lastGeometry, List.filterMap_append, handed, geometry?, Packet.geometry]
  · rw [heq, hc] at h
    cases h
  · rw [heq] at h
    simp [cutOff] at h

end Client

namespace Daemon

variable {T : Type} [Terminal T] {s t u : Daemon T}

/-! ### The sizes of a daemon -/

/-- A client that gets GEOMETRY, and is not cut off, was last sent the terminal's size. -/
def Shows (s : Daemon T) (c : Client) : Prop :=
  c.getsGeometry = true → c.cutOff = false →
    c.lastGeometry = some (.geometry (Terminal.rows s.actor) (Terminal.cols s.actor))

/-- The pty has the terminal's size, as long as its owner takes any. -/
def Sized (s : Daemon T) : Prop :=
  s.session.running = true →
    s.session.size.rows = Terminal.rows s.actor ∧ s.session.size.cols = Terminal.cols s.actor

/-- The terminal, the pty and the clients agree on the size. -/
structure Agrees (s : Daemon T) : Prop where
  shows_ : ∀ id c, s.client id = some c → s.Shows c
  sized : s.Sized

/-- What the clients ask for, unless the request is refused, `geometry.rs:25`. -/
def wanted (clients : List (Nat × Client)) : Option (UInt16 × UInt16) :=
  let (rows, cols) := negotiated clients
  if rows = 0 ∨ cols = 0 then none
  else if rows > 4096 ∨ cols > 4096 ∨ rows.toNat * cols.toNat > 250000 then none
  else some (rows, cols)

/-- Negotiation would leave the size as it is. -/
def Settled (s : Daemon T) : Prop :=
  ∀ rows cols, wanted s.clients = some (rows, cols) →
    rows = Terminal.rows s.actor ∧ cols = Terminal.cols s.actor

/-- The clients that constrain the size and what each asks for. -/
def constraints (clients : List (Nat × Client)) : List (Nat × UInt16 × UInt16) :=
  (clients.filter (·.2.constrainsSize)).map fun p ↦ (p.1, p.2.rows, p.2.cols)

theorem clientFacts_eq (s : Daemon T) :
    s.clientFacts = ⟨Terminal.rows s.actor, Terminal.cols s.actor, constraints s.clients⟩ := rfl

theorem wanted_congr {l k : List (Nat × Client)} (h : constraints l = constraints k) :
    wanted l = wanted k := by
  have hn : ∀ l, negotiated l = (constraints l).foldl (fun size p ↦
      (if size.1 = 0 then p.2.1 else min size.1 p.2.1,
        if size.2 = 0 then p.2.2 else min size.2 p.2.2)) (0, 0) := by
    intro l
    rw [constraints, List.foldl_map]
    rfl
  rw [wanted, wanted, hn, hn, h]

theorem wanted_ne_zero {clients : List (Nat × Client)} {rows cols : UInt16}
    (h : wanted clients = some (rows, cols)) : rows ≠ 0 ∧ cols ≠ 0 := by
  unfold wanted at h
  dsimp only at h
  split at h
  · cases h
  · next hz =>
    split at h
    · cases h
    · cases h
      exact not_or.mp hz

/-! ### Lists of clients -/

theorem map_fst_update (id : Nat) (f : Client → Client) (clients : List (Nat × Client)) :
    (update id f clients).map Prod.fst = clients.map Prod.fst := by
  induction clients with
  | nil => rfl
  | cons p clients ih =>
    obtain ⟨i, c⟩ := p
    unfold update
    split
    · rfl
    · rw [List.map_cons, List.map_cons, ih]

theorem nodup_insert {id : Nat} {c : Client} {clients : List (Nat × Client)}
    (h : (clients.map Prod.fst).Nodup) (hid : id ∉ clients.map Prod.fst) :
    ((insert id c clients).map Prod.fst).Nodup := by
  induction clients with
  | nil => simp [insert]
  | cons p clients ih =>
    obtain ⟨i, d⟩ := p
    simp only [List.map_cons, List.mem_cons, not_or, List.nodup_cons] at h hid
    unfold insert
    split
    · simp only [List.map_cons, List.nodup_cons, List.mem_cons, not_or]
      exact ⟨hid, h⟩
    · split
      · next heq => exact absurd heq hid.1
      · simp only [List.map_cons, List.nodup_cons]
        refine ⟨fun hi ↦ ?_, ih h.2 hid.2⟩
        obtain ⟨q, hq, hqi⟩ := List.mem_map.mp hi
        rcases mem_insert hq with rfl | hq
        · exact hid.1 hqi
        · exact h.1 (List.mem_map.mpr ⟨q, hq, hqi⟩)

theorem constraints_insert {id : Nat} {c : Client} (hc : c.constrainsSize = false)
    {clients : List (Nat × Client)} (hid : id ∉ clients.map Prod.fst) :
    constraints (insert id c clients) = constraints clients := by
  induction clients with
  | nil => simp [insert, constraints, hc]
  | cons p clients ih =>
    obtain ⟨i, d⟩ := p
    simp only [List.map_cons, List.mem_cons, not_or] at hid
    have ih := ih hid.2
    unfold insert
    split
    · simp [constraints, hc]
    · split
      · next heq => exact absurd heq hid.1
      · simp only [constraints, List.filter_cons] at ih ⊢
        split <;> simp [ih]

theorem constraints_update {id : Nat} {f : Client → Client}
    {clients : List (Nat × Client)} {c : Client} (hl : clients.lookup id = some c)
    (hc : c.constrainsSize = false) (hf : (f c).constrainsSize = false) :
    constraints (update id f clients) = constraints clients := by
  induction clients with
  | nil => rfl
  | cons p clients ih =>
    obtain ⟨i, d⟩ := p
    unfold update
    split
    · next heq =>
      subst heq
      simp only [List.lookup_cons_self, Option.some.injEq] at hl
      subst hl
      simp [constraints, hc, hf]
    · next hne =>
      rw [List.lookup_cons, beq_false_of_ne hne] at hl
      have ih := ih hl
      simp only [constraints, List.filter_cons] at ih ⊢
      split <;> simp [ih]

theorem lookup_of_mem {clients : List (Nat × Client)} {p : Nat × Client}
    (h : (clients.map Prod.fst).Nodup) (hp : p ∈ clients) : clients.lookup p.1 = some p.2 := by
  induction clients with
  | nil => cases hp
  | cons q clients ih =>
    simp only [List.map_cons, List.nodup_cons] at h
    rcases List.mem_cons.mp hp with rfl | hp
    · exact List.lookup_cons_self
    · have hne : p.1 ≠ q.1 := fun he ↦ h.1 (he ▸ List.mem_map.mpr ⟨p, hp, rfl⟩)
      rw [List.lookup_cons, beq_false_of_ne hne]
      exact ih h.2 hp

theorem mem_of_lookup {clients : List (Nat × Client)} {id : Nat} {c : Client}
    (h : clients.lookup id = some c) : (id, c) ∈ clients := by
  obtain ⟨l₁, l₂, rfl, -⟩ := List.lookup_eq_some_iff.mp h
  simp

theorem lookup_update (id : Nat) (f : Client → Client) (clients : List (Nat × Client)) :
    (update id f clients).lookup id = (clients.lookup id).map f := by
  induction clients with
  | nil => rfl
  | cons p clients ih =>
    obtain ⟨i, c⟩ := p
    unfold update
    split
    · next heq =>
      subst heq
      simp
    · next hne => rw [List.lookup_cons, List.lookup_cons, beq_false_of_ne hne, ih]

theorem mem_update_of_keyed {id : Nat} {f : Client → Client}
    {clients : List (Nat × Client)} {p : Nat × Client} (h : (clients.map Prod.fst).Nodup)
    (hp : p ∈ update id f clients) :
    (p ∈ clients ∧ p.1 ≠ id) ∨ ∃ c, (id, c) ∈ clients ∧ p = (id, f c) := by
  rcases mem_update hp with hmem | ⟨c, -, hmem, rfl⟩
  · by_cases hid : p.1 = id
    · -- the client of that number is the changed one
      have hl := lookup_of_mem ((map_fst_update id f clients).symm ▸ h) hp
      rw [hid, lookup_update, ← hid, lookup_of_mem h hmem] at hl
      refine .inr ⟨p.2, hid ▸ hmem, ?_⟩
      exact Prod.ext hid (Option.some.inj hl).symm
    · exact .inl ⟨hmem, hid⟩
  · exact .inr ⟨c, hmem, rfl⟩

theorem constraints_filter {id : Nat} {c : Client} {clients : List (Nat × Client)}
    (h : (clients.map Prod.fst).Nodup) (hl : clients.lookup id = some c)
    (hc : c.constrainsSize = false) :
    constraints (clients.filter (·.1 ≠ id)) = constraints clients := by
  unfold constraints
  rw [List.filter_filter]
  congr 1
  apply List.filter_congr
  intro p hp
  by_cases he : p.1 = id
  · have := lookup_of_mem h hp
    rw [he, hl, Option.some.injEq] at this
    simp [← this, hc]
  · simp [he]

/-! ### Steps that change no size -/

/-- The same connection, and `Client.Like`. -/
def Likes (p q : Nat × Client) : Prop := p.1 = q.1 ∧ p.2.Like q.2

theorem Likes.refl (p : Nat × Client) : Likes p p := ⟨rfl, .refl _⟩

/-- The same connection, and `Client.Alike`. -/
def Alikes (p q : Nat × Client) : Prop := p.1 = q.1 ∧ p.2.Alike q.2

theorem Alikes.refl (p : Nat × Client) : Alikes p p := ⟨rfl, .refl _⟩

theorem forall₂_update {R : Nat × Client → Nat × Client → Prop} (hr : ∀ p, R p p)
    (id : Nat) (f : Client → Client) (hf : ∀ c, R (id, c) (id, f c))
    (clients : List (Nat × Client)) : List.Forall₂ R clients (update id f clients) := by
  induction clients with
  | nil => exact .nil
  | cons p clients ih =>
    obtain ⟨i, c⟩ := p
    unfold update
    split
    · next heq =>
      subst heq
      exact .cons (hf c) (List.forall₂_same.mpr fun q _ ↦ hr q)
    · exact .cons (hr _) ih

theorem forall₂_map {R : Nat × Client → Nat × Client → Prop}
    {f : Nat × Client → Nat × Client} (hf : ∀ p, R p (f p)) (clients : List (Nat × Client)) :
    List.Forall₂ R clients (clients.map f) :=
  List.forall₂_map_right_iff.mpr (List.forall₂_same.mpr fun p _ ↦ hf p)

theorem constraints_of_alikes {l k : List (Nat × Client)} (h : List.Forall₂ Alikes l k) :
    constraints k = constraints l := by
  induction h with
  | nil => rfl
  | cons hp _ ih =>
    simp only [constraints, List.filter_cons, hp.2.constrainsSize] at ih ⊢
    split
    · rw [List.map_cons, List.map_cons, ih, hp.1, hp.2.rows, hp.2.cols]
    · exact ih

private theorem likes_trans {l k m : List (Nat × Client)} (h : List.Forall₂ Likes l k)
    (h' : List.Forall₂ Likes k m) : List.Forall₂ Likes l m := by
  induction h generalizing m with
  | nil => exact h'
  | cons hp _ ih =>
    cases h' with
    | cons hq ht => exact .cons ⟨hp.1.trans hq.1, hp.2.trans hq.2⟩ (ih ht)

theorem exists_of_likes {l k : List (Nat × Client)} (h : List.Forall₂ Likes l k) :
    ∀ q ∈ k, ∃ p ∈ l, Likes p q := by
  induction h with
  | nil => exact fun q hq ↦ absurd hq List.not_mem_nil
  | cons hp _ ih =>
    intro q hq
    rcases List.mem_cons.mp hq with rfl | hq
    · exact ⟨_, List.mem_cons_self, hp⟩
    · obtain ⟨p, hmem, hl⟩ := ih q hq
      exact ⟨p, List.mem_cons_of_mem _ hmem, hl⟩

theorem keys_of_likes {l k : List (Nat × Client)} (h : List.Forall₂ Likes l k) :
    k.map Prod.fst = l.map Prod.fst := by
  induction h with
  | nil => rfl
  | cons hp _ ih => rw [List.map_cons, List.map_cons, hp.1, ih]

theorem constraints_of_likes {l k : List (Nat × Client)} (h : List.Forall₂ Likes l k) :
    constraints k = constraints l :=
  constraints_of_alikes (h.imp fun _ _ hp ↦ ⟨hp.1, hp.2.toAlike⟩)

/-- A step that leaves every size as it was, and the clients but for the packets they are
sent, and publishes nothing. -/
structure Quiet (s t : Daemon T) : Prop where
  clients : List.Forall₂ Likes s.clients t.clients
  rows : Terminal.rows t.actor = Terminal.rows s.actor
  cols : Terminal.cols t.actor = Terminal.cols s.actor
  sized : s.Sized → t.Sized
  published : t.publishedClientFacts = s.publishedClientFacts
  generation : t.clientGeneration = s.clientGeneration

namespace Quiet

theorem refl (s : Daemon T) : Quiet s s :=
  ⟨List.forall₂_same.mpr fun p _ ↦ .refl p, rfl, rfl, id, rfl, rfl⟩

theorem trans (h : Quiet s t) (h' : Quiet t u) : Quiet s u where
  clients := likes_trans h.clients h'.clients
  rows := h'.rows.trans h.rows
  cols := h'.cols.trans h.cols
  sized := h'.sized ∘ h.sized
  published := h'.published.trans h.published
  generation := h'.generation.trans h.generation

theorem clientFacts_eq (h : Quiet s t) : t.clientFacts = s.clientFacts := by
  rw [Daemon.clientFacts_eq, Daemon.clientFacts_eq, h.rows, h.cols, constraints_of_likes h.clients]

/-- One client is changed in what no size rests on. -/
theorem modify (s : Daemon T) (id : Nat) {f : Client → Client}
    (hf : ∀ c : Client, c.Like (f c)) : Quiet s (s.modify id f) :=
  ⟨forall₂_update Likes.refl id f (fun c ↦ ⟨rfl, hf c⟩) s.clients, rfl, rfl, fun h ↦ h, rfl, rfl⟩

/-- Every client is sent something, or nothing. -/
theorem map (s : Daemon T) {f : Nat × Client → Nat × Client} (hf : ∀ p, Likes p (f p)) :
    Quiet s { s with clients := s.clients.map f } :=
  ⟨forall₂_map hf s.clients, rfl, rfl, id, rfl, rfl⟩

/-- The clients, the pty and what is published are left alone. -/
theorem terminal (hc : t.clients = s.clients) (hr : Terminal.rows t.actor = Terminal.rows s.actor)
    (hk : Terminal.cols t.actor = Terminal.cols s.actor) (hs : t.session = s.session)
    (hp : t.publishedClientFacts = s.publishedClientFacts)
    (hg : t.clientGeneration = s.clientGeneration) : Quiet s t := by
  refine ⟨hc ▸ List.forall₂_same.mpr fun p _ ↦ .refl p, hr, hk, fun h ↦ ?_, hp, hg⟩
  unfold Sized
  rw [hs, hr, hk]
  exact h

theorem sendTo (s : Daemon T) (id : Nat) {packet : Packet}
    (hp : ∀ n, geometry? (handed packet n) = none) : Quiet s (s.sendTo id packet) :=
  .modify s id fun c ↦ .send c _ _ (hp _)

theorem broadcast (s : Daemon T) {packet : Packet}
    (hp : ∀ n, geometry? (handed packet n) = none) : Quiet s (s.broadcast packet) := by
  refine .map s fun p ↦ ⟨rfl, ?_⟩
  dsimp only
  split
  · exact .refl _
  · exact .send _ _ _ (hp _)

theorem handScreen (s : Daemon T) (id : Nat) (kind : CutKind) :
    Quiet s (s.handScreen id kind) := by
  refine .modify s id fun c ↦ ?_
  have hs : c.Like { c.send s.capacity s.output.length
      (.screen (screen s.actor kind)) with phase := .live } :=
    (Client.Like.send c _ _ rfl).trans ⟨⟨rfl, rfl, rfl, rfl⟩, fun h ↦ h, rfl⟩
  dsimp only
  split
  · exact hs.trans (.send _ _ _ rfl)
  · exact hs

/-- The pty has the terminal's size after `resize_pty` with that. -/
private theorem sized_resizePty {rows cols : UInt16} (hr : rows = Terminal.rows t.actor)
    (hk : cols = Terminal.cols t.actor) (hs : t.session = (s.resizePty rows cols).session) :
    t.Sized := by
  intro hrun
  rw [hs] at hrun ⊢
  simp only [resizePty, Session.resize] at hrun ⊢
  split
  · exact ⟨hr, hk⟩
  · next hstopped => simp [hstopped] at hrun

variable [SizedTerminal T]

/-- The redraw nudge restores the size it changes. -/
theorem nudgeRedraw (hr : Terminal.rows s.actor ≠ 0) (hc : Terminal.cols s.actor ≠ 0) :
    Quiet s s.nudgeRedraw := by
  unfold Daemon.nudgeRedraw
  dsimp only
  split
  · exact .refl s
  · refine ⟨List.forall₂_same.mpr fun p _ ↦ .refl p, ?_, ?_, fun _ ↦ ?_, rfl, rfl⟩
    · simp [resizePty, max_one_of_ne hr]
    · simp [resizePty, max_one_of_ne hc]
    · refine sized_resizePty ?_ ?_ rfl
      · simp [resizePty, max_one_of_ne hr]
      · simp [resizePty, max_one_of_ne hc]

theorem nudgeAfterCut (hr : Terminal.rows s.actor ≠ 0) (hc : Terminal.cols s.actor ≠ 0)
    (now : Nat) (kind : CutKind) : Quiet s (s.nudgeAfterCut now kind) := by
  unfold Daemon.nudgeAfterCut
  split
  · split
    · exact nudgeRedraw hr hc
    · exact .refl s
  · exact .refl s

theorem cut (hr : Terminal.rows s.actor ≠ 0) (hc : Terminal.cols s.actor ≠ 0) (now id : Nat) :
    Quiet s (s.cut now id) := by
  unfold Daemon.cut
  split
  · exact .refl s
  · split
    · exact .refl s
    · split
      · exact .refl s
      · have h := handScreen s id ‹CutKind›
        exact h.trans (nudgeAfterCut (h.rows ▸ hr) (h.cols ▸ hc) now _)

theorem scheduleCut (hr : Terminal.rows s.actor ≠ 0) (hc : Terminal.cols s.actor ≠ 0)
    (now id generation : Nat) (kind : CutKind) (delay : Option Nat) :
    Quiet s (s.scheduleCut now id generation kind delay) := by
  have h : Quiet s (s.modify id
      (·.settle s.output.length s.exited (now + delay.getD 0) generation kind)) :=
    .modify s id fun c ↦ .settle c _ _ _ _ _
  unfold Daemon.scheduleCut
  dsimp only
  split
  · exact h.trans (cut (h.rows ▸ hr) (h.cols ▸ hc) now id)
  · exact h

theorem serviceCuts (hr : Terminal.rows s.actor ≠ 0) (hc : Terminal.cols s.actor ≠ 0)
    (now : Nat) : Quiet s (s.serviceCuts now) := by
  unfold Daemon.serviceCuts
  dsimp only
  generalize s.clients.filterMap _ = due
  induction due generalizing s with
  | nil => exact .refl s
  | cons id due ih =>
    have h := cut hr hc now id
    exact h.trans (ih (h.rows ▸ hr) (h.cols ▸ hc))

theorem finalizeExit (s : Daemon T) : Quiet s s.finalizeExit := by
  have hend : Quiet s { s with
      exited := true
      exitCode := exitCodeOf s.childStatus
      exitDrainDeadline := none
      actor := Terminal.endStream s.actor } :=
    .terminal rfl (SizedTerminal.rows_endStream _) (SizedTerminal.cols_endStream _) rfl rfl rfl
  exact hend.trans (.broadcast _ fun _ ↦ rfl)

theorem serviceTimers (hr : Terminal.rows s.actor ≠ 0) (hc : Terminal.cols s.actor ≠ 0)
    (now : Nat) : Quiet s (s.serviceTimers now) := by
  have h := serviceCuts hr hc now
  unfold Daemon.serviceTimers
  dsimp only
  split
  · have ht : Quiet (s.serviceCuts now) { s.serviceCuts now with exitDrainDeadline := none } :=
      .terminal rfl rfl rfl rfl rfl rfl
    split
    · exact (h.trans ht).trans (.finalizeExit _)
    · exact h.trans ht
  · exact h

theorem onChildExited (s : Daemon T) (now : Nat) (status : ExitStatus) :
    Quiet s (s.onChildExited now status) := by
  have hstatus : Quiet s { s with childStatus := some status } :=
    .terminal rfl rfl rfl rfl rfl rfl
  unfold Daemon.onChildExited
  dsimp only
  split
  · exact .refl s
  · split
    · split
      · exact hstatus
      · exact hstatus.trans (.finalizeExit _)
    · exact .terminal rfl rfl rfl rfl rfl rfl

theorem adoptCellSize (s : Daemon T) (payload : List UInt8) :
    Quiet s (s.adoptCellSize payload).2 := by
  unfold Daemon.adoptCellSize
  split
  · dsimp only
    split
    · exact .terminal rfl (SizedTerminal.rows_setCellSize _ _)
        (SizedTerminal.cols_setCellSize _ _) rfl rfl rfl
    · exact .refl s
  · exact .refl s

omit [SizedTerminal T] in
theorem applyCellSize (s : Daemon T) (cellChanged resized : Bool) :
    Quiet s (s.applyCellSize cellChanged resized) := by
  unfold Daemon.applyCellSize
  split
  · exact ⟨List.forall₂_same.mpr fun p _ ↦ .refl p, rfl, rfl,
      fun _ ↦ sized_resizePty rfl rfl rfl, rfl, rfl⟩
  · exact .refl s

end Quiet

end Daemon
end PtySpec.Serving
