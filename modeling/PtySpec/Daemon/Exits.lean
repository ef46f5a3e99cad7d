import PtySpec.Daemon.Handover

/-!
# The child's exit across the hand-over

The exit message is taken once. Before the transfer the loop holds it and reports it to
the actor, which retires the child; after it the loop handles it, or is handed back the
exit it holds. `ExitPlace` says where the exit is in between.
-/

namespace PtySpec.Daemon

open Lib Operation

namespace Process

/-- The serving daemon runs its exit handling for the child. -/
def Served (s : Process) : Prop := s.loop.childStatus = true

/-- The actor retires the operation and the child with it. -/
def Retired (s : Process) : Prop := s.actor.ghost.requested = true

/-- Nothing is under way: the process has exited, or the loop and the actor have read
all they were sent. -/
def Quiet (s : Process) : Prop :=
  s.exited = true ∨
    (s.loop.phase = .ready ∧ s.control = [] ∧ (∃ a, s.actor.prog = .ret a) ∧
      (s.actorEnded = true ∨ s.inbox = []))

/-- The child's exit is never handled twice, and once taken not left unhandled. -/
def ExitOnce (s : Process) : Prop :=
  ¬(Served s ∧ Retired s) ∧ (s.exit = .taken → Quiet s → Served s ∨ Retired s)

/-- Whether a step leaves the exit with someone: the loop does not take a kill after the
transfer while it holds an exit, and before a retirement no write of the record fails,
the note of the release aside. -/
def exitSafe (s : Process) : Label → Bool
  | .actor x =>
    match s.actor.prog with
    | .ask (.writeCas expected next label) _ =>
      label = "transfer-released" || label = "retirement-requested" || s.actor.ghost.requested ||
        (x.answer (.writeCas expected next label)).isOk
    | _ => true
  | .loopControl =>
    match s.control with
    | .externalKill _ :: _ => !(s.loop.phase = .ready && s.flag && s.loop.deferred)
    | _ => true
  | _ => true

/-- The actor was told of the exit, or has decided without it. -/
def Reported (s : Process) : Prop :=
  (s.actorEnded = false ∧ .childExited ∈ s.inbox) ∨ s.current = some .childExited ∨
    s.actor.ghost.requested = true ∨ s.actor.ghost.committed = true ∨
    s.actor.ghost.stopped = true

/-- If the loop was told of the transfer, it has yet to read so. -/
def Owed (s : Process) : Prop :=
  s.actor.ghost.told = true → .operationTransferred ∈ s.control

/-- Where the child's exit is. -/
inductive ExitPlace (s : Process) : Prop where
  | waiting (he : s.exit ≠ .taken) (hc : s.loop.childStatus = false)
      (hd : s.loop.deferred = false) (hp : ∀ c, s.loop.phase ≠ .holding c)
  | holding (he : s.exit = .taken) (hw : s.worker = .serving) (hc : s.loop.childStatus = false)
      (hd : s.loop.deferred = false) (hp : s.loop.phase = .holding false) (ho : Owed s)
  | deferred (he : s.exit = .taken) (hw : s.worker = .serving)
      (hc : s.loop.childStatus = false) (hd : s.loop.deferred = true)
      (hp : s.loop.phase = .ready ∨ (∃ k, s.loop.phase = .intercepting k) ∨
        (s.loop.phase = .closed ∧ s.actor.ghost.stopped = true))
      (hr : Reported s) (ho : Owed s)
  | served (he : s.exit = .taken) (hc : s.loop.childStatus = true)
      (hd : s.loop.deferred = false) (hf : s.flag = true) (hp : ∀ c, s.loop.phase ≠ .holding c)

/-- The exit, and what the loop's queue and phase tell of the actor. -/
structure Exits (s : Process) : Prop where
  place : ExitPlace s
  closing : s.loop.phase = .closing → s.flag = true
  told : .operationTransferred ∈ s.control → s.actor.ghost.told = true
  ended : ∀ code, .operationEnd code ∈ s.control → s.actor.ghost.stopped = true
  failed : s.actor.ghost.failed = true → s.actor.ghost.requested = true

/-- A loop that is stopped once it serves was stopped by a retirement. -/
private theorem Exits.retired_of_stopped {s : Process} (h : Exits s) (hb : Base s)
    (hw : s.worker = .serving) (hs : s.actor.ghost.stopped = true) : Retired s := by
  rcases hb.sane.stopped hs with hr | hf | hr
  · exact hr
  · exact h.failed hf
  · have := (hb.serving hw).symm.trans hr
    cases this

/-- An actor that has read everything retired, or told the loop of the transfer. -/
private theorem Exits.decided {s : Process} (h : Exits s) (hb : Base s)
    (hw : s.worker = .serving) {a : Actor} (hp : s.actor.prog = .ret a)
    (hr : Reported s) (hi : s.actorEnded = true ∨ s.inbox = []) :
    Retired s ∨ s.actor.ghost.told = true := by
  have htold : s.actor.ghost.committed = true → Retired s ∨ s.actor.ghost.told = true := by
    intro hc
    obtain ⟨-, hinv⟩ | ⟨-, he⟩ := (hb.settled hp).1
    · exact .inr (hinv.told.trans hc)
    · rcases he.why with ⟨-, -, ht, -⟩ | ⟨hs, -⟩
      · exact .inr ht
      · exact .inl (h.retired_of_stopped hb hw hs)
  rcases hr with ⟨hend, hm⟩ | hcur | hreq | hcom | hs
  · rcases hi with hi | hi
    · simp [hend] at hi
    · simp [hi] at hm
  · rcases (hb.settled hp).2 _ hcur with hreq | hcom | hrd
    · exact .inl hreq
    · exact htold hcom
    · have := (hb.serving hw).symm.trans hrd
      cases this
  · exact .inl hreq
  · exact htold hcom
  · exact .inl (h.retired_of_stopped hb hw hs)

theorem Exits.once {s : Process} (h : Exits s) (hb : Base s) : ExitOnce s := by
  refine ⟨fun ⟨hs, hr⟩ ↦ ?_, fun ht hq ↦ ?_⟩
  · cases h.place with
    | waiting _ hc _ _ => simp [Served, hc] at hs
    | holding _ _ hc _ _ _ => simp [Served, hc] at hs
    | deferred _ _ hc _ _ _ _ => simp [Served, hc] at hs
    | served _ _ _ hf _ =>
      have := (hb.sane.apart (hb.flag.symm.trans hf)).symm.trans hr
      cases this
  · cases h.place with
    | waiting he _ _ _ => exact absurd ht he
    | holding _ hw _ _ hp _ =>
      rcases hq with hx | ⟨hph, -⟩
      · simp [exited, hw, hp] at hx
      · simp [hp] at hph
    | deferred _ hw _ _ hp hr ho =>
      rcases hq with hx | ⟨hph, hctl, ⟨a, hret⟩, hi⟩
      · have hclosed : s.loop.phase = .closed := by simpa [exited, hw] using hx
        rcases hp with hp | ⟨k, hp⟩ | ⟨-, hs⟩
        · simp [hclosed] at hp
        · simp [hclosed] at hp
        · exact .inr (h.retired_of_stopped hb hw hs)
      · rcases h.decided hb hw hret hr hi with hreq | htold
        · exact .inr hreq
        · have := ho htold
          simp [hctl] at this
    | served _ hc _ _ _ => exact .inl hc

/-! ### The loop -/

/-- What the exit needs of a step that leaves the loop alone. -/
private theorem ExitPlace.grow {s t : Process} (h : ExitPlace s) (hl : t.loop = s.loop)
    (he : t.exit = .taken ↔ s.exit = .taken) (hw : s.worker = .serving → t.worker = .serving)
    (hf : s.flag = true → t.flag = true)
    (hs : s.actor.ghost.stopped = true → t.actor.ghost.stopped = true)
    (hr : s.worker = .serving → Reported s → Reported t) (ho : Owed s → Owed t) :
    ExitPlace t := by
  cases h with
  | waiting he' hc hd hp =>
    exact .waiting (fun ht ↦ he' (he.mp ht)) (hl ▸ hc) (hl ▸ hd) (hl ▸ hp)
  | holding he' hw' hc hd hp ho' =>
    exact .holding (he.mpr he') (hw hw') (hl ▸ hc) (hl ▸ hd) (hl ▸ hp) (ho ho')
  | deferred he' hw' hc hd hp hr' ho' =>
    refine .deferred (he.mpr he') (hw hw') (hl ▸ hc) (hl ▸ hd) ?_ (hr hw' hr') (ho ho')
    rw [hl]
    exact hp.imp_right (.imp_right fun hcl ↦ ⟨hcl.1, hs hcl.2⟩)
  | served he' hc hd hf' hp =>
    exact .served (he.mpr he') (hl ▸ hc) (hl ▸ hd) (hf hf') (hl ▸ hp)

private theorem Reported.frame {s t : Process} (h : Reported s) (hf : Frame s t)
    (hin : ∀ e ∈ s.inbox, e ∈ t.inbox) : Reported t := by
  unfold Reported at h ⊢
  rw [hf.actorEnded, hf.current, hf.actor]
  exact h.imp_left fun hm ↦ ⟨hm.1, hin _ hm.2⟩

/-- A step of another thread that leaves the loop and what it was told alone. -/
private theorem Exits.grow {s t : Process} (h : Exits s) (hf : Frame s t)
    (hl : t.loop = s.loop) (he : t.exit = .taken ↔ s.exit = .taken)
    (hw : s.worker = .serving → t.worker = .serving)
    (hin : ∀ e ∈ s.inbox, e ∈ t.inbox) (hc : ∀ m ∈ s.control, m ∈ t.control)
    (hnew : ∀ m ∈ t.control, m ∈ s.control ∨ ∃ k, m = .externalKill k) : Exits t where
  place := by
    refine h.place.grow hl he hw (fun hfl ↦ hf.flag.trans hfl) (fun hs ↦ hf.actor ▸ hs)
      (fun _ hr ↦ hr.frame hf hin) fun ho htold ↦ hc _ (ho (hf.actor ▸ htold))
  closing := fun hp ↦ hf.flag.trans (h.closing (hl ▸ hp))
  told := fun hm ↦ by
    rw [hf.actor]
    rcases hnew _ hm with hm | ⟨k, hm⟩
    · exact h.told hm
    · cases hm
  ended := fun code hm ↦ by
    rw [hf.actor]
    rcases hnew _ hm with hm | ⟨k, hm⟩
    · exact h.ended code hm
    · cases hm
  failed := by
    rw [hf.actor]
    exact h.failed

/-- A step of the loop that neither holds nor takes an exit. -/
private theorem ExitPlace.idle {s t : Process} (h : ExitPlace s) (hd : s.loop.deferred = false)
    (hp : ∀ c, s.loop.phase ≠ .holding c) (hc' : t.loop.childStatus = s.loop.childStatus)
    (hd' : t.loop.deferred = false) (hp' : ∀ c, t.loop.phase ≠ .holding c)
    (he' : t.exit = s.exit) (hf' : t.flag = s.flag) : ExitPlace t := by
  cases h with
  | waiting he hc _ _ => exact .waiting (he' ▸ he) (hc' ▸ hc) hd' hp'
  | holding _ _ _ _ hph _ => exact absurd hph (hp false)
  | deferred _ _ _ hdef _ _ _ => simp [hd] at hdef
  | served he hc _ hf _ => exact .served (he'.trans he) (hc'.trans hc) hd' (hf'.trans hf) hp'

/-- The loop that closes has handed its exit on. -/
private theorem ExitPlace.not_deferred {s : Process} (h : ExitPlace s)
    (hp : s.loop.phase = .closing ∨ s.loop.childStatus = true) : s.loop.deferred = false := by
  cases h with
  | waiting _ _ hd _ => exact hd
  | holding _ _ _ hd _ _ => exact hd
  | deferred _ _ hc _ hph _ _ =>
    rcases hp with hp | hp
    · rcases hph with hph | ⟨k, hph⟩ | ⟨hph, -⟩ <;> simp [hp] at hph
    · simp [hc] at hp
  | served _ _ hd _ _ => exact hd

/-- A step of the loop that only takes from its queue. -/
private theorem Exits.loop {s t : Process} (h : Exits s) (hplace : ExitPlace t)
    (ha : t.actor = s.actor) (hf : t.flag = s.flag)
    (hclosing : t.loop.phase = .closing → s.flag = true)
    (hc : ∀ m ∈ t.control, m ∈ s.control) : Exits t where
  place := hplace
  closing := fun hp ↦ hf.trans (hclosing hp)
  told := fun hm ↦ ha ▸ h.told (hc _ hm)
  ended := fun code hm ↦ ha ▸ h.ended code (hc _ hm)
  failed := ha ▸ h.failed

/-- The loop takes an exit, in `serve` or while it closes. -/
private theorem Exits.exits {s : Process} (h : Exits s) (hb : Base s) {closing : Bool}
    (hw : s.worker = .serving) (he : s.exit = .queued)
    (hp : s.loop.phase = if closing then .closing else .ready) :
    Exits (({ s with exit := .taken } : Process).handleExit closing) := by
  have hnot : ∀ c, s.loop.phase ≠ .holding c := by
    cases closing <;> simp [hp]
  have hwait : s.loop.childStatus = false ∧ s.loop.deferred = false := by
    cases h.place with
    | waiting _ hc hd _ => exact ⟨hc, hd⟩
    | holding ht _ _ _ _ _ => simp [he] at ht
    | deferred ht _ _ _ _ _ _ => simp [he] at ht
    | served ht _ _ _ _ => simp [he] at ht
  unfold handleExit
  split
  · next hfl => exact h.loop (.served rfl rfl hwait.2 hfl hnot) rfl rfl h.closing fun _ ↦ id
  · next hfl =>
    have hserve : closing = false := by
      cases closing with
      | false => rfl
      | true => exact absurd (h.closing hp) hfl
    subst hserve
    refine h.loop (.holding rfl hw hwait.1 hwait.2 rfl fun htold ↦ ?_) rfl rfl
      (fun hcl ↦ by cases hcl) fun _ ↦ id
    exact absurd (hb.flag.trans (hb.sane.told htold)) hfl

/-- The loop takes a kill: after the transfer it closes, and holds no exit. -/
private theorem Exits.kill {s : Process} (h : Exits s) (hb : Base s) {k : Nat}
    {rest : List LoopMsg} (hw : s.worker = .serving) (hc : s.control = .externalKill k :: rest)
    (hp : s.loop.phase = .ready) (hsafe : s.flag = true → s.loop.deferred = false) :
    Exits (({ s with control := rest } : Process).handleControl (.externalKill k)) := by
  have hrest : ∀ m ∈ rest, m ∈ s.control := fun m hm ↦ hc ▸ List.mem_cons_of_mem _ hm
  unfold handleControl
  dsimp only
  split
  · next hfl =>
    exact h.loop (h.place.idle (hsafe hfl) (by simp [hp]) rfl (hsafe hfl) (by simp) rfl rfl)
      rfl rfl (fun _ ↦ hfl) hrest
  · next hfl =>
    refine h.loop ?_ rfl rfl (fun hcl ↦ by cases hcl) hrest
    cases h.place with
    | waiting he hs hd _ => exact .waiting he hs hd (by simp)
    | holding _ _ _ _ hph _ => simp [hp] at hph
    | deferred he _ hs hd _ hr _ =>
      refine .deferred he hw hs hd (.inr (.inl ⟨k, rfl⟩)) hr fun htold ↦ ?_
      exact absurd (hb.flag.trans (hb.sane.told htold)) hfl
    | served _ _ _ hf _ => exact absurd hf hfl

/-- The loop reads of the transfer and handles the exit it holds. -/
private theorem Exits.transferred {s : Process} (h : Exits s) (hb : Base s)
    {rest : List LoopMsg} (hc : s.control = .operationTransferred :: rest)
    (hp : s.loop.phase = .ready) :
    Exits (({ s with control := rest } : Process).handleControl .operationTransferred) := by
  have hrest : ∀ m ∈ rest, m ∈ s.control := fun m hm ↦ hc ▸ List.mem_cons_of_mem _ hm
  have htold : s.actor.ghost.told = true := h.told (hc ▸ List.mem_cons_self)
  have hfl : s.flag = true := hb.flag.trans (hb.sane.told htold)
  unfold handleControl handleExit
  dsimp only
  split
  · next hd =>
    refine h.loop (.served ?_ rfl rfl hfl (by simp [hp])) rfl rfl (by simp [hp]) hrest
    cases h.place with
    | waiting _ _ hnd _ => simp [hd] at hnd
    | holding he _ _ _ _ _ => exact he
    | deferred he _ _ _ _ _ _ => exact he
    | served he _ _ _ _ => exact he
  · next hd =>
    have hd : s.loop.deferred = false := by simpa only [Bool.not_eq_true] using hd
    exact h.loop (h.place.idle hd (by simp [hp]) rfl hd (by simp [hp]) rfl rfl) rfl rfl
      (by simp [hp]) hrest

/-- The loop reads that the operation has ended. -/
private theorem Exits.operationEnd {s : Process} (h : Exits s) {code : Int32}
    {rest : List LoopMsg} (hc : s.control = .operationEnd code :: rest)
    (hp : s.loop.phase = .ready) :
    Exits (({ s with control := rest } : Process).handleControl (.operationEnd code)) := by
  have hrest : ∀ m ∈ rest, m ∈ s.control := fun m hm ↦ hc ▸ List.mem_cons_of_mem _ hm
  have hstop : s.actor.ghost.stopped = true := h.ended code (hc ▸ List.mem_cons_self)
  refine h.loop ?_ rfl rfl (fun hcl ↦ by cases hcl) hrest
  cases h.place with
  | waiting he hs hd _ => exact .waiting he hs hd (fun c hcl ↦ by cases hcl)
  | holding _ _ _ _ hph _ => simp [hp] at hph
  | deferred he hw hs hd _ hr ho =>
    refine .deferred he hw hs hd (.inr (.inr ⟨rfl, hstop⟩)) hr fun htold ↦ ?_
    have hm := ho htold
    rw [hc] at hm
    exact (List.mem_cons.mp hm).resolve_left (by simp)
  | served he hs hd hf _ => exact .served he hs hd hf (fun c hcl ↦ by cases hcl)

/-- The loop sends the actor a kill it read before the transfer. -/
private theorem Exits.intercepts {s : Process} (h : Exits s) {k : Nat}
    (hp : s.loop.phase = .intercepting k) :
    Exits { s.send (.shutdown k) with loop := { s.loop with phase := .ready } } := by
  refine h.loop ?_ rfl rfl (fun hcl ↦ by cases hcl) fun _ ↦ id
  cases h.place with
  | waiting he hs hd _ => exact .waiting he hs hd (by simp)
  | holding _ _ _ _ hph _ => simp [hp] at hph
  | deferred he hw hs hd _ hr ho =>
    refine .deferred he hw hs hd (.inl rfl) ?_ ho
    exact hr.imp_left fun hm ↦ ⟨hm.1, mem_send hm.2⟩
  | served he hs hd hf _ => exact .served he hs hd hf (by simp)

/-- The loop reports the exit it holds, to an actor that reads it or has decided. -/
private theorem Exits.holds {s t : Process} (h : Exits s) (hb : Base s) {closing : Bool}
    (hp : s.loop.phase = .holding closing)
    (hin : t.inbox = if s.loop.deferred then s.inbox else (s.send .childExited).inbox)
    (ht : t = { s with
      inbox := t.inbox
      loop := { s.loop with
        phase := if closing then .closing else .ready, deferred := true } }) : Exits t := by
  cases h.place with
  | waiting _ _ _ hnp => exact absurd hp (hnp closing)
  | deferred _ _ _ _ hph _ _ =>
    rcases hph with hph | ⟨k, hph⟩ | ⟨hph, -⟩ <;> simp [hp] at hph
  | served _ _ _ _ hnp => exact absurd hp (hnp closing)
  | holding he hw hs hd hph ho =>
    obtain rfl : closing = false := by simpa [hp] using hph
    rw [hd] at hin
    have hrep : Reported t := by
      cases hend : s.actorEnded with
      | false =>
        refine .inl ⟨by rw [ht]; exact hend, ?_⟩
        simp [hin, send, hend]
      | true =>
        obtain ⟨a, hret, hdone⟩ := hb.ended hend
        have hdec : s.actor.ghost.committed = true ∨ s.actor.ghost.stopped = true :=
          (hb.ended_cases hret hdone).imp And.left And.left
        rw [ht]
        exact .inr (.inr (.inr hdec))
    have hplace : ExitPlace t := by
      rw [ht] at hrep ⊢
      exact .deferred he hw hs rfl (.inl rfl) hrep ho
    rw [ht] at hplace ⊢
    exact h.loop hplace rfl rfl (fun hcl ↦ by cases hcl) fun _ ↦ id

/-- Another thread's safe step keeps the exit with someone. -/
private theorem Exits.move {s t : Process} {l : Label} (h : Exits s) (hb : Base s)
    (hsafe : exitSafe s l = true) (hl : ∀ x, l ≠ .actor x) (hs : s.step l = some t) :
    Exits t := by
  have hf := frame_step hl hs
  cases loopMove_step hl hs with
  | other hin hc hloop he hk hw =>
    refine h.grow hf hloop (he ▸ .rfl) hw (fun e hm ↦ ?_) (fun m hm ↦ hc ▸ hm)
      fun m hm ↦ .inl (hc ▸ hm)
    rcases hin with hin | ⟨e', -, hin⟩
    · exact hin ▸ hm
    · exact hin ▸ mem_send hm
  | killQueued hend ht =>
    subst ht
    exact h.grow hf rfl .rfl id (fun e hm ↦ List.mem_append_left _ hm) (fun _ ↦ id)
      fun m hm ↦ .inl hm
  | killForwarded ht =>
    subst ht
    refine h.grow hf rfl .rfl id (fun _ ↦ id) (fun m hm ↦ List.mem_append_left _ hm)
      fun m hm ↦ ?_
    exact (List.mem_append.mp hm).imp_right fun hm ↦ ⟨_, List.mem_singleton.mp hm⟩
  | exitQueued he ht =>
    subst ht
    exact h.grow hf rfl (by simp [he]) id (fun _ ↦ id) (fun _ ↦ id) fun m hm ↦ .inl hm
  | control msg rest hlab hw hc hp ht =>
    subst ht hlab
    cases msg with
    | externalKill k =>
      refine h.kill hb hw hc hp fun hfl ↦ ?_
      simpa [exitSafe, hc, hp, hfl] using hsafe
    | operationTransferred => exact h.transferred hb hc hp
    | operationEnd code => exact h.operationEnd hc hp
  | discards msg rest hc hp ht =>
    subst ht
    have hd := h.place.not_deferred (.inl hp)
    exact h.loop (h.place.idle hd (by simp [hp]) rfl hd (by simp [hp]) rfl rfl) rfl rfl h.closing
      fun m hm ↦ hc ▸ List.mem_cons_of_mem _ hm
  | exits closing hw he hp ht =>
    subst ht
    exact h.exits hb hw he hp
  | intercepts kill hlab hp ht =>
    subst ht
    exact h.intercepts hp
  | holds closing hp hin ht => exact h.holds hb hp hin ht
  | graceOver hp hst ht =>
    subst ht
    have hd := h.place.not_deferred (.inr hst)
    refine h.loop (h.place.idle hd (by simp [hp]) rfl hd (by simp) rfl rfl) rfl rfl (fun _ ↦ ?_)
      fun _ ↦ id
    cases h.place with
    | waiting _ hns _ _ => simp [hst] at hns
    | holding _ _ hns _ _ _ => simp [hst] at hns
    | deferred _ _ hns _ _ _ _ => simp [hst] at hns
    | served _ _ _ hfl _ => exact hfl
  | closes hp ht =>
    subst ht
    have hd := h.place.not_deferred (.inl hp)
    exact h.loop (h.place.idle hd (by simp [hp]) rfl hd (by simp) rfl rfl) rfl rfl
      (fun hcl ↦ by cases hcl) fun _ ↦ id

/-! ### The actor -/

/-- A first write that fails is that of a retirement, when it is safe. -/
private theorem requested_of_failed {m : Ghost} {x : Outcome} {o : Op} (hwas : ¬m.failed = true)
    (hfail : (m.next o (x.answer o)).failed = true)
    (hsafe : ∀ expected next label, o = .writeCas expected next label →
      ((label = "transfer-released" ∨ label = "retirement-requested") ∨ m.requested = true) ∨
        (x.answer (.writeCas expected next label)).isOk = true) :
    (m.next o (x.answer o)).requested = true := by
  cases o with
  | writeCas expected next label =>
    rcases hsafe expected next label rfl with ((rfl | rfl) | hr) | hok
    · simp [Ghost.next, Ghost.wrote, hwas] at hfail
    · simp [Ghost.next, Ghost.wrote]
    · simp [Ghost.next, Ghost.wrote, hr]
    · cases ha : x.answer (.writeCas expected next label) with
      | error e => simp [ha, Except.isOk, Except.toBool] at hok
      | ok w => simp [Ghost.next, Ghost.wrote, ha, hwas] at hfail
  | replyCommit reply ticket answer => cases answer <;> exact absurd hfail hwas
  | replyReady reply answer => cases answer <;> exact absurd hfail hwas
  | tellWorker cmd => cases cmd <;> exact absurd hfail hwas
  | tellLoop msg => cases msg <;> exact absurd hfail hwas
  | _ => exact absurd hfail hwas

/-- An interaction of the actor keeps the exit with someone, unless a write fails. -/
private theorem Exits.ask {s : Process} (h : Exits s) {x : Outcome} {o : Op}
    {k : o.Ans → Act Actor} (hp : s.actor.prog = .ask o k)
    (hsafe : exitSafe s (.actor x) = true) :
    Exits { s.effects o with
      actor := ⟨s.actor.ghost.next o (x.answer o), k (x.answer o)⟩
      log := marks o ++ s.log } := by
  have hlater := Ghost.Later.next s.actor.ghost o (x.answer o)
  obtain ⟨hcur, hin, hw, -, hloop, hex, -, hend⟩ := s.effects_frame o
  have hcontrol : ∀ m ∈ s.control, m ∈ (s.effects o).control := by
    intro m hm
    cases o with
    | tellLoop msg => exact List.mem_append_left _ hm
    | _ => exact hm
  have hflag : s.flag = true → (s.effects o).flag = true := by
    intro hfl
    cases o with
    | setTransferred => rfl
    | _ => exact hfl
  have hnew : ∀ m ∈ (s.effects o).control, m ∈ s.control ∨ o = .tellLoop m := by
    intro m hm
    cases o with
    | tellLoop msg =>
      exact (List.mem_append.mp hm).imp_right fun hm ↦ by rw [List.mem_singleton.mp hm]
    | _ => exact .inl hm
  have htold : (s.actor.ghost.next o (x.answer o)).told = true →
      s.actor.ghost.told = true ∨ o = .tellLoop .operationTransferred := by
    intro ht
    cases o with
    | tellLoop msg =>
      cases msg with
      | operationTransferred => exact .inr rfl
      | _ => exact .inl ht
    | tellWorker cmd => cases cmd <;> exact .inl ht
    | replyCommit reply ticket answer => cases answer <;> exact .inl ht
    | replyReady reply answer => cases answer <;> exact .inl ht
    | _ => exact .inl ht
  refine ⟨?_, fun hcl ↦ hflag (h.closing (hloop ▸ hcl)), fun hm ↦ ?_, fun code hm ↦ ?_, ?_⟩
  · refine h.place.grow hloop (by rw [hex]) (fun hs ↦ hw.trans hs) hflag hlater.stopped
      (fun _ hr ↦ ?_) fun ho ht ↦ ?_
    · rcases hr with ⟨he, hm⟩ | hr | hr | hr | hr
      · exact .inl ⟨hend.trans he, hin ▸ hm⟩
      · exact .inr (.inl (hcur.trans hr))
      · exact .inr (.inr (.inl (hlater.requested hr)))
      · exact .inr (.inr (.inr (.inl (hlater.committed hr))))
      · exact .inr (.inr (.inr (.inr (hlater.stopped hr))))
    · rcases htold ht with ht | rfl
      · exact hcontrol _ (ho ht)
      · exact List.mem_append_right _ (List.mem_singleton.mpr rfl)
  · rcases hnew _ hm with hm | rfl
    · exact hlater.told (h.told hm)
    · rfl
  · rcases hnew _ hm with hm | rfl
    · exact hlater.stopped (h.ended code hm)
    · rfl
  · intro hfail
    by_cases hwas : s.actor.ghost.failed = true
    · exact hlater.requested (h.failed hwas)
    · exact requested_of_failed hwas hfail fun expected next label ho ↦ by
        subst ho
        simpa [exitSafe, hp] using hsafe

/-- The actor's thread ends: it told the loop of the transfer, or stopped it. -/
private theorem Exits.ends {s : Process} (h : Exits s) (hb : Base s) {a : Actor}
    (hp : s.actor.prog = .ret a) (hd : a.stage = .done) :
    Exits { s with actorEnded := true, inbox := [] } := by
  refine ⟨?_, h.closing, h.told, h.ended, h.failed⟩
  refine h.place.grow rfl .rfl id id id (fun _ _ ↦ ?_) id
  rcases hb.ended_cases hp hd with ⟨hc, -⟩ | ⟨hs, -⟩
  · exact .inr (.inr (.inr (.inl hc)))
  · exact .inr (.inr (.inr (.inr hs)))

/-- The actor takes its next event: the exit, if it was the last one, was answered. -/
private theorem Exits.event {s : Process} (h : Exits s) (hb : Base s) {a : Actor} {e : ActorEvent}
    {rest : List ActorEvent} (hp : s.actor.prog = .ret a) (hi : s.inbox = e :: rest) :
    Exits { s with
      actor := ⟨receive s.actor.ghost e, a.onEvent e⟩
      current := some e
      inbox := rest
      log := taken e ++ s.log } := by
  have hlater := later_receive s.actor.ghost e
  have hsame : (receive s.actor.ghost e).told = s.actor.ghost.told ∧
      (receive s.actor.ghost e).failed = s.actor.ghost.failed := by
    cases e <;> exact ⟨rfl, rfl⟩
  refine ⟨?_, h.closing, fun hm ↦ hlater.told (h.told hm),
    fun code hm ↦ hlater.stopped (h.ended code hm),
    fun hfail ↦ hlater.requested (h.failed (hsame.2 ▸ hfail))⟩
  refine h.place.grow rfl .rfl id id hlater.stopped (fun hw hr ↦ ?_)
    fun ho ht ↦ ho (hsame.1 ▸ ht)
  rcases hr with ⟨he, hm⟩ | hcur | hr | hr | hr
  · rw [hi] at hm
    rcases List.mem_cons.mp hm with rfl | hm
    · exact .inr (.inl rfl)
    · exact .inl ⟨he, hm⟩
  · rcases (hb.settled hp).2 _ hcur with hr | hr | hr
    · exact .inr (.inr (.inl (hlater.requested hr)))
    · exact .inr (.inr (.inr (.inl (hlater.committed hr))))
    · have := (hb.serving hw).symm.trans hr
      cases this
  · exact .inr (.inr (.inl (hlater.requested hr)))
  · exact .inr (.inr (.inr (.inl (hlater.committed hr))))
  · exact .inr (.inr (.inr (.inr (hlater.stopped hr))))

/-- One safe step keeps the exit with someone. -/
theorem Exits.step {s t : Process} {l : Label} (h : Exits s) (hb : Base s)
    (hsafe : exitSafe s l = true) (hs : s.step l = some t) : Exits t := by
  by_cases hl : ∃ x, l = .actor x
  · obtain ⟨x, rfl⟩ := hl
    obtain ⟨hend, ⟨o, k, hp, rfl⟩ | ⟨a, hp, hd, rfl⟩ | ⟨a, e, rest, hp, hd, hi, rfl⟩⟩ :=
      actorStep_cases hs
    · exact h.ask hp hsafe
    · exact h.ends hb hp hd
    · exact h.event hb hp hi
  · exact h.move hb hsafe (fun x hx ↦ hl ⟨x, hx⟩) hs

/-- An exit held while the transfer commits, and handed back. -/
def exitHandedBack : List Label :=
  toServing ++ [transferCommand, .childExits, .loopExit, .loopSends] ++ acts 15 ++ [.loopControl]

/-- An exit held while the transfer commits, with the listener's failure queued before the
message that hands it back: the loop closes on the kill and discards the message. -/
def exitDiscarded : List Label :=
  toServing ++ [transferCommand, .childExits, .loopExit, .loopSends, .listenerFails] ++
    acts 15 ++ [.loopControl, .loopControl, .loopExpires]

end Process
end PtySpec.Daemon
