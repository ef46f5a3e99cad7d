import PtySpec.Daemon.Handover

/-!
# Kills across the hand-over

Every kill stays queued, is at work or was acted on, in runs without the two steps that
lose one: the end of the actor's thread after a transfer with a kill still queued, and an
intercepted kill that the loop sends to a thread that ended after a transfer.
-/

namespace PtySpec.Daemon

open Lib Operation

namespace Process

/-- The loop is in `close`. -/
def LoopPhase.isClosing : LoopPhase → Bool
  | .closing | .closed | .holding true => true
  | _ => false

/-- The kill is where a thread will still read it. -/
def Queued (s : Process) (k : Nat) : Prop :=
  (s.actorEnded = false ∧ .shutdown k ∈ s.inbox) ∨ .externalKill k ∈ s.control ∨
    s.loop.phase = .intercepting k

/-- The actor is at work on the kill. -/
def Handling (s : Process) (k : Nat) : Prop :=
  s.current = some (.shutdown k) ∧ ∀ a, s.actor.prog ≠ .ret a

/-- A kill was acted on: the actor retires or has stopped the operation, or the serving
daemon handles an external kill or is closing. -/
def Acted (s : Process) : Prop :=
  s.actor.ghost.requested = true ∨ s.actor.ghost.stopped = true ∨ s.loop.externalKill = true ∨
    LoopPhase.isClosing s.loop.phase = true

/-- No kill that was taken is dropped while the session goes on serving. -/
def KillsKept (s : Process) : Prop := ∀ k < s.kills, Queued s k ∨ Handling s k ∨ Acted s

/-- Whether no kill is lost in a step: the actor's thread does not end a transfer with a
kill still queued, and the loop does not send an intercepted kill to an actor that ended
after a transfer. -/
def killSafe (s : Process) : Label → Bool
  | .actor _ =>
    match s.actor.prog with
    | .ret a => !(a.stage = .done && s.flag && s.inbox.any fun e ↦
        match e with
        | .shutdown _ => true
        | _ => false)
    | .ask _ _ => true
  | .loopSends =>
    match s.loop.phase with
    | .intercepting _ => !(s.actorEnded && s.flag)
    | _ => true
  | _ => true

/-- Where every kill is, and where those are that the actor handed to the loop. -/
structure Kills (s : Process) : Prop where
  taken : ∀ k < s.kills,
    Queued s k ∨ s.current = some (.shutdown k) ∨ k ∈ s.actor.ghost.forwarded ∨ Acted s
  forwarded : ∀ k ∈ s.actor.ghost.forwarded, (.externalKill k ∈ s.control ∧ s.flag = true) ∨ Acted s

theorem Kills.kept {s : Process} (h : Kills s) (hb : Base s) : KillsKept s := by
  have hf : ∀ k ∈ s.actor.ghost.forwarded, Queued s k ∨ Handling s k ∨ Acted s := fun k hk ↦
    (h.forwarded k hk).elim (fun hc ↦ .inl (.inr (.inl hc.1))) fun ha ↦ .inr (.inr ha)
  intro k hk
  rcases h.taken k hk with hq | hc | hm | ha
  · exact .inl hq
  · by_cases hp : ∃ a, s.actor.prog = .ret a
    · obtain ⟨a, hp⟩ := hp
      rcases (hb.settled hp).2 _ hc with hr | hr | hr
      · exact .inr (.inr (.inl hr))
      · exact .inr (.inr (.inr (.inl hr)))
      · exact hf k hr
    · exact .inr (.inl ⟨hc, fun a ha ↦ hp ⟨a, ha⟩⟩)
  · exact hf k hm
  · exact .inr (.inr ha)

/-- What is acted on stays acted on, whatever the loop does. -/
private theorem Acted.move {s t : Process} {l : Label} (h : Acted s) (hf : Frame s t)
    (hm : LoopMove s l t) : Acted t := by
  unfold Acted at h ⊢
  rw [hf.actor]
  rcases h with h | h | h | h
  · exact .inl h
  · exact .inr (.inl h)
  · refine .inr (.inr (.inl ?_))
    cases hm with
    | other _ _ hl _ _ _ => rwa [hl]
    | killQueued _ ht => exact ht ▸ h
    | killForwarded ht => exact ht ▸ h
    | exitQueued _ ht => exact ht ▸ h
    | control msg rest _ _ _ _ ht =>
      subst ht
      unfold handleControl handleExit
      split
      · split
        · rfl
        · exact h
      · split
        · split <;> exact h
        · exact h
      · exact h
    | discards _ _ _ _ ht => exact ht ▸ h
    | exits closing _ _ _ ht =>
      subst ht
      unfold handleExit
      split <;> exact h
    | intercepts _ _ _ ht => exact ht ▸ h
    | holds _ _ _ ht => exact ht ▸ h
    | graceOver _ _ ht => exact ht ▸ h
    | closes _ ht => exact ht ▸ h
  · refine .inr (.inr (.inr ?_))
    cases hm with
    | other _ _ hl _ _ _ => rwa [hl]
    | killQueued _ ht => exact ht ▸ h
    | killForwarded ht => exact ht ▸ h
    | exitQueued _ ht => exact ht ▸ h
    | control _ _ _ _ _ hp _ => simp [hp, LoopPhase.isClosing] at h
    | discards _ _ _ _ ht => exact ht ▸ h
    | exits closing _ _ hp ht =>
      subst ht
      cases closing with
      | false => simp [hp, LoopPhase.isClosing] at h
      | true =>
        unfold handleExit
        split
        · exact h
        · rfl
    | intercepts _ _ hp _ => simp [hp, LoopPhase.isClosing] at h
    | holds closing hp _ ht =>
      rw [ht]
      cases closing with
      | false => simp [hp, LoopPhase.isClosing] at h
      | true => rfl
    | graceOver _ _ ht =>
      rw [ht]
      rfl
    | closes _ ht =>
      rw [ht]
      rfl

/-- A kill stays queued when the queues only grow and the loop is not at work on it. -/
private theorem Queued.grow {s t : Process} {k : Nat} (h : Queued s k)
    (hend : t.actorEnded = s.actorEnded) (hin : ∀ e ∈ s.inbox, e ∈ t.inbox)
    (hc : .externalKill k ∈ s.control → .externalKill k ∈ t.control)
    (hp : s.loop.phase = .intercepting k → t.loop.phase = .intercepting k) : Queued t k := by
  rcases h with ⟨he, hm⟩ | hm | hm
  · exact .inl ⟨hend.trans he, hin _ hm⟩
  · exact .inr (.inl (hc hm))
  · exact .inr (.inr (hp hm))

/-- The kills of a state in which none was acted on, after a step that only adds to the
queues. -/
private theorem Kills.grow {s t : Process} (h : Kills s) (ha : ¬Acted s) (hf : Frame s t)
    (hin : ∀ e ∈ s.inbox, e ∈ t.inbox) (hc : ∀ m ∈ s.control, m ∈ t.control)
    (hp : ∀ k, s.loop.phase = .intercepting k → t.loop.phase = .intercepting k)
    (hnew : ∀ k < t.kills, s.kills ≤ k → Queued t k) : Kills t := by
  refine ⟨fun k hk ↦ ?_, ?_⟩
  · by_cases hlt : k < s.kills
    · rw [hf.current, hf.actor]
      rcases h.taken k hlt with hq | hr | hr | hr
      · exact .inl (hq.grow hf.actorEnded hin (hc _) (hp k))
      · exact .inr (.inl hr)
      · exact .inr (.inr (.inl hr))
      · exact absurd hr ha
    · exact .inl (hnew k hk (Nat.le_of_not_lt hlt))
  · rw [hf.actor]
    intro k hk
    rcases h.forwarded k hk with ⟨hm, hfl⟩ | hr
    · exact .inl ⟨hc _ hm, hf.flag.trans hfl⟩
    · exact absurd hr ha

/-- The loop takes a message while nothing was acted on: a kill is acted on or intercepted. -/
private theorem Kills.control {s : Process} (h : Kills s) (ha : ¬Acted s) {msg : LoopMsg}
    {rest : List LoopMsg} (hc : s.control = msg :: rest) (hp : s.loop.phase = .ready)
    (hf : Frame s (({ s with control := rest } : Process).handleControl msg)) :
    Kills (({ s with control := rest } : Process).handleControl msg) := by
  -- what is queued is the message taken, or stays where it is
  have hq : ∀ k (t : Process), t.actorEnded = s.actorEnded → t.inbox = s.inbox → t.control = rest →
      Queued s k → msg = .externalKill k ∨ Queued t k := by
    rintro k t hend hin hrest (⟨he, hm⟩ | hm | hm)
    · exact .inr (.inl ⟨hend.trans he, hin ▸ hm⟩)
    · rw [hc] at hm
      rcases List.mem_cons.mp hm with heq | hm
      · exact .inl heq.symm
      · exact .inr (.inr (.inl (hrest ▸ hm)))
    · simp [hp] at hm
  have hstay : ∀ t : Process, Frame s t → t.inbox = s.inbox → t.control = rest →
      t.kills = s.kills → (∀ k, msg ≠ .externalKill k) → Kills t := by
    intro t hf hin hrest hkills hmsg
    refine ⟨fun k hk ↦ ?_, fun k hk ↦ ?_⟩
    · rw [hf.current, hf.actor]
      rcases h.taken k (hkills ▸ hk) with hr | hr | hr | hr
      · exact .inl ((hq k t hf.actorEnded hin hrest hr).resolve_left (hmsg k))
      · exact .inr (.inl hr)
      · exact .inr (.inr (.inl hr))
      · exact absurd hr ha
    · rw [hf.actor] at hk
      rcases h.forwarded k hk with ⟨hm, hfl⟩ | hr
      · rw [hc] at hm
        refine .inl ⟨?_, hf.flag.trans hfl⟩
        rw [hrest]
        exact (List.mem_cons.mp hm).resolve_left fun he ↦ hmsg k he.symm
      · exact absurd hr ha
  cases msg with
  | externalKill j =>
    unfold handleControl at hf ⊢
    dsimp only at hf ⊢
    split
    · exact ⟨fun _ _ ↦ .inr (.inr (.inr (.inr (.inr (.inl rfl))))),
        fun _ _ ↦ .inr (.inr (.inr (.inl rfl)))⟩
    · next hfl =>
      refine ⟨fun k hk ↦ ?_, fun k hk ↦ ?_⟩
      · rcases h.taken k hk with hr | hr | hr | hr
        · rcases hq k { s with control := rest } rfl rfl rfl hr with heq | hr
          · cases heq
            exact .inl (.inr (.inr rfl))
          · exact .inl (hr.grow rfl (fun _ ↦ id) id fun hph ↦ by simp [hp] at hph)
        · exact .inr (.inl hr)
        · exact .inr (.inr (.inl hr))
        · exact absurd hr ha
      · rcases h.forwarded k hk with ⟨-, hr⟩ | hr
        · exact absurd hr hfl
        · exact absurd hr ha
  | operationTransferred =>
    refine hstay _ hf ?_ ?_ ?_ (by simp)
    · unfold handleControl handleExit
      dsimp only
      split
      · split <;> rfl
      · rfl
    · unfold handleControl handleExit
      dsimp only
      split
      · split <;> rfl
      · rfl
    · unfold handleControl handleExit
      dsimp only
      split
      · split <;> rfl
      · rfl
  | operationEnd code =>
    exact ⟨fun _ _ ↦ .inr (.inr (.inr (.inr (.inr (.inr rfl))))),
      fun _ _ ↦ .inr (.inr (.inr (.inr rfl)))⟩

/-- The exit of the child leaves the kills where they are. -/
private theorem Kills.exits {s : Process} (h : Kills s) (ha : ¬Acted s)
    (hp : s.loop.phase = .ready)
    (hf : Frame s (({ s with exit := .taken } : Process).handleExit false)) :
    Kills (({ s with exit := .taken } : Process).handleExit false) := by
  have hkills : (({ s with exit := .taken } : Process).handleExit false).kills = s.kills := by
    unfold handleExit
    split <;> rfl
  refine h.grow ha hf (fun e he ↦ ?_) (fun m hm ↦ ?_) (fun k hk ↦ ?_) fun k hk hlt ↦ ?_
  · unfold handleExit
    split <;> exact he
  · unfold handleExit
    split <;> exact hm
  · simp [hp] at hk
  · rw [hkills] at hk
    omega

/-- The loop sends an intercepted kill: the actor still reads it, or had stopped the operation. -/
private theorem Kills.intercepts {s : Process} (h : Kills s) (hb : Base s) (ha : ¬Acted s)
    {kill : Nat} (hp : s.loop.phase = .intercepting kill)
    (hsafe : ¬(s.actorEnded = true ∧ s.flag = true)) :
    Kills { s.send (.shutdown kill) with loop := { s.loop with phase := .ready } } := by
  have hend : s.actorEnded = false := by
    cases hend : s.actorEnded with
    | false => rfl
    | true =>
      obtain ⟨a, hret, hd⟩ := hb.ended hend
      rcases hb.ended_cases hret hd with ⟨-, -, hfl⟩ | ⟨hst, -⟩
      · exact absurd ⟨hend, hfl⟩ hsafe
      · exact absurd (.inr (.inl hst)) ha
  have hin : ∀ e ∈ s.inbox ++ [.shutdown kill], e ∈ (s.send (.shutdown kill)).inbox := by
    simp [send, hend]
  refine ⟨fun k hk ↦ ?_, fun k hk ↦ ?_⟩
  · rcases h.taken k hk with (⟨-, hm⟩ | hm | hm) | hr | hr | hr
    · exact .inl (.inl ⟨hend, hin _ (List.mem_append_left _ hm)⟩)
    · exact .inl (.inr (.inl hm))
    · rw [hp] at hm
      cases hm
      exact .inl (.inl ⟨hend, hin _ (by simp)⟩)
    · exact .inr (.inl hr)
    · exact .inr (.inr (.inl hr))
    · exact absurd hr ha
  · rcases h.forwarded k hk with hr | hr
    · exact .inl hr
    · exact absurd hr ha

/-- Another thread's step keeps every kill. -/
private theorem Kills.move {s t : Process} {l : Label} (h : Kills s) (hb : Base s)
    (hsafe : killSafe s l = true) (hl : ∀ x, l ≠ .actor x) (hs : s.step l = some t) : Kills t := by
  have hf := frame_step hl hs
  have hm := loopMove_step hl hs
  by_cases ha : Acted s
  · have ha' := ha.move hf hm
    exact ⟨fun _ _ ↦ .inr (.inr (.inr ha')), fun _ _ ↦ .inr ha'⟩
  · cases hm with
    | other hin hc hloop he hk hw =>
      refine h.grow ha hf (fun e hm ↦ ?_) (fun m hm ↦ hc ▸ hm) (fun k hp ↦ hloop ▸ hp)
        fun k hlt hle ↦ by omega
      rcases hin with hin | ⟨e', -, hin⟩
      · exact hin ▸ hm
      · exact hin ▸ mem_send hm
    | killQueued hend ht =>
      subst ht
      refine h.grow ha hf (fun e hm ↦ List.mem_append_left _ hm) (fun _ ↦ id) (fun _ ↦ id)
        fun k hlt hle ↦ .inl ⟨hend, ?_⟩
      obtain rfl : k = s.kills := Nat.le_antisymm (Nat.lt_succ_iff.mp hlt) hle
      exact List.mem_append_right _ (List.mem_singleton.mpr rfl)
    | killForwarded ht =>
      subst ht
      refine h.grow ha hf (fun _ ↦ id) (fun m hm ↦ List.mem_append_left _ hm) (fun _ ↦ id)
        fun k hlt hle ↦ .inr (.inl ?_)
      obtain rfl : k = s.kills := Nat.le_antisymm (Nat.lt_succ_iff.mp hlt) hle
      exact List.mem_append_right _ (List.mem_singleton.mpr rfl)
    | exitQueued he ht =>
      subst ht
      exact h.grow ha hf (fun _ ↦ id) (fun _ ↦ id) (fun _ ↦ id) fun k hlt hle ↦
        absurd hlt (Nat.not_lt.mpr hle)
    | control msg rest hlab hw hc hp ht =>
      subst ht
      exact h.control ha hc hp hf
    | discards msg rest hc hp ht =>
      exact absurd (.inr (.inr (.inr (by simp [hp, LoopPhase.isClosing])))) ha
    | exits closing hw he hp ht =>
      subst ht
      cases closing with
      | false => exact h.exits ha hp hf
      | true => exact absurd (.inr (.inr (.inr (by simp [hp, LoopPhase.isClosing])))) ha
    | intercepts kill hlab hp ht =>
      subst ht hlab
      simp only [killSafe, hp, Bool.not_eq_true', Bool.and_eq_false_iff] at hsafe
      refine h.intercepts hb ha hp fun hboth ↦ ?_
      simp [hboth.1, hboth.2] at hsafe
    | holds closing hp hin ht =>
      refine h.grow ha hf (fun e hm ↦ ?_) (fun m hm ↦ ?_) (fun k hk ↦ by simp [hp] at hk)
        fun k hlt hle ↦ ?_
      · rw [hin]
        split
        · exact hm
        · exact mem_send hm
      · rw [ht]
        exact hm
      · rw [ht] at hlt
        exact absurd hlt (Nat.not_lt.mpr hle)
    | graceOver hp hst ht =>
      subst ht
      exact ⟨fun _ _ ↦ .inr (.inr (.inr (.inr (.inr (.inr rfl))))),
        fun _ _ ↦ .inr (.inr (.inr (.inr rfl)))⟩
    | closes hp ht =>
      exact absurd (.inr (.inr (.inr (by simp [hp, LoopPhase.isClosing])))) ha

/-- What is acted on stays acted on, whatever the actor does. -/
private theorem Acted.actor {s t : Process} (h : Acted s) (hm : s.actor.ghost.Later t.actor.ghost)
    (hl : t.loop = s.loop) : Acted t := by
  unfold Acted at h ⊢
  rw [hl]
  exact h.imp hm.requested (.imp_left hm.stopped)

/-- An interaction of the actor keeps every kill; one that it hands to the loop is read
there after the flag was set. -/
private theorem Kills.ask {s : Process} (h : Kills s) (hb : Base s) {x : Outcome} {o : Op}
    {k : o.Ans → Act Actor} (hp : s.actor.prog = .ask o k) :
    Kills { s.effects o with
      actor := ⟨s.actor.ghost.next o (x.answer o), k (x.answer o)⟩
      log := marks o ++ s.log } := by
  have hlater := Ghost.Later.next s.actor.ghost o (x.answer o)
  obtain ⟨hcur, hin, -, -, hloop, -, hkills, hend⟩ := s.effects_frame o
  have hacted := fun ha : Acted s ↦ Acted.actor (t := { s.effects o with
      actor := ⟨s.actor.ghost.next o (x.answer o), k (x.answer o)⟩
      log := marks o ++ s.log }) ha hlater hloop
  have hcontrol : ∀ m ∈ s.control, m ∈ (s.effects o).control := by
    intro m hm
    cases o with
    | tellLoop msg => exact List.mem_append_left _ hm
    | _ => exact hm
  have hflag : s.flag = true → (s.effects o).flag = true := by
    intro hfl
    cases o with
    | setTransferred => rfl
    | _ => exact hfl
  refine ⟨fun j hj ↦ ?_, fun j hj ↦ ?_⟩
  · rcases h.taken j (hkills ▸ hj) with hr | hr | hr | hr
    · refine .inl (hr.grow hend (fun e he ↦ ?_) (hcontrol _) fun hph ↦ ?_)
      · exact hin ▸ he
      · exact hloop ▸ hph
    · exact .inr (.inl (hcur.trans hr))
    · exact .inr (.inr (.inl (hlater.forwarded j hr)))
    · exact .inr (.inr (.inr (hacted hr)))
  · have hold : j ∈ s.actor.ghost.forwarded ∨ o = .tellLoop (.externalKill j) := by
      cases o with
      | tellLoop msg =>
        cases msg with
        | externalKill i =>
          rcases List.mem_cons.mp hj with rfl | hj
          · exact .inr rfl
          · exact .inl hj
        | _ => exact .inl hj
      | tellWorker cmd => cases cmd <;> exact .inl hj
      | replyCommit reply ticket answer => cases answer <;> exact .inl hj
      | replyReady reply answer => cases answer <;> exact .inl hj
      | _ => exact .inl hj
    rcases hold with hold | rfl
    · rcases h.forwarded j hold with ⟨hm, hfl⟩ | ha
      · exact .inl ⟨hcontrol _ hm, hflag hfl⟩
      · exact .inr (hacted ha)
    · refine .inl ⟨List.mem_append_right _ (List.mem_singleton.mpr rfl), ?_⟩
      exact hb.flag.trans (hb.sane.told (hb.mayAsk hp))

/-- The end of the actor's thread loses no kill when it is safe. -/
private theorem Kills.ends {s : Process} (h : Kills s) (hb : Base s) {a : Actor}
    (hp : s.actor.prog = .ret a) (hd : a.stage = .done)
    (hsafe : s.flag = true → ∀ k, .shutdown k ∉ s.inbox) :
    Kills { s with actorEnded := true, inbox := [] } := by
  rcases hb.ended_cases hp hd with ⟨-, -, hfl⟩ | ⟨hst, -⟩
  · refine ⟨fun k hk ↦ ?_, h.forwarded⟩
    rcases h.taken k hk with (⟨-, hm⟩ | hm | hm) | hr
    · exact absurd hm (hsafe hfl k)
    · exact .inl (.inr (.inl hm))
    · exact .inl (.inr (.inr hm))
    · exact .inr hr
  · exact ⟨fun _ _ ↦ .inr (.inr (.inr (.inr (.inl hst)))), fun _ _ ↦ .inr (.inr (.inl hst))⟩

/-- The actor takes its next event: the one before was answered. -/
private theorem Kills.event {s : Process} (h : Kills s) (hb : Base s) {a : Actor} {e : ActorEvent}
    {rest : List ActorEvent} (hp : s.actor.prog = .ret a) (hi : s.inbox = e :: rest) :
    Kills { s with
      actor := ⟨receive s.actor.ghost e, a.onEvent e⟩
      current := some e
      inbox := rest
      log := Process.taken e ++ s.log } := by
  have hlater := later_receive s.actor.ghost e
  have hfwd : (receive s.actor.ghost e).forwarded = s.actor.ghost.forwarded := by cases e <;> rfl
  have hacted := fun ha : Acted s ↦ Acted.actor (t := { s with
      actor := ⟨receive s.actor.ghost e, a.onEvent e⟩
      current := some e
      inbox := rest
      log := Process.taken e ++ s.log }) ha hlater rfl
  refine ⟨fun k hk ↦ ?_, fun k hk ↦ ?_⟩
  · rcases h.taken k hk with (⟨hend, hm⟩ | hm | hm) | hr | hr | hr
    · rw [hi] at hm
      rcases List.mem_cons.mp hm with rfl | hm
      · exact .inr (.inl rfl)
      · exact .inl (.inl ⟨hend, hm⟩)
    · exact .inl (.inr (.inl hm))
    · exact .inl (.inr (.inr hm))
    · rcases (hb.settled hp).2 _ hr with hr | hr | hr
      · exact .inr (.inr (.inr (hacted (.inl hr))))
      · exact .inr (.inr (.inr (hacted (.inr (.inl hr)))))
      · exact .inr (.inr (.inl (hlater.forwarded k hr)))
    · exact .inr (.inr (.inl (hlater.forwarded k hr)))
    · exact .inr (.inr (.inr (hacted hr)))
  · rcases h.forwarded k (hfwd ▸ hk) with hr | hr
    · exact .inl hr
    · exact .inr (hacted hr)

/-- One step that is safe keeps every kill. -/
theorem Kills.step {s t : Process} {l : Label} (h : Kills s) (hb : Base s)
    (hsafe : killSafe s l = true) (hs : s.step l = some t) : Kills t := by
  by_cases hl : ∃ x, l = .actor x
  · obtain ⟨x, rfl⟩ := hl
    obtain ⟨hend, ⟨o, k, hp, rfl⟩ | ⟨a, hp, hd, rfl⟩ | ⟨a, e, rest, hp, hd, hi, rfl⟩⟩ :=
      actorStep_cases hs
    · exact h.ask hb hp
    · refine h.ends hb hp hd fun hfl k hk ↦ ?_
      simp only [killSafe, hp, hd, hfl, decide_true, Bool.and_self, Bool.true_and,
        Bool.not_eq_true', List.any_eq_false] at hsafe
      exact hsafe _ hk rfl
    · exact h.event hb hp hi
  · exact h.move hb hsafe (fun x hx ↦ hl ⟨x, hx⟩) hs

/-- In every run whose steps are safe no kill is lost. -/
theorem kills_kept_of_reached {s : Process} (h : Reached killSafe s) : KillsKept s := by
  refine Kills.kept (h.induct (fun s hi ↦ ?_) fun s t hr hk ⟨l, hok, hs⟩ ↦
    hk.step (base_of_reached hr) hok hs) (base_of_reached h)
  obtain ⟨digest, operationId, runtimeId, me, record, -, -, -, -, rfl⟩ := hi
  exact ⟨nofun, nofun⟩

/-- Two kills of a run in which the listener failed before the signal came. -/
theorem kills_kept_of_reached_early : ∃ s, Reached killSafe s ∧ s.kills = 2 ∧ KillsKept s := by
  have hrun : (gated.run killSafe (toServing ++ [.listenerFails, .signal] ++ acts 3)).map
      (fun t ↦ t.kills) = some 2 := rfl
  obtain ⟨s, hs, hk⟩ := Option.map_eq_some_iff.mp hrun
  have hreach := gated_reached.run hs
  exact ⟨s, hreach, hk, kills_kept_of_reached hreach⟩

/-- A signal while the transfer is marked: the actor's thread ends with the kill queued,
and the session goes on serving. -/
def killedInTransfer : List Label := toServing ++ [transferCommand] ++ acts 9 ++ [.signal] ++ acts 6

/-- That kill is lost. -/
theorem kill_dropped_in_transfer : ∃ s, Reached (fun _ _ ↦ true) s ∧ s.worker = .serving ∧
    s.exited = false ∧ ¬KillsKept s := by
  have hrun : (gated.run (fun _ _ ↦ true) killedInTransfer).map (fun t ↦
      ((t.kills, t.actorEnded, t.control, t.loop), t.actor.ghost.requested, t.actor.ghost.stopped,
        t.worker)) =
      some ((1, true, [.operationTransferred], {}), false, false, .serving) := rfl
  obtain ⟨s, hs, heq⟩ := Option.map_eq_some_iff.mp hrun
  simp only [Prod.mk.injEq] at heq
  obtain ⟨⟨hk, hend, hc, hl⟩, hreq, hst, hw⟩ := heq
  have hreach := gated_reached.run hs
  obtain ⟨a, hp, -⟩ := (base_of_reached hreach).ended hend
  refine ⟨s, hreach, hw, by simp [exited, hw, hl], fun hkept ↦ ?_⟩
  rcases hkept 0 (by simp [hk]) with hq | hh | ha
  · simp [Queued, hend, hc, hl] at hq
  · exact hh.2 a hp
  · simp [Acted, hreq, hst, hl, LoopPhase.isClosing] at ha

end Process
end PtySpec.Daemon
