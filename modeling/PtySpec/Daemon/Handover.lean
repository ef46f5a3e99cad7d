import PtySpec.Daemon.Process

/-!
# The hand-over of a launch operation

Before the transfer a kill and the child's exit are the actor's to judge; after it they
are the serving loop's. Both sides run on their own, so what arrives in between is
decided by the transferred flag and by what is still queued when the actor's thread ends.
`LoopMove` says what the other threads can do to either.
-/

namespace PtySpec.Daemon

open Lib Operation

namespace Process

/-- An event that is neither a kill nor the child's exit. -/
def Unrelated (e : ActorEvent) : Prop := (∀ k, e ≠ .shutdown k) ∧ e ≠ .childExited

/-- What a step of another thread than the actor does to the hand-over. -/
inductive LoopMove (s : Process) (l : Label) (t : Process) : Prop where
  | other (hin : t.inbox = s.inbox ∨ ∃ e, Unrelated e ∧ t.inbox = (s.send e).inbox)
      (hc : t.control = s.control) (hl : t.loop = s.loop) (he : t.exit = s.exit)
      (hk : t.kills = s.kills) (hw : s.worker = .serving → t.worker = .serving)
  | killQueued (hend : s.actorEnded = false)
      (ht : t = { s with inbox := s.inbox ++ [.shutdown s.kills], kills := s.kills + 1 })
  | killForwarded
      (ht : t = { s with control := s.control ++ [.externalKill s.kills], kills := s.kills + 1 })
  | exitQueued (he : s.exit = .none) (ht : t = { s with exit := .queued })
  | control (msg : LoopMsg) (rest : List LoopMsg) (hlab : l = .loopControl)
      (hw : s.worker = .serving)
      (hc : s.control = msg :: rest) (hp : s.loop.phase = .ready)
      (ht : t = ({ s with control := rest } : Process).handleControl msg)
  | discards (msg : LoopMsg) (rest : List LoopMsg) (hc : s.control = msg :: rest)
      (hp : s.loop.phase = .closing) (ht : t = { s with control := rest })
  | exits (closing : Bool) (hw : s.worker = .serving) (he : s.exit = .queued)
      (hp : s.loop.phase = if closing then .closing else .ready)
      (ht : t = ({ s with exit := .taken } : Process).handleExit closing)
  | intercepts (kill : Nat) (hlab : l = .loopSends) (hp : s.loop.phase = .intercepting kill)
      (ht : t = { s.send (.shutdown kill) with loop := { s.loop with phase := .ready } })
  | holds (closing : Bool) (hp : s.loop.phase = .holding closing)
      (hin : t.inbox = if s.loop.deferred then s.inbox else (s.send .childExited).inbox)
      (ht : t = { s with
        inbox := t.inbox
        loop := { s.loop with
          phase := if closing then .closing else .ready, deferred := true } })
  | graceOver (hp : s.loop.phase = .ready) (hs : s.loop.childStatus = true)
      (ht : t = { s with loop := { s.loop with phase := .closing } })
  | closes (hp : s.loop.phase = .closing)
      (ht : t = { s with loop := { s.loop with phase := .closed } })

private theorem loopMove_workerTakes {l : Label} (s : Process) (cmd : WorkerCmd)
    (rest : List WorkerCmd) (prepared : Except String Unit) (hi : s.worker = .idle) :
    LoopMove s l (({ s with cmds := rest } : Process).workerTakes cmd prepared) := by
  have hidle : ∀ {w : Worker}, s.worker = .serving → w = .serving := fun hw ↦ by simp [hi] at hw
  have hsent : ∀ e, Unrelated e → ∀ t : Process, t.inbox = (s.send e).inbox →
      t.control = s.control → t.loop = s.loop → t.exit = s.exit → t.kills = s.kills →
      LoopMove s l t := fun e he t hin hc hl hx hk ↦ .other (.inr ⟨e, he, hin⟩) hc hl hx hk hidle
  have hcommit : ∀ ticket kind,
      LoopMove s l (({ s with cmds := rest } : Process).commit ticket kind) := by
    intro ticket kind
    unfold commit
    split
    · exact .other (.inl rfl) rfl rfl rfl rfl id
    · exact hsent (.commit ticket s.channels) ⟨by simp, by simp⟩ _ rfl rfl rfl rfl rfl
  have hdone : ∀ ticket message, LoopMove s l
      (({ s with cmds := rest } : Process).send (.completed ticket (.error message))) :=
    fun ticket message ↦ hsent (.completed ticket (.error message)) ⟨by simp, by simp⟩ _
      rfl rfl rfl rfl rfl
  unfold workerTakes
  split
  · split
    · exact hdone _ _
    · exact hcommit _ _
  · split
    · exact hdone _ _
    · split
      · exact hdone _ _
      · exact hcommit _ _
  · split
    · exact .other (.inl rfl) rfl rfl rfl rfl id
    · exact hsent (.readyPoint s.channels) ⟨by simp, by simp⟩ _ rfl rfl rfl rfl rfl
  · exact .other (.inl rfl) rfl rfl rfl rfl hidle

private theorem loopMove_workerAnswered {s t : Process} {l : Label}
    (h : s.workerAnswered = some t) : LoopMove s l t := by
  unfold workerAnswered at h
  split at h
  · next hw =>
    obtain ⟨answer, -, rfl⟩ := Option.map_eq_some_iff.mp h
    exact .other (.inl rfl) rfl rfl rfl rfl fun hs ↦ by simp [hw] at hs
  · next hw =>
    obtain ⟨answer, -, rfl⟩ := Option.map_eq_some_iff.mp h
    exact .other (.inl rfl) rfl rfl rfl rfl fun hs ↦ by simp [hw] at hs
  · cases h

private theorem loopMove_workerFinishes {s : Process} {l : Label} {ticket : Nat} {kind : TicketKind}
    (hw : s.worker = .performing ticket kind) (result : Except String (Int32 × Nat))
    (kept : Bool) : LoopMove s l (s.workerFinishes ticket kind result kept) := by
  have hsent : ∀ result (t : Process), t.inbox = (s.send (.completed ticket result)).inbox →
      t.control = s.control → t.loop = s.loop → t.exit = s.exit → t.kills = s.kills →
      LoopMove s l t := fun result t hin hc hl hx hk ↦
    .other (.inr ⟨.completed ticket result, ⟨by simp, by simp⟩, hin⟩) hc hl hx hk
      fun hs ↦ by simp [hw] at hs
  unfold workerFinishes
  split <;> exact hsent _ _ rfl rfl rfl rfl rfl

private theorem loopMove_loopSends {s t : Process} (h : s.loopSends = some t) :
    LoopMove s .loopSends t := by
  unfold loopSends at h
  split at h
  · next kill hp =>
    cases h
    exact .intercepts kill rfl hp rfl
  · next closing hp =>
    dsimp only at h
    split at h
    · next hd =>
      cases h
      exact .holds closing hp (by simp [hd]) rfl
    · next hd =>
      cases h
      exact .holds closing hp (by simp [hd]) rfl
  · cases h

/-- What every step of another thread than the actor does to the hand-over. -/
theorem loopMove_step {s t : Process} {l : Label} (hl : ∀ x, l ≠ .actor x)
    (h : s.step l = some t) : LoopMove s l t := by
  unfold step at h
  split at h
  · cases h
  · split at h
    · next x => exact absurd rfl (hl x)
    · split at h
      · next cmd rest hi hc =>
        cases h
        exact loopMove_workerTakes s cmd rest _ hi
      · cases h
    · exact loopMove_workerAnswered h
    · split at h
      · cases h
        exact .other (.inl rfl) rfl rfl rfl rfl id
      · cases h
    · split at h
      · next hw =>
        cases h
        exact loopMove_workerFinishes hw _ _
      · cases h
    · next ack =>
      split at h
      · next hw =>
        cases h
        exact .other (.inr ⟨.childAck ack, ⟨by simp, by simp⟩, rfl⟩) rfl rfl rfl rfl
          fun hs ↦ by simp [hw] at hs
      · cases h
    · unfold loopControl at h
      split at h
      · next msg rest hw hc =>
        split at h
        · next hp =>
          cases h
          exact .control msg rest rfl hw hc hp rfl
        · next hp =>
          cases h
          exact .discards msg rest hc hp rfl
        · cases h
      · cases h
    · unfold loopExit at h
      split at h
      · next hw =>
        split at h
        · next hp =>
          cases h
          exact .exits false hw.1 hw.2 hp rfl
        · next hp =>
          cases h
          exact .exits true hw.1 hw.2 hp rfl
        · cases h
      · cases h
    · exact loopMove_loopSends h
    · unfold loopExpires at h
      split at h
      · next hp =>
        split at h
        · next hs =>
          cases h
          exact .graceOver hp hs rfl
        · cases h
      · next hp =>
        cases h
        exact .closes hp rfl
      · cases h
    · next input =>
      cases h
      exact .other (.inr ⟨.owner input, ⟨by simp, by simp⟩, rfl⟩) rfl rfl rfl rfl id
    · cases h
      exact .other (.inr ⟨.synced, ⟨by simp, by simp⟩, rfl⟩) rfl rfl rfl rfl id
    · next name =>
      cases h
      exact .other (.inr ⟨.released name, ⟨by simp, by simp⟩, rfl⟩) rfl rfl rfl rfl id
    · cases h
      unfold signal
      split
      · exact .killForwarded rfl
      · next hend =>
        have hend : s.actorEnded = false := by simpa only [Bool.not_eq_true] using hend
        refine .killQueued hend ?_
        simp [send, hend]
    · cases h
      exact .killForwarded rfl
    · split at h
      · next he =>
        cases h
        exact .exitQueued he.2 rfl
      · cases h

/-! ### The actor's end -/

/-- A thread that ended without a transfer has stopped its process. -/
theorem Base.ended_cases {s : Process} (h : Base s) {a : Actor} (hp : s.actor.prog = .ret a)
    (hd : a.stage = .done) :
    (s.actor.ghost.committed = true ∧ s.actor.ghost.told = true ∧ s.flag = true) ∨
      (s.actor.ghost.stopped = true ∧ s.actor.ghost.Excused) := by
  obtain ⟨hn, -⟩ | ⟨-, he⟩ := (h.settled hp).1
  · exact absurd hd hn
  · rcases he.why with ⟨hc, hf, ht, -⟩ | hs
    · exact .inl ⟨hc, ht, h.flag.trans hf⟩
    · exact .inr hs

/-- Sending an event keeps the others. -/
theorem mem_send {s : Process} {e e' : ActorEvent} (h : e' ∈ s.inbox) :
    e' ∈ (s.send e).inbox := by
  unfold send
  dsimp only
  split
  · exact h
  · exact List.mem_append_left _ h

end Process
end PtySpec.Daemon
