import PtySpec.Daemon.Process

/-!
# Tickets, effects and retirement

Every effect of the startup worker belongs to a ticket that the actor committed before a
retirement was requested, and a retirement is concluded only when every committed ticket
has been accounted for. The tickets on their way between the actor and the worker are
kept in one line, in which none occurs twice.
-/

namespace PtySpec.Daemon

open Lib Operation

/-- The ticket of a command. -/
def cmdTicket : WorkerCmd → Option Nat
  | .publish ticket _ _ _ _ | .forkChild ticket => some ticket
  | .readyPoint | .stop _ => none

/-- The ticket the worker is at. -/
def Worker.ticket : Worker → Option Nat
  | .asked ticket _ _ | .performing ticket _ => some ticket
  | _ => none

/-- The ticket an event completes. -/
def doneTicket : ActorEvent → Option Nat
  | .completed ticket _ => some ticket
  | _ => none

namespace Process

/-- The tickets under way: completed and not yet heard of, in the worker's hands, and
commanded. -/
def line (s : Process) : List Nat :=
  s.inbox.filterMap doneTicket ++ (s.worker.ticket.toList ++ s.cmds.filterMap cmdTicket)

/-- What a step of another thread than the actor does to tickets. -/
inductive Summary (s t : Process) : Prop where
  | other (hline : t.line.Sublist s.line)
      (hin : ∀ ticket r, .commit ticket r ∈ t.inbox → .commit ticket r ∈ s.inbox)
      (hch : s.channels ≤ t.channels) (hw : t.worker.ticket = none ∨ t.worker = s.worker)
      (hlog : t.log = s.log) (hrep : t.replies = s.replies)
  | asks (ticket : Nat) (kind : TicketKind) (hline : t.line.Sublist s.line)
      (hin : t.inbox = s.inbox ++ [.commit ticket s.channels]) (hch : t.channels = s.channels + 1)
      (hw : t.worker = .asked ticket s.channels kind) (hlog : t.log = s.log)
      (hrep : t.replies = s.replies)
  | committed (ticket r : Nat) (kind : TicketKind) (hw : s.worker = .asked ticket r kind)
      (hr : (r, true) ∈ s.replies) (ht : t = { s with worker := .performing ticket kind })
  | acts (ticket : Nat) (kind : TicketKind) (hw : s.worker = .performing ticket kind)
      (ht : t = { s with log := .effect ticket :: s.log })

/-! ### How a ticket moves along the line -/

private theorem line_send (s : Process) (e : ActorEvent) (he : doneTicket e = none) :
    (s.send e).line = s.line := by
  unfold line send
  dsimp only
  split
  · rfl
  · simp [he]

private theorem commit_mem_send {s : Process} {e : ActorEvent} (he : ∀ t r, e ≠ .commit t r)
    {ticket r : Nat} (h : .commit ticket r ∈ (s.send e).inbox) : .commit ticket r ∈ s.inbox := by
  unfold send at h
  dsimp only at h
  split at h
  · exact h
  · rcases List.mem_append.mp h with h | h
    · exact h
    · exact absurd (List.mem_singleton.mp h).symm (he _ _)

/-- Another thread sends an event that is no commit request and no completion. -/
private theorem summary_send (s : Process) (e : ActorEvent) (hd : doneTicket e = none)
    (he : ∀ t r, e ≠ .commit t r) : Summary s (s.send e) :=
  .other (line_send s e hd ▸ .refl _) (fun _ _ ↦ commit_mem_send he) (Nat.le_refl _) (.inr rfl)
    rfl rfl

/-- A ticket leaves the worker's hands, or the head of its commands, as completed. -/
private theorem summary_complete {s t : Process} {ticket : Nat}
    {result : Except String Completion} (hin : t.inbox = (s.send (.completed ticket result)).inbox)
    (hw : t.worker.ticket = none)
    (hl : ticket :: t.cmds.filterMap cmdTicket =
      s.worker.ticket.toList ++ s.cmds.filterMap cmdTicket)
    (hch : t.channels = s.channels) (hlog : t.log = s.log) (hrep : t.replies = s.replies) :
    Summary s t := by
  refine .other ?_ (fun r₁ r₂ h ↦ ?_) (Nat.le_of_eq hch.symm) (.inl hw) hlog hrep
  · unfold line
    rw [hin, hw, ← hl]
    unfold send
    dsimp only
    split
    · simp
    · simp [doneTicket]
  · rw [hin] at h
    exact commit_mem_send (by simp) h

private theorem summary_commit (s : Process) (ticket : Nat) (kind : TicketKind)
    (rest : List WorkerCmd) (hi : s.worker = .idle)
    (hc : s.cmds.filterMap cmdTicket = ticket :: rest.filterMap cmdTicket) :
    Summary s (({ s with cmds := rest } : Process).commit ticket kind) := by
  unfold commit
  split
  · refine .other ?_ (fun _ _ h ↦ h) (Nat.le_refl _) (.inr rfl) rfl rfl
    unfold line
    rw [hc]
    simp [hi, Worker.ticket]
  · next he =>
    have he : s.actorEnded = false := by simpa only [Bool.not_eq_true] using he
    refine .asks ticket kind ?_ (by simp [send, he]) rfl rfl rfl rfl
    unfold line
    rw [hc]
    simp [send, hi, Worker.ticket, he, doneTicket]

private theorem summary_workerTakes (s : Process) (cmd : WorkerCmd) (rest : List WorkerCmd)
    (prepared : Except String Unit) (hi : s.worker = .idle) (hc : s.cmds = cmd :: rest) :
    Summary s (({ s with cmds := rest } : Process).workerTakes cmd prepared) := by
  have hdone : ∀ ticket message, cmdTicket cmd = some ticket →
      Summary s
        (({ s with cmds := rest } : Process).send (.completed ticket (.error message))) := by
    intro ticket message ht
    refine summary_complete rfl (by simp [send, hi, Worker.ticket]) ?_ rfl rfl rfl
    simp [send, hi, hc, Worker.ticket, ht]
  have hrest : (rest.filterMap cmdTicket).Sublist (s.cmds.filterMap cmdTicket) := by
    rw [hc]
    exact (List.sublist_cons_self _ _).filterMap _
  have hsame : ({ s with cmds := rest } : Process).line.Sublist s.line :=
    (List.Sublist.refl _).append ((List.Sublist.refl _).append hrest)
  unfold workerTakes
  split
  · split
    · exact hdone _ _ rfl
    · exact summary_commit s _ _ rest hi (by simp [hc, cmdTicket])
  · split
    · exact hdone _ _ rfl
    · split
      · exact hdone _ _ rfl
      · exact summary_commit s _ _ rest hi (by simp [hc, cmdTicket])
  · split
    · exact .other hsame (fun _ _ h ↦ h) (Nat.le_refl _) (.inr rfl) rfl rfl
    · refine .other ?_ (fun _ _ h ↦ commit_mem_send (s := { s with cmds := rest }) (by simp) h)
        (Nat.le_succ _) (.inl rfl) rfl rfl
      refine List.Sublist.trans ?_ hsame
      rw [← line_send { s with cmds := rest } (.readyPoint s.channels) rfl]
      simp [line, send, hi, Worker.ticket]
  · refine .other ?_ (fun _ _ h ↦ h) (Nat.le_refl _) (.inl rfl) rfl rfl
    refine List.Sublist.trans ?_ hsame
    simp [line, hi, Worker.ticket]

private theorem summary_workerAnswered {s t : Process} (h : s.workerAnswered = some t) :
    Summary s t := by
  -- without permission the ticket leaves the line
  have hidle : ∀ w : Worker, w.ticket = none → Summary s { s with worker := w } := by
    intro w hw
    refine .other ?_ (fun _ _ h ↦ h) (Nat.le_refl _) (.inl hw) rfl rfl
    unfold line
    rw [hw]
    exact (List.Sublist.refl _).append (List.sublist_append_right _ _)
  unfold workerAnswered at h
  split at h
  · next ticket r kind hw =>
    obtain ⟨answer, ha, rfl⟩ := Option.map_eq_some_iff.mp h
    cases answer with
    | true => exact .committed ticket r kind hw (mem_of_answerOn ha) rfl
    | false => exact hidle .idle rfl
  · next r hw =>
    obtain ⟨answer, ha, rfl⟩ := Option.map_eq_some_iff.mp h
    refine hidle _ ?_
    cases answer with
    | false => rfl
    | true => cases s.serving <;> rfl
  · cases h

private theorem summary_workerFinishes {s : Process} {ticket : Nat} {kind : TicketKind}
    (hw : s.worker = .performing ticket kind) (result : Except String (Int32 × Nat))
    (kept : Bool) : Summary s (s.workerFinishes ticket kind result kept) := by
  have hl : ticket :: s.cmds.filterMap cmdTicket =
      s.worker.ticket.toList ++ s.cmds.filterMap cmdTicket := by simp [hw, Worker.ticket]
  unfold workerFinishes
  split <;> exact summary_complete rfl rfl hl rfl rfl rfl

/-- A step that leaves the worker, its commands and the log alone. -/
private theorem summary_same {s t : Process} (hin : t.inbox = s.inbox) (hw : t.worker = s.worker)
    (hc : t.cmds = s.cmds) (hch : t.channels = s.channels) (hlog : t.log = s.log)
    (hrep : t.replies = s.replies) : Summary s t := by
  have hline : t.line = s.line := by
    unfold line
    rw [hin, hw, hc]
  exact .other (hline ▸ .refl _) (fun _ _ h ↦ hin ▸ h) (Nat.le_of_eq hch.symm) (.inr hw) hlog
    hrep

private theorem summary_loopControl {s t : Process} (h : s.loopControl = some t) :
    Summary s t := by
  unfold loopControl at h
  split at h
  · next msg rest _ _ =>
    split at h
    · cases h
      unfold handleControl handleExit
      split
      · split <;> exact summary_same rfl rfl rfl rfl rfl rfl
      · split
        · split <;> exact summary_same rfl rfl rfl rfl rfl rfl
        · exact summary_same rfl rfl rfl rfl rfl rfl
      · exact summary_same rfl rfl rfl rfl rfl rfl
    · cases h
      exact summary_same rfl rfl rfl rfl rfl rfl
    · cases h
  · cases h

private theorem summary_loopExit {s t : Process} (h : s.loopExit = some t) : Summary s t := by
  unfold loopExit at h
  split at h
  · split at h
    · cases h
      unfold handleExit
      split <;> exact summary_same rfl rfl rfl rfl rfl rfl
    · cases h
      unfold handleExit
      split <;> exact summary_same rfl rfl rfl rfl rfl rfl
    · cases h
  · cases h

/-- A step that sends an event and otherwise touches neither worker nor log. -/
private theorem summary_sends {s t : Process} {e : ActorEvent} (hd : doneTicket e = none)
    (he : ∀ t r, e ≠ .commit t r) (hin : t.inbox = (s.send e).inbox) (hw : t.worker = s.worker)
    (hc : t.cmds = s.cmds) (hch : t.channels = s.channels) (hlog : t.log = s.log)
    (hrep : t.replies = s.replies) : Summary s t := by
  refine .other ?_ (fun _ _ h ↦ ?_) (Nat.le_of_eq hch.symm) (.inr hw) hlog hrep
  · rw [← line_send s e hd]
    unfold line
    rw [hin, hw, hc]
    exact .refl _
  · rw [hin] at h
    exact commit_mem_send he h

private theorem summary_loopSends {s t : Process} (h : s.loopSends = some t) : Summary s t := by
  unfold loopSends at h
  split at h
  · next kill _ =>
    cases h
    exact summary_sends (e := .shutdown kill) rfl (by simp) rfl rfl rfl rfl rfl rfl
  · dsimp only at h
    split at h
    · cases h
      exact summary_same rfl rfl rfl rfl rfl rfl
    · cases h
      exact summary_sends (e := .childExited) rfl (by simp) rfl rfl rfl rfl rfl rfl
  · cases h

private theorem summary_loopExpires {s t : Process} (h : s.loopExpires = some t) :
    Summary s t := by
  unfold loopExpires at h
  split at h
  · split at h
    · cases h
      exact summary_same rfl rfl rfl rfl rfl rfl
    · cases h
  · cases h
    exact summary_same rfl rfl rfl rfl rfl rfl
  · cases h

/-- What every step of another thread than the actor does to tickets. -/
theorem summary_step {s t : Process} {l : Label} (hl : ∀ x, l ≠ .actor x)
    (h : s.step l = some t) : Summary s t := by
  unfold step at h
  split at h
  · cases h
  · split at h
    · next x => exact absurd rfl (hl x)
    · split at h
      · next cmd rest hi hc =>
        cases h
        exact summary_workerTakes s cmd rest _ hi hc
      · cases h
    · exact summary_workerAnswered h
    · split at h
      · next ticket kind hw =>
        cases h
        exact .acts ticket kind hw rfl
      · cases h
    · split at h
      · next hw =>
        cases h
        exact summary_workerFinishes hw _ _
      · cases h
    · next ack =>
      split at h
      · next hw =>
        cases h
        refine .other ?_ (fun _ _ h ↦ commit_mem_send (e := .childAck ack) (by simp) h)
          (Nat.le_refl _) (.inl rfl) rfl rfl
        rw [← line_send s (.childAck ack) rfl]
        simp [line, send, hw, Worker.ticket]
      · cases h
    · exact summary_loopControl h
    · exact summary_loopExit h
    · exact summary_loopSends h
    · exact summary_loopExpires h
    · cases h
      exact summary_send s _ rfl (by simp)
    · cases h
      exact summary_send s _ rfl (by simp)
    · cases h
      exact summary_send s _ rfl (by simp)
    · cases h
      unfold signal
      split
      · exact summary_same rfl rfl rfl rfl rfl rfl
      · exact summary_sends (e := .shutdown s.kills) rfl (by simp) rfl rfl rfl rfl rfl rfl
    · cases h
      exact summary_same rfl rfl rfl rfl rfl rfl
    · split at h
      · cases h
        exact summary_same rfl rfl rfl rfl rfl rfl
      · cases h

/-! ### The invariant of the channels -/

/-- Where the tickets under way are, and whose answer is on which channel. -/
structure Tickets (s : Process) : Prop where
  nodup : s.line.Nodup
  commanded : ∀ t ∈ s.line, t ∈ s.actor.ghost.commanded
  inbox : ∀ t r, .commit t r ∈ s.inbox → r < s.channels
  asker : ∀ t r, s.actor.ghost.asker = some (t, r) → r < s.channels
  replies : ∀ r b, (r, b) ∈ s.replies → r < s.channels
  asked : ∀ t r kind, s.worker = .asked t r kind →
    (∀ t', .commit t' r ∈ s.inbox → t' = t) ∧
      (∀ t', s.actor.ghost.asker = some (t', r) → t' = t) ∧
      ((r, true) ∈ s.replies → t ∈ s.actor.ghost.granted)
  performing : ∀ t kind, s.worker = .performing t kind → t ∈ s.actor.ghost.granted

theorem Tickets.of_summary {s t : Process} (h : Tickets s) (hf : Frame s t) (hs : Summary s t) :
    Tickets t := by
  cases hs with
  | other hline hin hch hw hlog hrep =>
    refine ⟨h.nodup.sublist hline, ?_, fun t' r hm ↦ ?_, ?_, ?_, ?_, ?_⟩
    · rw [hf.actor]
      exact fun t' ht' ↦ h.commanded t' (hline.subset ht')
    · exact Nat.lt_of_lt_of_le (h.inbox t' r (hin _ _ hm)) hch
    · rw [hf.actor]
      exact fun t' r ha ↦ Nat.lt_of_lt_of_le (h.asker t' r ha) hch
    · rw [hrep]
      exact fun r b hm ↦ Nat.lt_of_lt_of_le (h.replies r b hm) hch
    · intro t' r kind hw'
      rcases hw with hw | hw
      · simp [hw', Worker.ticket] at hw
      · rw [hf.actor, hrep]
        obtain ⟨h₁, h₂, h₃⟩ := h.asked t' r kind (hw ▸ hw')
        exact ⟨fun t'' hm ↦ h₁ t'' (hin _ _ hm), h₂, h₃⟩
    · intro t' kind hw'
      rcases hw with hw | hw
      · simp [hw', Worker.ticket] at hw
      · rw [hf.actor]
        exact h.performing t' kind (hw ▸ hw')
  | asks ticket kind hline hin hch hw hlog hrep =>
    refine ⟨h.nodup.sublist hline, ?_, fun t' r hm ↦ ?_, ?_, ?_, ?_, ?_⟩
    · rw [hf.actor]
      exact fun t' ht' ↦ h.commanded t' (hline.subset ht')
    · rw [hin] at hm
      rw [hch]
      rcases List.mem_append.mp hm with hm | hm
      · exact Nat.lt_succ_of_lt (h.inbox t' r hm)
      · cases List.mem_singleton.mp hm
        exact Nat.lt_succ_self _
    · rw [hf.actor, hch]
      exact fun t' r ha ↦ Nat.lt_succ_of_lt (h.asker t' r ha)
    · rw [hrep, hch]
      exact fun r b hm ↦ Nat.lt_succ_of_lt (h.replies r b hm)
    · -- the channel is fresh: nothing else is on it
      intro t' r kind' hw'
      rw [hw] at hw'
      cases hw'
      rw [hin, hf.actor, hrep]
      refine ⟨fun t'' hm ↦ ?_, fun t'' ha ↦ ?_, fun hm ↦ ?_⟩
      · rcases List.mem_append.mp hm with hm | hm
        · exact absurd (h.inbox _ _ hm) (Nat.lt_irrefl _)
        · cases List.mem_singleton.mp hm
          rfl
      · exact absurd (h.asker _ _ ha) (Nat.lt_irrefl _)
      · exact absurd (h.replies _ _ hm) (Nat.lt_irrefl _)
    · intro t' kind' hw'
      rw [hw] at hw'
      cases hw'
  | committed ticket r kind hw hr ht =>
    subst ht
    refine ⟨?_, ?_, h.inbox, h.asker, h.replies, nofun, ?_⟩
    · simpa [line, hw, Worker.ticket] using h.nodup
    · simpa [line, hw, Worker.ticket] using h.commanded
    · intro t' kind' hw'
      cases hw'
      exact (h.asked ticket r kind hw).2.2 hr
  | acts ticket kind hw ht =>
    subst ht
    exact ⟨h.nodup, h.commanded, h.inbox, h.asker, h.replies, h.asked, h.performing⟩

/-- A step that changes nothing of this. -/
private theorem Tickets.congr {s t : Process} (h : Tickets s) (hline : t.line = s.line)
    (hin : t.inbox = s.inbox) (hw : t.worker = s.worker) (hch : t.channels = s.channels)
    (hrep : t.replies = s.replies) (hcmd : t.actor.ghost.commanded = s.actor.ghost.commanded)
    (hask : t.actor.ghost.asker = s.actor.ghost.asker)
    (hgr : t.actor.ghost.granted = s.actor.ghost.granted) : Tickets t := by
  refine ⟨?_, ?_, ?_, ?_, ?_, ?_, ?_⟩
  · rw [hline]
    exact h.nodup
  · rw [hline, hcmd]
    exact h.commanded
  · rw [hin, hch]
    exact h.inbox
  · rw [hask, hch]
    exact h.asker
  · rw [hrep, hch]
    exact h.replies
  · rw [hw, hin, hask, hrep, hgr]
    exact h.asked
  · rw [hw, hgr]
    exact h.performing

/-- A ticket that was never commanded joins the line at its end. -/
private theorem Tickets.command {s : Process} (h : Tickets s) {ticket : Nat} {cmd : WorkerCmd}
    (hc : cmdTicket cmd = some ticket) (hn : ticket ∉ s.actor.ghost.commanded)
    (prog : Act Actor) (log : List Mark) :
    Tickets { s with
      cmds := s.cmds ++ [cmd]
      actor := ⟨{ s.actor.ghost with commanded := ticket :: s.actor.ghost.commanded }, prog⟩
      log := log } := by
  have hline : ∀ (prog : Thread Op Op.Ans Ghost Actor) (log : List Mark),
      ({ s with cmds := s.cmds ++ [cmd], actor := prog, log := log } : Process).line =
        s.line ++ [ticket] := by
    intro prog log
    simp [line, hc]
  refine ⟨?_, ?_, h.inbox, h.asker, h.replies, h.asked, h.performing⟩
  · rw [hline]
    refine List.nodup_append.mpr ⟨h.nodup, List.pairwise_singleton _ _, ?_⟩
    intro a ha b hb heq
    rw [List.mem_singleton.mp hb] at heq
    exact hn (h.commanded ticket (heq ▸ ha))
  · rw [hline]
    intro t ht
    rcases List.mem_append.mp ht with ht | ht
    · exact List.mem_cons_of_mem _ (h.commanded t ht)
    · rw [List.mem_singleton.mp ht]
      exact List.mem_cons_self

/-- An answer goes to the worker that asked. -/
private theorem Tickets.reply {s : Process} (h : Tickets s) (answer : Bool) {ticket r : Nat}
    (ha : s.actor.ghost.asker = some (ticket, r)) {granted : List Nat}
    (hg : ∀ t ∈ s.actor.ghost.granted, t ∈ granted) (ht : answer = true → ticket ∈ granted)
    (prog : Act Actor) (log : List Mark) :
    Tickets { s with
      replies := (r, answer) :: s.replies
      actor := ⟨{ s.actor.ghost with granted := granted }, prog⟩
      log := log } := by
  refine ⟨h.nodup, h.commanded, h.inbox, h.asker, fun r' b hm ↦ ?_, fun t r' kind hw ↦ ?_,
    fun t kind hw ↦ hg t (h.performing t kind hw)⟩
  · rcases List.mem_cons.mp hm with heq | hm
    · cases heq
      exact h.asker ticket r ha
    · exact h.replies r' b hm
  · obtain ⟨h₁, h₂, h₃⟩ := h.asked t r' kind hw
    refine ⟨h₁, h₂, fun hm ↦ ?_⟩
    rcases List.mem_cons.mp hm with heq | hm
    · cases heq
      exact h₂ ticket ha ▸ ht rfl
    · exact hg t (h₃ hm)

private theorem Tickets.ask {s : Process} (h : Tickets s) {o : Op} (ha : mayAsk s.actor.ghost o)
    (r : o.Ans) (prog : Act Actor) (log : List Mark) :
    Tickets { s.effects o with actor := ⟨s.actor.ghost.next o r, prog⟩, log := log } := by
  cases o with
  | replyCommit reply ticket answer =>
    cases answer with
    | false => exact h.reply false ha.1 (fun _ ht ↦ ht) nofun prog log
    | true =>
      exact h.reply true ha.1 (fun _ ht ↦ List.mem_cons_of_mem _ ht) (fun _ ↦ List.mem_cons_self)
        prog log
  | replyReady reply answer => cases answer <;> exact h.congr rfl rfl rfl rfl rfl rfl rfl rfl
  | tellWorker cmd =>
    cases cmd with
    | publish ticket => exact h.command rfl ha prog log
    | forkChild ticket => exact h.command rfl ha prog log
    | readyPoint =>
      refine h.congr ?_ rfl rfl rfl rfl rfl rfl rfl
      simp [line, effects, cmdTicket]
    | stop code =>
      refine h.congr ?_ rfl rfl rfl rfl rfl rfl rfl
      simp [line, effects, cmdTicket]
  | tellLoop msg => cases msg <;> exact h.congr rfl rfl rfl rfl rfl rfl rfl rfl
  | _ => exact h.congr rfl rfl rfl rfl rfl rfl rfl rfl

/-- The worker's ticket is not one that was completed. -/
private theorem Tickets.ne_of_completed {s : Process} (h : Tickets s) {ticket : Nat}
    {result : Except String Completion} {rest : List ActorEvent}
    (hi : s.inbox = .completed ticket result :: rest) {t : Nat} (hw : s.worker.ticket = some t) :
    t ≠ ticket := by
  have := h.nodup
  simp only [line, hi, hw, List.filterMap_cons, doneTicket, List.cons_append,
    List.nodup_cons] at this
  rintro rfl
  exact this.1 (by simp)

private theorem Tickets.event {s : Process} (h : Tickets s) {e : ActorEvent}
    {rest : List ActorEvent} (hi : s.inbox = e :: rest) (prog : Act Actor) (log : List Mark) :
    Tickets { s with
      actor := ⟨receive s.actor.ghost e, prog⟩, current := some e, inbox := rest, log := log } := by
  have hmem : ∀ e', e' ∈ rest → e' ∈ s.inbox := fun e' he' ↦ hi ▸ List.mem_cons_of_mem _ he'
  have hsub : (rest.filterMap doneTicket ++
      (s.worker.ticket.toList ++ s.cmds.filterMap cmdTicket)).Sublist s.line := by
    unfold line
    rw [hi]
    exact ((List.sublist_cons_self _ _).filterMap _).append (.refl _)
  have hnodup := h.nodup.sublist hsub
  have hcmd : ∀ t ∈ rest.filterMap doneTicket ++
      (s.worker.ticket.toList ++ s.cmds.filterMap cmdTicket), t ∈ s.actor.ghost.commanded :=
    fun t ht ↦ h.commanded t (hsub.subset ht)
  cases e with
  | completed ticket result =>
    -- the worker is at another ticket, which stays granted
    have hkeep : ∀ t, s.worker.ticket = some t → t ∈ s.actor.ghost.granted →
        t ∈ s.actor.ghost.granted.filter (· ≠ ticket) := fun t hw ht ↦
      List.mem_filter.mpr ⟨ht, by simpa using h.ne_of_completed hi hw⟩
    refine ⟨hnodup, hcmd, fun t r hm ↦ h.inbox t r (hmem _ hm), h.asker, h.replies,
      fun t r kind hw ↦ ?_, fun t kind hw ↦ hkeep t (by rw [hw]; rfl) (h.performing t kind hw)⟩
    obtain ⟨h₁, h₂, h₃⟩ := h.asked t r kind hw
    exact ⟨fun t' hm ↦ h₁ t' (hmem _ hm), h₂, fun hm ↦ hkeep t (by rw [hw]; rfl) (h₃ hm)⟩
  | commit ticket reply =>
    have hin : .commit ticket reply ∈ s.inbox := hi ▸ List.mem_cons_self
    refine ⟨hnodup, hcmd, fun t r hm ↦ h.inbox t r (hmem _ hm), fun t r ha ↦ ?_, h.replies,
      fun t r kind hw ↦ ?_, h.performing⟩
    · cases ha
      exact h.inbox ticket reply hin
    · obtain ⟨h₁, -, h₃⟩ := h.asked t r kind hw
      refine ⟨fun t' hm ↦ h₁ t' (hmem _ hm), fun t' ha ↦ ?_, h₃⟩
      cases ha
      exact h₁ ticket hin
  | _ =>
    refine ⟨hnodup, hcmd, fun t r hm ↦ h.inbox t r (hmem _ hm), h.asker, h.replies,
      fun t r kind hw ↦ ?_, h.performing⟩
    obtain ⟨h₁, h₂, h₃⟩ := h.asked t r kind hw
    exact ⟨fun t' hm ↦ h₁ t' (hmem _ hm), h₂, h₃⟩

theorem Tickets.step {s t : Process} {l : Label} (h : Tickets s) (hb : Base s)
    (hs : s.step l = some t) : Tickets t := by
  by_cases hl : ∃ x, l = .actor x
  · obtain ⟨x, rfl⟩ := hl
    obtain ⟨-, ⟨o, k, hp, rfl⟩ | ⟨a, hp, hd, rfl⟩ | ⟨a, e, rest, hp, hd, hi, rfl⟩⟩ :=
      actorStep_cases hs
    · exact h.ask (hb.mayAsk hp) _ _ _
    · have hsub : (s.worker.ticket.toList ++ s.cmds.filterMap cmdTicket).Sublist s.line :=
        List.sublist_append_right _ _
      refine ⟨h.nodup.sublist hsub, fun t ht ↦ h.commanded t (hsub.subset ht), nofun, h.asker,
        h.replies, fun t r kind hw ↦ ⟨nofun, (h.asked t r kind hw).2⟩, h.performing⟩
    · exact h.event hi _ _
  · have hl' : ∀ x, l ≠ .actor x := fun x hx ↦ hl ⟨x, hx⟩
    exact h.of_summary (frame_step hl' hs) (summary_step hl' hs)

/-! ### The order of the marks -/

/-- What came before a mark: a ticket is committed before any retirement is requested, an
effect belongs to a committed ticket and no retirement is concluded yet, and a retirement
is concluded when every committed ticket has been accounted for. -/
def MayFollow (before : List Mark) : Mark → Prop
  | .granted _ => .requested ∉ before ∧ .concluded ∉ before
  | .effect ticket => .granted ticket ∈ before ∧ .concluded ∉ before
  | .concluded => ∀ ticket, .granted ticket ∈ before → .accounted ticket ∈ before
  | .requested | .accounted _ => True

/-- The marks so far agree with what the actor has done, and each followed those before it. -/
structure Marked (log : List Mark) (m : Ghost) : Prop where
  requested : .requested ∈ log → m.requested = true
  concluded : .concluded ∈ log → m.concluded = true
  granted : ∀ t ∈ m.granted, .granted t ∈ log
  accounted : ∀ t, .granted t ∈ log → t ∈ m.granted ∨ .accounted t ∈ log
  order : ∀ k before, (k :: before) <:+ log → MayFollow before k

namespace Marked

variable {log : List Mark} {m : Ghost}

/-- One more mark that may follow. -/
private theorem order_cons (h : Marked log m) {k : Mark} (hk : MayFollow log k) :
    ∀ k' before, (k' :: before) <:+ (k :: log) → MayFollow before k' := by
  intro k' before hs
  rcases List.suffix_cons_iff.mp hs with heq | hs
  · cases heq
    exact hk
  · exact h.order k' before hs

/-- An effect of a committed ticket is marked. -/
theorem acts (h : Marked log m) (hm : m.Sane) {ticket : Nat} (ht : ticket ∈ m.granted) :
    Marked (.effect ticket :: log) m where
  requested := fun hr ↦ h.requested ((List.mem_cons.mp hr).resolve_left nofun)
  concluded := fun hc ↦ h.concluded ((List.mem_cons.mp hc).resolve_left nofun)
  granted := fun t ht ↦ List.mem_cons_of_mem _ (h.granted t ht)
  accounted := fun t hg ↦ (h.accounted t ((List.mem_cons.mp hg).resolve_left nofun)).imp_right
    (List.mem_cons_of_mem _)
  order := h.order_cons ⟨h.granted ticket ht, fun hc ↦ by
    rw [hm.concluded (h.concluded hc)] at ht
    cases ht⟩

/-- A committed ticket is marked. -/
theorem grants (h : Marked log m) (hr : m.requested = false) (hc : m.concluded = false)
    (ticket : Nat) : Marked (.granted ticket :: log) { m with granted := ticket :: m.granted } where
  requested := fun hm ↦ h.requested ((List.mem_cons.mp hm).resolve_left nofun)
  concluded := fun hm ↦ h.concluded ((List.mem_cons.mp hm).resolve_left nofun)
  granted := fun t ht ↦ by
    rcases List.mem_cons.mp ht with rfl | ht
    · exact List.mem_cons_self
    · exact List.mem_cons_of_mem _ (h.granted t ht)
  accounted := fun t hg ↦ by
    rcases List.mem_cons.mp hg with heq | hg
    · cases heq
      exact .inl List.mem_cons_self
    · exact (h.accounted t hg).imp (List.mem_cons_of_mem _) (List.mem_cons_of_mem _)
  order := h.order_cons ⟨fun hm ↦ by simp [h.requested hm] at hr,
    fun hm ↦ by simp [h.concluded hm] at hc⟩

/-- A completed ticket is accounted for when the actor hears of it. -/
theorem hears (h : Marked log m) (e : ActorEvent) : Marked (taken e ++ log) (receive m e) := by
  cases e with
  | completed ticket result =>
    refine ⟨fun hm ↦ h.requested ((List.mem_cons.mp hm).resolve_left nofun),
      fun hm ↦ h.concluded ((List.mem_cons.mp hm).resolve_left nofun),
      fun t ht ↦ List.mem_cons_of_mem _ (h.granted t (List.mem_filter.mp ht).1), fun t hg ↦ ?_,
      h.order_cons trivial⟩
    rcases h.accounted t ((List.mem_cons.mp hg).resolve_left nofun) with ht | ht
    · by_cases heq : t = ticket
      · exact .inr (heq ▸ List.mem_cons_self)
      · exact .inl (List.mem_filter.mpr ⟨ht, by simpa using heq⟩)
    · exact .inr (List.mem_cons_of_mem _ ht)
  | commit ticket reply => exact ⟨h.requested, h.concluded, h.granted, h.accounted, h.order⟩
  | _ => exact h

/-- The request of a retirement is marked. -/
private theorem requests (h : Marked log m) (hr : m.requested = true) :
    Marked (.requested :: log) m where
  requested := fun _ ↦ hr
  concluded := fun hm ↦ h.concluded ((List.mem_cons.mp hm).resolve_left nofun)
  granted := fun t ht ↦ List.mem_cons_of_mem _ (h.granted t ht)
  accounted := fun t hg ↦ (h.accounted t ((List.mem_cons.mp hg).resolve_left nofun)).imp_right
    (List.mem_cons_of_mem _)
  order := h.order_cons trivial

/-- The end of a retirement is marked, without a committed ticket in flight. -/
private theorem concludes (h : Marked log m) (hc : m.concluded = true) (hg : m.granted = []) :
    Marked (.concluded :: log) m where
  requested := fun hm ↦ h.requested ((List.mem_cons.mp hm).resolve_left nofun)
  concluded := fun _ ↦ hc
  granted := fun t ht ↦ List.mem_cons_of_mem _ (h.granted t ht)
  accounted := fun t hm ↦ (h.accounted t ((List.mem_cons.mp hm).resolve_left nofun)).imp_right
    (List.mem_cons_of_mem _)
  order := h.order_cons fun t ht ↦ (h.accounted t ht).resolve_left (by simp [hg])

/-- Every interaction of the actor marks what it does. -/
theorem ask (h : Marked log m) {o : Op} (ha : mayAsk m o) (r : o.Ans) :
    Marked (marks o ++ log) (m.next o r) := by
  cases o with
  | writeCas expected next label =>
    obtain ⟨-, -, ht⟩ := ha
    have hw : Marked log (m.next (.writeCas expected next label) r) :=
      ⟨fun hm ↦ by simp [Ghost.next, Ghost.wrote, h.requested hm],
        fun hm ↦ by simp [Ghost.next, Ghost.wrote, h.concluded hm], h.granted, h.accounted, h.order⟩
    have hreq : Marked ((if label = "retirement-requested" then [.requested] else []) ++ log)
        (m.next (.writeCas expected next label) r) := by
      split
      · next hl => exact hw.requests (by simp [Ghost.next, Ghost.wrote, hl])
      · exact hw
    unfold marks
    dsimp only
    split
    · next hterm => exact hreq.concludes (by simp [Ghost.next, Ghost.wrote, hterm]) (ht hterm)
    · exact hreq
  | replyCommit reply ticket answer =>
    cases answer with
    | false => exact h
    | true => exact h.grants (ha.2 rfl).1 (ha.2 rfl).2 ticket
  | replyReady reply answer =>
    cases answer <;> exact ⟨h.requested, h.concluded, h.granted, h.accounted, h.order⟩
  | tellWorker cmd =>
    cases cmd <;> exact ⟨h.requested, h.concluded, h.granted, h.accounted, h.order⟩
  | tellLoop msg =>
    cases msg <;> exact ⟨h.requested, h.concluded, h.granted, h.accounted, h.order⟩
  | setTransferred => exact ⟨h.requested, h.concluded, h.granted, h.accounted, h.order⟩
  | _ => exact h

end Marked

private theorem marked_step {s t : Process} {l : Label} (h : Marked s.log s.actor.ghost)
    (hb : Base s) (htk : Tickets s) (hs : s.step l = some t) : Marked t.log t.actor.ghost := by
  by_cases hl : ∃ x, l = .actor x
  · obtain ⟨x, rfl⟩ := hl
    obtain ⟨-, ⟨o, k, hp, rfl⟩ | ⟨a, hp, hd, rfl⟩ | ⟨a, e, rest, hp, hd, hi, rfl⟩⟩ :=
      actorStep_cases hs
    · exact h.ask (hb.mayAsk hp) _
    · exact h
    · exact h.hears e
  · have hl' : ∀ x, l ≠ .actor x := fun x hx ↦ hl ⟨x, hx⟩
    rw [(frame_step hl' hs).actor]
    cases summary_step hl' hs with
    | other hline hin hch hw hlog hrep => rwa [hlog]
    | asks ticket kind hline hin hch hw hlog hrep => rwa [hlog]
    | committed ticket r kind hw hr ht =>
      subst ht
      exact h
    | acts ticket kind hw ht =>
      subst ht
      exact h.acts hb.sane (htk.performing ticket kind hw)

/-- Every reached state keeps the line of tickets and the order of the marks. -/
theorem marked_of_reached {ok : Process → Label → Bool} {s : Process} (h : Reached ok s) :
    Tickets s ∧ Marked s.log s.actor.ghost := by
  refine h.induct (P := fun s ↦ Tickets s ∧ Marked s.log s.actor.ghost) (fun s hs ↦ ?_)
    fun s t hr ⟨htk, hm⟩ ⟨l, _, hs⟩ ↦ ?_
  · obtain ⟨digest, operationId, runtimeId, me, record, -, -, -, -, rfl⟩ := hs
    exact ⟨⟨List.nodup_nil, nofun, nofun, nofun, nofun, nofun, nofun⟩,
      ⟨nofun, nofun, nofun, nofun, by simp⟩⟩
  · have hb := base_of_reached hr
    exact ⟨htk.step hb hs, marked_step hm hb htk hs⟩

/-- In every run of the process: once a retirement is recorded as verified or incomplete no
ticket of the actor is committed, no commit request is granted later, and every effect of
the worker belongs to a ticket that was committed before a retirement was requested and
accounted for before it was concluded. -/
theorem tickets_of_reached (s : Process) (h : Reached (fun _ _ ↦ true) s) :
    (∀ a, s.actor.prog = .ret a → a.record.terminal = true → a.committedInFlight = false) ∧
      ∀ k before, (k :: before) <:+ s.log → MayFollow before k := by
  refine ⟨fun a hp ht ↦ ?_, (marked_of_reached h).2.order⟩
  obtain ⟨-, hi⟩ | ⟨-, he⟩ := ((base_of_reached h).settled hp).1
  · have := hi.unfinished.symm.trans ht
    cases this
  · exact he.concluded (.inr ht)

/-- A kill during the fork: the retirement waits for the committed ticket. -/
def retiredAfterFork : List Label :=
  toForked ++ [.signal] ++ acts 2 ++ [.workerEffect, .workerFinishes (.ok (9, 0)) false] ++ acts 15

/-- Whether the actor is between two events with a finished retirement. -/
def concludedNow (s : Process) : Bool :=
  match s.actor.prog with
  | .ret a => a.record.terminal
  | .ask _ _ => false

/-- The marks of that run, and that its retirement left no committed ticket. -/
theorem tickets_of_reached_retired : ∃ s a, Reached (fun _ _ ↦ true) s ∧ s.actor.prog = .ret a ∧
    a.record.terminal = true ∧ a.committedInFlight = false ∧
    s.log = [.concluded, .accounted 2, .effect 2, .requested, .effect 2, .granted 2,
      .accounted 1, .effect 1, .granted 1] ∧
    MayFollow s.log.tail .concluded := by
  have hrun : (gated.run (fun _ _ ↦ true) retiredAfterFork).map (fun t ↦
      (t.log, t.concludedNow)) =
      some ([.concluded, .accounted 2, .effect 2, .requested, .effect 2, .granted 2,
        .accounted 1, .effect 1, .granted 1], true) := rfl
  obtain ⟨s, hs, heq⟩ := Option.map_eq_some_iff.mp hrun
  obtain ⟨hlog, hterm⟩ := Prod.mk.inj heq
  have hreach := gated_reached.run hs
  obtain ⟨hfree, horder⟩ := tickets_of_reached s hreach
  unfold concludedNow at hterm
  split at hterm
  · next a hp =>
    refine ⟨s, a, hreach, hp, hterm, hfree a hp hterm, hlog, horder _ _ ?_⟩
    rw [hlog]
    exact List.suffix_refl _
  · cases hterm

end Process
end PtySpec.Daemon
