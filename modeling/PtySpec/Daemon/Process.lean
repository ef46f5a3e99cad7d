import PtySpec.Daemon.Main

/-!
# The process of a launch operation

The threads of a launch operation's daemon and the channels between them: the actor,
the startup worker (`crates/pty/src/daemon/operation.rs:372-690`), the serving loop
(`crates/pty/src/daemon/lifecycle.rs:1038-1160`, `1735-1767`), the thread that forwards
signals and the one that reports the child. `step` runs one atomic action of one of
them; a `Label` names the thread and what its surroundings answer.
-/

namespace PtySpec.Daemon

open Lib Operation

/-- What the surroundings answer the actor; `write` is the time of a write that succeeds. -/
structure Outcome where
  env : (q : EnvOp) → q.Ans
  write : Except WriteError String
  released : Bool

/-- The answer to one interaction. A write of a record that fails its check is refused;
the actor never reads the record. -/
def Outcome.answer (x : Outcome) : (o : Op) → o.Ans
  | .writeCas expected next _ =>
    match next.check with
    | .error e => .error (.io e)
    | .ok () => x.write.map fun now ↦ next.stamped expected now
  | .readRecord => .ok none
  | .release _ => x.released
  | .setTransferred | .replyCommit _ _ _ | .replyReady _ _ | .tellWorker _ | .tellLoop _ => ()
  | .env q => x.env q

/-- What the startup worker is doing, `operation.rs:434`. -/
inductive Worker where
  /-- Waiting for a command. -/
  | idle
  /-- Waiting for the answer to a commit request, `operation.rs:417`. -/
  | asked (ticket reply : Nat) (kind : TicketKind)
  /-- The ticket is committed and its effect under way. -/
  | performing (ticket : Nat) (kind : TicketKind)
  /-- The held child is forked and its acknowledgement awaited. -/
  | forked
  /-- Waiting for the answer at the ready point. -/
  | readying (reply : Nat)
  /-- The worker's thread runs the serving loop. -/
  | serving
  /-- The worker returned, and the process with it. -/
  | returned
  deriving DecidableEq, Repr

/-- Where the serving loop stands in `serve` and `handle`, `lifecycle.rs:1040`. -/
inductive LoopPhase where
  /-- Between two messages. -/
  | ready
  /-- In `intercepts_kill` after the flag was read unset, `operation.rs:80`. -/
  | intercepting (kill : Nat)
  /-- In `holds` after the flag was read unset, `operation.rs:66`; `closing` says whether
  `wait_child_exit` handles the exit. -/
  | holding (closing : Bool)
  /-- In `wait_child_exit`, `lifecycle.rs:1737`. -/
  | closing
  /-- `serve` returned, and the process with it. -/
  | closed
  deriving DecidableEq, Repr

/-- The serving loop: its phase, `deferred_exit` and `ended` of its `OperationLink`, and
whether `child_status` and `external_kill` are set. -/
structure Loop where
  phase : LoopPhase := .ready
  deferred : Bool := false
  ended : Bool := false
  childStatus : Bool := false
  externalKill : Bool := false
  deriving DecidableEq, Repr

/-- How far the message of the child's exit is. -/
inductive ExitMsg where
  | none
  | queued
  | taken
  deriving DecidableEq, Repr

/-- What of a run is remembered. -/
inductive Mark where
  | granted (ticket : Nat)
  | requested
  | concluded
  | effect (ticket : Nat)
  | accounted (ticket : Nat)
  deriving DecidableEq, Repr

/-- The process. `replies` and `readies` hold what was sent on the channels of commit
requests and of ready points, which `channels` numbers; `current` is the event the actor
handles or handled last, `kills` counts the kills taken so far, which are numbered in that
order, and `log` is newest first. -/
structure Process where
  actor : Thread Op Op.Ans Ghost Actor
  actorEnded : Bool := false
  current : Option ActorEvent := none
  inbox : List ActorEvent := []
  worker : Worker := .idle
  published : Bool := false
  serving : Bool := false
  cmds : List WorkerCmd := []
  replies : List (Nat × Bool) := []
  readies : List (Nat × Bool) := []
  channels : Nat := 0
  control : List LoopMsg := []
  flag : Bool := false
  loop : Loop := {}
  exit : ExitMsg := .none
  kills : Nat := 0
  log : List Mark := []

namespace Process

/-- Send an event to the actor; without a receiver it is lost. -/
def send (s : Process) (e : ActorEvent) : Process :=
  { s with inbox := if s.actorEnded then s.inbox else s.inbox ++ [e] }

/-! ### The actor -/

/-- The marks of one interaction of the actor. -/
def marks : Op → List Mark
  | .writeCas _ next label =>
    (if next.terminal then [.concluded] else []) ++
      (if label = "retirement-requested" then [.requested] else [])
  | .replyCommit _ ticket true => [.granted ticket]
  | _ => []

/-- What an interaction of the actor does to the rest of the process. -/
def effects (s : Process) : Op → Process
  | .setTransferred => { s with flag := true }
  | .replyCommit reply _ answer => { s with replies := (reply, answer) :: s.replies }
  | .replyReady reply answer => { s with readies := (reply, answer) :: s.readies }
  | .tellWorker cmd => { s with cmds := s.cmds ++ [cmd] }
  | .tellLoop msg => { s with control := s.control ++ [msg] }
  | _ => s

/-- The mark of an event the actor takes. -/
def taken : ActorEvent → List Mark
  | .completed ticket _ => [.accounted ticket]
  | _ => []

/-- The actor: its program goes on, it takes the next event, or its thread ends with
the events still queued, `operation.rs:1224`. -/
def actorStep (s : Process) (x : Outcome) : Option Process :=
  if s.actorEnded then
    none
  else
    match s.actor.prog with
    | .ask o k =>
      let s' := s.effects o
      some { s' with
        actor := ⟨s.actor.ghost.next o (x.answer o), k (x.answer o)⟩
        log := marks o ++ s.log }
    | .ret a =>
      if a.stage = .done then
        some { s with actorEnded := true, inbox := [] }
      else
        match s.inbox with
        | [] => none
        | e :: rest =>
          some { s with
            actor := ⟨receive s.actor.ghost e, a.onEvent e⟩
            current := some e
            inbox := rest
            log := taken e ++ s.log }

/-! ### The startup worker -/

/-- `Worker::commit`, `operation.rs:417`: ask the actor on a fresh channel; without a
receiver the answer is no. -/
def commit (s : Process) (ticket : Nat) (kind : TicketKind) : Process :=
  if s.actorEnded then
    s
  else
    { s.send (.commit ticket s.channels) with
      worker := .asked ticket s.channels kind
      channels := s.channels + 1 }

/-- The worker takes a command, `operation.rs:444`; `prepared` says whether what comes
before the commit succeeded. -/
def workerTakes (s : Process) (cmd : WorkerCmd) (prepared : Except String Unit) : Process :=
  match cmd with
  | .publish ticket _ _ _ _ =>
    match prepared with
    | .error message => s.send (.completed ticket (.error message))
    | .ok () => s.commit ticket .publish
  | .forkChild ticket =>
    if !s.published then
      s.send (.completed ticket (.error "nothing was published"))
    else
      match prepared with
      | .error message => s.send (.completed ticket (.error message))
      | .ok () => s.commit ticket .forkChild
  | .readyPoint =>
    if s.actorEnded then
      s
    else
      { s.send (.readyPoint s.channels) with
        worker := .readying s.channels
        channels := s.channels + 1 }
  | .stop _ => { s with worker := .returned }

/-- The answer on a channel: a sent one, or no once the actor is gone. -/
def answerOn (s : Process) (sent : List (Nat × Bool)) (reply : Nat) : Option Bool :=
  match sent.lookup reply with
  | some answer => some answer
  | none => if s.actorEnded then some false else none

/-- The end of an effect: what it came to is reported, `operation.rs:497`, `operation.rs:646`. -/
def workerFinishes (s : Process) (ticket : Nat) (kind : TicketKind)
    (result : Except String (Int32 × Nat)) (kept : Bool) : Process :=
  match kind, result with
  | .publish, .ok _ =>
    { s.send (.completed ticket (.ok .published)) with worker := .idle, published := true }
  | .forkChild, .ok (pid, gate) =>
    { s.send (.completed ticket (.ok (.forked pid gate))) with
      worker := .forked, published := false, serving := true }
  | .publish, .error message =>
    { s.send (.completed ticket (.error message)) with worker := .idle }
  | .forkChild, .error message =>
    { s.send (.completed ticket (.error message)) with
      worker := .idle, published := s.published && kept }

/-! ### The serving loop -/

/-- `handle(ChildExited)`, `lifecycle.rs:1093`: `holds` reads the flag first. -/
def handleExit (s : Process) (closing : Bool) : Process :=
  if s.flag then
    { s with loop := { s.loop with childStatus := true } }
  else
    { s with loop := { s.loop with phase := .holding closing } }

/-- `handle` of a message that is not the bridge's, `lifecycle.rs:1130`. A shutdown code
makes `serve` close at once. -/
def handleControl (s : Process) : LoopMsg → Process
  | .externalKill kill =>
    if s.flag then
      { s with loop := { s.loop with externalKill := true, phase := .closing } }
    else
      { s with loop := { s.loop with phase := .intercepting kill } }
  | .operationTransferred =>
    if s.loop.deferred then
      ({ s with loop := { s.loop with deferred := false } } : Process).handleExit false
    else
      s
  | .operationEnd _ => { s with loop := { s.loop with ended := true, phase := .closed } }

/-- The rest of `holds` and `intercepts_kill`, after the flag was read. -/
def loopSends (s : Process) : Option Process :=
  match s.loop.phase with
  | .intercepting kill =>
    some { s.send (.shutdown kill) with loop := { s.loop with phase := .ready } }
  | .holding closing =>
    let loop := { s.loop with phase := if closing then .closing else .ready, deferred := true }
    if s.loop.deferred then some { s with loop := loop }
    else some { s.send .childExited with loop := loop }
  | _ => none

/-! ### One step -/

/-- One action of one thread, with what its surroundings answer. -/
inductive Label where
  | actor (x : Outcome)
  | workerTakes (prepared : Except String Unit)
  | workerAnswered
  | workerEffect
  | workerFinishes (result : Except String (Int32 × Nat)) (kept : Bool)
  | workerAck (ack : Ack)
  /-- The loop takes its next control message. -/
  | loopControl
  /-- The loop takes the bridge's exit message. -/
  | loopExit
  /-- The loop sends what it decided on the flag. -/
  | loopSends
  /-- The grace after a handled exit is over, or `wait_child_exit` ends. -/
  | loopExpires
  /-- The owner's channel or a test barrier. -/
  | owner (input : OwnerInput)
  | synced
  | released (name : String)
  /-- SIGTERM or SIGINT, `forward_kill_signals`, `operation.rs:375`. -/
  | signal
  /-- The listener failed, `lifecycle.rs:778`. -/
  | listenerFails
  /-- The bridge reports the child's exit. -/
  | childExits

/-- Whether the process has exited. -/
def exited (s : Process) : Bool := s.worker == .returned || s.loop.phase == .closed

/-- Answers to the worker, `operation.rs:417`, `operation.rs:650`. -/
def workerAnswered (s : Process) : Option Process :=
  match s.worker with
  | .asked ticket reply kind =>
    (s.answerOn s.replies reply).map fun answer ↦
      { s with worker := if answer then .performing ticket kind else .idle }
  | .readying reply =>
    (s.answerOn s.readies reply).map fun answer ↦
      { s with worker :=
        if answer then (if s.serving then .serving else .returned) else .idle }
  | _ => none

/-- The loop's next control message, in `serve` or, discarded, in `wait_child_exit`. -/
def loopControl (s : Process) : Option Process :=
  match s.worker, s.control with
  | .serving, msg :: rest =>
    match s.loop.phase with
    | .ready => some (({ s with control := rest } : Process).handleControl msg)
    | .closing => some { s with control := rest }
    | _ => none
  | _, _ => none

/-- The bridge's exit message, in `serve` or in `wait_child_exit`. -/
def loopExit (s : Process) : Option Process :=
  if s.worker = .serving ∧ s.exit = .queued then
    match s.loop.phase with
    | .ready => some (({ s with exit := .taken } : Process).handleExit false)
    | .closing => some (({ s with exit := .taken } : Process).handleExit true)
    | _ => none
  else
    none

/-- The grace after a handled exit is over, or `wait_child_exit` ends. -/
def loopExpires (s : Process) : Option Process :=
  match s.worker, s.loop.phase with
  | .serving, .ready =>
    if s.loop.childStatus then some { s with loop := { s.loop with phase := .closing } } else none
  | .serving, .closing => some { s with loop := { s.loop with phase := .closed } }
  | _, _ => none

/-- `forward_kill_signals`, `operation.rs:375`: to the actor, else to the serving loop. -/
def signal (s : Process) : Process :=
  if s.actorEnded then
    { s with control := s.control ++ [.externalKill s.kills], kills := s.kills + 1 }
  else
    { s.send (.shutdown s.kills) with kills := s.kills + 1 }

/-- One step of the process, unless it has exited or the thread cannot act. -/
def step (s : Process) (l : Label) : Option Process :=
  if s.exited then
    none
  else
    match l with
    | .actor x => s.actorStep x
    | .workerTakes prepared =>
      match s.worker, s.cmds with
      | .idle, cmd :: rest => some (({ s with cmds := rest } : Process).workerTakes cmd prepared)
      | _, _ => none
    | .workerAnswered => s.workerAnswered
    | .workerEffect =>
      match s.worker with
      | .performing ticket _ => some { s with log := .effect ticket :: s.log }
      | _ => none
    | .workerFinishes result kept =>
      match s.worker with
      | .performing ticket kind => some (s.workerFinishes ticket kind result kept)
      | _ => none
    | .workerAck ack =>
      match s.worker with
      | .forked => some { s.send (.childAck ack) with worker := .idle }
      | _ => none
    | .loopControl => s.loopControl
    | .loopExit => s.loopExit
    | .loopSends => s.loopSends
    | .loopExpires => s.loopExpires
    | .owner input => some (s.send (.owner input))
    | .synced => some (s.send .synced)
    | .released name => some (s.send (.released name))
    | .signal => some s.signal
    | .listenerFails =>
      some { s with control := s.control ++ [.externalKill s.kills], kills := s.kills + 1 }
    | .childExits =>
      if s.serving ∧ s.exit = .none then some { s with exit := .queued } else none

/-- The process as `main` starts it: the record it read passes the check and names this
daemon as its producer. -/
def Init (s : Process) : Prop :=
  ∃ digest operationId runtimeId, ∃ me : ProcessId, ∃ record : OperationRecord,
    record.check = .ok () ∧ record.state = .pending ∧ record.phase = .daemonGated ∧
      record.writer = .of .producer me ∧
      s = { actor := ⟨{}, (freshActor digest record me operationId runtimeId).start⟩ }

/-- The states that runs reach whose steps all meet `ok`. -/
def Reached (ok : Process → Label → Bool) : Process → Prop :=
  Reachable Init fun s t ↦ ∃ l, ok s l = true ∧ s.step l = some t

/-- The run of the given steps, as long as they meet `ok`. -/
def run (ok : Process → Label → Bool) (s : Process) : List Label → Option Process
  | [] => some s
  | l :: ls => if ok s l then (s.step l).bind (run ok · ls) else none

/-! ### What every run keeps -/

/-- What holds of the actor, the flag and the serving worker throughout. -/
structure Base (s : Process) : Prop where
  keeps : s.actor.Keeps duty fun m a ↦ a.Settled m ∧ ∀ e, s.current = some e → Actor.Answered e m
  sane : s.actor.ghost.Sane
  flag : s.flag = s.actor.ghost.flag
  readies : ∀ r, (r, true) ∈ s.readies → s.actor.ghost.ready = true
  serving : s.worker = .serving → s.actor.ghost.ready = true
  ended : s.actorEnded = true → ∃ a, s.actor.prog = .ret a ∧ a.stage = .done

/-- What no thread but the actor changes. -/
structure Frame (s t : Process) : Prop where
  actor : t.actor = s.actor
  current : t.current = s.current
  flag : t.flag = s.flag
  actorEnded : t.actorEnded = s.actorEnded
  readies : t.readies = s.readies
  serving : t.worker = .serving → s.worker = .serving ∨ ∃ r, (r, true) ∈ s.readies

private theorem Frame.refl (s : Process) : Frame s s := ⟨rfl, rfl, rfl, rfl, rfl, .inl⟩

private theorem Frame.after {s t u : Process} (k : Frame t u) (h : Frame s t) : Frame s u where
  actor := k.actor.trans h.actor
  current := k.current.trans h.current
  flag := k.flag.trans h.flag
  actorEnded := k.actorEnded.trans h.actorEnded
  readies := k.readies.trans h.readies
  serving := fun hu ↦ (k.serving hu).elim h.serving fun hr ↦ .inr (h.readies ▸ hr)

private theorem frame_commit (s : Process) (ticket : Nat) (kind : TicketKind) :
    Frame s (s.commit ticket kind) := by
  unfold commit
  split
  · exact .refl s
  · exact ⟨rfl, rfl, rfl, rfl, rfl, nofun⟩

private theorem frame_workerTakes (s : Process) (cmd : WorkerCmd)
    (prepared : Except String Unit) : Frame s (s.workerTakes cmd prepared) := by
  have hsend : ∀ e, Frame s (s.send e) := fun e ↦ ⟨rfl, rfl, rfl, rfl, rfl, .inl⟩
  unfold workerTakes
  split
  · split
    · exact hsend _
    · exact frame_commit s _ .publish
  · split
    · exact hsend _
    · split
      · exact hsend _
      · exact frame_commit s _ .forkChild
  · split
    · exact .refl s
    · exact ⟨rfl, rfl, rfl, rfl, rfl, nofun⟩
  · exact ⟨rfl, rfl, rfl, rfl, rfl, nofun⟩

/-- An answer of yes was sent. -/
theorem mem_of_answerOn {s : Process} {sent : List (Nat × Bool)} {r : Nat}
    (h : s.answerOn sent r = some true) : (r, true) ∈ sent := by
  unfold answerOn at h
  split at h
  · next hl =>
    cases h
    obtain ⟨l₁, l₂, rfl, -⟩ := List.lookup_eq_some_iff.mp hl
    exact List.mem_append_right _ List.mem_cons_self
  · split at h <;> cases h

private theorem frame_workerAnswered {s t : Process} (h : s.workerAnswered = some t) :
    Frame s t := by
  unfold workerAnswered at h
  split at h
  · obtain ⟨answer, -, rfl⟩ := Option.map_eq_some_iff.mp h
    refine ⟨rfl, rfl, rfl, rfl, rfl, fun ht ↦ ?_⟩
    cases answer <;> cases ht
  · next r _ =>
    obtain ⟨answer, ha, rfl⟩ := Option.map_eq_some_iff.mp h
    refine ⟨rfl, rfl, rfl, rfl, rfl, fun ht ↦ ?_⟩
    cases answer with
    | false => cases ht
    | true => exact .inr ⟨r, mem_of_answerOn ha⟩
  · cases h

private theorem frame_handleExit (s : Process) (closing : Bool) :
    Frame s (s.handleExit closing) := by
  unfold handleExit
  split
  · exact ⟨rfl, rfl, rfl, rfl, rfl, .inl⟩
  · exact ⟨rfl, rfl, rfl, rfl, rfl, .inl⟩

private theorem frame_handleControl (s : Process) (msg : LoopMsg) :
    Frame s (s.handleControl msg) := by
  unfold handleControl
  split
  · split
    · exact ⟨rfl, rfl, rfl, rfl, rfl, .inl⟩
    · exact ⟨rfl, rfl, rfl, rfl, rfl, .inl⟩
  · split
    · exact (frame_handleExit _ _).after ⟨rfl, rfl, rfl, rfl, rfl, .inl⟩
    · exact .refl s
  · exact ⟨rfl, rfl, rfl, rfl, rfl, .inl⟩

private theorem frame_loopControl {s t : Process} (h : s.loopControl = some t) : Frame s t := by
  unfold loopControl at h
  split at h
  · next msg rest _ _ =>
    split at h
    · cases h
      exact (frame_handleControl _ _).after ⟨rfl, rfl, rfl, rfl, rfl, .inl⟩
    · cases h
      exact ⟨rfl, rfl, rfl, rfl, rfl, .inl⟩
    · cases h
  · cases h

private theorem frame_loopExit {s t : Process} (h : s.loopExit = some t) : Frame s t := by
  unfold loopExit at h
  split at h
  · split at h
    · cases h
      exact (frame_handleExit _ _).after ⟨rfl, rfl, rfl, rfl, rfl, .inl⟩
    · cases h
      exact (frame_handleExit _ _).after ⟨rfl, rfl, rfl, rfl, rfl, .inl⟩
    · cases h
  · cases h

private theorem frame_loopSends {s t : Process} (h : s.loopSends = some t) : Frame s t := by
  unfold loopSends at h
  split at h
  · cases h
    exact ⟨rfl, rfl, rfl, rfl, rfl, .inl⟩
  · dsimp only at h
    split at h
    · cases h
      exact ⟨rfl, rfl, rfl, rfl, rfl, .inl⟩
    · cases h
      exact ⟨rfl, rfl, rfl, rfl, rfl, .inl⟩
  · cases h

private theorem frame_loopExpires {s t : Process} (h : s.loopExpires = some t) : Frame s t := by
  unfold loopExpires at h
  split at h
  · split at h
    · cases h
      exact ⟨rfl, rfl, rfl, rfl, rfl, .inl⟩
    · cases h
  · cases h
    exact ⟨rfl, rfl, rfl, rfl, rfl, .inl⟩
  · cases h

private theorem frame_workerFinishes (s : Process) (ticket : Nat) (kind : TicketKind)
    (result : Except String (Int32 × Nat)) (kept : Bool) :
    Frame s (s.workerFinishes ticket kind result kept) := by
  unfold workerFinishes
  split <;> exact ⟨rfl, rfl, rfl, rfl, rfl, nofun⟩

/-- Only the actor's own steps change the actor. -/
theorem frame_step {s t : Process} {l : Label} (hl : ∀ x, l ≠ .actor x)
    (h : s.step l = some t) : Frame s t := by
  unfold step at h
  split at h
  · cases h
  · split at h
    · next x => exact absurd rfl (hl x)
    · split at h
      · next cmd rest _ _ =>
        cases h
        exact (frame_workerTakes _ _ _).after ⟨rfl, rfl, rfl, rfl, rfl, .inl⟩
      · cases h
    · exact frame_workerAnswered h
    · split at h
      · cases h
        exact ⟨rfl, rfl, rfl, rfl, rfl, .inl⟩
      · cases h
    · split at h
      · cases h
        exact frame_workerFinishes s _ _ _ _
      · cases h
    · split at h
      · cases h
        exact ⟨rfl, rfl, rfl, rfl, rfl, nofun⟩
      · cases h
    · exact frame_loopControl h
    · exact frame_loopExit h
    · exact frame_loopSends h
    · exact frame_loopExpires h
    · cases h
      exact ⟨rfl, rfl, rfl, rfl, rfl, .inl⟩
    · cases h
      exact ⟨rfl, rfl, rfl, rfl, rfl, .inl⟩
    · cases h
      exact ⟨rfl, rfl, rfl, rfl, rfl, .inl⟩
    · cases h
      unfold signal
      split
      · exact ⟨rfl, rfl, rfl, rfl, rfl, .inl⟩
      · exact ⟨rfl, rfl, rfl, rfl, rfl, .inl⟩
    · cases h
      exact ⟨rfl, rfl, rfl, rfl, rfl, .inl⟩
    · split at h
      · cases h
        exact ⟨rfl, rfl, rfl, rfl, rfl, .inl⟩
      · cases h

/-- What the actor's step may be: an interaction, its end, or the next event. -/
theorem actorStep_cases {s t : Process} {x : Outcome} (h : s.step (.actor x) = some t) :
    s.actorEnded = false ∧
      ((∃ o k, s.actor.prog = .ask o k ∧
          t = { s.effects o with
            actor := ⟨s.actor.ghost.next o (x.answer o), k (x.answer o)⟩
            log := marks o ++ s.log }) ∨
        (∃ a, s.actor.prog = .ret a ∧ a.stage = .done ∧
          t = { s with actorEnded := true, inbox := [] }) ∨
        ∃ a e rest, s.actor.prog = .ret a ∧ a.stage ≠ .done ∧ s.inbox = e :: rest ∧
          t = { s with
            actor := ⟨receive s.actor.ghost e, a.onEvent e⟩
            current := some e
            inbox := rest
            log := taken e ++ s.log }) := by
  have h : s.actorStep x = some t := by
    unfold step at h
    split at h
    · cases h
    · exact h
  unfold actorStep at h
  split at h
  · cases h
  · next hend =>
    refine ⟨by simpa using hend, ?_⟩
    split at h
    · next o k hp =>
      cases h
      exact .inl ⟨o, k, hp, rfl⟩
    · next a hp =>
      split at h
      · next hd =>
        cases h
        exact .inr (.inl ⟨a, hp, hd, rfl⟩)
      · next hd =>
        split at h
        · cases h
        · next e rest hi =>
          cases h
          exact .inr (.inr ⟨a, e, rest, hp, hd, hi, rfl⟩)

/-- The answers of the surroundings are those the actor may rely on. -/
theorem mayAnswer_answer (x : Outcome) (o : Op) : mayAnswer o (x.answer o) := by
  cases o with
  | writeCas expected next label =>
    intro w hw
    unfold Outcome.answer at hw
    dsimp only at hw
    split at hw
    · cases hw
    · next hc =>
      cases hx : x.write with
      | error e =>
        rw [hx] at hw
        cases hw
      | ok now =>
        rw [hx] at hw
        cases hw
        exact ⟨hc, now, rfl⟩
  | readRecord =>
    intro r hr
    cases hr
  | _ => trivial

/-- What an interaction of the actor leaves of the rest of the process. -/
theorem effects_frame (s : Process) (o : Op) :
    (s.effects o).current = s.current ∧ (s.effects o).inbox = s.inbox ∧
      (s.effects o).worker = s.worker ∧ (s.effects o).channels = s.channels ∧
      (s.effects o).loop = s.loop ∧ (s.effects o).exit = s.exit ∧
      (s.effects o).kills = s.kills ∧ (s.effects o).actorEnded = s.actorEnded := by
  cases o <;> exact ⟨rfl, rfl, rfl, rfl, rfl, rfl, rfl, rfl⟩

/-! ### The base invariant is kept -/

theorem Sane.receive {m : Ghost} (h : m.Sane) (e : ActorEvent) : (receive m e).Sane := by
  cases e with
  | completed ticket result =>
    exact ⟨h.told, h.flag, h.apart, fun hc ↦ by simp [Daemon.receive, h.concluded hc], h.stopped⟩
  | commit ticket reply => exact ⟨h.told, h.flag, h.apart, h.concluded, h.stopped⟩
  | _ => exact h

/-- What an actor between two events satisfies. -/
theorem Base.settled {s : Process} (h : Base s) {a : Actor} (hp : s.actor.prog = .ret a) :
    a.Settled s.actor.ghost ∧ ∀ e, s.current = some e → Actor.Answered e s.actor.ghost := by
  have hk := h.keeps
  unfold Thread.Keeps at hk
  rw [hp] at hk
  exact hk

theorem Base.inv {s : Process} (h : Base s) {a : Actor} (hp : s.actor.prog = .ret a)
    (hd : a.stage ≠ .done) : a.Inv s.actor.ghost := by
  obtain ⟨-, hinv⟩ | ⟨hdone, -⟩ := (h.settled hp).1
  · exact hinv
  · exact absurd hdone hd

/-- An interaction of the actor is one that the contract admits. -/
theorem Base.mayAsk {s : Process} (h : Base s) {o : Op} {k : o.Ans → Act Actor}
    (hp : s.actor.prog = .ask o k) : Operation.mayAsk s.actor.ghost o := by
  have hk := h.keeps
  unfold Thread.Keeps at hk
  rw [hp] at hk
  exact hk.1

theorem later_receive (m : Ghost) (e : ActorEvent) : m.Later (receive m e) := by
  cases e <;> exact ⟨id, id, id, id, id, id, fun _ ↦ id⟩

theorem Base.of_frame {s t : Process} (h : Base s) (hf : Frame s t) : Base t where
  keeps := by
    rw [hf.actor, hf.current]
    exact h.keeps
  sane := hf.actor ▸ h.sane
  flag := by rw [hf.flag, hf.actor, h.flag]
  readies := by
    rw [hf.readies, hf.actor]
    exact h.readies
  serving := fun ht ↦ by
    rw [hf.actor]
    exact (hf.serving ht).elim h.serving fun ⟨r, hr⟩ ↦ h.readies r hr
  ended := by
    rw [hf.actorEnded, hf.actor]
    exact h.ended

private theorem Base.ask {s : Process} (h : Base s) {x : Outcome} {o : Op}
    {k : o.Ans → Act Actor} (hp : s.actor.prog = .ask o k) (hend : s.actorEnded = false) :
    Base { s.effects o with
      actor := ⟨s.actor.ghost.next o (x.answer o), k (x.answer o)⟩
      log := marks o ++ s.log } := by
  have hk := h.keeps
  unfold Thread.Keeps at hk
  rw [hp] at hk
  refine ⟨?_, h.sane.next hk.1, ?_, ?_, ?_, ?_⟩
  · rw [(s.effects_frame o).1]
    exact hk.2 _ (mayAnswer_answer x o)
  · have hf := h.flag
    cases o with
    | writeCas => exact hf
    | setTransferred => rfl
    | replyCommit reply ticket answer => cases answer <;> exact hf
    | replyReady reply answer => cases answer <;> exact hf
    | tellWorker cmd => cases cmd <;> exact hf
    | tellLoop msg => cases msg <;> exact hf
    | _ => exact hf
  · cases o with
    | replyReady reply answer =>
      intro r hr
      cases answer with
      | true => rfl
      | false =>
        rcases List.mem_cons.mp hr with heq | hr
        · cases heq
        · exact (Ghost.Later.next _ _ _).ready (h.readies r hr)
    | _ => exact fun r hr ↦ (Ghost.Later.next _ _ _).ready (h.readies r hr)
  · intro hw
    rw [(s.effects_frame o).2.2.1] at hw
    exact (Ghost.Later.next _ _ _).ready (h.serving hw)
  · intro he
    rw [(s.effects_frame o).2.2.2.2.2.2.2, hend] at he
    cases he

theorem Base.step {s t : Process} {l : Label} (h : Base s) (hs : s.step l = some t) : Base t := by
  by_cases hl : ∃ x, l = .actor x
  · obtain ⟨x, rfl⟩ := hl
    obtain ⟨hend, ⟨o, k, hp, rfl⟩ | ⟨a, hp, hd, rfl⟩ | ⟨a, e, rest, hp, hd, hi, rfl⟩⟩ :=
      actorStep_cases hs
    · exact h.ask hp hend
    · exact ⟨h.keeps, h.sane, h.flag, h.readies, h.serving, fun _ ↦ ⟨a, hp, hd⟩⟩
    · have hinv := h.inv hp hd
      have hready : s.actor.ghost.ready = true → (receive s.actor.ghost e).ready = true := by
        cases e <;> exact id
      refine ⟨?_, Sane.receive h.sane e, ?_, fun r hr ↦ hready (h.readies r hr),
        fun hw ↦ hready (h.serving hw), ?_⟩
      · refine (Actor.onEvent_keeps hinv hd e).mono fun m a' ha ↦ ⟨ha.1, fun e' he' ↦ ?_⟩
        cases he'
        exact ha.2
      · rw [h.flag]
        cases e <;> rfl
      · intro he
        have := hend.symm.trans he
        cases this
  · exact h.of_frame (frame_step (fun x hx ↦ hl ⟨x, hx⟩) hs)

theorem Base.init {s : Process} (h : Init s) : Base s := by
  obtain ⟨digest, operationId, runtimeId, me, record, hc, hs, -, -, rfl⟩ := h
  refine ⟨?_, ⟨nofun, nofun, nofun, nofun, nofun⟩, rfl, nofun, nofun, nofun⟩
  exact (Actor.start_keeps (freshActor_inv hc hs) nofun).mono fun m a' ha ↦ ⟨ha, nofun⟩

/-- Every reached state satisfies the base invariant. -/
theorem base_of_reached {ok : Process → Label → Bool} {s : Process} (h : Reached ok s) : Base s :=
  h.induct (fun _ ↦ Base.init) fun _ _ _ hb ⟨_, _, hs⟩ ↦ hb.step hs

/-! ### A launch that goes well -/

/-- A run from a reached state reaches where it ends. -/
theorem Reached.run {ok : Process → Label → Bool} {s t : Process} {ls : List Label}
    (h : Reached ok s) (hr : s.run ok ls = some t) : Reached ok t := by
  induction ls generalizing s with
  | nil =>
    cases hr
    exact h
  | cons l ls ih =>
    unfold Process.run at hr
    split at hr
    · next hok =>
      obtain ⟨u, hs, hr⟩ := Option.bind_eq_some_iff.mp hr
      exact ih (h.tail ⟨l, hok, hs⟩) hr
    · cases hr

/-- Surroundings that refuse nothing and in which no barrier is armed. -/
def calm : (q : EnvOp) → q.Ans
  | .now => "t"
  | .newGeneration => "g"
  | .daemonFds | .readGate | .waitExit _ | .watchObserved _ => true
  | .armed _ => false
  | .daemonConfig => .ok "rt"
  | .current => .ok ⟨7, "1:0", "boot", 501⟩
  | .processOf pid => .ok ⟨pid, "1:0", "boot", 501⟩
  | .bootIdentity => some "boot"
  | .procTable | .processTableOf _ => .unreadable
  | .pin _ _ => .ok true
  | .livenessAfterExit _ _ => .gone
  | .waitWatch _ _ => .observed
  | .lockExclusive => .taken
  | .settle _ => ⟨"", none, false, .null⟩
  | .creationLockWords _ => some ["7", "n"]
  | .creationLockNonce => some "n"
  | .observeOccupancy _ => .absent
  | .unwindPublication _ _ _ | .unwindRow _ => "removed"
  | .receiveEnvelope => .error ("", "")
  | .peekWithdrawal _ => none
  | .spawnGated _ => .ok 7
  | .startControl | .signalKill _ | .validateControlFd | .rehome | .lockEvents _ | .lockCreation _
  | .daemonExecutable | .resolveCommand | .delegateCreation | .handOverCreation _
  | .releaseGated _ => .ok ()
  | .armWatch _ | .killChild _ | .shutGate _ | .unlock | .frame _ | .warn _ | .ioSync | .ioClose
  | .waitReleased _ | .barrier _ | .releaseCreationLock _ _ | .markTransferred _ _
  | .releaseEvents _ | .abandonGated _ => ()

/-- The actor acts `n` times in calm surroundings. -/
def acts (n : Nat) : List Label := List.replicate n (.actor ⟨calm, .ok "t", true⟩)

/-- The daemon of the launches below. -/
def launchedBy : ProcessId := ⟨7, "1:0", "boot", 501⟩

/-- The record that daemon finds. -/
def gatedRecord : OperationRecord :=
  { OperationRecord.reserved ⟨"sha", .null, "op", "rt", none⟩ "t" with
    state := .pending
    phase := .daemonGated
    writer := .of .producer launchedBy
    participants := ⟨some launchedBy, some launchedBy, none⟩ }

/-- That daemon as `main` starts it. -/
def gated : Process :=
  { actor := ⟨{}, (freshActor "digest" gatedRecord launchedBy "op" "rt").start⟩ }

theorem gated_reached {ok : Process → Label → Bool} : Reached ok gated :=
  .base ⟨"digest", "op", "rt", launchedBy, gatedRecord, rfl, rfl, rfl, rfl, rfl⟩

/-- The decision, the publication and the fork, up to the held child's acknowledgement. -/
def toForked : List Label :=
  acts 3 ++ [.synced] ++ acts 10 ++ [.workerTakes (.ok ())] ++ acts 2 ++
    [.workerAnswered, .workerEffect, .workerFinishes (.ok (0, 0)) false] ++ acts 4 ++
    [.workerTakes (.ok ())] ++ acts 2 ++ [.workerAnswered, .workerEffect]

/-- The held child is prepared and the loop serves. -/
def toServing : List Label :=
  toForked ++ [.workerFinishes (.ok (9, 0)) false, .workerAck .prepared] ++ acts 7 ++
    [.workerTakes (.ok ())] ++ acts 3 ++ [.workerAnswered]

/-- The owner's command that transfers the session. -/
def transferCommand : Label := .owner (.frame (.command (.transfer "r" "7:t" "g")))

end Process
end PtySpec.Daemon
