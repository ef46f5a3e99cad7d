import PtySpec.Handle.Transactions
import PtySpec.Lib.Revisions

/-!
# Frames and those who watch them

The thread of a handle with the threads around it: `run` and `flush_frame`,
`crates/pty/src/handle.rs:435-530`, `985-1005`, leases on its frames,
`handle.rs:1397`, and readers that call `snapshot`, `handle.rs:1425`, or draw a pane through
`cached_grid`, `crates/pty-tui/src/pane.rs:431`. They share a counter of the observers, a queue,
the published revision and two caches, and interleave at every access to one of them.
-/

namespace PtySpec.Handle

open Lib Vt

/-- What a capture of a terminal shows. -/
structure Shown (G : Type) where
  term : G
  modes : Modes
  cell : CellSize

/-- What is there to be captured. -/
def Core.shown {G ν : Type} (c : Core G ν) : Shown G := ⟨c.actor.term, c.actor.modes, c.actor.cell⟩

/-! ### What a message does to it -/

/-- Neither a publication nor an answer to `snapshot`. -/
def Effect.plain {ν : Type} : Effect ν → Bool
  | .publish | .snapshot .. => false
  | _ => true

/-- A terminal changes only with a publication, which is marked after it, and nothing is
answered to `snapshot`. -/
structure Handled {G ν : Type} (c d : Core G ν) (es : List (Effect ν)) : Prop where
  kept : .publish ∉ es → d.shown = c.shown
  marked : ∀ pre post, es = pre ++ .publish :: post → .dirty ∈ post
  silent : ∀ offset reply, .snapshot offset reply ∉ es

section Messages

variable {G ν : Type} {c d : Core G ν} {es : List (Effect ν)}

private theorem not_mem_of_plain (h : es.all Effect.plain = true) : .publish ∉ es := fun hm ↦ by
  simpa [Effect.plain] using List.all_eq_true.mp h _ hm

private theorem snapshot_not_mem_of_plain (h : es.all Effect.plain = true) (offset reply : Nat) :
    .snapshot offset reply ∉ es := fun hm ↦ by
  simpa [Effect.plain] using List.all_eq_true.mp h _ hm

private theorem Handled.of_plain (hs : d.shown = c.shown) (h : es.all Effect.plain = true) :
    Handled c d es where
  kept _ := hs
  marked pre post he := by
    refine absurd ?_ (not_mem_of_plain h)
    rw [he]
    exact List.mem_append_right _ List.mem_cons_self
  silent := snapshot_not_mem_of_plain h

private theorem plain_input (c : Core G ν) (source : Source) (bytes : List UInt8) :
    (c.input source bytes).all Effect.plain = true := by
  unfold Core.input
  split
  · rfl
  · split <;> rfl

private theorem plain_refuseRead (c : Core G ν) (source : Source) (id : Option PasteId) :
    (c.refuseRead source id).all Effect.plain = true := by
  unfold Core.refuseRead
  split
  · exact plain_input _ _ _
  · rfl

private theorem plain_publishEvent (c : Core G ν) (event : TerminalEvent (Tapped ν)) :
    (c.publishEvent event).2.all Effect.plain = true := by
  unfold Core.publishEvent
  split <;> try rfl
  split
  · rfl
  · split
    · exact plain_refuseRead _ _ _
    · rfl

private theorem plain_publishEvents (events : List (TerminalEvent (Tapped ν))) (c : Core G ν) :
    (c.publishEvents events).2.all Effect.plain = true := by
  induction events generalizing c with
  | nil => rfl
  | cons event rest ih =>
    unfold Core.publishEvents
    dsimp only
    rw [List.all_append, plain_publishEvent, ih, Bool.and_self]

private theorem plain_taken {attempt : Nat} {target : PasteTarget} {packet : PastePacket}
    {result : Except PasteRefusal Unit} (h : Taken c attempt target packet result d es) :
    es.all Effect.plain = true := by
  cases h with
  | listed => exact plain_input _ _ _
  | _ => rfl

private theorem shown_of_actor (h : d.actor = c.actor) : d.shown = c.shown := by
  unfold Core.shown
  rw [h]

private theorem Handled.congr {b : Core G ν} (h : Handled c d es) (hs : c.shown = b.shown) :
    Handled b d es := { h with kept := fun hn ↦ (h.kept hn).trans hs }

variable [Emulator G]

/-- A publication starts with the revision and ends with the mark. -/
private theorem publish_shape (c : Core G ν) : ∃ mid, mid.all Effect.plain = true ∧
    c.publish.2 = .publish :: mid ++ [.dirty] := by
  have he : ∀ a b : List (Effect ν), .publish :: a ++ b ++ [.dirty] =
      .publish :: (a ++ b) ++ [.dirty] := fun _ _ ↦ rfl
  refine ⟨_, ?_, he _ _⟩
  rw [List.all_append, plain_publishEvents, Bool.true_and]
  split <;> rfl

/-- A publication among effects that are plain. -/
private theorem Handled.of_publish (pre post : List (Effect ν)) (p : Core G ν)
    (he : es = pre ++ p.publish.2 ++ post) (hpre : pre.all Effect.plain = true)
    (hpost : post.all Effect.plain = true) : Handled c d es := by
  obtain ⟨mid, hmid, hp⟩ := publish_shape p
  let rest : List (Effect ν) := mid ++ [.dirty] ++ post
  have hall : rest.all Effect.plain = true := by
    rw [List.all_append, List.all_append, hmid, hpost]
    rfl
  obtain rfl : es = pre ++ .publish :: rest := by
    rw [he, hp]
    simp only [rest, List.append_assoc, List.cons_append]
  constructor
  · intro hn
    exact absurd (List.mem_append_right _ List.mem_cons_self) hn
  · intro a b hab
    have hcases := List.append_eq_append_iff.mp hab
    have hb : b = rest := by
      rcases hcases with ⟨l, ha, hl⟩ | ⟨l, ha, hl⟩
      · cases l with
        | nil => exact (List.cons.inj hl).2.symm
        | cons x l =>
          obtain ⟨-, hl⟩ := List.cons.inj hl
          refine absurd ?_ (not_mem_of_plain hall)
          rw [hl]
          exact List.mem_append_right _ List.mem_cons_self
      · cases l with
        | nil => exact (List.cons.inj hl).2
        | cons x l =>
          obtain ⟨rfl, -⟩ := List.cons.inj hl
          refine absurd ?_ (not_mem_of_plain hpre)
          rw [ha]
          exact List.mem_append_right _ List.mem_cons_self
    rw [hb]
    exact List.mem_append_left _ (List.mem_append_right _ (List.mem_singleton_self _))
  · intro offset reply hm
    rcases List.mem_append.mp hm with hm | hm
    · exact snapshot_not_mem_of_plain hpre offset reply hm
    · rcases List.mem_cons.mp hm with hm | hm
      · cases hm
      · exact snapshot_not_mem_of_plain hall offset reply hm

/-- A publication by itself. -/
theorem Handled.publish (c : Core G ν) : Handled c c.publish.1 c.publish.2 :=
  .of_publish [] [] c (List.append_nil _).symm rfl rfl

omit [Emulator G] in
private theorem shown_endStream (h : c.actor.modes.enhancedPaste = false) :
    c.endStream.2.shown = c.shown := by
  unfold Core.endStream TerminalActor.endStream Core.shown
  simp [h]

/-- The end of a stream is published where it can be seen. -/
private theorem Handled.endStreamPublished (pre post : List (Effect ν))
    (hd : d.shown = c.endStreamPublished.1.shown)
    (he : es = pre ++ c.endStreamPublished.2 ++ post) (hpre : pre.all Effect.plain = true)
    (hpost : post.all Effect.plain = true) : Handled c d es := by
  unfold Core.endStreamPublished at hd he
  dsimp only at hd he
  split at he
  · exact .of_publish pre post _ he hpre hpost
  · next hoff =>
    rw [if_neg hoff] at hd
    have hs := shown_endStream (c := c) (Bool.not_eq_true _ ▸ hoff)
    refine .of_plain (hd.trans hs) ?_
    rw [he, List.append_nil, List.all_append, hpre, hpost, Bool.and_self]

private theorem Handled.resize (c : Core G ν) (cols rows : UInt16) :
    Handled c (c.resize cols rows).1 (c.resize cols rows).2 := by
  unfold Core.resize
  split
  · split
    · exact .of_plain rfl rfl
    · exact .of_publish [] _ _ rfl rfl rfl
  · split
    · exact .of_plain rfl rfl
    · refine .of_plain rfl ?_
      dsimp only
      split <;> rfl

private theorem Handled.onExit (c : Core G ν) (code : Int32) :
    Handled c (c.onExit code).1 (c.onExit code).2 :=
  .of_publish [] _ _ rfl rfl rfl

private theorem Handled.onDisconnected (c : Core G ν) :
    Handled c c.onDisconnected.1 c.onDisconnected.2 :=
  .endStreamPublished [] [.emit .disconnected] rfl rfl rfl rfl

private theorem Handled.setCellSize (c : Core G ν) (cell : CellSize) :
    Handled c (c.setCellSize cell).1 (c.setCellSize cell).2 := by
  have hp : ∀ p : Core G ν, Handled c p.publish.1 p.publish.2 := fun p ↦
    .of_publish [] [] p (List.append_nil _).symm rfl rfl
  unfold Core.setCellSize
  dsimp only
  split
  · split
    · exact hp _
    · refine .of_publish _ [] _ (List.append_nil _).symm ?_ rfl
      split <;> rfl
  · exact hp _

private theorem Handled.reconnect (c : Core G ν) (attached : Bool) :
    Handled c (c.reconnect attached).1 (c.reconnect attached).2 := by
  unfold Core.reconnect
  split
  · exact .of_plain rfl rfl
  · next opts stream _ =>
    refine Handled.congr (c := { c with backend := .attach opts none }) ?_ rfl
    refine .endStreamPublished _ _ rfl rfl ?_ ?_
    · split <;> rfl
    · split <;> rfl

variable [NotificationTap ν]

private theorem Handled.onOutput (c : Core G ν) (bytes : List UInt8) :
    Handled c (c.onOutput bytes).1 (c.onOutput bytes).2 := by
  refine .of_publish _ [] _ (List.append_nil _).symm ?_ rfl
  split
  · split <;> rfl
  · rfl

private theorem Handled.onFrame (c : Core G ν) (packet : Protocol.Packet) :
    Handled c (c.onFrame packet).1 (c.onFrame packet).2 := by
  unfold Core.onFrame
  split
  · exact .of_publish [] _ _ rfl rfl rfl
  · exact .of_publish [] [] _ (List.append_nil _).symm rfl rfl
  · exact .onExit c _
  · exact .of_publish [] _ _ rfl rfl rfl
  · exact .of_plain rfl rfl

/-- Whatever the message, what can be seen of the terminal changes only with a publication. -/
theorem Handled.dispatch (c : Core G ν) (msg : Msg G)
    (hm : ∀ offset reply, msg ≠ .snapshot offset reply) :
    Handled c (c.dispatch msg).1 (c.dispatch msg).2 := by
  cases msg with
  | output attempt bytes =>
    unfold Core.dispatch
    dsimp only
    split
    · exact .onOutput c bytes
    · exact .of_plain rfl rfl
  | frame attempt packet =>
    unfold Core.dispatch
    dsimp only
    split
    · exact .onFrame c packet
    · exact .of_plain rfl rfl
  | disconnected attempt =>
    unfold Core.dispatch
    dsimp only
    split
    · exact .onDisconnected c
    · exact .of_plain rfl rfl
  | childExited attempt code =>
    unfold Core.dispatch
    dsimp only
    split
    · exact .onExit c code
    · exact .of_plain rfl rfl
  | input bytes => exact .of_plain rfl (plain_input _ _ _)
  | resize cols rows => exact .resize c cols rows
  | snapshot offset reply => exact absurd rfl (hm offset reply)
  | captureFrame offset reply =>
    refine .of_plain rfl ?_
    unfold Core.dispatch
    dsimp only
    split <;> rfl
  | observeFrames => exact .of_plain rfl rfl
  | query => exact .of_plain rfl rfl
  | clearGraphics => exact .of_publish [] [] _ (List.append_nil _).symm rfl rfl
  | cellSize cell => exact .setCellSize c cell
  | event ev =>
    refine .of_plain rfl ?_
    unfold Core.dispatch
    dsimp only
    split
    · rfl
    · exact plain_input _ _ _
  | setPalette colors =>
    exact .of_publish [] [] _ (List.append_nil _).symm rfl rfl
  | enhancedPaste attempt target packet =>
    have ht := Core.writePaste_taken c attempt target packet
    refine .of_plain (shown_of_actor ht.actor) ?_
    unfold Core.dispatch
    dsimp only
    rw [List.all_append, plain_taken ht]
    rfl
  | reconnect attached => exact .reconnect c attached

/-- A message is handled, or it asks for a snapshot and is answered. -/
theorem dispatch_cases (c : Core G ν) (msg : Msg G) :
    Handled c (c.dispatch msg).1 (c.dispatch msg).2 ∨
      ∃ offset reply, msg = .snapshot offset reply ∧
        c.dispatch msg = (c, [.snapshot offset reply]) := by
  cases msg with
  | snapshot offset reply => exact .inr ⟨offset, reply, rfl, rfl⟩
  | _ => exact .inl (.dispatch c _ nofun)

theorem dispatch_kept {c : Core G ν} {msg : Msg G} (h : .publish ∉ (c.dispatch msg).2) :
    (c.dispatch msg).1.shown = c.shown := by
  rcases dispatch_cases c msg with hm | ⟨_, _, rfl, _⟩
  · exact hm.kept h
  · rfl

theorem dispatch_marked (c : Core G ν) (msg : Msg G) (pre post : List (Effect ν))
    (h : (c.dispatch msg).2 = pre ++ .publish :: post) : .dirty ∈ post := by
  rcases dispatch_cases c msg with hm | ⟨offset, reply, rfl, _⟩
  · exact hm.marked pre post h
  · have hm : (.publish : Effect ν) ∈ [.snapshot offset reply] := by
      rw [show [_] = _ from h]
      exact List.mem_append_right _ List.mem_cons_self
    simp at hm

end Messages

/-! ### The threads -/

/-- `Frame`, `handle.rs:150`; the default one was never captured. -/
structure Frame (G : Type) where
  rev : Nat := 0
  shown : Option (Shown G) := none

/-- What the thread has still to do. `store` and `clear` are the two ends of `flush_frame`, `due`
is `flush_due`. -/
inductive Op (ν : Type) where
  | effect (e : Effect ν)
  | due
  | store
  | clear

/-- Where `run` is: between messages of a burst, done with a burst, or after the last message. -/
inductive Phase where
  | busy
  | settling
  | stopping
  | stopped
  deriving DecidableEq, Repr

/-- `Msg` and `Msg::Close`, as they are queued. -/
inductive Mail (G : Type) [Emulator G] where
  | msg (m : Msg G)
  | close

/-- What is seen of the frames: a frame is published, a `Dirty` or another event emitted. -/
inductive Seen (ν : Type) where
  | frame (rev : Nat)
  | dirty (rev : Nat)
  | event (event : HandleEvent ν)

/-- What an entry of the pane's cache was made for, `pane.rs:413`. -/
structure PaneKey where
  rev : Nat
  offset : Nat
  cols : UInt16
  rows : UInt16
  deriving DecidableEq, Repr

/-- Where a reader is within `cached_grid`, `pane.rs:431`, or `snapshot`, `handle.rs:1425`; the
first number is the revision when the call began. A reader whose answer goes to the pane's cache
has the key for it. -/
inductive Caller (Grid : Type) where
  | idle
  | paneRev (began offset : Nat)
  | paneCols (began rev offset : Nat)
  | paneRows (began rev offset : Nat) (cols : UInt16)
  | paneLookup (began : Nat) (key : PaneKey)
  | lookup (began offset : Nat) (pane : Option PaneKey)
  | request (began offset : Nat) (pane : Option PaneKey)
  | asked (began offset reply : Nat) (pane : Option PaneKey)
  | insert (began : Nat) (key : PaneKey) (grid : Option Grid)

/-- A grid that a call returned; `none` is `CellGrid::default`. -/
structure Returned (Grid : Type) where
  began : Nat
  offset : Nat
  grid : Option Grid

/-- A handle and the threads around it. `published` has the terminal as made and each published
one. A lease is counted in `waking` until its thread has sent the wake-up, and in `held` then. -/
structure System (G ν : Type) [Emulator G] where
  core : Core G ν
  todo : List (Op ν)
  phase : Phase := .settling
  queue : List (Mail G) := []
  published : List (Shown G)
  dirty : Bool := false
  frame : Frame G := {}
  seen : List (Seen ν) := []
  observers : Nat := 0
  waking : Nat := 0
  held : Nat := 0
  snapCache : Option (Nat × Emulator.CellGrid G) := none
  replies : Nat → Option (Nat × Emulator.CellGrid G) := fun _ ↦ none
  asks : Nat := 0
  callers : Nat → Caller (Emulator.CellGrid G) := fun _ ↦ .idle
  entry : Option (PaneKey × Option (Emulator.CellGrid G)) := none
  returned : List (Returned (Emulator.CellGrid G)) := []

namespace System

variable {G ν : Type} [Emulator G]

/-- `rev` of the shared state. -/
def rev (s : System G ν) : Nat := s.published.length - 1

/-- The width of the last published terminal. -/
def cols (s : System G ν) : UInt16 := (s.published.getLast?.map fun x ↦ Ghostty.cols x.term).getD 0

/-- The height of the last published terminal. -/
def rows (s : System G ν) : UInt16 := (s.published.getLast?.map fun x ↦ Ghostty.rows x.term).getD 0

/-- `Sender::send`; a stopped handle has no receiver. -/
def send (s : System G ν) (mail : Mail G) : System G ν :=
  if s.phase = .stopped then s else { s with queue := s.queue ++ [mail] }

/-- `Core::flush_frame`, `handle.rs:507`, up to its first access to what others read. -/
def flushFrame (s : System G ν) (force : Bool) : System G ν :=
  if !s.dirty && !force then s
  else if force ∨ 0 < s.observers then { s with todo := .store :: .clear :: s.todo }
  else { s with todo := .clear :: s.todo }

/-- One effect of a message. -/
def effect (s : System G ν) : Effect ν → System G ν
  | .publish => { s with published := s.published ++ [s.core.shown], snapCache := none }
  | .emit event => { s with seen := s.seen ++ [.event event] }
  | .dirty => { s with dirty := true }
  | .flush force => s.flushFrame force
  | .observe => if 0 < s.observers then { s with dirty := true } else s
  | .snapshot offset reply => { s with
      replies := Function.update s.replies reply
        (some (s.rev, Emulator.snapshot s.core.actor.term offset)) }
  | .input _ | .packet _ | .capture _ _ | .answer .. => s

/-- The first thing that the thread has to do is done. -/
def op (s : System G ν) : Op ν → System G ν
  | .effect e => s.effect e
  | .due => s
  | .store => { s with
      frame := ⟨s.rev, some s.core.shown⟩
      seen := s.seen ++ [.frame s.rev] }
  | .clear => { s with dirty := false, seen := s.seen ++ [.dirty s.rev] }

/-- The thread takes a message, and looks at the time after it. -/
def handle [NotificationTap ν] (s : System G ν) (m : Msg G) (rest : List (Mail G)) :
    System G ν :=
  { s with
    core := (s.core.dispatch m).1
    todo := (s.core.dispatch m).2.map .effect ++ [.due]
    phase := .busy
    queue := rest }

/-- The thread takes the last message: `shutdown`, `handle.rs:957`. -/
def stop (s : System G ν) (rest : List (Mail G)) : System G ν :=
  { s with
    core := s.core.shutdown.1
    todo := s.core.shutdown.2.map .effect
    phase := .stopping
    queue := rest }

/-- `observe_frames`, `handle.rs:1397`, up to the wake-up that the first lease sends. -/
def acquire (s : System G ν) : System G ν :=
  if s.observers = 0 then { s with observers := s.observers + 1, waking := s.waking + 1 }
  else { s with observers := s.observers + 1, held := s.held + 1 }

/-- Where a caller is. -/
def withCaller (s : System G ν) (i : Nat) (c : Caller (Emulator.CellGrid G)) : System G ν :=
  { s with callers := Function.update s.callers i c }

/-- A call returns. -/
def return_ (s : System G ν) (i began offset : Nat) (grid : Option (Emulator.CellGrid G)) :
    System G ν :=
  { s.withCaller i .idle with returned := s.returned ++ [⟨began, offset, grid⟩] }

/-- `snapshot` has its grid, which the pane's cache is given if it was asked for it. -/
def answered (s : System G ν) (i began offset : Nat) (pane : Option PaneKey)
    (grid : Option (Emulator.CellGrid G)) : System G ν :=
  match pane with
  | none => s.return_ i began offset grid
  | some key => s.withCaller i (.insert began key grid)

/-- A reply is kept for its revision, `handle.rs:1447`. -/
def remember (s : System G ν) (offset rev : Nat) (grid : Emulator.CellGrid G) : System G ν :=
  if offset = 0 ∧ s.rev = rev then { s with snapCache := some (rev, grid) } else s

/-- The next step of a call of `cached_grid` or `snapshot`. -/
def call (s : System G ν) (i : Nat) : System G ν :=
  match s.callers i with
  | .idle => s
  | .paneRev began offset => s.withCaller i (.paneCols began s.rev offset)
  | .paneCols began rev offset => s.withCaller i (.paneRows began rev offset s.cols)
  | .paneRows began rev offset cols =>
    s.withCaller i (.paneLookup began ⟨rev, offset, cols, s.rows⟩)
  | .paneLookup began key =>
    match s.entry with
    | some (k, grid) =>
      if k = key then s.return_ i began key.offset grid
      else s.withCaller i (.lookup began key.offset (some key))
    | none => s.withCaller i (.lookup began key.offset (some key))
  | .lookup began offset pane =>
    match s.snapCache with
    | some (rev, grid) =>
      if offset = 0 ∧ rev = s.rev then s.answered i began offset pane (some grid)
      else s.withCaller i (.request began offset pane)
    | none => s.withCaller i (.request began offset pane)
  | .request began offset pane =>
    if s.phase = .stopped then s.answered i began offset pane none
    else
      { s.withCaller i (.asked began offset s.asks pane) with asks := s.asks + 1 }.send
        (.msg (.snapshot offset s.asks))
  | .asked began offset reply pane =>
    match s.replies reply with
    | some (rev, grid) => (s.remember offset rev grid).answered i began offset pane (some grid)
    -- the request was dropped with the queue, before that the call waits
    | none => if s.phase = .stopped then s.answered i began offset pane none else s
  | .insert began key grid =>
    { s.return_ i began key.offset grid with entry := some (key, grid) }

/-- The steps of the handle's thread, of those who take leases and send messages, and of the
readers. -/
inductive Step [NotificationTap ν] : System G ν → System G ν → Prop where
  | op (s : System G ν) (o : Op ν) (rest : List (Op ν)) (h : s.todo = o :: rest) :
    Step s ({ s with todo := rest }.op o)
  | due (s : System G ν) (rest : List (Op ν)) (h : s.todo = .due :: rest)
    (dirty : s.dirty = true) (observed : 0 < s.observers) :
    Step s { s with todo := .effect (.flush false) :: rest }
  | receive (s : System G ν) (m : Msg G) (rest : List (Mail G)) (h : s.todo = [])
    (running : s.phase = .busy ∨ s.phase = .settling) (hq : s.queue = .msg m :: rest) :
    Step s (s.handle m rest)
  | close (s : System G ν) (rest : List (Mail G)) (h : s.todo = [])
    (running : s.phase = .busy ∨ s.phase = .settling) (hq : s.queue = .close :: rest) :
    Step s (s.stop rest)
  | drained (s : System G ν) (h : s.todo = []) (busy : s.phase = .busy) (hq : s.queue = []) :
    Step s { s with phase := .settling, todo := [.effect (.flush false)] }
  | hangUp (s : System G ν) (h : s.todo = []) (settled : s.phase = .settling)
    (hq : s.queue = []) (gone : ∀ i, s.callers i = .idle) :
    Step s (s.stop [])
  | stopped (s : System G ν) (h : s.todo = []) (stopping : s.phase = .stopping) :
    Step s { s with phase := .stopped, queue := [] }
  | acquire (s : System G ν) : Step s s.acquire
  | wake (s : System G ν) (h : 0 < s.waking) :
    Step s ({ s with waking := s.waking - 1, held := s.held + 1 }.send (.msg .observeFrames))
  | drop (s : System G ν) (h : 0 < s.held) :
    Step s { s with observers := s.observers - 1, held := s.held - 1 }
  | post (s : System G ν) (m : Msg G) (h : ∀ offset reply, m ≠ .snapshot offset reply) :
    Step s (s.send (.msg m))
  | postClose (s : System G ν) : Step s (s.send .close)
  | snapshot (s : System G ν) (i offset : Nat) (h : s.callers i = .idle) :
    Step s (s.withCaller i (.lookup s.rev offset none))
  | cachedGrid (s : System G ν) (i offset : Nat) (h : s.callers i = .idle) :
    Step s (s.withCaller i (.paneRev s.rev offset))
  | call (s : System G ν) (i : Nat) : Step s (s.call i)
  | clearCache (s : System G ν) : Step s { s with entry := none }

/-- A handle as its thread starts: it publishes, and flushes, before it takes a message. The
pane's cache has no entry for it. -/
def start (c : Core G ν) : System G ν where
  core := c.publish.1
  todo := c.publish.2.map .effect ++ [.effect (.flush false)]
  published := [c.shown]

/-- The thread is about to wait, and nothing is queued. -/
def Waits (s : System G ν) : Prop := s.phase = .settling ∧ s.todo = [] ∧ s.queue = []

end System

end PtySpec.Handle
