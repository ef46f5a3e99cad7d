import PtySpec.Vt.History
import PtySpec.Vt.Queries

/-!
# The actor's write loop

Model of `TerminalActor::write`, `crates/pty-terminal/src/actor.rs:558-762`. Output for the
terminal is kept in a buffer that is flushed before an answer, so that answers come in the
order of the queries, and at the end of a chunk. libghostty is a parameter, and so is what
is read out of a notification or a read request. `Plain` is the writer without the buffer:
one piece of the stream at a time, each put into the terminal at once.
-/

namespace PtySpec.Vt

open Lib

/-- `CellSize`, `graphics.rs:45`. -/
structure CellSize where
  width : UInt32
  height : UInt32
  deriving DecidableEq, Repr

/-- `CellSize::or_fallback`, `graphics.rs:71`. -/
def CellSize.orFallback (c : CellSize) : CellSize :=
  if c.width > 0 ∧ c.height > 0 then c else ⟨8, 16⟩

/-- What libghostty's callbacks put out during a write, `Shared`, `actor.rs:200`. -/
structure Shared where
  ptyReplies : List UInt8 := []
  bells : Nat := 0
  titles : List String := []
  deriving DecidableEq, Repr

/-- One effect after another. -/
def Shared.add (s e : Shared) : Shared :=
  ⟨s.ptyReplies ++ e.ptyReplies, s.bells + e.bells, s.titles ++ e.titles⟩

/-- What the actor uses of a libghostty `Terminal`. -/
class Ghostty (G : Type) where
  vtWrite : G → List UInt8 → G × Shared
  rows : G → UInt16
  cols : G → UInt16
  vt : G → CellSize → List UInt8

/-- `vt_write` of two pieces in a row is `vt_write` of the whole. -/
class ChunkInvariant (G : Type) [Ghostty G] : Prop where
  vtWrite_append (g : G) {a b : List UInt8} (ha : a ≠ []) (hb : b ≠ []) :
    Ghostty.vtWrite g (a ++ b) =
      ((Ghostty.vtWrite (Ghostty.vtWrite g a).1 b).1,
        (Ghostty.vtWrite g a).2.add (Ghostty.vtWrite (Ghostty.vtWrite g a).1 b).2)

/-- What the actor reads out of an OSC, `actor.rs:766`, `enhanced_paste.rs:89`. -/
class Taps (ε : Type) where
  notification : Osc → Option ε
  enhancedPasteRead : Osc → Option ε

/-- `TerminalActor`, `actor.rs:212`, without the scrollback's and the graphics' bounds. -/
structure TerminalActor (G ε : Type) where
  term : G
  history : History := {}
  shared : Shared := {}
  scanner : OutputScanner := .new
  clipboardClientAvailable : Bool := false
  enhancedPasteAvailable : Bool := false
  modes : Modes := {}
  modifyOtherKeys : UInt16 := 0
  inactiveKittyStack : List UInt8 := []
  events : List (TerminalEvent ε) := []
  lastTitle : Option String := none
  cell : CellSize := ⟨0, 0⟩
  normalReplay : Option (List UInt8) := none
  cursorShapeReplay : Option (List UInt8) := none
  cursorColorReplay : Option (List UInt8) := none

/-- The loop of `write`: the bytes that wait for the terminal, and those for the clients. -/
structure Writing (G ε : Type) where
  actor : TerminalActor G ε
  feed : List UInt8 := []
  broadcast : List UInt8 := []

/-- `ESC c` inside raw bytes, `actor.rs:568`. -/
def hasRis : List UInt8 → Bool
  | a :: b :: rest => (a = 0x1b && b = 0x63) || hasRis (b :: rest)
  | _ => false

/-- The answer to a size query, `actor.rs:635`. -/
def sizeReply (rows cols : UInt16) (cell : CellSize) : Csi.SizeQuery → List UInt8
  | .window =>
    ascii "\x1b[4;" ++ decimal (rows.toUInt32 * cell.height).toNat ++ ascii ";" ++
      decimal (cols.toUInt32 * cell.width).toNat ++ ascii "t"
  | .cell =>
    ascii "\x1b[6;" ++ decimal cell.height.toNat ++ ascii ";" ++ decimal cell.width.toNat ++
      ascii "t"
  | .grid =>
    ascii "\x1b[8;" ++ decimal rows.toNat ++ ascii ";" ++ decimal cols.toNat ++ ascii "t"
  | .screen =>
    ascii "\x1b[9;" ++ decimal rows.toNat ++ ascii ";" ++ decimal cols.toNat ++ ascii "t"

/-- The answer to XTQMODKEYS, `actor.rs:612`. -/
def modifyKeysReply (modifyOtherKeys : UInt16) : List UInt8 :=
  ascii "\x1b[>4;" ++ decimal modifyOtherKeys.toNat ++ ascii "m"

/-- The answer to DECRQM of mode 5522, `actor.rs:621`. -/
def pasteModeReply (available on : Bool) : List UInt8 :=
  ascii "\x1b[?5522;" ++ decimal (if !available then 0 else if on then 1 else 2) ++ ascii "$y"

/-- The answer to a clipboard read nobody can serve, `actor.rs:708`. -/
def clipboardReply (selection : List UInt8) : List UInt8 :=
  ascii "\x1b]52;" ++ selection ++ ascii ";\x1b\\"

/-- The value XTMODKEYS sets, `actor.rs:598`. -/
def modifyKeysSet (c : Csi) : Option UInt16 :=
  if c.marker = some 0x3e ∧ c.finalByte = 0x6d ∧ c.intermediates = [] ∧
      c.params.head? = some 4 then
    some (min (c.params[1]?.getD 0) 2)
  else
    none

/-- The stack without the entries a kitty pop removes, `actor.rs:660`. -/
def kittyPop (c : Csi) (stack : List UInt8) : List UInt8 :=
  stack.take (stack.length - max (c.params.head?.getD 1).toNat 1)

namespace Writing

variable {G ε : Type} [Ghostty G] [Taps ε]

/-- `flush_feed`, `actor.rs:740`. -/
def flushFeed (w : Writing G ε) : Writing G ε :=
  if w.feed = [] then w
  else
    let (term, effects) := Ghostty.vtWrite w.actor.term w.feed
    { w with
      actor := { w.actor with term := term, shared := w.actor.shared.add effects }
      feed := [] }

/-- Put an answer among the replies. -/
def reply (w : Writing G ε) (bytes : List UInt8) : Writing G ε :=
  { w with actor := { w.actor with
      shared := { w.actor.shared with ptyReplies := w.actor.shared.ptyReplies ++ bytes } } }

/-- Raw bytes, `actor.rs:564`. -/
def rawToken (w : Writing G ε) (bytes : List UInt8) : Writing G ε :=
  let w := if hasRis bytes then
    { w with actor := { w.actor with
        history := w.actor.history.invalidate
        cursorShapeReplay := none
        cursorColorReplay := none } }
    else w
  { w with feed := w.feed ++ bytes, broadcast := w.broadcast ++ bytes }

/-- RIS, `actor.rs:576`. -/
def risToken (w : Writing G ε) : Writing G ε :=
  let w := { w with actor := { w.actor with history := w.actor.history.invalidate } }
  let w := w.flushFeed
  let modes := w.actor.modes
  { w with
    actor := { w.actor with
      inactiveKittyStack := []
      cursorShapeReplay := none
      cursorColorReplay := none
      events := w.actor.events ++ (if modes.cursorHidden then [.cursorVisible] else []) ++
        (if modes.enhancedPaste then [.enhancedPasteMode false] else [])
      modes := {}
      modifyOtherKeys := 0
      normalReplay := none }
    feed := w.feed ++ [0x1b, 0x63]
    broadcast := w.broadcast ++ [0x1b, 0x63] }

/-- The two screens change places, and their keyboard stacks with them. -/
def swapStacks (w : Writing G ε) (normalReplay : Option (List UInt8)) : Writing G ε :=
  { w with actor := { w.actor with
      normalReplay := normalReplay
      modes := { w.actor.modes with kittyStack := w.actor.inactiveKittyStack }
      inactiveKittyStack := w.actor.modes.kittyStack } }

/-- The keyboard stack and the private modes, `actor.rs:657`. -/
def trackModes (w : Writing G ε) (c : Csi) : Writing G ε :=
  match c.kittyPush with
  | some flags =>
    { w with actor := { w.actor with modes := { w.actor.modes with
        kittyStack := w.actor.modes.kittyStack ++ [flags] } } }
  | none =>
    if c.isKittyPop then
      { w with actor := { w.actor with modes := { w.actor.modes with
          kittyStack := kittyPop c w.actor.modes.kittyStack } } }
    else
      match c.decModes with
      | none => w
      | some (params, set) =>
        let wasAlt := w.actor.modes.altScreen
        let (modes, events) := Modes.applyAll ε w.actor.modes params set
        let w := { w with
          actor := { w.actor with modes := modes, events := w.actor.events ++ events } }
        -- the normal screen is copied before the switch, which is still in the buffer
        if !wasAlt && modes.altScreen then
          let w := w.flushFeed
          w.swapStacks (some (Ghostty.vt w.actor.term w.actor.cell))
        else if wasAlt && !modes.altScreen then w.swapStacks none
        else w

/-- The cleared scrollback and the key modifiers, `actor.rs:595`. -/
def recordKeys (w : Writing G ε) (c : Csi) : Writing G ε :=
  let w := if c.finalByte = 0x4a ∧ c.marker = none ∧ c.param 0 0 = 3 then
    { w with actor := { w.actor with history := w.actor.history.invalidate } } else w
  { w with actor := { w.actor with
      modifyOtherKeys := (modifyKeysSet c).getD w.actor.modifyOtherKeys } }

/-- The cursor shape, `actor.rs:650`. -/
def recordShape (w : Writing G ε) (c : Csi) : Writing G ε :=
  if c.finalByte = 0x71 ∧ c.marker = none ∧ c.intermediates = [0x20] ∧
      (c.params.head?.getD 0) ≤ 6 then
    { w with actor := { w.actor with cursorShapeReplay := some c.raw } }
  else
    w

/-- A query is answered, anything else passed on, `actor.rs:605`. -/
def answerCsi (w : Writing G ε) (c : Csi) : Writing G ε :=
  if c.isModifyKeysQuery then
    w.flushFeed.reply (modifyKeysReply w.actor.modifyOtherKeys)
  else if c.isModeQuery 5522 then
    w.flushFeed.reply (pasteModeReply w.actor.enhancedPasteAvailable w.actor.modes.enhancedPaste)
  else
    match c.sizeQuery with
    | some query =>
      let w := w.flushFeed
      w.reply (sizeReply (Ghostty.rows w.actor.term) (Ghostty.cols w.actor.term)
        w.actor.cell.orFallback query)
    | none =>
      let w := (w.recordShape c).trackModes c
      let w := { w with feed := w.feed ++ c.raw }
      if c.isStrippedQuery then w else { w with broadcast := w.broadcast ++ c.raw }

/-- A CSI sequence, `actor.rs:594`. -/
def csiToken (w : Writing G ε) (c : Csi) : Writing G ε := (w.recordKeys c).answerCsi c

/-- The cursor colour, `actor.rs:701`. -/
def recordColor (w : Writing G ε) (o : Osc) : Writing G ε :=
  let (id, data) := o.split
  if id = some 112 ∨ (id = some 12 ∧ data ≠ [0x3f]) then
    { w with actor := { w.actor with cursorColorReplay := some o.raw } }
  else
    w

/-- A query is answered, anything else passed on and reported, `actor.rs:704`. -/
def answerOsc (w : Writing G ε) (o : Osc) : Writing G ε :=
  match o.clipboardReadSelection.filter fun _ ↦ !w.actor.clipboardClientAvailable with
  | some selection => w.flushFeed.reply (clipboardReply selection)
  | none =>
    match o.colorQuery with
    | some queries =>
      (queries.filterMap colorQueryReply).foldl reply w.flushFeed
    | none =>
      { w with
        actor := { w.actor with events := w.actor.events ++
          ((Taps.enhancedPasteRead o).map .enhancedPasteRead).toList ++
          ((Taps.notification o).map .notification).toList }
        feed := w.feed ++ o.raw
        broadcast := w.broadcast ++ o.raw }

/-- An OSC sequence, `actor.rs:699`. -/
def oscToken (w : Writing G ε) (o : Osc) : Writing G ε := (w.recordColor o).answerOsc o

/-- One token of the loop. -/
def token (w : Writing G ε) : Token → Writing G ε
  | .raw bytes => w.rawToken bytes
  | .ris => w.risToken
  | .csi c => w.csiToken c
  | .osc o => w.oscToken o

end Writing

namespace TerminalActor

variable {G ε : Type} [Ghostty G] [Taps ε]

/-- The titles that differ from the one before, `actor.rs:755`. -/
def newTitles (lastTitle : Option String) : List String → Option String × List String
  | [] => (lastTitle, [])
  | title :: rest =>
    if lastTitle = some title then newTitles lastTitle rest
    else
      let r := newTitles (some title) rest
      (r.1, title :: r.2)

/-- `collect_callback_events`, `actor.rs:747`. -/
def collectCallbackEvents (a : TerminalActor G ε) : TerminalActor G ε :=
  let (lastTitle, titles) := newTitles a.lastTitle a.shared.titles
  { a with
    shared := { a.shared with bells := 0, titles := [] }
    lastTitle := lastTitle
    events := a.events ++ List.replicate a.shared.bells .bell ++ titles.map .titleChange }

/-- `TerminalActor::write`, `actor.rs:558`: the bytes to broadcast. -/
def write (a : TerminalActor G ε) (data : List UInt8) : List UInt8 × TerminalActor G ε :=
  let (scanner, tokens) := a.scanner.feed data
  let w := (tokens.foldl Writing.token ⟨{ a with scanner := scanner }, [], []⟩).flushFeed
  (w.broadcast, w.actor.collectCallbackEvents)

/-- `TerminalActor::take_pty_replies`, `actor.rs:924`. -/
def takePtyReplies (a : TerminalActor G ε) : List UInt8 × TerminalActor G ε :=
  (a.shared.ptyReplies, { a with shared := { a.shared with ptyReplies := [] } })

end TerminalActor

/-! ### The writer without a buffer -/

/-- Bytes put into the terminal, if there are any. -/
def put {G : Type} [Ghostty G] (term : G) (bytes : List UInt8) : G × Shared :=
  if bytes = [] then (term, {}) else Ghostty.vtWrite term bytes

/-- What the clients and the child get. -/
structure Out where
  broadcast : List UInt8 := []
  replies : List UInt8 := []
  deriving DecidableEq, Repr

/-- One thing put out after another. -/
def Out.join (a b : Out) : Out := ⟨a.broadcast ++ b.broadcast, a.replies ++ b.replies⟩

/-- The part of the actor that answers and modes rest on. -/
structure Plain (G : Type) where
  term : G
  modes : Modes
  modifyOtherKeys : UInt16
  inactiveKittyStack : List UInt8
  clipboardClientAvailable : Bool
  enhancedPasteAvailable : Bool
  cell : CellSize

namespace Plain

variable {G : Type} [Ghostty G]

/-- Bytes reach the terminal, and the clients if they are shown. -/
def pass (p : Plain G) (bytes : List UInt8) (shown : Bool) : Plain G × Out :=
  ({ p with term := (put p.term bytes).1 },
    ⟨if shown then bytes else [], (put p.term bytes).2.ptyReplies⟩)

/-- Nothing reaches the terminal and the child gets an answer. -/
def answer (p : Plain G) (bytes : List UInt8) : Plain G × Out := (p, ⟨[], bytes⟩)

def ris (p : Plain G) : Plain G × Out :=
  ({ p with modes := {}, modifyOtherKeys := 0, inactiveKittyStack := [] } : Plain G).pass
    [0x1b, 0x63] true

/-- The two screens change places. -/
def swapStacks (p : Plain G) : Plain G :=
  { p with
    modes := { p.modes with kittyStack := p.inactiveKittyStack }
    inactiveKittyStack := p.modes.kittyStack }

def trackModes (p : Plain G) (c : Csi) : Plain G :=
  match c.kittyPush with
  | some flags =>
    { p with modes := { p.modes with kittyStack := p.modes.kittyStack ++ [flags] } }
  | none =>
    if c.isKittyPop then
      { p with modes := { p.modes with kittyStack := kittyPop c p.modes.kittyStack } }
    else
      match c.decModes with
      | none => p
      | some (params, set) =>
        let modes := (Modes.applyAll Unit p.modes params set).1
        let q := { p with modes := modes }
        if p.modes.altScreen = modes.altScreen then q else q.swapStacks

def answerCsi (p : Plain G) (c : Csi) : Plain G × Out :=
  if c.isModifyKeysQuery then p.answer (modifyKeysReply p.modifyOtherKeys)
  else if c.isModeQuery 5522 then
    p.answer (pasteModeReply p.enhancedPasteAvailable p.modes.enhancedPaste)
  else
    match c.sizeQuery with
    | some query =>
      p.answer (sizeReply (Ghostty.rows p.term) (Ghostty.cols p.term) p.cell.orFallback query)
    | none => (p.trackModes c).pass c.raw (!c.isStrippedQuery)

def csi (p : Plain G) (c : Csi) : Plain G × Out :=
  ({ p with modifyOtherKeys := (modifyKeysSet c).getD p.modifyOtherKeys } : Plain G).answerCsi c

def osc (p : Plain G) (o : Osc) : Plain G × Out :=
  match o.clipboardReadSelection.filter fun _ ↦ !p.clipboardClientAvailable with
  | some selection => p.answer (clipboardReply selection)
  | none =>
    match o.colorQuery with
    | some queries => p.answer (queries.filterMap colorQueryReply).flatten
    | none => p.pass o.raw true

/-- One piece of the stream. -/
def atom (p : Plain G) : Atom → Plain G × Out
  | .byte b => p.pass [b] true
  | .ris => p.ris
  | .csi c => p.csi c
  | .osc o => p.osc o

/-- The writer as a transducer from pieces to what is put out. -/
def transducer : Transducer (Plain G) Atom Out where
  nil := {}
  join := Out.join
  next := atom
  nil_join _ := rfl
  join_nil a := by simp [Out.join]
  join_assoc a b c := by simp [Out.join]

end Plain

/-! ### What the buffer leaves to see -/

namespace Writing

variable {G ε : Type} [Ghostty G]

/-- The loop as it is once the buffer is flushed. -/
def obs (w : Writing G ε) : Plain G × Out :=
  let r := put w.actor.term w.feed
  ({ term := r.1
     modes := w.actor.modes
     modifyOtherKeys := w.actor.modifyOtherKeys
     inactiveKittyStack := w.actor.inactiveKittyStack
     clipboardClientAvailable := w.actor.clipboardClientAvailable
     enhancedPasteAvailable := w.actor.enhancedPasteAvailable
     cell := w.actor.cell },
    ⟨w.broadcast, w.actor.shared.ptyReplies ++ r.2.ptyReplies⟩)

/-- One more piece after what there is to see. -/
def after (r : Plain G × Out) (f : Plain G → Plain G × Out) : Plain G × Out :=
  ((f r.1).1, r.2.join (f r.1).2)

@[simp] theorem put_nil (g : G) : put g [] = (g, {}) := rfl

theorem feed_flushFeed (w : Writing G ε) : w.flushFeed.feed = [] := by
  unfold flushFeed
  split
  · next h => exact h
  · rfl

@[simp] theorem obs_flushFeed (w : Writing G ε) : w.flushFeed.obs = w.obs := by
  unfold flushFeed
  split
  · rfl
  · next h => simp [obs, put, h, Shared.add]

theorem term_of_flushed {w : Writing G ε} (h : w.feed = []) : w.obs.1.term = w.actor.term := by
  simp [obs, h]

theorem obs_reply {w : Writing G ε} (h : w.feed = []) (bytes : List UInt8) :
    (w.reply bytes).obs = after w.obs (·.answer bytes) := by
  simp [obs, reply, after, Plain.answer, Out.join, h]

variable [ChunkInvariant G]

theorem put_append (g : G) (a b : List UInt8) :
    (put g (a ++ b)).1 = (put (put g a).1 b).1 ∧
      (put g (a ++ b)).2.ptyReplies =
        (put g a).2.ptyReplies ++ (put (put g a).1 b).2.ptyReplies := by
  by_cases ha : a = []
  · simp [ha]
  · by_cases hb : b = []
    · simp [hb]
    · simp [put, ha, hb, ChunkInvariant.vtWrite_append g ha hb, Shared.add]

theorem obs_feed (w : Writing G ε) (bytes : List UInt8) (shown : Bool) :
    ({ w with
      feed := w.feed ++ bytes
      broadcast := w.broadcast ++ if shown then bytes else [] } : Writing G ε).obs =
        after w.obs (·.pass bytes shown) := by
  obtain ⟨h₁, h₂⟩ := put_append w.actor.term w.feed bytes
  simp only [obs, after, Plain.pass, Out.join, h₁, h₂, List.append_assoc]

omit [ChunkInvariant G] in
theorem obs_recordKeys (w : Writing G ε) (c : Csi) :
    (w.recordKeys c).obs = ({ w.obs.1 with
      modifyOtherKeys := (modifyKeysSet c).getD w.obs.1.modifyOtherKeys }, w.obs.2) := by
  unfold recordKeys
  dsimp only
  split <;> rfl

omit [ChunkInvariant G] in
theorem obs_recordShape (w : Writing G ε) (c : Csi) : (w.recordShape c).obs = w.obs := by
  unfold recordShape
  split <;> rfl

omit [ChunkInvariant G] in
private theorem obs_swapStacks (w : Writing G ε) (normalReplay : Option (List UInt8)) :
    (w.swapStacks normalReplay).obs = (w.obs.1.swapStacks, w.obs.2) := rfl

omit [ChunkInvariant G] in
theorem obs_trackModes (w : Writing G ε) (c : Csi) :
    (w.trackModes c).obs = (w.obs.1.trackModes c, w.obs.2) := by
  unfold trackModes Plain.trackModes
  cases c.kittyPush with
  | some flags => rfl
  | none =>
    dsimp only
    split
    · rfl
    · cases c.decModes with
      | none => rfl
      | some modes =>
        obtain ⟨params, set⟩ := modes
        have halt : w.obs.1.modes = w.actor.modes := rfl
        dsimp only
        rw [halt, Modes.applyAll_fst Unit ε]
        split
        · next hon =>
          rw [if_neg (by simp at hon; simp [hon]), obs_swapStacks, obs_flushFeed]
          rfl
        · next hon =>
          split
          · next hoff =>
            rw [if_neg (by simp at hoff; simp [hoff]), obs_swapStacks]
            rfl
          · next hoff =>
            rw [if_pos]
            · rfl
            · cases h₁ : w.actor.modes.altScreen <;>
                cases h₂ : (Modes.applyAll ε w.actor.modes params set).1.altScreen <;>
                simp_all

theorem obs_rawToken (w : Writing G ε) (bytes : List UInt8) :
    (w.rawToken bytes).obs = after w.obs (·.pass bytes true) := by
  unfold rawToken
  dsimp only
  split
  · exact obs_feed { w with actor := { w.actor with
      history := w.actor.history.invalidate
      cursorShapeReplay := none
      cursorColorReplay := none } } bytes true
  · exact obs_feed w bytes true

theorem obs_risToken (w : Writing G ε) : w.risToken.obs = after w.obs Plain.ris := by
  have hflush := obs_flushFeed
    ({ w with actor := { w.actor with history := w.actor.history.invalidate } } : Writing G ε)
  unfold risToken
  dsimp only
  generalize ({ w with actor := { w.actor with
    history := w.actor.history.invalidate } } : Writing G ε).flushFeed = v at hflush ⊢
  have hw : w.obs = v.obs := hflush.symm
  rw [hw]
  exact obs_feed { v with actor := { v.actor with
    inactiveKittyStack := []
    cursorShapeReplay := none
    cursorColorReplay := none
    events := v.actor.events ++ (if v.actor.modes.cursorHidden then [.cursorVisible] else []) ++
      (if v.actor.modes.enhancedPaste then [.enhancedPasteMode false] else [])
    modes := {}
    modifyOtherKeys := 0
    normalReplay := none } } [0x1b, 0x63] true

omit [ChunkInvariant G] in
/-- An answer follows everything before it. -/
private theorem obs_flushFeed_reply (w : Writing G ε) (bytes : List UInt8) :
    (w.flushFeed.reply bytes).obs = after w.obs (·.answer bytes) := by
  rw [obs_reply (feed_flushFeed w), obs_flushFeed]

theorem obs_answerCsi (w : Writing G ε) (c : Csi) :
    (w.answerCsi c).obs = after w.obs (·.answerCsi c) := by
  unfold answerCsi after Plain.answerCsi
  split
  · exact obs_flushFeed_reply _ _
  · split
    · exact obs_flushFeed_reply _ _
    · cases c.sizeQuery with
      | some query =>
        have hterm := term_of_flushed (feed_flushFeed w)
        rw [obs_flushFeed] at hterm
        have hcell : w.flushFeed.actor.cell = w.obs.1.cell := by
          rw [← obs_flushFeed w]
          rfl
        dsimp only
        rw [obs_flushFeed_reply, ← hterm, hcell]
        rfl
      | none =>
        have htrack := obs_trackModes (w.recordShape c) c
        rw [obs_recordShape] at htrack
        generalize (w.recordShape c).trackModes c = v at htrack ⊢
        have h := obs_feed v c.raw (!c.isStrippedQuery)
        rw [htrack] at h
        refine Eq.trans ?_ h
        cases c.isStrippedQuery <;> simp

theorem obs_csiToken (w : Writing G ε) (c : Csi) :
    (w.csiToken c).obs = after w.obs (·.csi c) := by
  unfold csiToken
  rw [obs_answerCsi, obs_recordKeys]
  rfl

omit [ChunkInvariant G] in
theorem obs_foldl_reply (replies : List (List UInt8)) {w : Writing G ε} (h : w.feed = []) :
    (replies.foldl reply w).obs = after w.obs (·.answer replies.flatten) := by
  induction replies generalizing w with
  | nil => simp [after, Plain.answer, Out.join]
  | cons bytes replies ih =>
    rw [List.foldl_cons, ih (w := w.reply bytes) h, obs_reply h]
    simp [after, Plain.answer, Out.join]

theorem obs_answerOsc [Taps ε] (w : Writing G ε) (o : Osc) :
    (w.answerOsc o).obs = after w.obs (·.osc o) := by
  have hclip : w.obs.1.clipboardClientAvailable = w.actor.clipboardClientAvailable := rfl
  unfold answerOsc after Plain.osc
  dsimp only
  rw [hclip]
  cases o.clipboardReadSelection.filter fun _ ↦ !w.actor.clipboardClientAvailable with
  | some selection => exact obs_flushFeed_reply _ _
  | none =>
    cases o.colorQuery with
    | some queries =>
      dsimp only
      rw [obs_foldl_reply _ (feed_flushFeed w), obs_flushFeed]
      rfl
    | none =>
      exact obs_feed { w with actor := { w.actor with events := w.actor.events ++
          ((Taps.enhancedPasteRead o).map .enhancedPasteRead).toList ++
          ((Taps.notification o).map .notification).toList } } o.raw true

theorem obs_oscToken [Taps ε] (w : Writing G ε) (o : Osc) :
    (w.oscToken o).obs = after w.obs (·.osc o) := by
  have hcolor : (w.recordColor o).obs = w.obs := by
    unfold recordColor
    dsimp only
    split <;> rfl
  unfold oscToken
  rw [obs_answerOsc, hcolor]

/-- Raw bytes in one token or byte by byte. -/
private theorem run_bytes (p : Plain G) (bytes : List UInt8) :
    Plain.transducer.run p (bytes.map .byte) = p.pass bytes true := by
  induction bytes generalizing p with
  | nil => simp [Plain.pass, Plain.transducer]
  | cons b bytes ih =>
    obtain ⟨h₁, h₂⟩ := put_append p.term [b] bytes
    rw [List.map_cons, Transducer.run, ih]
    show _ = _
    simp only [Plain.pass, List.singleton_append] at h₁ h₂ ⊢
    simp [Plain.transducer, Plain.atom, Plain.pass, Out.join, h₁, h₂]

/-- A token of the loop is its pieces, put in at once. -/
theorem obs_token [Taps ε] (w : Writing G ε) (t : Token) :
    (w.token t).obs = Plain.transducer.andThen w.obs t.atoms := by
  have hone : ∀ a : Atom, Plain.transducer.andThen w.obs [a] = after w.obs (·.atom a) := by
    intro a
    rw [Transducer.andThen, Transducer.run_singleton]
    rfl
  cases t with
  | raw bytes =>
    rw [Token.atoms, Transducer.andThen, run_bytes]
    exact obs_rawToken w bytes
  | ris => exact (obs_risToken w).trans (hone .ris).symm
  | csi c => exact (obs_csiToken w c).trans (hone (.csi c)).symm
  | osc o => exact (obs_oscToken w o).trans (hone (.osc o)).symm

omit [ChunkInvariant G] in
private theorem scanner_flushFeed (w : Writing G ε) :
    w.flushFeed.actor.scanner = w.actor.scanner := by
  unfold flushFeed
  split <;> rfl

omit [Ghostty G] [ChunkInvariant G] in
private theorem scanner_foldl_reply (replies : List (List UInt8)) (w : Writing G ε) :
    (replies.foldl reply w).actor.scanner = w.actor.scanner := by
  induction replies generalizing w with
  | nil => rfl
  | cons bytes replies ih => exact ih (w.reply bytes)

omit [ChunkInvariant G] in
private theorem scanner_trackModes (w : Writing G ε) (c : Csi) :
    (w.trackModes c).actor.scanner = w.actor.scanner := by
  unfold trackModes
  split
  · rfl
  · split
    · rfl
    · split
      · rfl
      · dsimp only
        split
        · exact scanner_flushFeed _
        · split <;> rfl

omit [ChunkInvariant G] in
/-- The loop leaves the scanner alone. -/
private theorem scanner_token [Taps ε] (w : Writing G ε) (t : Token) :
    (w.token t).actor.scanner = w.actor.scanner := by
  cases t with
  | raw bytes =>
    simp only [token, rawToken]
    split <;> rfl
  | ris => exact scanner_flushFeed _
  | csi c =>
    have hkeys : (w.recordKeys c).actor.scanner = w.actor.scanner := by
      unfold recordKeys
      dsimp only
      split <;> rfl
    refine Eq.trans ?_ hkeys
    simp only [token, csiToken, answerCsi]
    split
    · exact scanner_flushFeed _
    · split
      · exact scanner_flushFeed _
      · split
        · exact scanner_flushFeed _
        · have hshape : ((w.recordKeys c).recordShape c).actor.scanner =
              (w.recordKeys c).actor.scanner := by
            unfold recordShape
            split <;> rfl
          split <;> exact (scanner_trackModes _ _).trans hshape
  | osc o =>
    have hcolor : (w.recordColor o).actor.scanner = w.actor.scanner := by
      unfold recordColor
      dsimp only
      split <;> rfl
    refine Eq.trans ?_ hcolor
    simp only [token, oscToken, answerOsc]
    split
    · exact scanner_flushFeed _
    · split
      · exact (scanner_foldl_reply _ _).trans (scanner_flushFeed _)
      · rfl

omit [ChunkInvariant G] in
private theorem scanner_foldl_token [Taps ε] (tokens : List Token) (w : Writing G ε) :
    (tokens.foldl token w).flushFeed.actor.scanner = w.actor.scanner := by
  rw [scanner_flushFeed]
  induction tokens generalizing w with
  | nil => rfl
  | cons t tokens ih => exact (ih (w.token t)).trans (scanner_token w t)

theorem obs_foldl_token [Taps ε] (tokens : List Token) (w : Writing G ε) :
    (tokens.foldl token w).obs =
      Plain.transducer.andThen w.obs (tokens.flatMap Token.atoms) := by
  induction tokens generalizing w with
  | nil => simp [Transducer.andThen, Plain.transducer, Out.join]
  | cons t tokens ih =>
    rw [List.foldl_cons, ih, obs_token, List.flatMap_cons]
    simp only [Transducer.andThen, Transducer.run_append, Plain.transducer.join_assoc]

end Writing

/-! ### However the output is cut -/

/-- An actor whose replies have been taken. -/
structure Drained (G ε : Type) where
  actor : TerminalActor G ε
  taken : actor.shared.ptyReplies = []

namespace Drained

variable {G ε : Type} [Ghostty G] [Taps ε]

/-- One chunk as the daemon handles it, `lifecycle.rs:1165`: the output is written and the
replies are taken. -/
def write (a : Drained G ε) (chunk : List UInt8) : Drained G ε × Out :=
  let r := a.actor.write chunk
  (⟨r.2.takePtyReplies.2, rfl⟩, ⟨r.1, r.2.takePtyReplies.1⟩)

/-- The chunks in order, what they put out joined. -/
def writeAll : Drained G ε → List (List UInt8) → Drained G ε × Out
  | a, [] => (a, {})
  | a, chunk :: rest =>
    let r := writeAll (a.write chunk).1 rest
    (r.1, (a.write chunk).2.join r.2)

/-- What of the actor the rest of the stream is handled by. -/
def view (a : Drained G ε) : OutputScanner × Plain G :=
  (a.actor.scanner,
    { term := a.actor.term
      modes := a.actor.modes
      modifyOtherKeys := a.actor.modifyOtherKeys
      inactiveKittyStack := a.actor.inactiveKittyStack
      clipboardClientAvailable := a.actor.clipboardClientAvailable
      enhancedPasteAvailable := a.actor.enhancedPasteAvailable
      cell := a.actor.cell })

/-- A chunk is the run of scanner and plain writer over its bytes. -/
theorem write_chunked [ChunkInvariant G] :
    (OutputScanner.transducer.comp (Plain.transducer (G := G))).Chunked
      (write (ε := ε)) view := by
  constructor
  intro a chunk
  have hscan := OutputScanner.feed_chunked.agrees a.actor.scanner chunk
  have htokens := Writing.obs_foldl_token (a.actor.scanner.feed chunk).2
    (⟨{ a.actor with scanner := (a.actor.scanner.feed chunk).1 }, [], []⟩ : Writing G ε)
  simp only [id] at hscan
  rw [show a.view = (a.actor.scanner, a.view.2) from rfl,
    Transducer.run_comp rfl (fun _ _ ↦ rfl), ← hscan]
  have hscanner := Writing.scanner_foldl_token (a.actor.scanner.feed chunk).2
    (⟨{ a.actor with scanner := (a.actor.scanner.feed chunk).1 }, [], []⟩ : Writing G ε)
  have hstart : (⟨{ a.actor with scanner := (a.actor.scanner.feed chunk).1 }, [], []⟩ :
      Writing G ε).obs = (a.view.2, {}) := by
    simp [Writing.obs, view, a.taken]
  rw [hstart, ← Writing.obs_flushFeed] at htokens
  have hfeed := Writing.feed_flushFeed ((a.actor.scanner.feed chunk).2.foldl Writing.token
    (⟨{ a.actor with scanner := (a.actor.scanner.feed chunk).1 }, [], []⟩ : Writing G ε))
  have hrun : Plain.transducer.andThen (a.view.2, {}) (List.flatMap Token.atoms
      (a.actor.scanner.feed chunk).2) = Plain.transducer.run a.view.2
        (List.flatMap Token.atoms (a.actor.scanner.feed chunk).2) :=
    Prod.ext rfl ((Plain.transducer (G := G)).nil_join _)
  rw [← hrun, ← htokens]
  refine Prod.ext (Prod.ext hscanner ?_) ?_
  · simp only [Writing.obs, hfeed]
    rfl
  · simp only [Writing.obs, hfeed, Writing.put_nil, List.append_nil]
    rfl

private theorem writeAll_eq_feedAll (a : Drained G ε) (chunks : List (List UInt8)) :
    a.writeAll chunks =
      (OutputScanner.transducer.comp (Plain.transducer (G := G))).feedAll write a chunks := by
  induction chunks generalizing a with
  | nil => rfl
  | cons chunk rest ih =>
    rw [writeAll, ih]
    rfl

/-- However a stream is cut into writes, the clients and the child get the same bytes, and
the modes and both keyboard stacks end up the same. -/
theorem writeAll_eq [ChunkInvariant G] (a : Drained G ε) {chunks chunks' : List (List UInt8)}
    (h : chunks.flatten = chunks'.flatten) :
    (a.writeAll chunks).2.broadcast = (a.writeAll chunks').2.broadcast ∧
      (a.writeAll chunks).2.replies = (a.writeAll chunks').2.replies ∧
      (a.writeAll chunks).1.actor.modes = (a.writeAll chunks').1.actor.modes ∧
      (a.writeAll chunks).1.actor.inactiveKittyStack =
        (a.writeAll chunks').1.actor.inactiveKittyStack := by
  have hl := write_chunked.feedAll_eq a chunks
  have hr := write_chunked.feedAll_eq a chunks'
  rw [← writeAll_eq_feedAll] at hl hr
  rw [h, ← hr, Prod.mk.injEq] at hl
  obtain ⟨hview, hout⟩ := hl
  have hplain := congrArg Prod.snd hview
  exact ⟨congrArg Out.broadcast hout, congrArg Out.replies hout, congrArg Plain.modes hplain,
    congrArg Plain.inactiveKittyStack hplain⟩

/-! ### A terminal that answers ENQ -/

/-- A terminal that keeps what it was given and answers every ENQ with an ACK. -/
structure Enq where
  seen : List UInt8 := []

instance : Ghostty Enq where
  vtWrite g bytes := (⟨g.seen ++ bytes⟩,
    { ptyReplies := (bytes.filter (· = 0x05)).map fun _ ↦ 0x06 })
  rows _ := 24
  cols _ := 80
  vt g _ := g.seen

instance : ChunkInvariant Enq where
  vtWrite_append g a b _ _ := by simp [Ghostty.vtWrite, Shared.add]

instance : Taps Unit where
  notification _ := none
  enhancedPasteRead _ := none

/-- An actor on that terminal. -/
private def enq : Drained Enq Unit := ⟨{ term := {} }, rfl⟩

/-- An ENQ, a kitty push and a size query, the last two cut in the middle. -/
private def cutOutput : List (List UInt8) :=
  [[0x05, 0x1b], ascii "[>1", ascii "u\x1b[1", ascii "8tx"]

/-- The ENQ is answered before the size query, in pieces as in one. -/
theorem writeAll_eq_cut : (enq.writeAll cutOutput).2.replies = 0x06 :: ascii "\x1b[8;24;80t" ∧
    (enq.writeAll cutOutput).2.broadcast = (enq.writeAll [cutOutput.flatten]).2.broadcast ∧
    (enq.writeAll cutOutput).2.replies = (enq.writeAll [cutOutput.flatten]).2.replies ∧
    (enq.writeAll cutOutput).1.actor.modes = (enq.writeAll [cutOutput.flatten]).1.actor.modes ∧
    (enq.writeAll cutOutput).1.actor.inactiveKittyStack =
      (enq.writeAll [cutOutput.flatten]).1.actor.inactiveKittyStack :=
  ⟨rfl, writeAll_eq enq (by simp)⟩

end Drained
end PtySpec.Vt
