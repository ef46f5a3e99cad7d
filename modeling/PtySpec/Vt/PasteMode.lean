import PtySpec.Vt.Actor
import PtySpec.Vt.EnhancedPaste

/-!
# The paste-events mode as the events tell it

The operations of `TerminalActor` that a handle uses beside `write`: `reset`, `end_stream`,
`resize`, `set_cell_size` and `take_events`, `crates/pty-terminal/src/actor.rs:407-416`,
`812-934`. Whatever the actor does, its events say how it left the paste-events mode.
-/

namespace PtySpec.Vt

/-- What a handle uses of a libghostty `Terminal`, beside what the write loop uses. -/
class Emulator (G : Type) extends Ghostty G where
  reset : G → G
  resize : G → UInt16 → UInt16 → CellSize → G × Shared
  setPalette : G → List (UInt8 × UInt8 × UInt8) → G
  clearGraphics : G → G
  graphicsGeneration : G → Nat
  CellGrid : Type
  snapshot : G → Nat → CellGrid
  InputEvent : Type
  encode : G → Modes → CellSize → InputEvent → List UInt8

/-- A terminal that shows nothing. -/
structure Blank where
  deriving DecidableEq, Repr

instance : Emulator Blank where
  vtWrite g _ := (g, {})
  rows _ := 24
  cols _ := 80
  vt _ _ := []
  reset := id
  resize g _ _ _ := (g, {})
  setPalette g _ := g
  clearGraphics := id
  graphicsGeneration _ := 0
  CellGrid := Unit
  snapshot _ _ := ()
  InputEvent := Empty
  encode _ _ _ ev := ev.elim

/-- What the actor reports of an OSC: a notification, or a read request. -/
inductive Tapped (ν : Type) where
  | notification (n : ν)
  | read (request : ReadRequest)

/-- `tap_notification`, `actor.rs:765`. -/
class NotificationTap (ν : Type) where
  tapNotification : Osc → Option ν

instance : NotificationTap Empty where
  tapNotification _ := none

instance {ν : Type} [NotificationTap ν] : Taps (Tapped ν) where
  notification o := (NotificationTap.tapNotification o).map .notification
  enhancedPasteRead o := (ReadRequest.parse o.payload).map .read

namespace TerminalActor

variable {G ε : Type}

/-- `TerminalActor::take_events`, `actor.rs:929`. -/
def takeEvents (a : TerminalActor G ε) : List (TerminalEvent ε) × TerminalActor G ε :=
  (a.events, { a with events := [] })

/-- `TerminalActor::end_stream`, `actor.rs:846`. -/
def endStream (a : TerminalActor G ε) : TerminalActor G ε :=
  let a := { a with scanner := .new }
  if a.modes.enhancedPaste then
    { a with
      modes := { a.modes with enhancedPaste := false }
      events := a.events ++ [.enhancedPasteMode false] }
  else a

variable [Emulator G]

/-- `TerminalActor::reset`, `actor.rs:859`. -/
def reset (a : TerminalActor G ε) : TerminalActor G ε :=
  { a with
    history := a.history.invalidate
    term := Emulator.reset a.term
    scanner := .new
    events := a.events ++ (if a.modes.enhancedPaste then [.enhancedPasteMode false] else [])
    modes := {}
    modifyOtherKeys := 0
    inactiveKittyStack := []
    cursorShapeReplay := none
    cursorColorReplay := none
    shared := { a.shared with titles := [], bells := 0 } }

/-- The terminal at a size of the grid and of its cells. -/
def resizeTerm (a : TerminalActor G ε) (cols rows : UInt16) : TerminalActor G ε :=
  let (term, effects) := Emulator.resize a.term cols rows a.cell.orFallback
  { a with term := term, shared := a.shared.add effects }

/-- `TerminalActor::resize`, `actor.rs:814`. -/
def resize (a : TerminalActor G ε) (cols rows : UInt16) : TerminalActor G ε :=
  let a := if Ghostty.cols a.term ≠ max cols 1 ∨ Ghostty.rows a.term ≠ max rows 1 then
    { a with history := a.history.invalidate } else a
  a.resizeTerm (max cols 1) (max rows 1)

/-- `TerminalActor::set_cell_size`, `actor.rs:407`. -/
def setCellSize (a : TerminalActor G ε) (cell : CellSize) : TerminalActor G ε :=
  if a.cell = cell then a
  else
    let a := { a with cell := cell }
    a.resizeTerm (Ghostty.cols a.term) (Ghostty.rows a.term)

/-- `TerminalActor::set_palette`, `actor.rs:1034`. -/
def setPalette (a : TerminalActor G ε) (colors : List (UInt8 × UInt8 × UInt8)) :
    TerminalActor G ε :=
  { a with term := Emulator.setPalette a.term colors }

/-- `TerminalActor::clear_graphics`, `actor.rs:453`. -/
def clearGraphics (a : TerminalActor G ε) : TerminalActor G ε :=
  { a with term := Emulator.clearGraphics a.term }

end TerminalActor

/-! ### What the events say of the mode -/

/-- The paste-events mode after some events. -/
def told {ε : Type} (on : Bool) : List (TerminalEvent ε) → Bool
  | [] => on
  | .enhancedPasteMode set :: rest => told set rest
  | _ :: rest => told on rest

section Told

variable {ε : Type}

theorem told_append (on : Bool) (a b : List (TerminalEvent ε)) :
    told on (a ++ b) = told (told on a) b := by
  induction a generalizing on with
  | nil => rfl
  | cons e rest ih => cases e <;> exact ih _

/-- Events that leave a mode off turn it off, unless it was off before. -/
theorem mem_of_told {on : Bool} {events : List (TerminalEvent ε)} (h : told on events = false)
    (hon : on = true) : .enhancedPasteMode false ∈ events := by
  induction events generalizing on with
  | nil => cases h.symm.trans hon
  | cons e rest ih =>
    cases e with
    | enhancedPasteMode set =>
      cases set with
      | false => exact List.mem_cons_self
      | true => exact List.mem_cons_of_mem _ (ih h rfl)
    | _ => exact List.mem_cons_of_mem _ (ih h hon)

/-- The second actor has new events, and they say how the mode has changed. -/
def Announces {G : Type} (a b : TerminalActor G ε) : Prop :=
  ∃ new, b.events = a.events ++ new ∧ told a.modes.enhancedPaste new = b.modes.enhancedPaste

namespace Announces

variable {G : Type} {a b c : TerminalActor G ε}

theorem of_eq (he : b.events = a.events)
    (hm : b.modes.enhancedPaste = a.modes.enhancedPaste) : Announces a b :=
  ⟨[], by rw [he, List.append_nil], hm.symm⟩

theorem refl (a : TerminalActor G ε) : Announces a a := of_eq rfl rfl

theorem trans (h : Announces a b) (h' : Announces b c) : Announces a c := by
  obtain ⟨n₁, h₁, m₁⟩ := h
  obtain ⟨n₂, h₂, m₂⟩ := h'
  exact ⟨n₁ ++ n₂, by rw [h₂, h₁, List.append_assoc], by rw [told_append, m₁, m₂]⟩

end Announces

end Told

private theorem told_applyDec {ε : Type} (m : Modes) (mode : UInt16) (set : Bool) :
    told m.enhancedPaste (Modes.applyDec ε m mode set).2 =
      (Modes.applyDec ε m mode set).1.enhancedPaste := by
  have hset : (if m.enhancedPaste = set then m.enhancedPaste else set) = set := by
    split
    · assumption
    · rfl
  simp only [Modes.applyDec, apply_ite Prod.fst, apply_ite Prod.snd, apply_ite Modes.enhancedPaste,
    apply_ite (told _), told, ite_self, hset]

private theorem told_applyAll {ε : Type} (m : Modes) (params : List UInt16) (set : Bool) :
    told m.enhancedPaste (Modes.applyAll ε m params set).2 =
      (Modes.applyAll ε m params set).1.enhancedPaste := by
  suffices h : ∀ r : Modes × List (TerminalEvent ε),
      told m.enhancedPaste r.2 = r.1.enhancedPaste →
      told m.enhancedPaste (params.foldl (fun r p ↦
        ((Modes.applyDec ε r.1 p set).1, r.2 ++ (Modes.applyDec ε r.1 p set).2)) r).2 =
      (params.foldl (fun r p ↦
        ((Modes.applyDec ε r.1 p set).1, r.2 ++ (Modes.applyDec ε r.1 p set).2)) r).1.enhancedPaste
    from h (m, []) rfl
  induction params with
  | nil => exact fun _ h ↦ h
  | cons p params ih =>
    intro r h
    refine ih _ ?_
    rw [told_append, h, told_applyDec]

/-! ### The write loop -/

namespace Writing

variable {G ε : Type}

private theorem announces_reply (w : Writing G ε) (bytes : List UInt8) :
    Announces w.actor (w.reply bytes).actor := .of_eq rfl rfl

private theorem announces_recordKeys (w : Writing G ε) (c : Csi) :
    Announces w.actor (w.recordKeys c).actor := by
  unfold recordKeys
  split <;> exact .of_eq rfl rfl

private theorem announces_recordShape (w : Writing G ε) (c : Csi) :
    Announces w.actor (w.recordShape c).actor := by
  unfold recordShape
  split
  · exact .of_eq rfl rfl
  · exact .refl _

private theorem announces_rawToken (w : Writing G ε) (bytes : List UInt8) :
    Announces w.actor (w.rawToken bytes).actor := by
  unfold rawToken
  split <;> exact .of_eq rfl rfl

private theorem announces_recordColor (w : Writing G ε) (o : Osc) :
    Announces w.actor (w.recordColor o).actor := by
  unfold recordColor
  dsimp only
  split
  · exact .of_eq rfl rfl
  · exact .refl _

private theorem told_taps (on : Bool) (read notification : Option ε) :
    told on ((read.map .enhancedPasteRead).toList ++
      (notification.map .notification).toList) = on := by
  cases read <;> cases notification <;> rfl

private theorem announces_replies (replies : List (List UInt8)) (w : Writing G ε) :
    Announces w.actor (replies.foldl reply w).actor := by
  induction replies generalizing w with
  | nil => exact .refl _
  | cons bytes rest ih => exact (announces_reply w bytes).trans (ih _)

variable [Ghostty G]

private theorem announces_flushFeed (w : Writing G ε) : Announces w.actor w.flushFeed.actor := by
  unfold flushFeed
  split
  · exact .refl _
  · exact .of_eq rfl rfl

private theorem announces_risToken (w : Writing G ε) : Announces w.actor w.risToken.actor := by
  have hf : Announces w.actor
      ({ w with actor := { w.actor with history := w.actor.history.invalidate } } :
        Writing G ε).flushFeed.actor :=
    .trans (.of_eq rfl rfl) (announces_flushFeed _)
  refine hf.trans ⟨_, List.append_assoc _ _ _, ?_⟩
  rw [told_append]
  split
  · split
    · rfl
    · next h => exact Bool.not_eq_true _ ▸ h
  · split
    · rfl
    · next h => exact Bool.not_eq_true _ ▸ h

private theorem announces_trackModes (w : Writing G ε) (c : Csi) :
    Announces w.actor (w.trackModes c).actor := by
  unfold trackModes
  split
  · exact .of_eq rfl rfl
  · split
    · exact .of_eq rfl rfl
    · split
      · exact .refl _
      · next params set _ =>
        have hm : Announces w.actor
            { w.actor with
              modes := (Modes.applyAll ε w.actor.modes params set).1
              events := w.actor.events ++ (Modes.applyAll ε w.actor.modes params set).2 } :=
          ⟨_, rfl, told_applyAll _ _ _⟩
        dsimp only
        split
        · exact hm.trans ((announces_flushFeed _).trans (.of_eq rfl rfl))
        · split
          · exact hm.trans (.of_eq rfl rfl)
          · exact hm

private theorem announces_answerCsi (w : Writing G ε) (c : Csi) :
    Announces w.actor (w.answerCsi c).actor := by
  unfold answerCsi
  split
  · exact (announces_flushFeed w).trans (announces_reply _ _)
  · split
    · exact (announces_flushFeed w).trans (announces_reply _ _)
    · split
      · exact (announces_flushFeed w).trans (announces_reply _ _)
      · have ht : Announces w.actor ((w.recordShape c).trackModes c).actor :=
          (announces_recordShape w c).trans (announces_trackModes _ c)
        dsimp only
        split <;> exact ht.trans (.of_eq rfl rfl)

private theorem announces_answerOsc [Taps ε] (w : Writing G ε) (o : Osc) :
    Announces w.actor (w.answerOsc o).actor := by
  unfold answerOsc
  split
  · exact (announces_flushFeed w).trans (announces_reply _ _)
  · split
    · exact (announces_flushFeed w).trans (announces_replies _ _)
    · exact ⟨_, List.append_assoc _ _ _, told_taps _ _ _⟩

private theorem announces_token [Taps ε] (w : Writing G ε) (t : Token) :
    Announces w.actor (w.token t).actor := by
  cases t with
  | raw bytes => exact announces_rawToken w bytes
  | ris => exact announces_risToken w
  | csi c => exact (announces_recordKeys w c).trans (announces_answerCsi _ c)
  | osc o => exact (announces_recordColor w o).trans (announces_answerOsc _ o)

private theorem announces_tokens [Taps ε] (tokens : List Token) (w : Writing G ε) :
    Announces w.actor (tokens.foldl token w).actor := by
  induction tokens generalizing w with
  | nil => exact .refl _
  | cons t rest ih => exact (announces_token w t).trans (ih _)

end Writing

/-! ### The actor -/

namespace TerminalActor

variable {G ε : Type}

private theorem told_callbacks (on : Bool) (bells : Nat) (titles : List String) :
    told on (List.replicate bells (.bell : TerminalEvent ε) ++ titles.map .titleChange) = on := by
  rw [told_append]
  have hb : told on (List.replicate bells (.bell : TerminalEvent ε)) = on := by
    induction bells with
    | zero => rfl
    | succ n ih => exact ih
  rw [hb]
  induction titles with
  | nil => rfl
  | cons t rest ih => exact ih

/-- `write` announces what it does to the mode. -/
theorem announces_write [Ghostty G] [Taps ε] (a : TerminalActor G ε) (data : List UInt8) :
    Announces a (a.write data).2 := by
  have hw : Announces a ((a.scanner.feed data).2.foldl Writing.token
      ⟨{ a with scanner := (a.scanner.feed data).1 }, [], []⟩).flushFeed.actor :=
    .trans (.of_eq rfl rfl)
      ((Writing.announces_tokens _ _).trans (Writing.announces_flushFeed _))
  exact hw.trans ⟨_, List.append_assoc _ _ _, told_callbacks _ _ _⟩

theorem announces_takePtyReplies (a : TerminalActor G ε) : Announces a a.takePtyReplies.2 :=
  .of_eq rfl rfl

theorem announces_endStream (a : TerminalActor G ε) : Announces a a.endStream := by
  unfold endStream
  dsimp only
  split
  · exact ⟨_, rfl, rfl⟩
  · exact .of_eq rfl rfl

/-- After the end of a stream the mode is off. -/
theorem enhancedPaste_endStream (a : TerminalActor G ε) :
    a.endStream.modes.enhancedPaste = false := by
  unfold endStream
  dsimp only
  split
  · rfl
  · next h => exact Bool.not_eq_true _ ▸ h

variable [Emulator G]

theorem announces_reset (a : TerminalActor G ε) : Announces a a.reset := by
  refine ⟨_, rfl, ?_⟩
  split
  · rfl
  · next h => exact Bool.not_eq_true _ ▸ h

theorem announces_resize (a : TerminalActor G ε) (cols rows : UInt16) :
    Announces a (a.resize cols rows) := by
  unfold resize
  dsimp only
  split <;> exact .of_eq rfl rfl

theorem announces_setCellSize (a : TerminalActor G ε) (cell : CellSize) :
    Announces a (a.setCellSize cell) := by
  unfold setCellSize
  split
  · exact .refl _
  · exact .of_eq rfl rfl

theorem announces_setPalette (a : TerminalActor G ε) (colors : List (UInt8 × UInt8 × UInt8)) :
    Announces a (a.setPalette colors) := .of_eq rfl rfl

theorem announces_clearGraphics (a : TerminalActor G ε) : Announces a a.clearGraphics :=
  .of_eq rfl rfl

end TerminalActor

end PtySpec.Vt
