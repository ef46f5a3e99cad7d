import PtySpec.Lib.Trace
import PtySpec.Metadata.Json

/-!
# A remote route

`crates/pty/src/remote.rs` and `RemoteDialer::route`, `crates/pty-client/src/remote.rs:257`:
one request line, one answer line, and then the bytes of the session's socket both ways. The
transport is a pipe of bytes each way; every read takes as many of the waiting bytes as it
pleases, up to the size of its buffer.
-/

namespace PtySpec.Remote

open Lib Metadata

/-- A newline. -/
def NEWLINE : UInt8 := 0x0a

/-- How far `Stdin` reads ahead. -/
def STDIN_BUF_SIZE : Nat := 8192

/-- The buffers of `splice`, `remote.rs:162`. -/
def SPLICE_BUF_SIZE : Nat := 16384

/-- What is used of serde: a parser, a printer on one line, and the dialing side's reading of
the answer line as its `ok` and `error` fields. -/
structure Serde where
  parse : List UInt8 → Option Json
  print : Json → List UInt8
  print_line : ∀ v, NEWLINE ∉ print v
  routeAck : List UInt8 → Option (Option Bool × Option String)

/-- What `serve_stdio` finds on its host: the rows of the list, the session a reference
names, and whether that session's socket accepts. -/
structure Host where
  rows : Json
  getSession : String → Except String (Option String)
  connects : String → Bool

/-- `write_error`, `remote.rs:66`: the value on the answer line. -/
def errorValue (message : String) : Json := .object [("error", .string message)]

/-- `route`, `remote.rs:113`: the value on the answer line, and whether the socket is spliced. -/
def route (h : Host) (reference : String) : Json × Bool :=
  match h.getSession reference with
  | .error ambiguous => (errorValue ambiguous, false)
  | .ok none => (errorValue s!"session \"{reference}\" not found", false)
  | .ok (some name) =>
    if h.connects name then (.object [("ok", .bool true)], true)
    else (errorValue s!"session \"{reference}\" not found", false)

/-- `serve_stdio` once it has the request line, `remote.rs:88`. -/
def respond (h : Host) : Option Json → Json × Bool
  | none => (errorValue "malformed request", false)
  | some request =>
    match (request.get "op").bind Json.asStr with
    | some "list" => (.object [("sessions", h.rows)], false)
    | some "route" => route h (((request.get "name").bind Json.asStr).getD "")
    | some op => (errorValue s!"unknown op: {op}", false)
    | none => (errorValue "malformed request", false)

/-- What `remote-serve` does: it reads the line, has answered without a route, splices, or
has left after a splice. -/
inductive Phase where
  | line
  | answered
  | spliced
  | left
  deriving DecidableEq, Repr

/-- What the dialing side does: it reads the answer line, talks to the session, or has given
up. -/
inductive Dial where
  | asking
  | talking
  | failed
  deriving DecidableEq, Repr

/-- One connection. -/
structure Tunnel where
  /-- Everything the dialing side has sent, and whether it has stopped. -/
  sent : List UInt8 := []
  closed : Bool := false
  /-- Not read yet from descriptor 0, and in the buffer of `Stdin`. -/
  waiting : List UInt8 := []
  ahead : List UInt8 := []
  line : List UInt8 := []
  phase : Phase := .line
  /-- Written to the session's socket, and read but refused by it. -/
  written : List UInt8 := []
  refused : List UInt8 := []
  deaf : Bool := false
  /-- Everything the session has sent, what is not read of it, and whether it has stopped. -/
  output : List UInt8 := []
  unread : List UInt8 := []
  hungUp : Bool := false
  /-- On the way to the dialing side, and read but not taken by descriptor 1. -/
  replies : List UInt8 := []
  dropped : List UInt8 := []
  dial : Dial := .asking
  ack : List UInt8 := []
  received : List UInt8 := []

/-- The steps. A read's number is how many bytes it takes. -/
inductive Label where
  | send (bytes : List UInt8)
  | close
  | fill (n : Nat)
  | byte (h : Host)
  | eof (h : Host)
  | fails (h : Host)
  | forward (n : Nat)
  | forwardRefused (n k : Nat)
  | stopForward
  | output (bytes : List UInt8)
  | hangUp
  | back (n : Nat)
  | backRefused (n k : Nat)
  | leave
  | ackByte
  | giveUp
  | receive (n : Nat)

/-- The answer line grants the route, `crates/pty-client/src/remote.rs:280-291`. -/
def accepted : Option (Option Bool × Option String) → Bool
  | some (ok, none) => ok = some true
  | _ => false

namespace Tunnel

/-- The request line is complete, `remote.rs:88`. -/
def answer (io : Serde) (h : Host) (s : Tunnel) : Tunnel :=
  let r := respond h (io.parse s.line)
  { s with
    replies := s.replies ++ io.print r.1 ++ [NEWLINE]
    phase := if r.2 then .spliced else .answered }

/-- A raw read of at most `size` bytes may give `n` of those that wait. -/
def CanRead (size n : Nat) (bytes : List UInt8) : Prop := 0 < n ∧ n ≤ size ∧ n ≤ bytes.length

instance (size n : Nat) (bytes : List UInt8) : Decidable (CanRead size n bytes) :=
  inferInstanceAs (Decidable (_ ∧ _))

/-- One step of either side, of the transport or of the session. -/
def step (io : Serde) (s : Tunnel) : Label → Option Tunnel
  | .send bytes =>
    if s.closed then none
    else some { s with sent := s.sent ++ bytes, waiting := s.waiting ++ bytes }
  | .close => some { s with closed := true }
  -- `StdinLock::read` of one byte with an empty buffer: it reads as much as is there
  | .fill n =>
    if s.phase = .line ∧ s.ahead = [] ∧ CanRead STDIN_BUF_SIZE n s.waiting then
      some { s with ahead := s.waiting.take n, waiting := s.waiting.drop n }
    else none
  -- `remote.rs:78`: one byte of the line out of the buffer
  | .byte h =>
    if s.phase = .line then
      match s.ahead with
      | [] => none
      | b :: rest =>
        if b = NEWLINE then some ({ s with ahead := rest }.answer io h)
        else some { s with ahead := rest, line := s.line ++ [b] }
    else none
  | .eof h =>
    if s.phase = .line ∧ s.ahead = [] ∧ s.waiting = [] ∧ s.closed then some (s.answer io h)
    else none
  | .fails h =>
    if s.phase = .line ∧ s.ahead = [] then some (s.answer io h) else none
  -- the thread of `remote.rs:157`: it reads the descriptor itself
  | .forward n =>
    if s.phase = .spliced ∧ ¬ s.deaf ∧ CanRead SPLICE_BUF_SIZE n s.waiting then
      some { s with written := s.written ++ s.waiting.take n, waiting := s.waiting.drop n }
    else none
  | .forwardRefused n k =>
    if s.phase = .spliced ∧ ¬ s.deaf ∧ CanRead SPLICE_BUF_SIZE n s.waiting ∧ k < n then
      some { s with
        written := s.written ++ s.waiting.take k
        refused := s.refused ++ (s.waiting.take n).drop k
        waiting := s.waiting.drop n
        deaf := true }
    else none
  -- the end of descriptor 0, or an error of it
  | .stopForward =>
    if s.phase = .spliced ∧ ¬ s.deaf then some { s with deaf := true } else none
  | .output bytes =>
    if s.phase = .spliced ∧ ¬ s.hungUp then
      some { s with output := s.output ++ bytes, unread := s.unread ++ bytes }
    else none
  | .hangUp => if s.phase = .spliced then some { s with hungUp := true } else none
  -- the loop of `remote.rs:180`
  | .back n =>
    if s.phase = .spliced ∧ CanRead SPLICE_BUF_SIZE n s.unread then
      some { s with replies := s.replies ++ s.unread.take n, unread := s.unread.drop n }
    else none
  | .backRefused n k =>
    if s.phase = .spliced ∧ CanRead SPLICE_BUF_SIZE n s.unread ∧ k < n then
      some { s with
        replies := s.replies ++ s.unread.take k
        dropped := s.dropped ++ (s.unread.take n).drop k
        unread := s.unread.drop n
        phase := .left }
    else none
  -- the session's end or an error of its socket: the process exits
  | .leave => if s.phase = .spliced then some { s with phase := .left } else none
  -- `read_line`, `crates/pty-client/src/remote.rs:341`, on the socket itself
  | .ackByte =>
    if s.dial = .asking then
      match s.replies with
      | [] => none
      | b :: rest =>
        if b = NEWLINE then
          some { s with
            replies := rest
            dial := if accepted (io.routeAck s.ack) then .talking else .failed }
        else some { s with replies := rest, ack := s.ack ++ [b] }
    else none
  -- the deadline, the end of the socket or an error of it
  | .giveUp => if s.dial = .asking then some { s with dial := .failed } else none
  | .receive n =>
    if s.dial = .talking ∧ 0 < n ∧ n ≤ s.replies.length then
      some { s with received := s.received ++ s.replies.take n, replies := s.replies.drop n }
    else none

/-- A new connection. -/
def Init (s : Tunnel) : Prop := s = {}

/-- The bytes after the first newline. -/
def afterLine (bytes : List UInt8) : List UInt8 := (bytes.dropWhile (· ≠ NEWLINE)).drop 1

/-- The session's socket is, or was, spliced. -/
def Routed (s : Tunnel) : Prop := s.phase = .spliced ∨ s.phase = .left

/-- What was written to the session's socket, with what it refused and what was not read yet,
is what the dialing side sent after its line; what the dialing side read after the answer
line, with what it has not read yet, is what the session sent. -/
def Transparent (s : Tunnel) : Prop :=
  (s.Routed → s.written ++ s.refused ++ s.waiting = afterLine s.sent) ∧
  (s.dial = .talking → s.received ++ s.replies ++ s.dropped ++ s.unread = s.output)

/-- No read of descriptor 0 fails while the line is read. -/
def unfailing (_ : Tunnel) : Label → Bool
  | .fails _ => false
  | _ => true

/-- A read that brings the end of the line brings nothing after it, and none fails. -/
def apart (s : Tunnel) : Label → Bool
  | .fill n => NEWLINE ∉ (s.waiting.take n).dropLast
  | l => unfailing s l

/-! ### Every byte is somewhere -/

/-- What holds while the line is read. -/
structure Reading (s : Tunnel) : Prop where
  sent : s.sent = s.line ++ s.ahead ++ s.waiting
  line : NEWLINE ∉ s.line
  written : s.written = []
  refused : s.refused = []
  output : s.output = []
  unread : s.unread = []
  dropped : s.dropped = []
  replies : s.replies = []
  received : s.received = []
  ack : s.ack = []
  dial : s.dial ≠ .talking

/-- What the dialing side sent after its line. -/
structure Onward (s : Tunnel) : Prop where
  sent : afterLine s.sent = s.ahead ++ s.written ++ s.refused ++ s.waiting
  ended : NEWLINE ∈ s.sent ∨ s.closed = true
  deaf : s.deaf = false → s.refused = []

/-- What the session sent, and before it the answer line. -/
structure Back (s : Tunnel) : Prop where
  ack : NEWLINE ∉ s.ack
  dropped : s.phase ≠ .left → s.dropped = []
  asking : s.dial = .asking → s.received = [] ∧ ∃ rest back,
    s.replies = rest ++ NEWLINE :: back ∧ NEWLINE ∉ rest ∧
      back ++ s.dropped ++ s.unread = s.output
  talking : s.dial = .talking → s.received ++ s.replies ++ s.dropped ++ s.unread = s.output

/-- Every byte is somewhere. -/
def Accounted (s : Tunnel) : Prop :=
  if s.phase = .line then s.Reading else s.Onward ∧ s.Back

section Bytes

variable {bytes : List UInt8}

private theorem afterLine_append (h : NEWLINE ∈ bytes) (more : List UInt8) :
    afterLine (bytes ++ more) = afterLine bytes ++ more := by
  induction bytes with
  | nil => cases h
  | cons b bytes ih =>
    by_cases hb : b = NEWLINE
    · simp [afterLine, hb]
    · have hm : NEWLINE ∈ bytes := (List.mem_cons.mp h).resolve_left (Ne.symm hb)
      have hi := ih hm
      simp only [afterLine] at hi ⊢
      rw [List.cons_append, List.dropWhile_cons_of_pos (by simpa using hb),
        List.dropWhile_cons_of_pos (by simpa using hb), hi]

private theorem afterLine_line (h : NEWLINE ∉ bytes) (more : List UInt8) :
    afterLine (bytes ++ NEWLINE :: more) = more := by
  have hd : bytes.dropWhile (· ≠ NEWLINE) = [] := by
    rw [List.dropWhile_eq_nil_iff]
    intro x hx
    simpa using fun he : x = NEWLINE ↦ h (he ▸ hx)
  rw [afterLine, List.dropWhile_append, hd]
  simp

private theorem afterLine_none (h : NEWLINE ∉ bytes) : afterLine bytes = [] := by
  have hd : bytes.dropWhile (· ≠ NEWLINE) = [] := by
    rw [List.dropWhile_eq_nil_iff]
    intro x hx
    simpa using fun he : x = NEWLINE ↦ h (he ▸ hx)
  rw [afterLine, hd, List.drop_nil]

private theorem take_drop_drop (bytes : List UInt8) {k n : Nat} (h : k ≤ n) :
    bytes.take k ++ ((bytes.take n).drop k ++ bytes.drop n) = bytes := by
  have hk : bytes.take k = (bytes.take n).take k := by rw [List.take_take, Nat.min_eq_left h]
  rw [hk, ← List.append_assoc, List.take_append_drop, List.take_append_drop]

end Bytes

variable {io : Serde} {s t : Tunnel} {l : Label}

/-- A complete line is answered with one line. -/
private theorem Reading.answer (h : s.Reading) {ahead : List UInt8}
    (hs : afterLine s.sent = ahead ++ s.waiting) (he : NEWLINE ∈ s.sent ∨ s.closed = true)
    (io : Serde) (host : Host) : ({ s with ahead := ahead }.answer io host).Accounted := by
  have hp : ({ s with ahead := ahead }.answer io host).phase ≠ .line := by
    simp only [Tunnel.answer]
    split <;> simp
  rw [Accounted, if_neg hp]
  refine ⟨⟨?_, he, fun _ ↦ h.refused⟩, ⟨?_, fun _ ↦ h.dropped, fun _ ↦ ⟨h.received, ?_⟩, ?_⟩⟩
  · simpa [Tunnel.answer, h.written, h.refused] using hs
  · simp [Tunnel.answer, h.ack]
  · refine ⟨io.print (respond host (io.parse s.line)).1, [], ?_, io.print_line _, ?_⟩
    · simp [Tunnel.answer, h.replies]
    · simp [Tunnel.answer, h.dropped, h.unread, h.output]
  · exact fun hd ↦ absurd hd h.dial

private theorem Reading.step (h : s.Reading) (hp : s.phase = .line) (hl : unfailing s l = true)
    (hst : step io s l = some t) : t.Accounted := by
  cases l with
  | send bytes =>
    simp only [Tunnel.step] at hst
    split at hst
    · cases hst
    · cases hst
      rw [Accounted, if_pos hp]
      exact { h with sent := by simp [h.sent] }
  | close => 
    cases hst
    rw [Accounted, if_pos hp]
    exact { h with }
  | fill n =>
    simp only [Tunnel.step] at hst
    split at hst
    · next hc =>
      cases hst
      rw [Accounted, if_pos hp]
      exact { h with sent := by simp [h.sent, hc.2.1] }
    · cases hst
  | byte host =>
    simp only [Tunnel.step, if_pos hp] at hst
    split at hst
    · cases hst
    · next b rest ha =>
      split at hst
      · next hb =>
        cases hst
        subst hb
        have hs : s.sent = s.line ++ NEWLINE :: (rest ++ s.waiting) := by simp [h.sent, ha]
        refine h.answer ?_ (.inl ?_) io host
        · rw [hs]
          exact afterLine_line h.line _
        · simp [hs]
      · next hb =>
        cases hst
        rw [Accounted, if_pos hp]
        exact { h with
          sent := by simp [h.sent, ha]
          line := by simp [h.line, Ne.symm hb] }
  | eof host =>
    simp only [Tunnel.step] at hst
    split at hst
    · next hc =>
      cases hst
      refine h.answer ?_ (.inr hc.2.2.2) io host
      rw [h.sent, hc.2.1, hc.2.2.1, List.append_nil, List.append_nil]
      exact afterLine_none h.line
    · cases hst
  | fails host => cases hl
  | ackByte =>
    simp only [Tunnel.step, h.replies] at hst
    split at hst <;> cases hst
  | giveUp =>
    simp only [Tunnel.step] at hst
    split at hst
    · cases hst
      rw [Accounted, if_pos hp]
      exact { h with dial := by simp }
    · cases hst
  | receive n =>
    simp only [Tunnel.step, h.replies] at hst
    split at hst
    · next hc => exact absurd hc.1 h.dial
    · cases hst
  | forward n => simp [Tunnel.step, hp] at hst
  | forwardRefused n k => simp [Tunnel.step, hp] at hst
  | stopForward => simp [Tunnel.step, hp] at hst
  | output bytes => simp [Tunnel.step, hp] at hst
  | hangUp => simp [Tunnel.step, hp] at hst
  | back n => simp [Tunnel.step, hp] at hst
  | backRefused n k => simp [Tunnel.step, hp] at hst
  | leave => simp [Tunnel.step, hp] at hst

/-- Nothing of it changes what the dialing side sent. -/
private theorem Onward.frame (h : s.Onward) (hs : t.sent = s.sent) (ha : t.ahead = s.ahead)
    (hw : t.written = s.written) (hr : t.refused = s.refused) (hq : t.waiting = s.waiting)
    (hc : s.closed = true → t.closed = true) (hd : t.deaf = false → s.deaf = false) :
    t.Onward :=
  ⟨by rw [hs, ha, hw, hr, hq, h.sent], by rw [hs]; exact h.ended.imp_right hc,
    fun hdeaf ↦ hr.trans (h.deaf (hd hdeaf))⟩

private theorem Back.frame (h : s.Back) (ha : t.ack = s.ack) (hd : t.dropped = s.dropped)
    (hl : s.phase = .left → t.phase = .left) (hi : t.dial = s.dial)
    (hr : t.received = s.received) (hp : t.replies = s.replies) (hu : t.unread = s.unread)
    (ho : t.output = s.output) : t.Back := by
  refine ⟨by rw [ha]; exact h.ack, fun hn ↦ hd.trans (h.dropped fun he ↦ hn (hl he)), ?_, ?_⟩
  · rw [hi, hr, hp, hd, hu, ho]
    exact h.asking
  · rw [hi, hr, hp, hd, hu, ho]
    exact h.talking

private theorem answered_step (h : s.Onward) (hb : s.Back) (hp : s.phase ≠ .line)
    (hst : step io s l = some t) : t.phase ≠ .line ∧ t.Onward ∧ t.Back := by
  cases l with
  | send bytes =>
    simp only [step] at hst
    split at hst
    · cases hst
    · next hc =>
      cases hst
      refine ⟨hp, ⟨?_, ?_, h.deaf⟩, hb.frame rfl rfl id rfl rfl rfl rfl rfl⟩
      · have hm : NEWLINE ∈ s.sent := h.ended.resolve_right hc
        simp only [afterLine_append hm, h.sent, List.append_assoc]
      · exact h.ended.imp_left (List.mem_append_left _)
  | close =>
    cases hst
    exact ⟨hp, h.frame rfl rfl rfl rfl rfl (fun _ ↦ rfl) id,
      hb.frame rfl rfl id rfl rfl rfl rfl rfl⟩
  | fill n => simp [step, hp] at hst
  | byte host => simp [step, hp] at hst
  | eof host => simp [step, hp] at hst
  | fails host => simp [step, hp] at hst
  | forward n =>
    simp only [step] at hst
    split at hst
    · next hc =>
      cases hst
      have hr := h.deaf (Bool.not_eq_true _ ▸ hc.2.1)
      refine ⟨hp, ⟨?_, h.ended, h.deaf⟩, hb.frame rfl rfl id rfl rfl rfl rfl rfl⟩
      simp [h.sent, hr]
    · cases hst
  | forwardRefused n k =>
    simp only [step] at hst
    split at hst
    · next hc =>
      cases hst
      have hr := h.deaf (Bool.not_eq_true _ ▸ hc.2.1)
      refine ⟨hp, ⟨?_, h.ended, fun hd ↦ by cases hd⟩, hb.frame rfl rfl id rfl rfl rfl rfl rfl⟩
      simp only [h.sent, hr, List.nil_append, List.append_nil, List.append_assoc,
        take_drop_drop s.waiting (Nat.le_of_lt hc.2.2.2)]
    · cases hst
  | stopForward =>
    simp only [step] at hst
    split at hst
    · cases hst
      exact ⟨hp, h.frame rfl rfl rfl rfl rfl id (fun hd ↦ by cases hd),
        hb.frame rfl rfl id rfl rfl rfl rfl rfl⟩
    · cases hst
  | output bytes =>
    simp only [step] at hst
    split at hst
    · cases hst
      refine ⟨hp, h.frame rfl rfl rfl rfl rfl id id, ⟨hb.ack, hb.dropped, fun hd ↦ ?_, ?_⟩⟩
      · obtain ⟨hr, rest, back, hrep, hrest, ho⟩ := hb.asking hd
        exact ⟨hr, rest, back, hrep, hrest, by simp [← ho]⟩
      · exact fun hd ↦ by simp [← hb.talking hd]
    · cases hst
  | hangUp =>
    simp only [step] at hst
    split at hst
    · cases hst
      exact ⟨hp, h.frame rfl rfl rfl rfl rfl id id, hb.frame rfl rfl id rfl rfl rfl rfl rfl⟩
    · cases hst
  | back n =>
    simp only [step] at hst
    split at hst
    · next hc =>
      cases hst
      have hd : s.dropped = [] := hb.dropped (by rw [hc.1]; decide)
      refine ⟨hp, h.frame rfl rfl rfl rfl rfl id id,
        ⟨hb.ack, hb.dropped, fun ha ↦ ?_, fun ha ↦ ?_⟩⟩
      · obtain ⟨hr, rest, back, hrep, hrest, ho⟩ := hb.asking ha
        exact ⟨hr, rest, back ++ s.unread.take n, by simp [hrep], hrest, by simp [← ho, hd]⟩
      · simp [← hb.talking ha, hd]
    · cases hst
  | backRefused n k =>
    simp only [step] at hst
    split at hst
    · next hc =>
      cases hst
      have hd : s.dropped = [] := hb.dropped (by rw [hc.1]; decide)
      have hcut := take_drop_drop s.unread (Nat.le_of_lt hc.2.2)
      refine ⟨by simp, h.frame rfl rfl rfl rfl rfl id id,
        ⟨hb.ack, fun hn ↦ absurd rfl hn, fun ha ↦ ?_, fun ha ↦ ?_⟩⟩
      · obtain ⟨hr, rest, back, hrep, hrest, ho⟩ := hb.asking ha
        refine ⟨hr, rest, back ++ s.unread.take k, by simp [hrep], hrest, ?_⟩
        simp only [hd, List.nil_append, List.append_assoc, hcut]
        simpa [hd] using ho
      · have ho := hb.talking ha
        simp only [hd, List.nil_append, List.append_assoc, hcut]
        simpa [hd] using ho
    · cases hst
  | leave =>
    simp only [step] at hst
    split at hst
    · cases hst
      exact ⟨by simp, h.frame rfl rfl rfl rfl rfl id id,
        hb.frame rfl rfl (fun _ ↦ rfl) rfl rfl rfl rfl rfl⟩
    · cases hst
  | ackByte =>
    simp only [step] at hst
    split at hst
    · next hask =>
      obtain ⟨hr, rest, back, hrep, hrest, ho⟩ := hb.asking hask
      split at hst
      · cases hst
      · next b more hs =>
        rw [hs] at hrep
        split at hst
        · next hnl =>
          cases hst
          subst hnl
          obtain rfl : rest = [] := by
            cases rest with
            | nil => rfl
            | cons c rest => exact absurd ((List.cons.inj hrep).1 ▸ List.mem_cons_self) hrest
          obtain rfl : more = back := (List.cons.inj hrep).2
          refine ⟨hp, h.frame rfl rfl rfl rfl rfl id id,
            ⟨hb.ack, hb.dropped, fun hd ↦ ?_, fun hd ↦ ?_⟩⟩
          · dsimp only at hd
            split at hd <;> cases hd
          · simpa [hr] using ho
        · next hnl =>
          cases hst
          cases rest with
          | nil => exact absurd (List.cons.inj hrep).1 hnl
          | cons c rest =>
            obtain ⟨rfl, rfl⟩ := List.cons.inj hrep
            refine ⟨hp, h.frame rfl rfl rfl rfl rfl id id,
              ⟨?_, hb.dropped, fun _ ↦ ?_, fun hd ↦ ?_⟩⟩
            · simp [hb.ack, Ne.symm hnl]
            · exact ⟨hr, rest, back, rfl, fun hm ↦ hrest (List.mem_cons_of_mem _ hm), ho⟩
            · exact absurd (hask.symm.trans hd) (by decide)
    · cases hst
  | giveUp =>
    simp only [step] at hst
    split at hst
    · cases hst
      exact ⟨hp, h.frame rfl rfl rfl rfl rfl id id,
        ⟨hb.ack, hb.dropped, (fun hd ↦ by cases hd), (fun hd ↦ by cases hd)⟩⟩
    · cases hst
  | receive n =>
    simp only [step] at hst
    split at hst
    · next hc =>
      cases hst
      refine ⟨hp, h.frame rfl rfl rfl rfl rfl id id,
        ⟨hb.ack, hb.dropped, fun hd ↦ ?_, fun hd ↦ ?_⟩⟩
      · exact absurd (hc.1.symm.trans hd) (by decide)
      · rw [List.append_assoc s.received, List.take_append_drop]
        exact hb.talking hd
    · cases hst

theorem accounted_step (h : s.Accounted) (hl : unfailing s l = true) (hst : step io s l = some t) :
    t.Accounted := by
  by_cases hp : s.phase = .line
  · rw [Accounted, if_pos hp] at h
    exact h.step hp hl hst
  · rw [Accounted, if_neg hp] at h
    obtain ⟨ht, ho, hb⟩ := answered_step h.1 h.2 hp hst
    rw [Accounted, if_neg ht]
    exact ⟨ho, hb⟩

/-- What a step does to the bytes read ahead. -/
inductive Ahead (s : Tunnel) (t : Tunnel) : Label → Prop where
  | same {l : Label} (ha : t.ahead = s.ahead) (hp : t.phase = .line ↔ s.phase = .line) :
    Ahead s t l
  | fill {n : Nat} (hp : s.phase = .line) (hs : s.ahead = []) (ha : t.ahead = s.waiting.take n)
    (ht : t.phase = .line) : Ahead s t (.fill n)
  | byte {host : Host} {b : UInt8} {rest : List UInt8} (hp : s.phase = .line)
    (hs : s.ahead = b :: rest) (ha : t.ahead = rest) (ht : b = NEWLINE ↔ t.phase ≠ .line) :
    Ahead s t (.byte host)
  | ended {l : Label} (hp : s.phase = .line) (hs : s.ahead = []) (ha : t.ahead = [])
    (ht : t.phase ≠ .line) : Ahead s t l

private theorem phase_answer (io : Serde) (host : Host) (s : Tunnel) :
    (s.answer io host).phase ≠ .line := by
  simp only [answer]
  split <;> simp

private theorem ahead_step (hst : step io s l = some t) : Ahead s t l := by
  cases l with
  | send | close | hangUp | giveUp | forward | forwardRefused | stopForward | output | back
  | receive =>
    simp only [step] at hst
    first
    | cases hst; exact .same rfl Iff.rfl
    | split at hst
      · cases hst <;> exact .same rfl Iff.rfl
      · cases hst <;> exact .same rfl Iff.rfl
  | fill n =>
    simp only [step] at hst
    split at hst
    · next hc =>
      cases hst
      exact .fill hc.1 hc.2.1 rfl hc.1
    · cases hst
  | byte host =>
    simp only [step] at hst
    split at hst
    · next hp =>
      split at hst
      · cases hst
      · next b rest ha =>
        split at hst
        · next hb =>
          cases hst
          exact .byte hp ha rfl ⟨fun _ ↦ phase_answer io host _, fun _ ↦ hb⟩
        · next hb =>
          cases hst
          exact .byte hp ha rfl ⟨fun he ↦ absurd he hb, fun hn ↦ absurd hp hn⟩
    · cases hst
  | eof host =>
    simp only [step] at hst
    split at hst
    · next hc =>
      cases hst
      exact .ended hc.1 hc.2.1 hc.2.1 (phase_answer io host s)
    · cases hst
  | fails host =>
    simp only [step] at hst
    split at hst
    · next hc =>
      cases hst
      exact .ended hc.1 hc.2 hc.2 (phase_answer io host s)
    · cases hst
  | backRefused | leave =>
    simp only [step] at hst
    split at hst
    · next hc =>
      cases hst
      exact .same rfl (by simp [hc])
    · cases hst
  | ackByte =>
    simp only [step] at hst
    split at hst
    · split at hst
      · cases hst
      · split at hst <;> cases hst <;> exact .same rfl Iff.rfl
    · cases hst

/-- What `Stdin` has read ahead has a newline at its end at most, and nothing is left of it once
the line is answered. -/
structure Level (s : Tunnel) : Prop where
  reading : s.phase = .line → NEWLINE ∉ s.ahead.dropLast
  done : s.phase ≠ .line → s.ahead = []

/-- Something was read ahead behind the end of the line. -/
structure Behind (s : Tunnel) : Prop where
  reading : s.phase = .line → NEWLINE ∈ s.ahead.dropLast
  done : s.phase ≠ .line → s.ahead ≠ []

private theorem level_step (h : s.Level) (hl : apart s l = true) (hst : step io s l = some t) :
    t.Level := by
  cases ahead_step hst with
  | same ha hp =>
    refine ⟨fun ht ↦ ?_, fun ht ↦ ?_⟩
    · rw [ha]
      exact h.reading (hp.mp ht)
    · rw [ha]
      exact h.done fun hs ↦ ht (hp.mpr hs)
  | fill _ _ ha ht =>
    refine ⟨fun _ ↦ ?_, fun hn ↦ absurd ht hn⟩
    simpa [apart, ha] using hl
  | @byte host b rest hp hs ha ht =>
    have hd := h.reading hp
    rw [hs] at hd
    refine ⟨fun _ ↦ ?_, fun hn ↦ ?_⟩
    · rw [ha]
      cases rest with
      | nil => exact List.not_mem_nil
      | cons c rest => exact fun hm ↦ hd (List.mem_cons_of_mem _ hm)
    · rw [ha]
      cases rest with
      | nil => rfl
      | cons c rest => exact absurd (ht.mpr hn ▸ List.mem_cons_self) hd
  | ended _ _ ha ht => exact ⟨fun he ↦ absurd he ht, fun _ ↦ ha⟩

private theorem behind_step (h : s.Behind) (hst : step io s l = some t) : t.Behind := by
  cases ahead_step hst with
  | same ha hp =>
    refine ⟨fun ht ↦ ?_, fun ht ↦ ?_⟩
    · rw [ha]
      exact h.reading (hp.mp ht)
    · rw [ha]
      exact h.done fun hs ↦ ht (hp.mpr hs)
  | fill hp hs _ _ => exact absurd (h.reading hp) (by simp [hs])
  | @byte host b rest hp hs ha ht =>
    have hd := h.reading hp
    rw [hs] at hd
    cases rest with
    | nil => cases hd
    | cons c rest =>
      refine ⟨fun he ↦ ?_, fun _ ↦ by simp [ha]⟩
      rw [ha]
      refine (List.mem_cons.mp hd).resolve_left fun hb ↦ ?_
      exact ht.mp hb.symm he
  | ended hp hs _ _ => exact absurd (h.reading hp) (by simp [hs])

/-- A step that brings something behind the end of the line. -/
private theorem behind_of_not_apart (hl : unfailing s l = true) (ha : apart s l = false)
    (hst : step io s l = some t) : t.Behind := by
  cases l with
  | fill n =>
    simp only [step] at hst
    split at hst
    · next hc =>
      cases hst
      exact ⟨fun _ ↦ by simpa [apart] using ha, fun hn ↦ absurd hc.1 hn⟩
    · cases hst
  | fails host => cases hl
  | _ => cases ha

private theorem transparent_iff_ahead (h : s.Accounted) (hr : s.Routed) :
    s.Transparent ↔ s.ahead = [] := by
  have hp : s.phase ≠ .line := by
    obtain hr | hr := hr <;> simp [hr]
  rw [Accounted, if_neg hp] at h
  obtain ⟨ho, hb⟩ := h
  constructor
  · intro ht
    have hs := ht.1 hr
    rw [ho.sent, List.append_assoc s.ahead, List.append_assoc s.ahead] at hs
    exact List.self_eq_append_left.mp hs
  · intro ha
    refine ⟨fun _ ↦ ?_, hb.talking⟩
    rw [ho.sent, ha, List.nil_append]

/-- While no read fails, and until the route there is nothing to be told apart. -/
private theorem transparent_of_level (h : s.Accounted) (hl : s.Level) : s.Transparent := by
  by_cases hr : s.Routed
  · refine (transparent_iff_ahead h hr).mpr (hl.done ?_)
    obtain hr | hr := hr <;> simp [hr]
  · refine ⟨fun hn ↦ absurd hn hr, fun hd ↦ ?_⟩
    by_cases hp : s.phase = .line
    · rw [Accounted, if_pos hp] at h
      exact absurd hd h.dial
    · rw [Accounted, if_neg hp] at h
      exact h.2.talking hd

private theorem unfailing_of_apart (h : apart s l = true) : unfailing s l = true := by
  cases l <;> first | rfl | cases h

/-- A run in which no read fails: every byte is somewhere. -/
private theorem accounted_of_replay {labels : List Label} (h : s.Accounted)
    (hr : replay (gate unfailing (step io)) s labels = some t) : t.Accounted := by
  induction labels generalizing s with
  | nil =>
    cases hr
    exact h
  | cons l labels ih =>
    rw [replay, Option.bind_eq_some_iff] at hr
    obtain ⟨u, hu, hr⟩ := hr
    obtain ⟨hl, hst⟩ := gate_eq_some.mp hu
    exact ih (accounted_step h hl hst) hr

/-- A run whose reads bring nothing behind the end of the line. -/
private theorem level_of_replay {labels : List Label} (h : s.Level) (ha : s.Accounted)
    (hr : replay (gate apart (step io)) s labels = some t) : t.Level ∧ t.Accounted := by
  induction labels generalizing s with
  | nil =>
    cases hr
    exact ⟨h, ha⟩
  | cons l labels ih =>
    rw [replay, Option.bind_eq_some_iff] at hr
    obtain ⟨u, hu, hr⟩ := hr
    obtain ⟨hl, hst⟩ := gate_eq_some.mp hu
    exact ih (level_step h hl hst) (accounted_step ha (unfailing_of_apart hl) hst) hr

private theorem behind_of_replay {labels : List Label} (h : s.Behind)
    (hr : replay (gate unfailing (step io)) s labels = some t) : t.Behind := by
  induction labels generalizing s with
  | nil =>
    cases hr
    exact h
  | cons l labels ih =>
    rw [replay, Option.bind_eq_some_iff] at hr
    obtain ⟨u, hu, hr⟩ := hr
    exact ih (behind_step h (gate_eq_some.mp hu).2) hr

/-- A run either brings nothing behind the end of the line, or something stays there. -/
private theorem apart_or_behind {labels : List Label}
    (hr : replay (gate unfailing (step io)) s labels = some t) :
    replay (gate apart (step io)) s labels = some t ∨ t.Behind := by
  induction labels generalizing s with
  | nil => exact .inl hr
  | cons l labels ih =>
    rw [replay, Option.bind_eq_some_iff] at hr
    obtain ⟨u, hu, hr⟩ := hr
    obtain ⟨hl, hst⟩ := gate_eq_some.mp hu
    cases ha : apart s l with
    | true =>
      refine (ih hr).imp_left fun hi ↦ ?_
      rw [replay, gate_eq_some.mpr ⟨ha, hst⟩]
      exact hi
    | false => exact .inr (behind_of_replay (behind_of_not_apart hl ha hst) hr)

private theorem accounted_init : Accounted {} :=
  { sent := rfl, line := by simp, written := rfl, refused := rfl, output := rfl,
    unread := rfl, dropped := rfl, replies := rfl, received := rfl, ack := rfl,
    dial := by simp }

/-- In every state of every run in which the reads of the line bring nothing behind its end and
none of them fails, the route is transparent both ways. A run without failing reads that is
transparent once it is routed is one of these. -/
theorem transparent_iff (io : Serde) (labels : List Label) (s : Tunnel) :
    (replay (gate apart (step io)) {} labels = some s → s.Transparent) ∧
    (replay (gate unfailing (step io)) {} labels = some s → s.Routed →
      (s.Transparent ↔ replay (gate apart (step io)) {} labels = some s)) := by
  have hlevel : Level {} := ⟨fun _ ↦ by simp, fun _ ↦ rfl⟩
  have hfirst : replay (gate apart (step io)) {} labels = some s → s.Transparent := fun h ↦ by
    obtain ⟨hl, ha⟩ := level_of_replay hlevel accounted_init h
    exact transparent_of_level ha hl
  refine ⟨hfirst, fun h hr ↦ ⟨fun ht ↦ ?_, hfirst⟩⟩
  refine (apart_or_behind h).resolve_right fun hb ↦ ?_
  refine hb.done ?_ ((transparent_iff_ahead (accounted_of_replay accounted_init h) hr).mp ht)
  obtain hr | hr := hr <;> simp [hr]

/-! ### A route to one session -/

private def bytesOf (s : String) : List UInt8 := s.toList.map fun c ↦ UInt8.ofNat c.toNat

private def request : List UInt8 := bytesOf "\x7b\"op\":\"route\",\"name\":\"s\"\x7d"

/-- Serde on the two lines of a granted route. -/
private def granting : Serde where
  parse line := if line = request then
    some (.object [("op", .string "route"), ("name", .string "s")]) else none
  print _ := bytesOf "\x7b\"ok\":true\x7d"
  print_line _ := by decide
  routeAck line := if line = bytesOf "\x7b\"ok\":true\x7d" then some (some true, none) else none

private def host : Host := ⟨.array [], fun _ ↦ .ok (some "s"), fun _ ↦ true⟩

/-- The request line and one byte more, both in one read, or each in its own. -/
private def together : List Label :=
  .send (request ++ [NEWLINE, 0x78]) :: .fill 27 :: List.replicate 26 (.byte host)

private def onItsOwn : List Label :=
  .send (request ++ [NEWLINE, 0x78]) :: .fill 26 :: List.replicate 26 (.byte host) ++ [.forward 1]

private def after (labels : List Label) : Tunnel := (replay (step granting) {} labels).getD {}

/-- A byte that comes in a read of its own reaches the session. -/
theorem transparent_iff_own : (after onItsOwn).Transparent ∧ (after onItsOwn).written = [0x78] :=
  ⟨(transparent_iff granting onItsOwn _).1 rfl, rfl⟩

/-- A byte that comes with the request line never reaches the session. -/
theorem transparent_lost : replay (step granting) {} together = some (after together) ∧
    (after together).Routed ∧ (after together).waiting = [] ∧ (after together).written = [] ∧
    ¬ (after together).Transparent := by
  have hr : (after together).Routed := .inl rfl
  exact ⟨rfl, hr, rfl, rfl, fun h ↦ absurd (h.1 hr) (by decide)⟩

end Tunnel
end PtySpec.Remote
