import PtySpec.Daemon.Actor
import PtySpec.Lib.Lines
import PtySpec.Operation.OwnerFrame

/-!
# Two readers of the owner's channel

The daemon reads the owner's frames as they arrive, `crates/pty/src/daemon/operation.rs:859`;
the launcher peeks at what is queued before it forks, `crates/pty/src/cli/run_operation.rs:227`.
-/

namespace PtySpec.Daemon

open Lib
open Operation

/-! ### The daemon's reader -/

/-- What `recv` returns: bytes, the end of the stream, or an error. -/
inductive Recv where
  | data (bytes : List UInt8)
  | eof
  | interrupted
  | wouldBlock
  | failed
  deriving DecidableEq, Repr

/-- The locals `input` and `reading` of `control_io`, `operation.rs:851-854`. -/
structure ControlReader where
  input : List UInt8
  reading : Bool
  deriving DecidableEq, Repr

/-- Before anything is read. -/
def ControlReader.new : ControlReader := ⟨[], true⟩

section Readers

variable (parse : List UInt8 → OwnerFrame)

/-- The frames of complete lines up to the first malformed one, `operation.rs:867-877`, and
whether there was one. -/
def takeFrames : List (List UInt8) → List OwnerFrame × Bool
  | [] => ([], false)
  | line :: lines =>
    if parse line = .malformed then ([.malformed], true)
    else (parse line :: (takeFrames lines).1, (takeFrames lines).2)

/-- One turn of the loop of `read_available`, `operation.rs:859-902`; once reading has stopped
nothing is received any more. -/
def ControlReader.recv (r : ControlReader) (x : Recv) : ControlReader × List OwnerInput :=
  if !r.reading then (r, [])
  else
    match x with
    | .data bytes =>
      let input := r.input ++ bytes
      let (frames, malformed) := takeFrames parse (linesOf 0x0a input)
      if malformed then (⟨[], false⟩, frames.map .frame)
      else if FRAME_MAX_BYTES ≤ (restOf 0x0a input).length then
        (⟨[], false⟩, frames.map .frame ++ [.frame .malformed])
      else (⟨restOf 0x0a input, true⟩, frames.map .frame)
    | .eof | .failed => ({ r with reading := false }, [.eof])
    | .interrupted | .wouldBlock => (r, [])

/-- All that is sent to the actor while the socket is read. -/
def ControlReader.readAll : ControlReader → List Recv → List OwnerInput
  | _, [] => []
  | r, x :: xs => (r.recv parse x).2 ++ readAll (r.recv parse x).1 xs

/-- What a stream says: its frames up to the first malformed one, a rest that is too long for a
frame as one, and the end of the stream. -/
def ownerInputs (stream : List UInt8) (closed : Bool) : List OwnerInput :=
  let (frames, malformed) := takeFrames parse (linesOf 0x0a stream)
  frames.map .frame ++
    if malformed then []
    else if FRAME_MAX_BYTES ≤ (restOf 0x0a stream).length then [.frame .malformed]
    else if closed then [.eof] else []

/-! ### The launcher's look -/

/-- What the owner has queued, and whether it has closed its end. -/
structure OwnerQueue where
  bytes : List UInt8
  closed : Bool
  deriving DecidableEq, Repr

/-- `recv` with `MSG_PEEK | MSG_DONTWAIT`: the end of the stream shows when nothing is queued. -/
def OwnerQueue.peek (q : OwnerQueue) (cap : Nat) : Recv :=
  if q.bytes ≠ [] then .data (q.bytes.take cap)
  else if q.closed then .eof
  else .wouldBlock

/-- The loop of `peek_withdrawal`, `run_operation.rs:246-256`. -/
def peekLines : List (List UInt8) → Option (Cause × Option String)
  | [] => none
  | line :: lines =>
    match parse line with
    | .command (.cancel requestId) => some (.cancel, some requestId)
    | .malformed => some (.malformed, none)
    | _ => peekLines lines

/-- `peek_withdrawal`, `run_operation.rs:227`. -/
def peekWithdrawal (q : OwnerQueue) : Option (Cause × Option String) :=
  match q.peek (2 * FRAME_MAX_BYTES) with
  | .eof => some (.ownerEof, none)
  | .data queued =>
    (peekLines parse (linesOf 0x0a queued)).or <|
      if FRAME_MAX_BYTES ≤ (restOf 0x0a queued).length then some (.malformed, none) else none
  | _ => none

end Readers

/-! ### What cancels -/

/-- With what an input cancels the operation before the decision, `operation.rs:1417-1437`. -/
def withdrawal : OwnerInput → Option (Cause × Option String)
  | .eof => some (.ownerEof, none)
  | .frame .malformed => some (.malformed, none)
  | .frame (.command (.cancel requestId)) => some (.cancel, some requestId)
  | _ => none

/-- The first input that cancels. -/
def cancels (inputs : List OwnerInput) : Option (Cause × Option String) :=
  inputs.findSome? withdrawal

namespace Actor

/-- The owner's inputs, one after the other. -/
def hearOwner (a : Actor) (inputs : List OwnerInput) : Act Actor :=
  inputs.foldlM (fun a input ↦ a.onEvent (.owner input)) a

/-- Frames that change nothing are answered, one after the other. -/
def rejectAll (a : Actor) (answers : List (RejectCode × Option String)) : Act Actor :=
  answers.foldlM (fun a answer ↦ a.reject answer.1 answer.2) a

/-- Before the decision the inputs that come before the first that cancels are answered only,
and that one cancels the operation, with the cause and the request it has. -/
def Heard (inputs : List OwnerInput) (withdrawn : Option (Cause × Option String)) : Prop :=
  ∃ answers rest, ∀ a : Actor, a.stage = .deciding →
    a.hearOwner inputs = a.rejectAll answers >>= fun a ↦
      match withdrawn with
      | none => pure a
      | some (cause, requestId) =>
        a.cancelBeforeLaunch cause requestId none >>= fun a ↦ a.hearOwner rest

variable {a : Actor}

private theorem reject_bind_congr {α : Type} {code : RejectCode} {requestId : Option String}
    {f g : Actor → Act α} (h : ∀ b : Actor, b.stage = a.stage → f b = g b) :
    (a.reject code requestId >>= f) = (a.reject code requestId >>= g) := by
  change Prog.ask _ _ = Prog.ask _ _
  congr 1
  funext _
  exact h _ rfl

private theorem bind_assoc' {α β γ : Type} (p : Act α) (f : α → Act β) (g : β → Act γ) :
    (p >>= f) >>= g = p >>= fun x ↦ f x >>= g := by
  induction p with
  | ret x => rfl
  | ask o k ih =>
    change Prog.ask o _ = Prog.ask o _
    congr 1
    funext r
    exact ih r

private theorem hearOwner_cons (h : a.stage = .deciding) (x : OwnerInput)
    (inputs : List OwnerInput) :
    a.hearOwner (x :: inputs) = a.onOwnerDeciding x >>= fun a ↦ a.hearOwner inputs := by
  rw [hearOwner, List.foldlM_cons]
  change (if a.stage = .deciding then a.onOwnerDeciding x else a.onOwnerDecided x) >>= _ = _
  rw [if_pos h]
  rfl

/-- What is heard once one more frame that changes nothing comes first. -/
private theorem Heard.cons {x : OwnerInput} {inputs : List OwnerInput}
    {withdrawn : Option (Cause × Option String)} {code : RejectCode} {requestId : Option String}
    (hx : ∀ a : Actor, a.onOwnerDeciding x = a.reject code requestId)
    (h : Heard inputs withdrawn) : Heard (x :: inputs) withdrawn := by
  obtain ⟨answers, rest, h⟩ := h
  refine ⟨(code, requestId) :: answers, rest, fun a ha ↦ ?_⟩
  rw [hearOwner_cons ha, hx, rejectAll, List.foldlM_cons, bind_assoc']
  exact reject_bind_congr fun b hb ↦ h b (hb.trans ha)

/-- The actor hears every stream as its first input that cancels says. -/
theorem heard_cancels (inputs : List OwnerInput) : Heard inputs (cancels inputs) := by
  induction inputs with
  | nil => exact ⟨[], [], fun a _ ↦ rfl⟩
  | cons x inputs ih =>
    cases x with
    | eof => exact ⟨[], inputs, fun a ha ↦ hearOwner_cons ha _ _⟩
    | frame f =>
      cases f with
      | malformed =>
        refine ⟨[(.malformed, none)], inputs, fun a ha ↦ ?_⟩
        rw [hearOwner_cons ha]
        change (a.reject .malformed none >>= fun a ↦ a.cancelBeforeLaunch .malformed none none) >>=
          _ = _
        rw [bind_assoc', rejectAll, List.foldlM_cons, bind_assoc']
        rfl
      | rejected code requestId => exact ih.cons fun _ ↦ rfl
      | command c =>
        cases c with
        | cancel requestId => exact ⟨[], inputs, fun a ha ↦ hearOwner_cons ha _ _⟩
        | transfer requestId incarnationId generation => exact ih.cons fun _ ↦ rfl

end Actor

/-! ### A stream is read the same however it is cut -/

section Reading

variable {parse : List UInt8 → OwnerFrame}

private theorem takeFrames_append (ls ms : List (List UInt8)) :
    takeFrames parse (ls ++ ms) =
      if (takeFrames parse ls).2 then takeFrames parse ls
      else ((takeFrames parse ls).1 ++ (takeFrames parse ms).1, (takeFrames parse ms).2) := by
  induction ls with
  | nil => rfl
  | cons l ls ih =>
    rw [List.cons_append, takeFrames, takeFrames]
    split
    · rfl
    · rw [ih]
      cases hm : (takeFrames parse ls).2 <;> simp [hm]

/-- What is said by a stream that goes on. -/
private theorem ownerInputs_append_of_malformed {s : List UInt8} (t : List UInt8) (closed : Bool)
    (h : (takeFrames parse (linesOf 0x0a s)).2 = true) :
    ownerInputs parse (s ++ t) closed = (takeFrames parse (linesOf 0x0a s)).1.map .frame := by
  rw [ownerInputs, (linesOf_append 0x0a s t).1, takeFrames_append, h]
  simp [h]

/-- A rest that is too long is malformed, whether its line is complete or not. -/
private theorem ownerInputs_append_of_long
    (hlong : ∀ line : List UInt8, FRAME_MAX_BYTES ≤ line.length → parse line = .malformed)
    {s : List UInt8} (t : List UInt8) (closed : Bool)
    (h : (takeFrames parse (linesOf 0x0a s)).2 = false)
    (hr : FRAME_MAX_BYTES ≤ (restOf 0x0a s).length) :
    ownerInputs parse (s ++ t) closed =
      (takeFrames parse (linesOf 0x0a s)).1.map .frame ++ [.frame .malformed] := by
  have hall := unlines_linesOf 0x0a (restOf 0x0a s ++ t)
  have hmore : takeFrames parse (linesOf 0x0a (restOf 0x0a s ++ t)) = ([.malformed], true) ∨
      takeFrames parse (linesOf 0x0a (restOf 0x0a s ++ t)) = ([], false) ∧
        FRAME_MAX_BYTES ≤ (restOf 0x0a (restOf 0x0a s ++ t)).length := by
    cases hl : linesOf 0x0a (restOf 0x0a s ++ t) with
    | nil =>
      rw [hl, unlines_nil, List.nil_append] at hall
      refine .inr ⟨rfl, ?_⟩
      rw [hall, List.length_append]
      omega
    | cons l ls =>
      left
      rw [hl, unlines_cons, List.append_assoc] at hall
      have hlen : FRAME_MAX_BYTES ≤ l.length := by
        obtain ⟨u, hu, hsep⟩ | ⟨u, hu, -⟩ := List.append_eq_append_iff.mp hall
        · cases u with
          | nil =>
            rw [hu, List.append_nil] at hr
            exact hr
          | cons b u =>
            -- the rest of the stream has no newline
            have hb : 0x0a = b := (List.cons.inj hsep).1
            have hmem : b ∈ restOf 0x0a s := hu ▸ List.mem_append_right l List.mem_cons_self
            exact absurd (hb ▸ hmem) (not_mem_restOf 0x0a s)
        · rw [hu, List.length_append]
          omega
      rw [takeFrames, if_pos (hlong l hlen)]
  rw [ownerInputs, (linesOf_append 0x0a s t).1, (linesOf_append 0x0a s t).2, takeFrames_append, h]
  obtain he | ⟨he, hlen⟩ := hmore
  · simp [he]
  · simp [he, hlen]

private theorem readAll_stopped (r : ControlReader) (h : r.reading = false) (xs : List Recv) :
    r.readAll parse xs = [] := by
  induction xs with
  | nil => rfl
  | cons x xs ih =>
    have hx : r.recv parse x = (r, []) := by
      unfold ControlReader.recv
      rw [h]
      rfl
    rw [ControlReader.readAll, hx, ih]
    rfl

private theorem recv_data (input bytes : List UInt8) :
    (⟨input, true⟩ : ControlReader).recv parse (.data bytes) =
      if (takeFrames parse (linesOf 0x0a (input ++ bytes))).2 then
        (⟨[], false⟩, (takeFrames parse (linesOf 0x0a (input ++ bytes))).1.map .frame)
      else if FRAME_MAX_BYTES ≤ (restOf 0x0a (input ++ bytes)).length then
        (⟨[], false⟩, (takeFrames parse (linesOf 0x0a (input ++ bytes))).1.map .frame ++
          [.frame .malformed])
      else
        (⟨restOf 0x0a (input ++ bytes), true⟩,
          (takeFrames parse (linesOf 0x0a (input ++ bytes))).1.map .frame) := rfl

/-- The bytes of what is received. -/
def received (xs : List Recv) : List UInt8 :=
  xs.flatMap fun
    | .data bytes => bytes
    | _ => []

/-- Nothing is received after the end of the stream, or after an error. -/
def Recv.Ends (x : Recv) : Prop := x = .eof ∨ x = .failed

/-- Reading goes on from a stream that has been read so far. -/
private theorem readAll_from
    (hlong : ∀ line : List UInt8, FRAME_MAX_BYTES ≤ line.length → parse line = .malformed)
    {xs last : List Recv} (hxs : ∀ x ∈ xs, ¬x.Ends)
    (hlast : last = [] ∨ ∃ x, last = [x] ∧ x.Ends) {s : List UInt8}
    (hs : (takeFrames parse (linesOf 0x0a s)).2 = false)
    (hr : (restOf 0x0a s).length < FRAME_MAX_BYTES) :
    (takeFrames parse (linesOf 0x0a s)).1.map .frame ++
        (⟨restOf 0x0a s, true⟩ : ControlReader).readAll parse (xs ++ last) =
      ownerInputs parse (s ++ received xs) (last ≠ []) := by
  induction xs generalizing s with
  | nil =>
    have hend : (⟨restOf 0x0a s, true⟩ : ControlReader).readAll parse last =
        if last ≠ [] then [.eof] else [] := by
      obtain rfl | ⟨x, rfl, rfl | rfl⟩ := hlast <;> rfl
    rw [List.nil_append, hend, received, List.flatMap_nil, List.append_nil, ownerInputs]
    simp [hs, not_le.mpr hr]
  | cons x xs ih =>
    rw [List.forall_mem_cons] at hxs
    have hi := @ih hxs.2
    rw [List.cons_append, ControlReader.readAll]
    cases x with
    | eof => exact absurd (.inl rfl) hxs.1
    | failed => exact absurd (.inr rfl) hxs.1
    | interrupted => exact hi hs hr
    | wouldBlock => exact hi hs hr
    | data bytes =>
      have hrec : received (.data bytes :: xs) = bytes ++ received xs := rfl
      have hlines := (linesOf_append 0x0a s bytes).1
      have hrest := (linesOf_append 0x0a s bytes).2
      have htake := @takeFrames_append parse (linesOf 0x0a s)
        (linesOf 0x0a (restOf 0x0a s ++ bytes))
      rw [hs, ← hlines] at htake
      simp only [Bool.false_eq_true, ↓reduceIte] at htake
      have hfst := congrArg Prod.fst htake
      have hsnd := congrArg Prod.snd htake
      simp only at hfst hsnd
      rw [hrec, ← List.append_assoc s, recv_data, ← hsnd, ← hrest]
      by_cases hm : (takeFrames parse (linesOf 0x0a (s ++ bytes))).2 = true
      · rw [if_pos hm, readAll_stopped _ rfl, ownerInputs_append_of_malformed _ _ hm, hfst,
          List.map_append, List.append_nil]
      · rw [if_neg hm]
        rw [Bool.not_eq_true] at hm
        by_cases hl : FRAME_MAX_BYTES ≤ (restOf 0x0a (s ++ bytes)).length
        · rw [if_pos hl, readAll_stopped _ rfl, ownerInputs_append_of_long hlong _ _ hm hl, hfst,
            List.map_append, List.append_nil, List.append_assoc]
        · rw [if_neg hl, ← hi hm (not_le.mp hl), hfst, List.map_append, List.append_assoc]

/-- However a stream arrives, the daemon reads what the stream says. -/
theorem readAll_eq_ownerInputs
    (hlong : ∀ line : List UInt8, FRAME_MAX_BYTES ≤ line.length → parse line = .malformed)
    {xs last : List Recv} (hxs : ∀ x ∈ xs, ¬x.Ends)
    (hlast : last = [] ∨ ∃ x, last = [x] ∧ x.Ends) :
    ControlReader.new.readAll parse (xs ++ last) =
      ownerInputs parse (received xs) (last ≠ []) :=
  readAll_from (s := []) hlong hxs hlast rfl (by decide)

/-! ### The launcher sees what the daemon will read -/

/-- No line that is queued cancels, and what follows the last of them fits a frame. -/
def Undecided (parse : List UInt8 → OwnerFrame) (bytes : List UInt8) : Prop :=
  (∀ line ∈ linesOf 0x0a bytes, withdrawal (.frame (parse line)) = none) ∧
    (restOf 0x0a bytes).length < FRAME_MAX_BYTES

private theorem peekLines_eq (ls : List (List UInt8)) :
    peekLines parse ls = cancels ((takeFrames parse ls).1.map .frame) ∧
      ((takeFrames parse ls).2 = true → peekLines parse ls ≠ none) ∧
      (peekLines parse ls = none ↔ ∀ line ∈ ls, withdrawal (.frame (parse line)) = none) := by
  induction ls with
  | nil => exact ⟨rfl, fun h ↦ (nomatch h), by simp [peekLines]⟩
  | cons l ls ih =>
    obtain ⟨hc, hm, hn⟩ := ih
    rw [peekLines, takeFrames, List.forall_mem_cons]
    cases hp : parse l with
    | malformed => simp [cancels, withdrawal]
    | rejected code requestId => simpa [cancels, withdrawal] using ⟨hc, hm, hn⟩
    | command c =>
      cases c with
      | cancel requestId => simp [cancels, withdrawal, List.findSome?_cons]
      | transfer requestId incarnationId generation =>
        simpa [cancels, withdrawal] using ⟨hc, hm, hn⟩

private theorem cancels_append (xs ys : List OwnerInput) :
    cancels (xs ++ ys) = (cancels xs).or (cancels ys) := List.findSome?_append

private theorem cancels_ownerInputs (bytes : List UInt8) (closed : Bool) :
    cancels (ownerInputs parse bytes closed) =
      (peekLines parse (linesOf 0x0a bytes)).or
        (if FRAME_MAX_BYTES ≤ (restOf 0x0a bytes).length then some (.malformed, none)
          else if closed then some (.ownerEof, none) else none) := by
  obtain ⟨hc, hm, -⟩ := @peekLines_eq parse (linesOf 0x0a bytes)
  rw [ownerInputs]
  simp only [cancels_append, ← hc]
  by_cases h : (takeFrames parse (linesOf 0x0a bytes)).2 = true
  · obtain ⟨w, hw⟩ := Option.ne_none_iff_exists'.mp (hm h)
    rw [hw]
    rfl
  · rw [if_neg h]
    split
    · rfl
    · cases closed <;> rfl

/-- The launcher's look agrees with the daemon's reading exactly when no end of the stream is
behind bytes that do not decide. -/
theorem peekWithdrawal_eq_iff {q : OwnerQueue} (hq : q.bytes.length ≤ 2 * FRAME_MAX_BYTES) :
    peekWithdrawal parse q = cancels (ownerInputs parse q.bytes q.closed) ↔
      ¬(q.closed = true ∧ q.bytes ≠ [] ∧ Undecided parse q.bytes) := by
  obtain ⟨-, -, hn⟩ := @peekLines_eq parse (linesOf 0x0a q.bytes)
  rw [cancels_ownerInputs, peekWithdrawal, OwnerQueue.peek, Undecided, ← hn]
  by_cases hb : q.bytes = []
  · rw [hb]
    cases q.closed <;> simp [peekLines, linesOf, restOf, FRAME_MAX_BYTES]
  · rw [if_pos hb, List.take_of_length_le hq]
    dsimp only
    cases hp : peekLines parse (linesOf 0x0a q.bytes) with
    | some w => simp
    | none =>
      by_cases hl : FRAME_MAX_BYTES ≤ (restOf 0x0a q.bytes).length
      · simp [hl, not_lt.mpr hl]
      · cases hc : q.closed <;> simp [hl, hb, not_le.mp hl]

end Reading

/-- The daemon reads the same inputs from a stream however it arrives and hears them as the
first that cancels says; and the launcher's look agrees with that exactly when no end of the
stream is behind bytes that do not decide. -/
theorem owner_readers_agree (serde : String → Reading) (operationId envelopeSha256 : String) :
    (∀ xs, (∀ x ∈ xs, ¬Recv.Ends x) → ∀ last, Recv.Ends last →
      ControlReader.new.readAll (parseOwnerFrame serde operationId envelopeSha256) xs =
        ownerInputs (parseOwnerFrame serde operationId envelopeSha256) (received xs) false ∧
      ControlReader.new.readAll (parseOwnerFrame serde operationId envelopeSha256) (xs ++ [last]) =
        ownerInputs (parseOwnerFrame serde operationId envelopeSha256) (received xs) true) ∧
    (∀ inputs, Actor.Heard inputs (cancels inputs)) ∧
    ∀ q : OwnerQueue, q.bytes.length ≤ 2 * FRAME_MAX_BYTES →
      (peekWithdrawal (parseOwnerFrame serde operationId envelopeSha256) q =
          cancels (ownerInputs (parseOwnerFrame serde operationId envelopeSha256) q.bytes
            q.closed) ↔
        ¬(q.closed = true ∧ q.bytes ≠ [] ∧
          Undecided (parseOwnerFrame serde operationId envelopeSha256) q.bytes)) := by
  have hlong := fun (line : List UInt8) (h : FRAME_MAX_BYTES ≤ line.length) ↦
    parseOwnerFrame_of_long serde operationId envelopeSha256 h
  refine ⟨fun xs hxs last hlast ↦ ⟨?_, ?_⟩, Actor.heard_cancels, fun q hq ↦
    peekWithdrawal_eq_iff hq⟩
  · have h := readAll_eq_ownerInputs hlong hxs (.inl rfl)
    rwa [List.append_nil] at h
  · exact readAll_eq_ownerInputs hlong hxs (.inr ⟨last, rfl, hlast⟩)

theorem owner_readers_agree_brace :
    ControlReader.new.readAll (parseOwnerFrame (fun _ ↦ ⟨.malformed, true⟩) "op" "sha")
        [.data [0x7b], .wouldBlock, .data [0x0a, 0x7b], .eof] = [.frame .malformed] ∧
      peekWithdrawal (parseOwnerFrame (fun _ ↦ ⟨.malformed, true⟩) "op" "sha") ⟨[0x7b], false⟩ =
        none := by
  obtain ⟨hread, -, hpeek⟩ := owner_readers_agree (fun _ ↦ ⟨.malformed, true⟩) "op" "sha"
  refine ⟨(hread [.data [0x7b], .wouldBlock, .data [0x0a, 0x7b]] ?_ .eof (.inl rfl)).2.trans ?_, ?_⟩
  · unfold Recv.Ends
    decide
  · decide
  · exact ((hpeek ⟨[0x7b], false⟩ (by decide)).mpr fun h ↦ Bool.noConfusion h.1).trans (by decide)

/-- The owner is gone after the start of a line: the daemon cancels, and the launcher sees no
withdrawal. -/
theorem peek_agrees_refuted :
    ¬∀ serde operationId envelopeSha256, ∀ q : OwnerQueue,
      q.bytes.length ≤ 2 * FRAME_MAX_BYTES →
        peekWithdrawal (parseOwnerFrame serde operationId envelopeSha256) q =
          cancels (ownerInputs (parseOwnerFrame serde operationId envelopeSha256) q.bytes
            q.closed) := by
  intro h
  have := h (fun _ ↦ ⟨.malformed, true⟩) "op" "sha" ⟨[0x7b], true⟩ (by decide)
  revert this
  decide

end PtySpec.Daemon
