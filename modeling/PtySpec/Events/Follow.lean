import PtySpec.Lib.Lines
import PtySpec.Lib.Tail
import PtySpec.Events.Log

/-!
# Following an event log

Model of `read_new_lines`, `crates/pty-core/src/events/follow.rs:399`, on the bytes of one
log, and of what can happen to the log between two polls. A source that the loop has let go
is not polled again.
-/

namespace PtySpec.Events

open Lib

/-- `(metadata.dev(), metadata.ino())`. -/
abbrev Identity := Nat × Nat

/-- A log file. -/
structure File where
  identity : Identity
  content : Bytes
  deriving DecidableEq

/-- What a read of the path finds; nothing where there is no file. -/
def contents (file : Option File) : Bytes := (file.map File.content).getD []

/-- A newline. -/
def newline : UInt8 := 0x0a

/-- `Tracked`, `follow.rs:128`. -/
structure Tracked where
  offset : Nat
  snapshot : Bytes
  identity : Option Identity

/-- `Tracked::existing`, `follow.rs:137`: an existing file starts at its end. -/
def Tracked.existing (file : Option File) : Tracked :=
  ⟨(contents file).length, contents file, none⟩

/-- `iter().rposition(|b| *b == b'\n')`. -/
def lastNewline (bytes : Bytes) : Option Nat :=
  (bytes.reverse.findIdx? (· = newline)).map (bytes.length - 1 - ·)

/-- Where to go on in a content: at the tracked offset, or at the start when the content is
shorter or does not have the prefix that was consumed, `follow.rs:420`. -/
def resume (t : Tracked) (content : Bytes) : Nat :=
  if content.length < t.offset ∨ t.snapshot.take t.offset ≠ content.take t.offset then 0
  else t.offset

/-- The complete lines past the offset and the source after them, `follow.rs:423-436`. Lines
are split at the byte, which is no part of a longer sequence; `parses` is whether
`serde_json` reads an event from one. -/
def deliver (parses : Bytes → Bool) (t : Tracked) (f : File) : Tracked × List Bytes :=
  let offset := resume t f.content
  match lastNewline (f.content.drop offset) with
  | none => (⟨offset, f.content, some f.identity⟩, [])
  | some n =>
    let chunk := (f.content.drop offset).take (n + 1)
    (⟨offset + n + 1, f.content, some f.identity⟩,
      ((chunk.splitOn newline).filter (· ≠ [])).filter parses)

/-- `read_new_lines`, `follow.rs:399`; `ok` is whether the file can be opened and read. The
second component is the lines whose events are delivered. -/
def readNewLines (parses : Bytes → Bool) (ok : Bool) (file : Option File) (t : Tracked) :
    Tracked × List Bytes :=
  match file with
  | none => (t, [])
  | some f =>
    if t.identity = some f.identity ∧ f.content.length = t.snapshot.length then (t, [])
    else if ok then deliver parses t f
    else (t, [])

/-! ### What happens to a log -/

/-- A log, its follower and what that delivered. `tail` is the history of the log's lines,
with what a follower of lines would have been handed. -/
structure World where
  file : Option File
  tracked : Tracked
  delivered : List Bytes
  tail : Tail Bytes

/-- What happens between two moments: another tool writes at the end of the file, a writer
replaces it (with more bytes, and without the oldest lines), it is cleared or removed, or it
is polled. -/
inductive Act where
  | write (bytes : Bytes)
  | publish (identity : Identity) (bytes : Bytes) (cut : Nat)
  | clear (identity : Identity)
  | remove
  | poll (ok : Bool)

namespace World

/-- The log when the follower first reads it. -/
def start (file : Option File) : World :=
  ⟨file, .existing file, [], .start (linesOf newline (contents file))⟩

/-- The lines that some bytes complete. -/
def completed (w : World) (bytes : Bytes) : List Bytes :=
  linesOf newline (restOf newline (contents w.file) ++ bytes)

/-- One act. -/
def step (parses : Bytes → Bool) (w : World) : Act → World
  | .write bytes =>
    match w.file with
    | none => w
    | some f =>
      { w with
        file := some { f with content := f.content ++ bytes }
        tail := w.tail.publish (w.completed bytes) 0 }
  | .publish identity bytes cut =>
    let content := contents w.file ++ bytes
    { w with
      file := some ⟨identity,
        unlines newline ((linesOf newline content).drop cut) ++ restOf newline content⟩
      tail := w.tail.publish (w.completed bytes) cut }
  | .clear identity =>
    { w with
      file := some ⟨identity, []⟩
      tail := w.tail.publish [] w.tail.log.length }
  | .remove => { w with file := none, tail := w.tail.publish [] w.tail.log.length }
  | .poll ok =>
    let read := readNewLines parses ok w.file w.tracked
    { w with
      tracked := read.1
      delivered := w.delivered ++ read.2
      tail := if ok && w.file.isSome then w.tail.poll else w.tail }

/-- A replaced file has another identity than the one last read. -/
def Allowed (w : World) : Act → Prop
  | .publish identity _ _ | .clear identity => w.tracked.identity ≠ some identity
  | _ => True

/-- What can come about after a first read of `file`. -/
inductive Reached (parses : Bytes → Bool) (file : Option File) : World → Prop
  | start : Reached parses file (start file)
  | step {w : World} (h : Reached parses file w) (act : Act) (ha : w.Allowed act) :
    Reached parses file (w.step parses act)

end World

/-! ### One poll -/

theorem lastNewline_unlines_append (ls : List Bytes) {rest : Bytes} (hr : newline ∉ rest) :
    lastNewline (unlines newline ls ++ rest) =
      if ls = [] then none else some ((unlines newline ls).length - 1) := by
  have hnone : rest.reverse.findIdx? (· = newline) = none := by
    rw [List.findIdx?_eq_none_iff]
    intro x hx
    rw [List.mem_reverse] at hx
    exact decide_eq_false fun he ↦ hr (he ▸ hx)
  unfold lastNewline
  obtain rfl | ⟨init, l, rfl⟩ := List.eq_nil_or_concat' ls
  · rw [unlines_nil, List.nil_append, hnone, if_pos rfl]
    rfl
  · have hu : unlines newline (init ++ [l]) = unlines newline init ++ l ++ [newline] := by
      simp
    rw [if_neg (by simp), hu, List.reverse_append, List.findIdx?_append, hnone,
      List.reverse_append, List.reverse_singleton, List.singleton_append, List.findIdx?_cons]
    simp
    omega

/-- The source is aligned: its offset is at the end of the lines of its snapshot. -/
def Tracked.Aligned (t : Tracked) : Prop :=
  t.offset = (unlines newline (linesOf newline t.snapshot)).length

/-- What is delivered of some lines. -/
def accepted (parses : Bytes → Bool) (ls : List Bytes) : List Bytes :=
  ls.filter fun l ↦ l ≠ [] && parses l

theorem accepted_append (parses : Bytes → Bool) (ls ms : List Bytes) :
    accepted parses (ls ++ ms) = accepted parses ls ++ accepted parses ms :=
  List.filter_append _ _

private theorem accepted_chunk (parses : Bytes → Bool) {ls : List Bytes}
    (h : ∀ l ∈ ls, newline ∉ l) :
    (((unlines newline ls).splitOn newline).filter (· ≠ [])).filter parses =
      accepted parses ls := by
  rw [splitOn_unlines h, List.filter_append]
  simp [accepted, List.filter_filter, Bool.and_comm]

/-- The consumed prefix is there exactly when the log still starts with the lines seen. -/
private theorem resume_eq {t : Tracked} (ht : t.Aligned) (content : Bytes) :
    resume t content =
      if linesOf newline t.snapshot <+: linesOf newline content then t.offset else 0 := by
  have hl : ∀ l ∈ linesOf newline t.snapshot, newline ∉ l :=
    fun l hm ↦ not_mem_of_mem_linesOf hm
  have hs : t.snapshot.take t.offset = unlines newline (linesOf newline t.snapshot) := by
    rw [ht]
    nth_rewrite 2 [← unlines_linesOf newline t.snapshot]
    exact List.take_left
  have hp : linesOf newline t.snapshot <+: linesOf newline content ↔
      ¬(content.length < t.offset ∨ t.snapshot.take t.offset ≠ content.take t.offset) := by
    rw [← unlines_prefix_iff hl, hs]
    constructor
    · rintro ⟨rest, rfl⟩
      rw [not_or, not_not, ht, List.take_left, List.length_append]
      exact ⟨by omega, rfl⟩
    · intro hn
      rw [not_or, not_not] at hn
      rw [hn.2]
      exact List.take_prefix _ _
  unfold resume
  by_cases hq : linesOf newline t.snapshot <+: linesOf newline content
  · rw [if_pos hq, if_neg (hp.mp hq)]
  · rw [if_neg hq, if_pos (not_not.mp fun hn ↦ hq (hp.mpr hn))]

/-- A poll delivers what is fresh of the log's lines, and stays aligned. -/
theorem deliver_eq (parses : Bytes → Bool) {t : Tracked} (ht : t.Aligned) (f : File) :
    (deliver parses t f).1.Aligned ∧ (deliver parses t f).1.snapshot = f.content ∧
      (deliver parses t f).1.identity = some f.identity ∧
      (deliver parses t f).2 = accepted parses
        (Tail.fresh (linesOf newline t.snapshot) (linesOf newline f.content)) := by
  have hr := not_mem_restOf newline f.content
  have hfl : ∀ l ∈ Tail.fresh (linesOf newline t.snapshot) (linesOf newline f.content),
      newline ∉ l :=
    fun l hm ↦ not_mem_of_mem_linesOf ((Tail.fresh_suffix _ _).mem hm)
  -- What is left from the offset on is the fresh lines and the rest.
  have hoff : ∃ consumed, resume t f.content = (unlines newline consumed).length ∧
      linesOf newline f.content = consumed ++
        Tail.fresh (linesOf newline t.snapshot) (linesOf newline f.content) := by
    rw [resume_eq ht]
    split
    · next hp =>
      obtain ⟨more, hm⟩ := hp
      refine ⟨linesOf newline t.snapshot, ht, ?_⟩
      rw [Tail.fresh, if_pos ⟨more, hm⟩, ← hm, List.drop_left]
    · next hp => exact ⟨[], rfl, by rw [Tail.fresh, if_neg hp, List.nil_append]⟩
  obtain ⟨consumed, ho, hc⟩ := hoff
  generalize Tail.fresh (linesOf newline t.snapshot) (linesOf newline f.content) = new at hfl hc ⊢
  have hdrop : f.content.drop (resume t f.content) =
      unlines newline new ++ restOf newline f.content := by
    have hu := unlines_linesOf newline f.content
    rw [hc, unlines_append, List.append_assoc] at hu
    rw [ho]
    nth_rewrite 1 [← hu]
    exact List.drop_left
  have hlast := lastNewline_unlines_append new hr
  have hall : (unlines newline (linesOf newline f.content)).length =
      resume t f.content + (unlines newline new).length := by
    rw [hc, unlines_append, List.length_append, ho]
  unfold deliver
  dsimp only
  rw [hdrop, hlast]
  by_cases hn : new = []
  · rw [if_pos hn]
    refine ⟨?_, rfl, rfl, by rw [hn]; rfl⟩
    rw [hn, unlines_nil, List.length_nil, Nat.add_zero] at hall
    exact hall.symm
  · rw [if_neg hn]
    have hpos : 0 < (unlines newline new).length := by
      cases new with
      | nil => exact absurd rfl hn
      | cons l ls => simp
    have hone : (unlines newline new).length - 1 + 1 = (unlines newline new).length := by
      omega
    refine ⟨?_, rfl, rfl, ?_⟩
    · change resume t f.content + ((unlines newline new).length - 1) + 1 = _
      rw [hall]
      omega
    · dsimp only
      rw [hone, List.take_left]
      exact accepted_chunk parses hfl

/-! ### Runs -/

namespace World

variable {parses : Bytes → Bool} {file : Option File}

/-- What holds after a first read of a log that ended with a line. -/
structure Sound (parses : Bytes → Bool) (file : Option File) (w : World) : Prop where
  aligned : w.tracked.Aligned
  seen : w.tail.seen = linesOf newline w.tracked.snapshot
  log : w.tail.log = linesOf newline (contents w.file)
  dropped : w.tail.dropped ≤ w.tail.history.length
  grown : ∀ f, w.file = some f → w.tracked.identity = some f.identity →
    ∃ bytes, f.content = w.tracked.snapshot ++ bytes
  delivered : w.delivered = accepted parses w.tail.delivered
  began : linesOf newline (contents file) <+: w.tail.history
  tail : w.tail.history.Nodup → w.tail.Sound (linesOf newline (contents file)).length

theorem Sound.start (hf : restOf newline (contents file) = []) :
    (start file).Sound parses file where
  aligned := by
    have hu := unlines_linesOf newline (contents file)
    rw [hf, List.append_nil] at hu
    exact congrArg List.length hu.symm
  seen := rfl
  log := rfl
  dropped := Nat.zero_le _
  grown f _ hi := by cases hi
  delivered := rfl
  began := List.prefix_refl _
  tail _ := .start _

/-- The log after a publication of the lines that some bytes complete. -/
private theorem log_publish {w : World} (hl : w.tail.log = linesOf newline (contents w.file))
    (hd : w.tail.dropped ≤ w.tail.history.length) (bytes : Bytes) (cut : Nat) :
    (w.tail.publish (w.completed bytes) cut).log =
      (linesOf newline (contents w.file ++ bytes)).drop cut := by
  have ha := (linesOf_append newline (contents w.file) bytes).1
  rw [ha, ← hl]
  change (w.tail.history ++ w.completed bytes).drop
    (min (w.tail.dropped + cut) (w.tail.history ++ w.completed bytes).length) =
      (w.tail.history.drop w.tail.dropped ++ w.completed bytes).drop cut
  rw [← List.drop_append_of_le_length hd, List.drop_drop]
  by_cases hc : w.tail.dropped + cut ≤ (w.tail.history ++ w.completed bytes).length
  · rw [Nat.min_eq_left hc]
  · have hle : (w.tail.history ++ w.completed bytes).length ≤ w.tail.dropped + cut := by omega
    rw [Nat.min_eq_right hle, List.drop_length, List.drop_eq_nil_of_le hle]

private theorem log_cleared (s : Tail Bytes) (hd : s.dropped ≤ s.history.length) :
    (s.publish [] s.log.length).log = [] := by
  change (s.history ++ []).drop
    (min (s.dropped + (s.history.drop s.dropped).length) (s.history ++ []).length) = []
  rw [List.append_nil, List.length_drop, List.drop_eq_nil_iff]
  omega

/-- A history that only grows. -/
private theorem nodup_of_publish {s : Tail Bytes} {records : List Bytes} {cut : Nat}
    (h : (s.publish records cut).history.Nodup) : s.history.Nodup :=
  h.sublist (List.sublist_append_left _ _)

private theorem Sound.write {w : World} (h : w.Sound parses file) (bytes : Bytes) :
    (w.step parses (.write bytes)).Sound parses file := by
  cases hf : w.file with
  | none =>
    have hs : w.step parses (.write bytes) = w := by
      simp only [World.step, hf]
    rw [hs]
    exact h
  | some f =>
    have hs : w.step parses (.write bytes) =
        { w with
          file := some { f with content := f.content ++ bytes }
          tail := w.tail.publish (w.completed bytes) 0 } := by
      simp only [World.step, hf]
    have hc : contents w.file = f.content := by
      rw [hf]
      rfl
    rw [hs]
    refine ⟨h.aligned, h.seen, ?_, Nat.min_le_right _ _, ?_, h.delivered,
      h.began.trans (List.prefix_append _ _), fun hn ↦ ?_⟩
    · rw [log_publish h.log h.dropped, List.drop_zero, hc]
      rfl
    · intro g hg hi
      cases hg
      obtain ⟨more, hm⟩ := h.grown f hf hi
      exact ⟨more ++ bytes, by rw [hm, List.append_assoc]⟩
    · exact (h.tail (nodup_of_publish hn)).publish _ _

private theorem Sound.publish {w : World} (h : w.Sound parses file) {identity : Identity}
    (hi : w.tracked.identity ≠ some identity) (bytes : Bytes) (cut : Nat) :
    (w.step parses (.publish identity bytes cut)).Sound parses file := by
  refine ⟨h.aligned, h.seen, ?_, Nat.min_le_right _ _, ?_, h.delivered,
      h.began.trans (List.prefix_append _ _), fun hn ↦ ?_⟩
  · have hl : ∀ l ∈ (linesOf newline (contents w.file ++ bytes)).drop cut, newline ∉ l :=
      fun l hm ↦ not_mem_of_mem_linesOf (List.mem_of_mem_drop hm)
    refine (log_publish h.log h.dropped bytes cut).trans ?_
    exact (linesOf_unlines_append hl (not_mem_restOf newline _)).symm
  · intro g hg hid
    cases hg
    exact absurd hid hi
  · exact (h.tail (nodup_of_publish hn)).publish _ _

private theorem Sound.clear {w : World} (h : w.Sound parses file) {identity : Identity}
    (hi : w.tracked.identity ≠ some identity) :
    (w.step parses (.clear identity)).Sound parses file := by
  refine ⟨h.aligned, h.seen, log_cleared _ h.dropped, Nat.min_le_right _ _, ?_, h.delivered,
    h.began.trans (List.prefix_append _ _), fun hn ↦ (h.tail (nodup_of_publish hn)).publish _ _⟩
  intro g hg hid
  cases hg
  exact absurd hid hi

private theorem Sound.remove {w : World} (h : w.Sound parses file) :
    (w.step parses .remove).Sound parses file := by
  refine ⟨h.aligned, h.seen, log_cleared _ h.dropped, Nat.min_le_right _ _, ?_, h.delivered,
    h.began.trans (List.prefix_append _ _), fun hn ↦ (h.tail (nodup_of_publish hn)).publish _ _⟩
  intro g hg
  cases hg

/-- A poll that reads nothing leaves everything as it is. -/
private theorem step_poll_idle {w : World} {ok : Bool}
    (h : readNewLines parses ok w.file w.tracked = (w.tracked, []))
    (hok : (ok && w.file.isSome) = false) : w.step parses (.poll ok) = w := by
  simp [World.step, h, hok]

private theorem Sound.poll {w : World} (h : w.Sound parses file) (ok : Bool) :
    (w.step parses (.poll ok)).Sound parses file := by
  cases hf : w.file with
  | none =>
    rw [step_poll_idle (by rw [hf]; rfl) (by rw [hf]; exact Bool.and_false ok)]
    exact h
  | some f =>
    cases ok with
    | false =>
      have hr : readNewLines parses false w.file w.tracked = (w.tracked, []) := by
        rw [hf]
        unfold readNewLines
        dsimp only
        split <;> rfl
      rw [step_poll_idle hr rfl]
      exact h
    | true =>
      have hs : w.step parses (.poll true) =
          { w with
            tracked := (readNewLines parses true (some f) w.tracked).1
            delivered := w.delivered ++ (readNewLines parses true (some f) w.tracked).2
            tail := w.tail.poll } := by
        simp [World.step, hf]
      have hc : contents w.file = f.content := by
        rw [hf]
        rfl
      have hlog := h.log
      rw [hc] at hlog
      rw [hs]
      unfold readNewLines
      dsimp only
      split
      · next hskip =>
        -- The same file at the same length: nothing was written since.
        obtain ⟨more, hm⟩ := h.grown f hf hskip.1
        have hmore : more = [] := by
          have hlen := hskip.2
          rw [hm, List.length_append] at hlen
          exact List.eq_nil_of_length_eq_zero (by omega)
        rw [hmore, List.append_nil] at hm
        have hfresh : Tail.fresh w.tail.seen w.tail.log = [] := by
          rw [h.seen, hlog, hm, Tail.fresh, if_pos (List.prefix_refl _), List.drop_length]
        refine ⟨h.aligned, ?_, ?_, h.dropped, fun g hg hi ↦ h.grown g (hf.trans ?_) hi, ?_,
          h.began, fun hn ↦ (h.tail hn).poll hn⟩
        · change w.tail.log = _
          rw [hlog, hm]
        · exact h.log
        · rw [← hf]
          exact hg
        · change w.delivered ++ [] = accepted parses (w.tail.delivered ++ Tail.fresh _ _)
          rw [hfresh, List.append_nil, List.append_nil]
          exact h.delivered
      · obtain ⟨ha, hsnap, hid, hd⟩ := deliver_eq parses h.aligned f
        refine ⟨ha, ?_, h.log, h.dropped, ?_, ?_, h.began, fun hn ↦ (h.tail hn).poll hn⟩
        · change w.tail.log = linesOf newline (deliver parses w.tracked f).1.snapshot
          rw [hsnap]
          exact hlog
        · intro g hg _
          have hgf : f = g := Option.some.inj (hf.symm.trans hg)
          refine ⟨[], ?_⟩
          rw [List.append_nil, ← hgf]
          exact hsnap.symm
        · change w.delivered ++ (deliver parses w.tracked f).2 =
            accepted parses (w.tail.delivered ++ Tail.fresh w.tail.seen w.tail.log)
          rw [accepted_append, h.seen, hlog, h.delivered, hd]

/-- What every act keeps. -/
theorem Sound.step {w : World} (h : w.Sound parses file) {act : Act} (ha : w.Allowed act) :
    (w.step parses act).Sound parses file := by
  cases act with
  | write bytes => exact h.write bytes
  | publish identity bytes cut => exact h.publish ha bytes cut
  | clear identity => exact h.clear ha
  | remove => exact h.remove
  | poll ok => exact h.poll ok

theorem sound_of_reached {w : World} (hf : restOf newline (contents file) = [])
    (h : Reached parses file w) : w.Sound parses file := by
  induction h with
  | start => exact .start hf
  | step _ act ha ih => exact ih.step ha

private theorem tail_poll {w : World} {f : File}
    (hf : w.file = some f) :
    (w.step parses (.poll true)).tail = w.tail.poll := by
  simp [World.step, hf]

/-- After a first read of a log that ended with a line, and with pairwise distinct lines: a
poll delivers complete lines only, in the order of the log; a record that is not of the
first read and is in the log at a poll has been delivered then, and once only if the log was
not cut or cleared since the record was appended. -/
theorem follows_of_reached {w : World} (hf : restOf newline (contents file) = [])
    (h : Reached parses file w) (hn : w.tail.history.Nodup) :
    (∀ ok, ∃ n, (w.step parses (.poll ok)).delivered =
        w.delivered ++ accepted parses ((linesOf newline (contents w.file)).drop n)) ∧
      ∀ f, w.file = some f → ∀ r ∈ linesOf newline f.content,
        r ∉ linesOf newline (contents file) → r ≠ [] → parses r = true →
        r ∈ (w.step parses (.poll true)).delivered ∧
          (r ∈ w.tail.history.drop w.tail.since →
            (w.step parses (.poll true)).delivered.count r = 1) := by
  have hs := sound_of_reached hf h
  have hp : (w.step parses (.poll true)).Sound parses file := hs.poll true
  constructor
  · intro ok
    by_cases hok : (ok && w.file.isSome) = true
    · rw [Bool.and_eq_true] at hok
      obtain ⟨rfl, hsome⟩ := hok
      obtain ⟨f, hfile⟩ := Option.isSome_iff_exists.mp hsome
      obtain ⟨n, hsuf⟩ : ∃ n, Tail.fresh w.tail.seen w.tail.log = w.tail.log.drop n := by
        obtain ⟨front, hfr⟩ := Tail.fresh_suffix w.tail.seen w.tail.log
        refine ⟨front.length, ?_⟩
        nth_rewrite 2 [← hfr]
        rw [List.drop_left]
      refine ⟨n, ?_⟩
      rw [hp.delivered, tail_poll hfile, hs.delivered, ← accepted_append, ← hs.log, ← hsuf]
      rfl
    · rw [Bool.not_eq_true] at hok
      refine ⟨(linesOf newline (contents w.file)).length, ?_⟩
      have hidle : w.step parses (.poll ok) = w := by
        refine step_poll_idle ?_ hok
        cases hfile : w.file with
        | none => rfl
        | some f =>
          rw [hfile, Option.isSome_some, Bool.and_true] at hok
          unfold readNewLines
          dsimp only
          rw [hok]
          split <;> rfl
      rw [hidle, List.drop_length]
      exact (List.append_nil _).symm
  · intro f hfile r hr hold hne hparse
    have ht : (w.step parses (.poll true)).tail = w.tail.poll := tail_poll hfile
    have hacc : (r ≠ [] && parses r) = true := by
      simp [hne, hparse]
    have hc : contents w.file = f.content := by
      rw [hfile]
      rfl
    have hsound := (hs.tail hn).poll hn
    have hlog : r ∈ w.tail.log := by
      rw [hs.log, hc]
      exact hr
    have htake : w.tail.history.take (linesOf newline (contents file)).length =
        linesOf newline (contents file) := by
      obtain ⟨more, hm⟩ := hs.began
      rw [← hm, List.take_left]
    have hmem : r ∈ w.tail.poll.delivered := by
      refine hsound.got r hlog ?_
      change r ∉ w.tail.history.take _
      rw [htake]
      exact hold
    have hin : r ∈ (w.step parses (.poll true)).delivered := by
      rw [hp.delivered, ht]
      exact List.mem_filter.mpr ⟨hmem, hacc⟩
    refine ⟨hin, fun hsince ↦ ?_⟩
    obtain ⟨k, hk⟩ := List.mem_iff_getElem?.mp hsince
    rw [List.getElem?_drop] at hk
    have hfirst : (linesOf newline (contents file)).length ≤ w.tail.since + k := by
      by_contra hlt
      refine hold ?_
      rw [← htake]
      refine List.mem_iff_getElem?.mpr ⟨w.tail.since + k, ?_⟩
      rw [List.getElem?_take_of_lt (by omega)]
      exact hk
    have hle : w.tail.poll.delivered.count r ≤ 1 := by
      convert hsound.once (w.tail.since + k) r hk (Nat.le_add_right _ _) hfirst
        (List.getElem?_eq_some_iff.mp hk).1
    have hcount : (w.step parses (.poll true)).delivered.count r =
        w.tail.poll.delivered.count r := by
      rw [hp.delivered, ht]
      exact List.count_filter hacc
    have hpos := List.count_pos_iff.mpr hin
    omega

/-- A record. -/
def sample : Bytes := toUtf8 "\x7b\"session\":\"a\",\"type\":\"b\",\"ts\":\"c\"\x7d".toList

/-- The record in a log that was not there when the follower started. -/
theorem follows_of_reached_sample :
    (((start none).step (· = sample) (.publish (0, 1) (sample ++ [newline]) 0)).step
      (· = sample) (.poll true)).delivered.count sample = 1 := by
  have h : Reached (· = sample) none
      ((start none).step (· = sample) (.publish (0, 1) (sample ++ [newline]) 0)) :=
    .step .start _ (fun hi ↦ by cases hi)
  refine ((follows_of_reached (by decide) h (by decide)).2 ⟨(0, 1), sample ++ [newline]⟩ ?_ sample
    ?_ ?_ ?_ ?_).2 ?_
  · decide
  · decide
  · decide
  · decide
  · decide
  · decide

/-- A log that had one byte of a line when it was first read, and was then cleared and given
a record. -/
def withinLine : World :=
  ((start (some ⟨(0, 1), [0x7b]⟩)).step (· = sample) (.clear (0, 2))).step (· = sample)
    (.publish (0, 3) (sample ++ [newline]) 0)

/-- A follower that starts within a line takes the next log that begins with the same bytes
for the one it read, and misses the start of its first record. -/
theorem withinLine_missed :
    Reached (· = sample) (some ⟨(0, 1), [0x7b]⟩) withinLine ∧
      withinLine.tail.history.Nodup ∧ sample ∉ linesOf newline [0x7b] ∧
      sample ∈ linesOf newline (contents withinLine.file) ∧
      sample ∉ (withinLine.step (· = sample) (.poll true)).delivered := by
  refine ⟨.step (.step .start _ (fun hi ↦ by cases hi)) _ (fun hi ↦ by cases hi), ?_, ?_, ?_, ?_⟩
  · decide
  · decide
  · decide
  · decide

end World
end PtySpec.Events
