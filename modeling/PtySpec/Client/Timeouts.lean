import PtySpec.Client.Connection

/-!
# Waiting with a timeout

Whether the reads that timed calls of a connection make end in time: `next_event` and
`attach_over`, `crates/pty-client/src/connection.rs:249` and `90`, set the read timeout of the
socket before each read, and that setting outlives the call.
-/

namespace PtySpec.Client

open Protocol

namespace Read

/-- The socket was set to wait, and no longer than the call had left. -/
def Bounded (r : Read) : Prop :=
  ∀ d, r.deadline = some d → ∃ t, r.readTimeout = some t ∧ t.1 ≤ d - r.now

/-- The read was made before the deadline of its call. -/
def InTime (r : Read) : Prop := ∀ d, r.deadline = some d → r.now < d

/-- The timeout that the call had left was set, unless the socket refused it. -/
private def Set (r : Read) : Prop :=
  ∃ socket : Socket,
    r.readTimeout = (socket.setReadTimeout (r.deadline.map (· - r.now))).readTimeout

private theorem Set.bounded_iff_inTime {r : Read} (h : r.Set) : r.Bounded ↔ r.InTime := by
  obtain ⟨socket, hs⟩ := h
  constructor
  · intro hb d hd
    obtain ⟨t, -, hle⟩ := hb d hd
    have := t.2
    omega
  · intro hi d hd
    have hlt := hi d hd
    have hpos : 0 < d - r.now := by omega
    rw [hd] at hs
    refine ⟨⟨d - r.now, hpos⟩, ?_, Nat.le_refl _⟩
    rw [hs, Option.map_some, Socket.setReadTimeout, dif_pos hpos]

end Read

namespace Session

variable (clock : Nat → Nat)

/-- Calls of `next_event`, one after the other. -/
def run (s : Session) (timeouts : List (Option Nat)) : Session :=
  timeouts.foldl (fun s timeout ↦ (s.nextEvent clock timeout).1) s

/-! ### The reads of one turn -/

private theorem More.reads_eq {timeout : Option Nat} {s s' : Session}
    {r : Except ClientError (Option SessionEvent)} (h : More timeout s s' r) :
    s'.reads = s.reads ∨ ∃ socket : Socket, s'.reads =
      s.reads ++ [Read.mk s.deadline s.now (socket.setReadTimeout timeout).readTimeout] := by
  cases h with
  | queued => exact .inl rfl
  | gone => exact .inl rfl
  | waited => exact .inr ⟨_, rfl⟩
  | failed => exact .inr ⟨_, rfl⟩
  | ended => exact .inr ⟨_, rfl⟩
  | refused => exact .inr ⟨_, rfl⟩
  | fed => exact .inr ⟨_, rfl⟩

private theorem reads_look (s : Session) : (s.look clock).reads = s.reads := by
  unfold look
  split <;> rfl

/-- Every read of a turn has its time set, and is made in time if there is time left. -/
private theorem mem_reads_turn {s : Session} {read : Read}
    (h : read ∈ ((s.look clock).readMore (s.look clock).remaining).1.reads) :
    read ∈ s.reads ∨ (read.Set ∧ ((s.look clock).remaining ≠ some 0 → read.InTime)) := by
  obtain he | ⟨socket, he⟩ := (more_readMore (s.look clock).remaining (s.look clock)).reads_eq
  · rw [he, reads_look] at h
    exact .inl h
  · rw [he, reads_look, List.mem_append, List.mem_singleton] at h
    obtain h | rfl := h
    · exact .inl h
    · refine .inr ⟨⟨socket, rfl⟩, fun hr d hd ↦ ?_⟩
      by_contra hle
      refine hr ?_
      change (s.look clock).deadline = some d at hd
      change ¬(s.look clock).now < d at hle
      rw [remaining, hd, Option.map_some, Nat.sub_eq_zero_of_le (by omega)]

/-! ### The reads of a run -/

private theorem mem_reads_of_eq {s s' : Session} {result : Except ClientError (Option SessionEvent)}
    {read : Read} (ht : (s.look clock).readMore (s.look clock).remaining = (s', result))
    (h : read ∈ s'.reads) :
    read ∈ s.reads ∨ (read.Set ∧ ((s.look clock).remaining ≠ some 0 → read.InTime)) := by
  refine mem_reads_turn clock ?_
  rw [ht]
  exact h

private theorem mem_reads_nextEventLoop {s : Session} {read : Read}
    (h : read ∈ (s.nextEventLoop clock).1.reads) : read ∈ s.reads ∨ read.Set := by
  fun_induction nextEventLoop clock s with
  | case1 s s' e ht => exact (mem_reads_of_eq clock ht h).imp_right And.left
  | case2 s s' ev ht => exact (mem_reads_of_eq clock ht h).imp_right And.left
  | case3 s s' ht hz => exact (mem_reads_of_eq clock ht h).imp_right And.left
  | case4 s s' ht hz ih =>
    obtain h | h := ih h
    · exact (mem_reads_of_eq clock ht h).imp_right And.left
    · exact .inr h

private theorem mem_reads_attachLoop {s : Session} {events : List SessionEvent} {read : Read}
    (h : read ∈ (s.attachLoop clock events).1.reads) :
    read ∈ s.reads ∨ (read.Set ∧ read.InTime) := by
  have hturn {s s' : Session} {result : Except ClientError (Option SessionEvent)}
      (hz : (s.look clock).remaining ≠ some 0)
      (ht : (s.look clock).readMore (s.look clock).remaining = (s', result))
      (h : read ∈ s'.reads) : read ∈ s.reads ∨ (read.Set ∧ read.InTime) :=
    (mem_reads_of_eq clock ht h).imp_right fun ⟨hs, hi⟩ ↦ ⟨hs, hi hz⟩
  have hagain {s s' : Session} {result : Except ClientError (Option SessionEvent)}
      (hz : (s.look clock).remaining ≠ some 0)
      (ht : (s.look clock).readMore (s.look clock).remaining = (s', result))
      (h : read ∈ s'.reads ∨ (read.Set ∧ read.InTime)) :
      read ∈ s.reads ∨ (read.Set ∧ read.InTime) := h.elim (hturn hz ht) .inr
  fun_induction attachLoop clock s events with
  | case1 s events hz =>
    left
    rwa [← reads_look clock s]
  | case2 s events hz s' e ht => exact hturn hz ht h
  | case3 s events hz s' bytes ht => exact hturn hz ht h
  | case4 s events hz s' ht => exact hturn hz ht h
  | case5 s events hz s' rows cols ht ih => exact hagain hz ht (ih h)
  | case6 s events hz s' ht ih => exact hagain hz ht (ih h)
  | case7 s events hz s' bytes ht ih => exact hagain hz ht (ih h)
  | case8 s events hz s' code ht ih => exact hagain hz ht (ih h)

private theorem reads_call (s : Session) (timeout : Option Nat) :
    (s.call clock timeout).reads = s.reads := by
  cases timeout <;> rfl

private theorem mem_reads_attachOver {written : Except SocketError Unit} {path name : String}
    {socket : Socket} {rows cols : UInt16} {timeout : Option Nat} {read : Read}
    (h : read ∈ (attachOver clock written path socket name rows cols timeout).1.reads) :
    read.Set ∧ read.InTime := by
  unfold attachOver at h
  cases written with
  | error e => cases h
  | ok _ =>
    obtain h | h := mem_reads_attachLoop clock h
    · rw [reads_call] at h
      cases h
    · exact h

private theorem mem_reads_run {s : Session} {timeouts : List (Option Nat)} {read : Read}
    (hs : ∀ read ∈ s.reads, read.Set) (h : read ∈ (s.run clock timeouts).reads) : read.Set := by
  induction timeouts generalizing s with
  | nil => exact hs read h
  | cons timeout timeouts ih =>
    refine ih (fun read h ↦ ?_) h
    obtain h | h := mem_reads_nextEventLoop clock h
    · rw [reads_call] at h
      exact hs read h
    · exact h

/-- A connection and any calls of `next_event` on it: every read of a timed call waits no longer
than the call has left exactly if every such read is made before the deadline of the call. -/
theorem bounded_iff (written : Except SocketError Unit) (path name : String) (socket : Socket)
    (rows cols : UInt16) (timeout : Option Nat) (timeouts : List (Option Nat)) :
    let s := (attachOver clock written path socket name rows cols timeout).1.run clock timeouts
    (∀ read ∈ s.reads, read.Bounded) ↔ ∀ read ∈ s.reads, read.InTime := by
  intro s
  have hset (read : Read) (h : read ∈ s.reads) : read.Set :=
    mem_reads_run clock (fun _ h ↦ (mem_reads_attachOver clock h).1) h
  exact forall₂_congr fun read h ↦ (hset read h).bounded_iff_inTime

/-- A session to which only a SCREEN has come, attached to without a timeout. -/
private def screened : Session where
  conn := .start ⟨[], none⟩ "a" 24 80
  reads := [⟨none, 0, none⟩]

private theorem attachOver_screened :
    (attachOver clock (.ok ()) "" ⟨[.ok [5, 0, 0, 0, 0]], none⟩ "a" 24 80 none).1 = screened := by
  have hfeed : ({} : PacketReader).feed [5, 0, 0, 0, 0] = ({}, .ok [Packet.screen []]) := by
    have hd := drain_encode [Packet.screen []] (by simp [Packet.screen])
    rw [feed_eq] <;> rw [show ({} : PacketReader).buffer ++ [5, 0, 0, 0, 0] =
      ([Packet.screen []].map Packet.encode).flatten from rfl, hd]
    rfl
  have hmore : readMore none { conn := .start ⟨[.ok [5, 0, 0, 0, 0]], none⟩ "a" 24 80 } =
      (screened, .ok (some (.screen []))) := by
    simp [readMore, SessionConnection.start, Socket.setReadTimeout, Socket.read, asks, onConn,
      SessionConnection.feed, hfeed, SessionConnection.onPacket, Packet.screen, packetEvent,
      screened]
  simp only [attachOver, call]
  rw [attachLoop, if_neg (by simp [remaining, look])]
  split
  · next ht => cases hmore.symm.trans ht
  · next ht =>
    cases hmore.symm.trans ht
    rfl
  · next ht => cases hmore.symm.trans ht
  · next ht => cases hmore.symm.trans ht
  · next ht => cases hmore.symm.trans ht
  · next ht => cases hmore.symm.trans ht
  · next ht => cases hmore.symm.trans ht

private theorem run_screened : ⟨some 0, 0, none⟩ ∈ (screened.run (fun _ ↦ 0) [some 0]).reads := by
  have hmore : ((screened.call (fun _ ↦ 0) (some 0)).look (fun _ ↦ 0)).readMore (some 0) =
      (⟨(SessionConnection.start ⟨[], none⟩ "a" 24 80).close, some 0, 0, 2,
        [⟨none, 0, none⟩, ⟨some 0, 0, none⟩]⟩, .ok (some .closed)) := rfl
  rw [run, List.foldl_cons, List.foldl_nil, nextEvent, nextEventLoop]
  split
  · next ht => cases hmore.symm.trans ht
  · next ht =>
    cases hmore.symm.trans ht
    exact List.mem_cons_of_mem _ List.mem_cons_self
  · next ht => cases hmore.symm.trans ht

/-- A connection whose screen has arrived, and a call that is not to wait. -/
theorem bounded_refuted :
    ¬∀ (clock : Nat → Nat) (socket : Socket) (timeouts : List (Option Nat)),
      ∀ read ∈ ((attachOver clock (.ok ()) "" socket "a" 24 80 none).1.run clock timeouts).reads,
        read.Bounded := by
  intro h
  have hr := h (fun _ ↦ 0) ⟨[.ok [5, 0, 0, 0, 0]], none⟩ [some 0] ⟨some 0, 0, none⟩
  rw [attachOver_screened] at hr
  obtain ⟨t, ht, -⟩ := hr run_screened 0 rfl
  cases ht

end Session

end PtySpec.Client
