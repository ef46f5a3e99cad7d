import PtySpec.Lib.Trace

/-!
# The messages of the serving loop

Model of `next_queued_message`, `crates/pty/src/daemon/lifecycle.rs:84`: control messages
are taken out of the channel ahead of those of the terminal bridge, which are set aside in
their order. Messages are sent while a call scans, so a call is taken step by step.
-/

namespace PtySpec.Daemon

open Lib

/-- `Msg`, `lifecycle.rs:52`; what a connection or a packet carries is a parameter. -/
inductive Msg (ρ : Type) where
  | ptyData (bytes : List UInt8)
  | ptyEof
  | childExited (status : Int32)
  | connect (id : UInt64) (parts : ρ)
  | packet (id : UInt64) (content : ρ)
  | closed (id : UInt64)
  | externalKill
  | operationTransferred
  | operationEnd (code : Int32)
  deriving DecidableEq

/-- The pattern of the messages that are set aside, `lifecycle.rs:93`. -/
def Msg.isBridge {ρ : Type} : Msg ρ → Bool
  | ptyData _ | ptyEof | childExited _ => true
  | _ => false

/-- What the loop of `serve` is doing: nothing, scanning the channel with some turns left,
or waiting for a message. -/
inductive Asking where
  | idle
  | scanning (turns : Nat)
  | waiting
  deriving DecidableEq

/-- The channel, the messages set aside and the call at work. Beside these, what was ever
sent and returned, and whether the last call found nothing and nothing was sent since. -/
structure Mailbox (ρ : Type) where
  rx : List (Msg ρ)
  connected : Bool
  deferred : List (Msg ρ)
  asking : Asking
  sent : List (Msg ρ)
  returned : List (Msg ρ)
  empty : Bool

/-- What can happen to a mailbox. -/
inductive Mailbox.Label (ρ : Type) where
  | send (m : Msg ρ)
  | disconnect
  | call
  | tryRecv
  | settle
  | receive
  | timeout

namespace Mailbox

variable {ρ : Type}

/-- Before the first message. -/
def start : Mailbox ρ := ⟨[], true, [], .idle, [], [], false⟩

/-- The call returns a message. -/
def answer (s : Mailbox ρ) (m : Msg ρ) : Mailbox ρ :=
  { s with asking := .idle, returned := s.returned ++ [m] }

/-- The call returns that there is nothing. -/
def nothing (s : Mailbox ρ) : Mailbox ρ := { s with asking := .idle, empty := true }

/-- `deferred.pop_front()`, or else what comes after it. -/
def popDeferred (s : Mailbox ρ) (otherwise : Mailbox ρ) : Mailbox ρ :=
  match s.deferred with
  | [] => otherwise
  | m :: rest => { s with deferred := rest }.answer m

/-- One turn of the scan, `lifecycle.rs:92-101`. -/
def scan (s : Mailbox ρ) (turns : Nat) : Mailbox ρ :=
  match s.rx with
  | m :: rest =>
    if m.isBridge then
      { s with rx := rest, deferred := s.deferred ++ [m], asking := .scanning turns }
    else { s with rx := rest }.answer m
  | [] => if s.connected then { s with asking := .scanning 0 } else s.popDeferred s.nothing

/-- One step: a sender's, or one of `next_queued_message`. -/
def step (s : Mailbox ρ) : Label ρ → Option (Mailbox ρ)
  | .send m =>
    if s.connected then some { s with rx := s.rx ++ [m], sent := s.sent ++ [m], empty := false }
    else none
  | .disconnect => some { s with connected := false }
  | .call => if s.asking = .idle then some { s with asking := .scanning 8192 } else none
  | .tryRecv =>
    match s.asking with
    | .scanning (turns + 1) => some (s.scan turns)
    | _ => none
  -- after the scan, `lifecycle.rs:103-105`
  | .settle =>
    match s.asking with
    | .scanning 0 => some (s.popDeferred { s with asking := .waiting })
    | _ => none
  -- `recv` and `recv_timeout`, `lifecycle.rs:106-109`
  | .receive =>
    match s.asking, s.rx with
    | .waiting, m :: rest => some ({ s with rx := rest }.answer m)
    | _, _ => none
  | .timeout =>
    match s.asking, s.rx with
    | .waiting, [] => some s.nothing
    | _, _ => none

/-- The states that runs reach. -/
def Reached : Mailbox ρ → Prop := Runs (· = start) step

/-- Where every message is: returned, set aside or in the channel. -/
structure Inv (s : Mailbox ρ) : Prop where
  control : s.sent.filter (!·.isBridge) =
    s.returned.filter (!·.isBridge) ++ s.rx.filter (!·.isBridge)
  bridge : s.sent.filter (·.isBridge) =
    s.returned.filter (·.isBridge) ++ s.deferred ++ s.rx.filter (·.isBridge)
  waiting : s.asking = .waiting → s.deferred = []
  empty : s.empty = true → s.rx = [] ∧ s.deferred = []

private theorem isBridge_of_deferred {s : Mailbox ρ} (h : Inv s) :
    ∀ m ∈ s.deferred, m.isBridge = true := by
  intro m hm
  have hsent : m ∈ s.sent.filter (·.isBridge) := by
    rw [h.bridge]
    exact List.mem_append_left _ (List.mem_append_right _ hm)
  exact (List.mem_filter.mp hsent).2

/-- The first message that was set aside is returned, or there is none. -/
private theorem Inv.popDeferred {s t : Mailbox ρ} (h : Inv s)
    (ht : s.deferred = [] → Inv t) : Inv (s.popDeferred t) := by
  have hall := isBridge_of_deferred h
  unfold Mailbox.popDeferred
  cases hd : s.deferred with
  | nil => exact ht hd
  | cons m rest =>
    have hm : m.isBridge = true := hall m (hd ▸ List.mem_cons_self)
    have hb := h.bridge
    rw [hd] at hb
    refine ⟨?_, ?_, fun hw ↦ (nomatch hw), fun he ↦ ?_⟩
    · simpa [answer, hm] using h.control
    · simpa [answer, hm] using hb
    · exact absurd (h.empty he).2 (hd ▸ List.cons_ne_nil m rest)

/-- The first message of the channel is returned, when none is set aside or it is a control
message. -/
private theorem Inv.answer {s : Mailbox ρ} (h : Inv s) {m : Msg ρ} {rest : List (Msg ρ)}
    (hr : s.rx = m :: rest) (hm : m.isBridge = true → s.deferred = []) :
    Inv ({ s with rx := rest }.answer m) := by
  have hc := h.control
  have hb := h.bridge
  rw [hr] at hc hb
  refine ⟨?_, ?_, fun hw ↦ (nomatch hw), fun he ↦ ?_⟩
  · cases hbr : m.isBridge <;> simpa [Mailbox.answer, hbr] using hc
  · cases hbr : m.isBridge with
    | false => simpa [Mailbox.answer, hbr] using hb
    | true => simpa [Mailbox.answer, hbr, hm hbr] using hb
  · exact absurd (h.empty he).1 (hr ▸ List.cons_ne_nil m rest)

private theorem Inv.scan {s : Mailbox ρ} (h : Inv s) (turns : Nat) : Inv (s.scan turns) := by
  unfold Mailbox.scan
  split
  · next m rest hr =>
    split
    · next hm =>
      have hc := h.control
      have hb := h.bridge
      rw [hr] at hc hb
      refine ⟨?_, ?_, fun hw ↦ (nomatch hw), fun he ↦ ?_⟩
      · simpa [hm] using hc
      · simpa [hm] using hb
      · exact absurd (h.empty he).1 (hr ▸ List.cons_ne_nil m rest)
    · next hm => exact h.answer hr fun hb ↦ absurd hb hm
  · next hr =>
    split
    · exact ⟨h.control, h.bridge, fun hw ↦ (nomatch hw), h.empty⟩
    · exact h.popDeferred fun hd ↦
        ⟨h.control, h.bridge, fun hw ↦ (nomatch hw), fun _ ↦ ⟨hr, hd⟩⟩

/-- Every step keeps every message where it is looked for. -/
theorem Inv.step {s t : Mailbox ρ} {l : Label ρ} (h : Inv s) (hs : s.step l = some t) :
    Inv t := by
  cases l with
  | send m =>
    simp only [Mailbox.step, Option.ite_none_right_eq_some, Option.some.injEq] at hs
    obtain ⟨-, rfl⟩ := hs
    refine ⟨?_, ?_, h.waiting, fun he ↦ (nomatch he)⟩
    · simp [h.control]
    · simp [h.bridge]
  | disconnect =>
    cases hs
    exact ⟨h.control, h.bridge, h.waiting, h.empty⟩
  | call =>
    simp only [Mailbox.step, Option.ite_none_right_eq_some, Option.some.injEq] at hs
    obtain ⟨-, rfl⟩ := hs
    exact ⟨h.control, h.bridge, fun hw ↦ (nomatch hw), h.empty⟩
  | tryRecv =>
    simp only [Mailbox.step] at hs
    split at hs
    · cases hs
      exact h.scan _
    · cases hs
  | settle =>
    simp only [Mailbox.step] at hs
    split at hs
    · cases hs
      exact h.popDeferred fun hd ↦ ⟨h.control, h.bridge, fun _ ↦ hd, h.empty⟩
    · cases hs
  | receive =>
    simp only [Mailbox.step] at hs
    split at hs
    · next m rest ha hr =>
      cases hs
      exact h.answer hr fun _ ↦ h.waiting ha
    · cases hs
  | timeout =>
    simp only [Mailbox.step] at hs
    split at hs
    · next ha hr =>
      cases hs
      exact ⟨h.control, h.bridge, fun hw ↦ (nomatch hw), fun _ ↦ ⟨hr, h.waiting ha⟩⟩
    · cases hs

theorem Reached.inv {s : Mailbox ρ} (h : Reached s) : Inv s := by
  refine Runs.induct h ?_ fun _ _ _ _ hi hs ↦ hi.step hs
  rintro _ rfl
  exact ⟨rfl, rfl, fun _ ↦ rfl, fun he ↦ (nomatch he)⟩

/-- The messages of two kinds are the messages. -/
private theorem perm_kinds (messages : List (Msg ρ)) :
    (messages.filter (·.isBridge) ++ messages.filter (!·.isBridge)).Perm messages :=
  List.filter_append_perm Msg.isBridge messages

/-- In every run, control messages and bridge messages are each returned in the order they
were sent and at most once, and all of them once a call finds nothing. -/
theorem delivered {s : Mailbox ρ} (h : Reached s) :
    s.returned.filter (!·.isBridge) <+: s.sent.filter (!·.isBridge) ∧
    s.returned.filter (·.isBridge) <+: s.sent.filter (·.isBridge) ∧
    s.returned.Subperm s.sent ∧
    (s.empty = true → s.returned.filter (!·.isBridge) = s.sent.filter (!·.isBridge) ∧
      s.returned.filter (·.isBridge) = s.sent.filter (·.isBridge) ∧ s.returned.Perm s.sent) := by
  have hi := h.inv
  have hc : s.returned.filter (!·.isBridge) <+: s.sent.filter (!·.isBridge) :=
    ⟨_, hi.control.symm⟩
  have hb : s.returned.filter (·.isBridge) <+: s.sent.filter (·.isBridge) := by
    rw [hi.bridge, List.append_assoc]
    exact List.prefix_append _ _
  refine ⟨hc, hb, ?_, fun he ↦ ?_⟩
  · have hsub := List.Sublist.append hb.sublist hc.sublist
    exact (perm_kinds s.returned).symm.subperm.trans
      (hsub.subperm.trans (perm_kinds s.sent).subperm)
  · obtain ⟨hr, hd⟩ := hi.empty he
    have hce : s.sent.filter (!·.isBridge) = s.returned.filter (!·.isBridge) := by
      rw [hi.control, hr, List.filter_nil, List.append_nil]
    have hbe : s.sent.filter (·.isBridge) = s.returned.filter (·.isBridge) := by
      rw [hi.bridge, hr, hd, List.filter_nil, List.append_nil, List.append_nil]
    refine ⟨hce.symm, hbe.symm, (perm_kinds s.returned).symm.trans ?_⟩
    rw [← hce, ← hbe]
    exact perm_kinds s.sent

/-- A run that sends output, a kill and more output, and takes the kill first. -/
def killFirst : List (Label Unit) :=
  [.send (.ptyData [1]), .send .externalKill, .send (.ptyData [2]), .call, .tryRecv, .tryRecv,
    .call, .tryRecv, .tryRecv, .settle, .call, .tryRecv, .settle, .call, .tryRecv, .settle,
    .timeout]

theorem delivered_killFirst : ∃ s : Mailbox Unit, Reached s ∧ s.empty = true ∧
    s.returned = [.externalKill, .ptyData [1], .ptyData [2]] ∧ s.returned.Perm s.sent := by
  obtain ⟨s, hs⟩ : ∃ s, replay step start killFirst = some s := ⟨_, rfl⟩
  have hr : Reached s := Runs.replay (.base rfl) hs
  obtain ⟨he, hret⟩ : s.empty = true ∧
      s.returned = [.externalKill, .ptyData [1], .ptyData [2]] := by
    cases hs
    exact ⟨rfl, rfl⟩
  exact ⟨s, hr, he, hret, ((delivered hr).2.2.2 he).2.2⟩

end Mailbox
end PtySpec.Daemon
