import PtySpec.Lib.Sift
import PtySpec.Proc.Tree

/-!
# The termination of recorded processes

Model of `terminate_process_identities` and of what it calls,
`crates/pty-core/src/process_tree.rs:489-575`: SIGTERM to the recorded identities that are still
the same running process, a wait with a question about each of them every 25 ms, SIGKILL to those
that are left and a second wait. The table of processes changes between any two questions.
-/

namespace PtySpec.Proc

open Lib
open Operation (Answer)

/-- What the machine gives a termination: what the n-th read of a single process finds, whether
the kernel takes a signal after n reads, and the time that passes from one look at the clock to
the next beside the sleeps. -/
structure Machine where
  read : Nat → Int32 → Answer Row
  accepts : Nat → Int32 → Int32 → Bool
  elapsed : Nat → Nat

/-- A termination so far: the identities asked about, the calls of `kill(2)`, and the clock in
nanoseconds. -/
structure Course where
  asked : List ProcessIdentity := []
  killed : List (Int32 × Int32) := []
  now : Nat := 0

/-- `libc::SIGTERM`. -/
def sigterm : Int32 := 15

/-- `libc::SIGKILL`. -/
def sigkill : Int32 := 9

namespace Machine

variable (m : Machine)

/-- `proctable::process`, `proctable.rs:592`. -/
def process (n : Nat) (pid : Int32) : Answer Row :=
  if pid ≤ 0 then .notPresent else m.read n pid

/-- `is_same_process`, `process_tree.rs:489`. -/
def isSameProcess (n : Nat) (id : ProcessIdentity) : Bool :=
  match m.process n id.pid with
  | .known row => !row.isZombie && row.identity == some id.identity
  | _ => false

/-- `Instant::now`. -/
def look (c : Course) : Course := { c with now := c.now + m.elapsed c.asked.length }

/-- `raw_target` of one process, `kill.rs:35`. -/
def rawTarget (pid signal : Int32) : Option Int32 :=
  if 1 < pid ∨ pid = 1 ∧ signal = 0 then some pid else none

/-- `kill::process`, `kill.rs:61`: whether the signal was sent. -/
def killProcess (pid signal : Int32) (c : Course) : Bool × Course :=
  match rawTarget pid signal with
  | none => (false, c)
  | some raw =>
    (m.accepts c.asked.length raw signal, { c with killed := c.killed ++ [(raw, signal)] })

/-- `signal_process_identities`, `process_tree.rs:502`. -/
def signalProcessIdentities (signal : Int32) : List ProcessIdentity → Course →
    List Int32 × Course
  | [], c => ([], c)
  | id :: ids, c =>
    let asked := { c with asked := c.asked ++ [id] }
    if m.isSameProcess c.asked.length id then
      let (sent, c) := m.killProcess id.pid signal asked
      let (signalled, c) := signalProcessIdentities signal ids c
      (if sent then id.pid :: signalled else signalled, c)
    else signalProcessIdentities signal ids asked

/-- `survivors.retain(is_same_process)`, `process_tree.rs:534`. -/
def retainSame : List ProcessIdentity → Course → List ProcessIdentity × Course
  | [], c => ([], c)
  | id :: ids, c =>
    let (survivors, c') := retainSame ids { c with asked := c.asked ++ [id] }
    (if m.isSameProcess c.asked.length id then id :: survivors else survivors, c')

theorem retainSame_eq (ids : List ProcessIdentity) (c : Course) :
    m.retainSame ids c =
      (sift m.isSameProcess c.asked.length ids, { c with asked := c.asked ++ ids }) := by
  induction ids generalizing c with
  | nil => rw [retainSame, sift, List.append_nil]
  | cons id ids ih =>
    rw [retainSame, ih, sift, List.length_append, List.append_assoc]
    rfl

/-- The nanoseconds between two rounds of questions, `process_tree.rs:533`. -/
def pollInterval : Nat := 25000000

/-- The loop of `wait_for_identities_to_exit`, `process_tree.rs:532-535`. -/
def poll (deadline : Nat) (survivors : List ProcessIdentity) (c : Course) :
    List ProcessIdentity × Course :=
  if survivors = [] then (survivors, c)
  else if (m.look c).now < deadline then
    let slept := { m.look c with now := (m.look c).now + pollInterval }
    poll deadline (m.retainSame survivors slept).1 (m.retainSame survivors slept).2
  else (survivors, m.look c)
termination_by deadline - c.now
decreasing_by
  rename_i h
  rw [retainSame_eq]
  simp only [look, pollInterval] at h ⊢
  omega

/-- `wait_for_identities_to_exit`, `process_tree.rs:528`. -/
def waitForIdentitiesToExit (timeout : Nat) (ids : List ProcessIdentity) (c : Course) :
    List ProcessIdentity × Course :=
  let deadline := (m.look c).now + timeout
  let (survivors, c) := m.retainSame ids (m.look c)
  m.poll deadline survivors c

/-- SIGTERM and the wait after it, `process_tree.rs:568-569`. -/
def firstGrace (termWait : Nat) (ids : List ProcessIdentity) (c : Course) :
    List ProcessIdentity × Course :=
  m.waitForIdentitiesToExit termWait ids (m.signalProcessIdentities sigterm ids c).2

/-- SIGKILL to what is left, `process_tree.rs:573`. -/
def killRound (termWait : Nat) (ids : List ProcessIdentity) (c : Course) : Course :=
  let (afterTerm, c) := m.firstGrace termWait ids c
  (m.signalProcessIdentities sigkill afterTerm c).2

/-- `terminate_process_identities`, `process_tree.rs:560`. -/
def terminateProcessIdentities (termWait killWait : Nat) (ids : List ProcessIdentity)
    (c : Course) : List ProcessIdentity × Course :=
  if ids = [] then ([], c)
  else
    let (afterTerm, c') := m.firstGrace termWait ids c
    if afterTerm = [] then ([], c')
    else m.waitForIdentitiesToExit killWait afterTerm (m.killRound termWait ids c)

/-! ### What is asked and what is signalled -/

theorem signalProcessIdentities_asked (signal : Int32) (ids : List ProcessIdentity)
    (c : Course) : (m.signalProcessIdentities signal ids c).2.asked = c.asked ++ ids := by
  induction ids generalizing c with
  | nil => rw [signalProcessIdentities, List.append_nil]
  | cons id ids ih =>
    have hkill (c : Course) : (m.killProcess id.pid signal c).2.asked = c.asked := by
      unfold killProcess
      split <;> rfl
    unfold signalProcessIdentities
    dsimp only
    split
    · rw [ih, hkill, List.append_assoc]
      rfl
    · rw [ih, List.append_assoc]
      rfl

/-- A round of signals goes to the identities whose own question was answered with yes. -/
theorem signalProcessIdentities_killed {signal : Int32} {ids : List ProcessIdentity}
    {c : Course} {call : Int32 × Int32} :
    call ∈ (m.signalProcessIdentities signal ids c).2.killed ↔ call ∈ c.killed ∨
      ∃ id ∈ sift m.isSameProcess c.asked.length ids,
        rawTarget id.pid signal = some call.1 ∧ signal = call.2 := by
  induction ids generalizing c with
  | nil => simp [signalProcessIdentities, sift]
  | cons id ids ih =>
    have hasked (c : Course) : (m.killProcess id.pid signal c).2.asked = c.asked := by
      unfold killProcess
      split <;> rfl
    have hkilled (c : Course) : call ∈ (m.killProcess id.pid signal c).2.killed ↔
        call ∈ c.killed ∨ rawTarget id.pid signal = some call.1 ∧ signal = call.2 := by
      unfold killProcess
      split
      · next h => simp [h]
      · next raw h =>
        rw [h, List.mem_append, List.mem_singleton, Prod.ext_iff, Option.some_inj, eq_comm,
          @eq_comm _ call.2]
    unfold signalProcessIdentities sift
    dsimp only
    split
    · rw [ih, hkilled, hasked, List.length_append, List.length_singleton, or_assoc,
        List.exists_mem_cons_iff]
    · rw [ih, List.length_append, List.length_singleton]

private theorem poll_nil (deadline : Nat) (c : Course) : m.poll deadline [] c = ([], c) := by
  unfold poll
  rw [if_pos rfl]

theorem poll_spec (deadline : Nat) (survivors : List ProcessIdentity) (c : Course) :
    ∃ asked, Sifted m.isSameProcess c.asked.length survivors asked
        (m.poll deadline survivors c).1 ∧
      (m.poll deadline survivors c).2.asked = c.asked ++ asked ∧
      (m.poll deadline survivors c).2.killed = c.killed := by
  fun_induction Machine.poll m deadline survivors c with
  | case1 c => exact ⟨[], .done _ _, (List.append_nil _).symm, rfl⟩
  | case2 survivors c _ _ slept ih =>
    obtain ⟨asked, hs, ha, hk⟩ := ih
    rw [retainSame_eq] at hs ha hk ⊢
    refine ⟨survivors ++ asked, .round ?_, ?_, hk⟩
    · rw [List.length_append] at hs
      exact hs
    · rw [ha, List.append_assoc]
      rfl
  | case3 survivors c => exact ⟨[], .done _ _, (List.append_nil _).symm, rfl⟩

/-- A wait asks in rounds, kills nothing and keeps what every question about it said yes to. -/
theorem waitForIdentitiesToExit_spec (timeout : Nat) (ids : List ProcessIdentity) (c : Course) :
    ∃ asked, Sifted m.isSameProcess c.asked.length ids asked
        (m.waitForIdentitiesToExit timeout ids c).1 ∧
      (m.waitForIdentitiesToExit timeout ids c).2.asked = c.asked ++ asked ∧
      (m.waitForIdentitiesToExit timeout ids c).2.killed = c.killed := by
  unfold waitForIdentitiesToExit
  dsimp only
  rw [retainSame_eq]
  obtain ⟨asked, hs, ha, hk⟩ := m.poll_spec ((m.look c).now + timeout)
    (sift m.isSameProcess c.asked.length ids) { m.look c with asked := c.asked ++ ids }
  refine ⟨ids ++ asked, .round ?_, ?_, hk⟩
  · rw [List.length_append] at hs
    exact hs
  · exact ha.trans (List.append_assoc _ _ _)

/-! ### What is true of the processes -/

/-- A read that does not say whether the process is the recorded one. -/
def Failed : Answer Row → Prop
  | .known row => row.identity = none
  | .notPresent => False
  | .unknown _ => True

/-- `running n id`: when n questions were asked, the process of an identity is there and is no
corpse. An identity does not come back, and a read that does not fail tells what is so. -/
structure Truthful (running : Nat → ProcessIdentity → Prop) : Prop where
  once {i j : Nat} {id : ProcessIdentity} : i ≤ j → running j id → running i id
  known {n : Nat} {id : ProcessIdentity} {row : Row} {identity : List Char} :
    m.process n id.pid = .known row → row.identity = some identity →
      (running n id ↔ row.isZombie = false ∧ identity = id.identity)
  gone {n : Nat} {id : ProcessIdentity} : m.process n id.pid = .notPresent → ¬running n id

section

variable {m} {running : Nat → ProcessIdentity → Prop}

theorem isSameProcess_iff (ht : m.Truthful running) (n : Nat) (id : ProcessIdentity) :
    m.isSameProcess n id = true ↔ running n id ∧ ¬Failed (m.process n id.pid) := by
  unfold isSameProcess
  cases hp : m.process n id.pid with
  | notPresent => simp [ht.gone hp]
  | unknown u => simp [Failed]
  | known row =>
    cases hi : row.identity with
    | none => simp [Failed, hi]
    | some identity => simp [Failed, hi, ht.known hp hi]

end

/-- What a termination asks for. An identity that still runs after the first wait was asked about
in the wait with no read that failed; it still runs when its turn to be signalled comes, is not
process 1 and is read; and one that runs to the end was asked about in the second wait with no
read that failed. -/
structure Heeded (m : Machine) (running : Nat → ProcessIdentity → Prop)
    (termWait killWait : Nat) (ids : List ProcessIdentity) : Prop where
  grace {n : Nat} {id : ProcessIdentity} :
    (m.signalProcessIdentities sigterm ids {}).2.asked.length ≤ n →
    (m.firstGrace termWait ids {}).2.asked[n]? = some id →
    running (m.firstGrace termWait ids {}).2.asked.length id →
    ¬Failed (m.process n id.pid)
  turn {n : Nat} {id : ProcessIdentity} :
    (m.firstGrace termWait ids {}).2.asked.length ≤ n →
    (m.killRound termWait ids {}).asked[n]? = some id →
    running (m.firstGrace termWait ids {}).2.asked.length id →
    running n id ∧ 1 < id.pid ∧ ¬Failed (m.process n id.pid)
  last {n : Nat} {id : ProcessIdentity} :
    (m.killRound termWait ids {}).asked.length ≤ n →
    (m.terminateProcessIdentities termWait killWait ids {}).2.asked[n]? = some id →
    running (m.terminateProcessIdentities termWait killWait ids {}).2.asked.length id →
    ¬Failed (m.process n id.pid)

/-- No survivor is forgotten: what still runs at the end is returned, and what still ran after
the first wait was sent SIGKILL. -/
def Remembers (m : Machine) (running : Nat → ProcessIdentity → Prop)
    (termWait killWait : Nat) (ids : List ProcessIdentity) : Prop :=
  (∀ id ∈ ids, running (m.terminateProcessIdentities termWait killWait ids {}).2.asked.length id →
    id ∈ (m.terminateProcessIdentities termWait killWait ids {}).1) ∧
  ∀ id ∈ ids, running (m.firstGrace termWait ids {}).2.asked.length id →
    (id.pid, sigkill) ∈ (m.terminateProcessIdentities termWait killWait ids {}).2.killed

private theorem terminate_gone {termWait : Nat} (killWait : Nat) {ids : List ProcessIdentity}
    (hids : ids ≠ []) {c : Course} (h : (m.firstGrace termWait ids c).1 = []) :
    m.terminateProcessIdentities termWait killWait ids c =
      ([], (m.firstGrace termWait ids c).2) := by
  unfold terminateProcessIdentities
  rw [if_neg hids]
  exact if_pos h

private theorem terminate_left {termWait : Nat} (killWait : Nat) {ids : List ProcessIdentity}
    (hids : ids ≠ []) {c : Course} (h : (m.firstGrace termWait ids c).1 ≠ []) :
    m.terminateProcessIdentities termWait killWait ids c =
      m.waitForIdentitiesToExit killWait (m.firstGrace termWait ids c).1
        (m.killRound termWait ids c) := by
  unfold terminateProcessIdentities
  rw [if_neg hids]
  exact if_neg h

/-- The rounds of a termination: SIGTERM, the first wait, SIGKILL and the second wait. -/
structure Rounds (m : Machine) (termWait killWait : Nat) (ids grace last : List ProcessIdentity) :
    Prop where
  termed : (m.signalProcessIdentities sigterm ids {}).2.asked = ids
  graced : (m.firstGrace termWait ids {}).2.asked = ids ++ grace
  sifted : Sifted m.isSameProcess ids.length ids grace (m.firstGrace termWait ids {}).1
  killRound : (m.killRound termWait ids {}).asked =
    ids ++ grace ++ (m.firstGrace termWait ids {}).1
  asked : (m.terminateProcessIdentities termWait killWait ids {}).2.asked =
    (m.killRound termWait ids {}).asked ++ last
  result : Sifted m.isSameProcess (m.killRound termWait ids {}).asked.length
    (m.firstGrace termWait ids {}).1 last (m.terminateProcessIdentities termWait killWait ids {}).1
  killed (pid : Int32) :
    (pid, sigkill) ∈ (m.terminateProcessIdentities termWait killWait ids {}).2.killed ↔
      ∃ id ∈ sift m.isSameProcess (m.firstGrace termWait ids {}).2.asked.length
        (m.firstGrace termWait ids {}).1, rawTarget id.pid sigkill = some pid

private theorem exists_rounds (termWait killWait : Nat) (ids : List ProcessIdentity) :
    ∃ grace last, Rounds m termWait killWait ids grace last := by
  have htermed : (m.signalProcessIdentities sigterm ids {}).2.asked = ids := by
    rw [signalProcessIdentities_asked]
    rfl
  obtain ⟨grace, hs, hg, hk⟩ := m.waitForIdentitiesToExit_spec termWait ids
    (m.signalProcessIdentities sigterm ids {}).2
  rw [htermed] at hs hg
  change (m.firstGrace termWait ids {}).2.killed = _ at hk
  have hround : (m.killRound termWait ids {}).asked =
      ids ++ grace ++ (m.firstGrace termWait ids {}).1 := by
    rw [Machine.killRound, signalProcessIdentities_asked]
    exact congrArg (· ++ _) hg
  -- The signals of the first round are none of the second's.
  have hterm (pid : Int32) : (pid, sigkill) ∉ (m.firstGrace termWait ids {}).2.killed := by
    rw [hk, signalProcessIdentities_killed]
    rintro (h | ⟨id, -, -, h⟩)
    · cases h
    · have hne : sigterm ≠ sigkill := by decide
      exact hne h
  have hkill (pid : Int32) : (pid, sigkill) ∈ (m.killRound termWait ids {}).killed ↔
      ∃ id ∈ sift m.isSameProcess (m.firstGrace termWait ids {}).2.asked.length
        (m.firstGrace termWait ids {}).1, rawTarget id.pid sigkill = some pid := by
    rw [Machine.killRound, signalProcessIdentities_killed, or_iff_right (hterm pid)]
    simp only [and_true]
  refine ⟨grace, ?_⟩
  by_cases hids : ids = []
  · have hgrace : grace = [] := List.subset_nil.mp (hids ▸ hs.asked_subset)
    have hnil : (m.firstGrace termWait ids {}).1 = [] :=
      List.sublist_nil.mp (hids ▸ hs.sublist)
    have he : m.terminateProcessIdentities termWait killWait ids {} = ([], {}) := if_pos hids
    refine ⟨[], htermed, hg, hs, hround, ?_, ?_, ?_⟩
    · rw [he, hround, hnil, hids, hgrace]
      rfl
    · rw [hnil, he]
      exact .done _ _
    · intro pid
      rw [hnil, he]
      simp [sift]
  · by_cases hnil : (m.firstGrace termWait ids {}).1 = []
    · have he := m.terminate_gone killWait hids hnil
      refine ⟨[], htermed, hg, hs, hround, ?_, ?_, ?_⟩
      · rw [he, hround, hnil, List.append_nil, List.append_nil]
        exact hg
      · rw [hnil, he]
        exact .done _ _
      · intro pid
        rw [hnil, he]
        simp [sift, hterm]
    · have he := m.terminate_left killWait hids hnil
      obtain ⟨last, hl, ha, hlk⟩ := m.waitForIdentitiesToExit_spec killWait
        (m.firstGrace termWait ids {}).1 (m.killRound termWait ids {})
      refine ⟨last, htermed, hg, hs, hround, ?_, ?_, ?_⟩
      · rw [he]
        exact ha
      · rw [he]
        exact hl
      · intro pid
        rw [he, hlk]
        exact hkill pid

section

variable {m} {running : Nat → ProcessIdentity → Prop} {termWait killWait : Nat}
  {ids : List ProcessIdentity}

/-- What runs after the first wait was kept by it. -/
private theorem mem_firstGrace (ht : m.Truthful running)
    (h : Heeded m running termWait killWait ids) {id : ProcessIdentity} (hid : id ∈ ids)
    (hr : running (m.firstGrace termWait ids {}).2.asked.length id) :
    id ∈ (m.firstGrace termWait ids {}).1 := by
  obtain ⟨grace, last, r⟩ := m.exists_rounds termWait killWait ids
  refine r.sifted.mem hid ?_
  intro i hi
  have hlt := (List.getElem?_eq_some_iff.mp hi).1
  have hasked : (m.firstGrace termWait ids {}).2.asked[ids.length + i]? = some id := by
    rw [r.graced, List.getElem?_append_right (Nat.le_add_right _ _), Nat.add_sub_cancel_left]
    exact hi
  rw [isSameProcess_iff ht]
  refine ⟨ht.once ?_ hr, h.grace ?_ hasked hr⟩
  · rw [r.graced, List.length_append]
    omega
  · rw [r.termed]
    exact Nat.le_add_right _ _

private theorem Heeded.remembers (ht : m.Truthful running)
    (h : Heeded m running termWait killWait ids) : Remembers m running termWait killWait ids := by
  obtain ⟨grace, last, r⟩ := m.exists_rounds termWait killWait ids
  have hlen : (m.firstGrace termWait ids {}).2.asked.length ≤
      (m.killRound termWait ids {}).asked.length := by
    rw [r.killRound, r.graced]
    simp
  have hlast : (m.killRound termWait ids {}).asked.length ≤
      (m.terminateProcessIdentities termWait killWait ids {}).2.asked.length := by
    rw [r.asked]
    simp
  constructor
  · intro id hid hr
    refine r.result.mem (mem_firstGrace ht h hid (ht.once (hlen.trans hlast) hr)) ?_
    intro i hi
    have hlt := (List.getElem?_eq_some_iff.mp hi).1
    rw [isSameProcess_iff ht]
    refine ⟨ht.once ?_ hr, h.last (Nat.le_add_right _ i) ?_ hr⟩
    · rw [r.asked, List.length_append]
      omega
    · rw [r.asked, List.getElem?_append_right (Nat.le_add_right _ _), Nat.add_sub_cancel_left]
      exact hi
  · intro id hid hr
    obtain ⟨i, hi⟩ := List.getElem?_of_mem (mem_firstGrace ht h hid hr)
    have hasked : (m.killRound termWait ids {}).asked[
        (m.firstGrace termWait ids {}).2.asked.length + i]? = some id := by
      rw [r.killRound, ← r.graced, List.getElem?_append_right (Nat.le_add_right _ _),
        Nat.add_sub_cancel_left]
      exact hi
    obtain ⟨hrun, hpid, hread⟩ := h.turn (Nat.le_add_right _ i) hasked hr
    rw [r.killed]
    refine ⟨id, mem_sift.mpr ⟨i, hi, (isSameProcess_iff ht _ _).mpr ⟨hrun, hread⟩⟩, ?_⟩
    rw [rawTarget, if_pos (.inl hpid)]

private theorem Remembers.heeded (ht : m.Truthful running)
    (hn : (ids.map ProcessIdentity.pid).Nodup) (h : Remembers m running termWait killWait ids) :
    Heeded m running termWait killWait ids := by
  obtain ⟨grace, last, r⟩ := m.exists_rounds termWait killWait ids
  have hnodup : ids.Nodup := hn.of_map
  have hafter := hnodup.sublist r.sifted.sublist
  -- What was sent SIGKILL was left by the first wait and passed its question after it.
  have hsent {id : ProcessIdentity} (hid : id ∈ ids)
      (hr : running (m.firstGrace termWait ids {}).2.asked.length id) :
      id ∈ sift m.isSameProcess (m.firstGrace termWait ids {}).2.asked.length
        (m.firstGrace termWait ids {}).1 ∧ 1 < id.pid := by
    obtain ⟨other, ho, hp⟩ := (r.killed id.pid).mp (h.2 id hid hr)
    rw [rawTarget] at hp
    split at hp
    · next hone =>
      have hpid := Option.some.inj hp
      have hmem := r.sifted.sublist.subset ((sift_sublist _ _).subset ho)
      rw [List.inj_on_of_nodup_map hn hmem hid hpid] at ho hone
      exact ⟨ho, hone.resolve_right fun hs ↦ absurd hs.2 (by decide)⟩
    · cases hp
  have hgraced {n : Nat} {id : ProcessIdentity} (hn : ids.length ≤ n)
      (ha : (m.firstGrace termWait ids {}).2.asked[n]? = some id) :
      grace[n - ids.length]? = some id := by
    rwa [r.graced, List.getElem?_append_right hn] at ha
  constructor
  · intro n id hle ha hr
    rw [r.termed] at hle
    have hi := hgraced hle ha
    have hid := r.sifted.asked_subset (List.mem_of_getElem? hi)
    have hmem := (sift_sublist _ _).subset (hsent hid hr).1
    have htest := r.sifted.test_of_mem hnodup hmem hi
    rw [Nat.add_sub_cancel' hle] at htest
    exact ((isSameProcess_iff ht n id).mp htest).2
  · intro n id hle ha hr
    rw [r.killRound, ← r.graced, List.getElem?_append_right hle] at ha
    have hid := r.sifted.sublist.subset (List.mem_of_getElem? ha)
    obtain ⟨hmem, hpid⟩ := hsent hid hr
    have htest := test_of_mem_sift hafter hmem ha
    rw [Nat.add_sub_cancel' hle] at htest
    obtain ⟨hrun, hread⟩ := (isSameProcess_iff ht n id).mp htest
    exact ⟨hrun, hpid, hread⟩
  · intro n id hle ha hr
    rw [r.asked, List.getElem?_append_right hle] at ha
    have hid := r.sifted.sublist.subset (r.result.asked_subset (List.mem_of_getElem? ha))
    have htest := r.result.test_of_mem hafter (h.1 id hid hr) ha
    rw [Nat.add_sub_cancel' hle] at htest
    exact ((isSameProcess_iff ht n id).mp htest).2

end

/-- A termination forgets no survivor when its questions about it are heeded, and of identities of
different processes it forgets none exactly then. -/
theorem remembers_iff_heeded (running : Nat → ProcessIdentity → Prop) (ht : m.Truthful running)
    (termWait killWait : Nat) (ids : List ProcessIdentity) :
    (Heeded m running termWait killWait ids → Remembers m running termWait killWait ids) ∧
    ((ids.map ProcessIdentity.pid).Nodup →
      (Remembers m running termWait killWait ids ↔ Heeded m running termWait killWait ids)) :=
  ⟨Heeded.remembers ht, fun hn ↦ ⟨Remembers.heeded ht hn, Heeded.remembers ht⟩⟩

/-- A machine with one process, the reads of which are lost at some questions. -/
def alone (row : Row) (lost : Nat → Bool) : Machine where
  read n pid := if lost n then .unknown .tableUnreadable
    else if pid = row.pid then .known row else .notPresent
  accepts _ _ _ := true
  elapsed _ := 1000

private theorem alone_truthful (row : Row) (lost : Nat → Bool) (identity : List Char)
    (hpid : 0 < row.pid) (hz : row.isZombie = false) (hi : row.identity = some identity) :
    (alone row lost).Truthful fun _ id ↦ id.pid = row.pid ∧ id.identity = identity := by
  have hprocess (n : Nat) (pid : Int32) : (alone row lost).process n pid =
      if pid ≤ 0 then .notPresent else if lost n then .unknown .tableUnreadable
        else if pid = row.pid then .known row else .notPresent := rfl
  have hpos {id : ProcessIdentity} (h : id.pid = row.pid) : ¬id.pid ≤ 0 := by
    rw [h]
    exact Int32.not_le.mpr hpid
  constructor
  · exact fun _ h ↦ h
  · intro n id row' x hp hx
    rw [hprocess] at hp
    split at hp
    · cases hp
    · split at hp
      · cases hp
      · split at hp
        · next h =>
          cases hp
          rw [hi] at hx
          cases hx
          simp [h, hz, eq_comm]
        · cases hp
  · intro n id hp hr
    rw [hprocess, if_neg (hpos hr.1), if_pos hr.1] at hp
    split at hp <;> cases hp

/-- A process that outlives both signals is returned and was sent SIGKILL. -/
theorem remembers_iff_heeded_alone :
    Remembers (alone ⟨7, 1, 7, ['S'], none, some ['t']⟩ fun _ ↦ false)
      (fun _ id ↦ id.pid = 7 ∧ id.identity = ['t']) 1500000000 500000000 [⟨7, ['t'], 1⟩] := by
  have ht := alone_truthful ⟨7, 1, 7, ['S'], none, some ['t']⟩ (fun _ ↦ false) ['t'] (by decide)
    rfl rfl
  refine (remembers_iff_heeded _ _ ht 1500000000 500000000 [⟨7, ['t'], 1⟩]).1 ?_
  have hread {n : Nat} {id : ProcessIdentity} (h : id.pid = 7) :
      ¬Failed ((alone ⟨7, 1, 7, ['S'], none, some ['t']⟩ fun _ ↦ false).process n id.pid) := by
    rw [h]
    exact Option.some_ne_none _
  constructor
  · exact fun _ _ hr ↦ hread hr.1
  · exact fun _ _ hr ↦ ⟨hr, by rw [hr.1]; decide, hread hr.1⟩
  · exact fun _ _ hr ↦ hread hr.1

/-- One lost read in the first wait, and a process that runs on is neither sent SIGKILL nor
returned. -/
theorem remembers_refuted :
    ¬∀ (m : Machine) (running : Nat → ProcessIdentity → Prop), m.Truthful running →
      ∀ (termWait killWait : Nat) (ids : List ProcessIdentity),
        Remembers m running termWait killWait ids := by
  intro h
  have ht := alone_truthful ⟨7, 1, 7, ['S'], none, some ['t']⟩ (fun n ↦ n == 1) ['t'] (by decide)
    rfl rfl
  have hr := (h _ _ ht 1500000000 500000000 [⟨7, ['t'], 1⟩]).1 ⟨7, ['t'], 1⟩
    List.mem_cons_self ⟨rfl, rfl⟩
  have hgrace : ((alone ⟨7, 1, 7, ['S'], none, some ['t']⟩ fun n ↦ n == 1).firstGrace 1500000000
      [⟨7, ['t'], 1⟩] {}).1 = [] := by
    rw [firstGrace, waitForIdentitiesToExit, retainSame_eq]
    exact congrArg Prod.fst (poll_nil _ _ _)
  rw [terminate_gone _ _ (List.cons_ne_nil _ _) hgrace] at hr
  cases hr

end Machine
end PtySpec.Proc
