import PtySpec.Daemon.Main
import PtySpec.Operation.Launcher
import PtySpec.Operation.Recovery

/-!
# The record and everyone who writes it

One operation's record, with any number of launchers, daemons and recoveries at work on
it. Their programs are interleaved one interaction at a time; a writer holds the
operation's exclusive lock throughout `write_cas_as`, so a write is one step, in which
every system call may fail. A process that dies is a program that never goes on. The
system also has the held children and their gates, on which the release byte travels.
-/

namespace PtySpec.System

open Lib Operation Daemon

/-- The release byte, `held.rs:41`. -/
def RELEASE : UInt8 := 82

/-- What a read of one byte from the gate gives, `held.rs:481`. -/
inductive GateRead where
  | byte (b : UInt8)
  | interrupted
  | closed
  deriving DecidableEq, Repr

/-- A held child: it waits at its gate, runs the user's command, or has exited without. -/
inductive HeldChild where
  | held (gate : Nat)
  | executing (gate : Nat)
  | notReleased (gate : Nat)
  deriving DecidableEq, Repr

/-- One turn of the loop in which the child is held until released, `held.rs:480`. -/
def HeldChild.turn (gate : Nat) : GateRead → HeldChild
  | .byte b => if b = RELEASE then .executing gate else .notReleased gate
  | .interrupted => .held gate
  | .closed => .notReleased gate

/-- Who takes part: each is a program that may become an actor waiting for events. -/
inductive Role where
  | launcher (name digest : String)
  | daemon (digest : String)
  | recovery (request : Recovery.Request)

/-- The program of a participant, for a hash of operation ids. -/
def Role.program (operationDigest : String → String) : Role → Act (Option Actor)
  | launcher name digest => do
    let _ ← Launcher.launch operationDigest name digest
    return none
  | daemon digest => do
    match ← main operationDigest digest with
    | .error _ => return none
    | .ok a => return some (← a.start)
  | recovery request => do
    let _ ← Recovery.retire request
    return none

/-- What of a run is remembered, with the number of the thread that did it. -/
inductive Entry where
  | wrote (thread : Nat) (record : OperationRecord)
  | released (thread gate : Nat)

/-- The system: the record's files, the versions its name has held and what was done,
both newest first, the threads, the bytes under way to the children, and the children. -/
structure Sys where
  dir : StoreDir
  versions : List OperationRecord
  log : List Entry
  threads : List (Thread Op Op.Ans Ghost (Option Actor))
  gates : Nat → List UInt8
  children : List HeldChild

namespace Sys

/-- Before any reservation; a file left by an interrupted reservation may exist. -/
def Init (s : Sys) : Prop :=
  s.dir.record = .absent ∧ s.versions = [] ∧ s.log = [] ∧ s.threads = [] ∧
    (∀ g, s.gates g = []) ∧ s.children = []

/-- The versions once the record's name holds `file`. -/
def seen (file : RecordFile) (versions : List OperationRecord) : List OperationRecord :=
  match file with
  | .text (.ok r) => if versions.head? = some r then versions else r :: versions
  | _ => versions

/-- After a write by a thread: the files are as it left them, and a success is remembered. -/
def land (s : Sys) (i : Nat) (result : Except WriteError OperationRecord × StoreDir) : Sys :=
  { s with
    dir := result.2
    versions := seen result.2.record s.versions
    log := match result.1 with
      | .ok w => .wrote i w :: s.log
      | .error _ => s.log }

/-- `held::release`, `held.rs:552`: tried by a thread, and whether the byte was written. -/
def release (s : Sys) (i gate : Nat) (written : Bool) : Sys :=
  { s with
    log := .released i gate :: s.log
    gates := fun g ↦ if written ∧ g = gate then s.gates g ++ [RELEASE] else s.gates g }

/-- How the surroundings may answer a thread, and what becomes of them. -/
def Serves (path : String) (s : Sys) (i : Nat) : (o : Op) → o.Ans → Sys → Prop
  | .writeCas expected next label, answer, s' => ∃ io,
    answer = (writeCasAs io path s.dir expected next label).1 ∧
      s' = s.land i (writeCasAs io path s.dir expected next label)
  | .readRecord, answer, s' => (∃ io, answer = readRecord io path s.dir.record) ∧ s' = s
  | .release gate, written, s' => s' = s.release i gate written
  | _, _, s' => s' = s

/-- Thread `i` goes on as `t`. -/
def goOn (s : Sys) (i : Nat) (t : Thread Op Op.Ans Ghost (Option Actor)) : Sys :=
  { s with threads := s.threads.set i t }

/-- One step of the system. -/
inductive Step (operationDigest : String → String) (path : String) : Sys → Sys → Prop where
  | reserve (s : Sys) (io : Io) (envelope : Envelope) (now : String) :
    Step operationDigest path s
      { s with
        dir := (createExclusive io s.dir (.reserved envelope now)).2
        versions := seen (createExclusive io s.dir (.reserved envelope now)).2.record s.versions }
  | join (s : Sys) (role : Role) :
    Step operationDigest path s
      { s with threads := s.threads ++ [⟨{}, role.program operationDigest⟩] }
  | answer (s s' : Sys) (i : Nat) (m : Ghost) (o : Op) (k : o.Ans → Act (Option Actor))
      (r : o.Ans) (ht : s.threads[i]? = some ⟨m, .ask o k⟩) (hr : s.Serves path i o r s') :
    Step operationDigest path s (s'.goOn i ⟨m.next o r, k r⟩)
  | event (s : Sys) (i : Nat) (m : Ghost) (a : Actor) (e : ActorEvent)
      (ht : s.threads[i]? = some ⟨m, .ret (some a)⟩) (hs : a.stage ≠ .done) :
    Step operationDigest path s
      (s.goOn i ⟨receive m e, do return some (← a.onEvent e)⟩)
  | fork (s : Sys) (gate : Nat) :
    Step operationDigest path s { s with children := s.children ++ [.held gate] }
  | childReads (s : Sys) (j gate : Nat) (b : UInt8) (rest : List UInt8)
      (hc : s.children[j]? = some (.held gate)) (hb : s.gates gate = b :: rest) :
    Step operationDigest path s
      { s with
        children := s.children.set j (.turn gate (.byte b))
        gates := fun g ↦ if g = gate then rest else s.gates g }
  | childWaits (s : Sys) (j gate : Nat) (read : GateRead)
      (hc : s.children[j]? = some (.held gate)) (hr : ∀ b, read ≠ .byte b) :
    Step operationDigest path s { s with children := s.children.set j (.turn gate read) }

end Sys

/-- The states some interleaving of the participants reaches. -/
abbrev Reached (operationDigest : String → String) (path : String) (s : Sys) : Prop :=
  Reachable Sys.Init (Sys.Step operationDigest path) s

/-! ### The record's history -/

/-- The record's name holds the newest version, and nothing before the first. -/
def Holds (file : RecordFile) : List OperationRecord → Prop
  | [] => file = .absent
  | r :: _ => file = .text (.ok r)

/-- The versions are sound: the newest is on disk, each passes the check and follows the
one before it. -/
structure Sound (file : RecordFile) (versions : List OperationRecord) : Prop where
  holds : Holds file versions
  checked : ∀ v ∈ versions, v.check = .ok ()
  follows : versions.IsChain Follows

namespace Sound

variable {file : RecordFile} {versions : List OperationRecord}

/-- Nothing new is seen while the name holds the newest version. -/
theorem seen_eq (h : Holds file versions) : Sys.seen file versions = versions := by
  cases versions with
  | nil => simp_all [Holds, Sys.seen]
  | cons r rest => simp_all [Holds, Sys.seen]

/-- The newest version is what a reader gets. -/
theorem head_of_read (h : Sound file versions) {io : Io} {path : String} {r : OperationRecord}
    (hr : readRecord io path file = .ok (some r)) : versions.head? = some r := by
  obtain ⟨-, hf, -, -⟩ := readRecord_eq_some hr
  cases versions with
  | nil =>
    have := h.holds
    simp [Holds, hf] at this
  | cons v rest =>
    have := h.holds
    simp only [Holds, hf, RecordFile.text.injEq, Except.ok.injEq] at this
    simp [this]

/-- A version that follows the newest one makes a longer history. -/
theorem push (h : Sound file versions) {r n : OperationRecord} (hr : versions.head? = some r)
    (hn : Follows n r) (hc : n.check = .ok ()) :
    Sound (.text (.ok n)) (n :: versions) where
  holds := rfl
  checked := by
    intro v hv
    rcases List.mem_cons.mp hv with rfl | hv
    · exact hc
    · exact h.checked v hv
  follows := by
    cases versions with
    | nil => cases hr
    | cons v rest =>
      cases hr
      exact List.isChain_cons_cons.mpr ⟨hn, h.follows⟩

/-- What one write leaves: the history it found, or one version more. -/
theorem write (h : Sound file versions) (dir : StoreDir) (hd : dir.record = file) (io : Io)
    (path : String) {expected next : OperationRecord} (label : String)
    (hm : next.check = .ok () → Move expected next) :
    Sound (writeCasAs io path dir expected next label).2.record
        (Sys.seen (writeCasAs io path dir expected next label).2.record versions) ∧
      versions <:+ Sys.seen (writeCasAs io path dir expected next label).2.record versions ∧
      ∀ w, (writeCasAs io path dir expected next label).1 = .ok w →
        next.check = .ok () ∧ w = next.stamped expected io.now ∧
          w ∈ Sys.seen (writeCasAs io path dir expected next label).2.record versions := by
  subst hd
  rcases writeCasAs_cases io path dir expected next label with
    ⟨e, dir', hw, hd, -⟩ | ⟨hr, hd, hw⟩
  · rw [hw]
    simp only [hd, seen_eq h.holds]
    exact ⟨h, List.suffix_refl _, fun w hw ↦ by cases hw⟩
  · have hhead := h.head_of_read hr.current
    have hne : versions.head? ≠ some (next.stamped expected io.now) := by
      rw [hhead]
      intro heq
      have := congrArg OperationRecord.revision (Option.some.inj heq)
      simp [OperationRecord.stamped] at this
    have hseen : Sys.seen (.text (.ok (next.stamped expected io.now))) versions =
        next.stamped expected io.now :: versions := by
      simp [Sys.seen, hne]
    rw [hd, hseen]
    refine ⟨h.push hhead ⟨rfl, (hm hr.checked).stamped _⟩ hr.checked, List.suffix_cons _ _, ?_⟩
    intro w hok
    rw [hw] at hok
    split at hok
    · cases hok
    · cases hok
      exact ⟨hr.checked, rfl, List.mem_cons_self⟩

/-- A reservation is the first version, or changes nothing. -/
theorem reserve (h : Sound file versions) (dir : StoreDir) (hd : dir.record = file) (io : Io)
    (envelope : Envelope) (now : String) :
    Sound (createExclusive io dir (.reserved envelope now)).2.record
        (Sys.seen (createExclusive io dir (.reserved envelope now)).2.record versions) ∧
      versions <:+
        Sys.seen (createExclusive io dir (.reserved envelope now)).2.record versions := by
  subst hd
  rcases createExclusive_cases io dir (.reserved envelope now) with hd | ⟨ha, hd⟩
  · rw [hd, seen_eq h.holds]
    exact ⟨h, List.suffix_refl _⟩
  · cases versions with
    | nil =>
      rw [hd]
      refine ⟨⟨rfl, ?_, .singleton _⟩, List.nil_suffix⟩
      simpa [Sys.seen] using OperationRecord.check_reserved envelope now
    | cons v rest =>
      have := h.holds
      simp [Holds, ha] at this

end Sound

/-! ### The invariant -/

/-- What a participant's program ends with: nothing, or an actor between two events. -/
def Post (m : Ghost) (result : Option Actor) : Prop := ∀ a, result = some a → a.Settled m

/-- What every reached state satisfies of the record and its writers. -/
structure Inv (s : Sys) : Prop where
  record : Sound s.dir.record s.versions
  threads : ∀ t ∈ s.threads, t.Keeps duty Post

/-- Every participant starts its program with the contract ahead of it. -/
theorem program_keeps (operationDigest : String → String) (role : Role) :
    (role.program operationDigest).Keeps duty {} Post := by
  have hnone : ∀ m, (pure none : Act (Option Actor)).Keeps duty m Post := by simp [Post]
  cases role with
  | launcher name digest =>
    exact (Launcher.keeps_launch operationDigest rfl).seq fun m _ _ ↦ hnone m
  | recovery request => exact (Recovery.keeps_retire rfl).seq fun m _ _ ↦ hnone m
  | daemon digest =>
    refine keeps_main.seq fun m r hr ↦ ?_
    cases r with
    | error code => exact hnone m
    | ok a =>
      obtain ⟨-, hs, hi⟩ := hr a rfl
      refine (Actor.start_keeps hi hs).seq fun m' a' ha' ↦ Prog.keeps_pure.mpr fun b hb ↦ ?_
      cases hb
      exact ha'

/-- The answers of the system are those a program may rely on. -/
theorem Inv.mayAnswer {s s' : Sys} (h : Inv s) {path : String} {i : Nat} {m : Ghost} {o : Op}
    {r : o.Ans} (hask : mayAsk m o) (hr : s.Serves path i o r s') : mayAnswer o r := by
  cases o with
  | writeCas expected next label =>
    obtain ⟨io, rfl, -⟩ := hr
    intro w hw
    obtain ⟨hc, hw, -⟩ := (h.record.write s.dir rfl io path label hask.1).2.2 w hw
    exact ⟨hc, io.now, hw⟩
  | readRecord =>
    obtain ⟨⟨io, rfl⟩, -⟩ := hr
    intro v hv
    exact (readRecord_eq_some hv).2.2.2
  | _ => trivial

/-- Serving an interaction keeps the history sound and no version is lost. -/
theorem Inv.serves {s s' : Sys} (h : Inv s) {path : String} {i : Nat} {m : Ghost} {o : Op}
    {r : o.Ans} (hask : mayAsk m o) (hr : s.Serves path i o r s') :
    Sound s'.dir.record s'.versions ∧ s.versions <:+ s'.versions ∧ s'.threads = s.threads := by
  have hsame : Sound s.dir.record s.versions ∧ s.versions <:+ s.versions ∧ s.threads = s.threads :=
    ⟨h.record, List.suffix_refl _, rfl⟩
  cases o with
  | writeCas expected next label =>
    obtain ⟨io, -, rfl⟩ := hr
    obtain ⟨hs, hv, -⟩ := h.record.write s.dir rfl io path label hask.1
    exact ⟨hs, hv, rfl⟩
  | readRecord =>
    obtain ⟨-, rfl⟩ := hr
    exact hsame
  | release gate =>
    cases hr
    exact hsame
  | _ =>
    cases hr
    exact hsame

/-- A thread that keeps its contract may take another's place. -/
theorem Inv.goOn {s : Sys} (h : Inv s) {i : Nat} {t : Thread Op Op.Ans Ghost (Option Actor)}
    (ht : t.Keeps duty Post) : Inv (s.goOn i t) where
  record := h.record
  threads := by
    intro u hu
    rcases List.mem_or_eq_of_mem_set hu with hu | rfl
    · exact h.threads u hu
    · exact ht

/-- Every step keeps the invariant and loses no version. -/
theorem Inv.step {operationDigest : String → String} {path : String} {s t : Sys} (h : Inv s)
    (hs : Sys.Step operationDigest path s t) : Inv t ∧ s.versions <:+ t.versions := by
  cases hs with
  | reserve io envelope now =>
    obtain ⟨hr, hv⟩ := h.record.reserve s.dir rfl io envelope now
    exact ⟨⟨hr, h.threads⟩, hv⟩
  | join role =>
    refine ⟨⟨h.record, fun t ht ↦ ?_⟩, List.suffix_refl _⟩
    rcases List.mem_append.mp ht with ht | ht
    · exact h.threads t ht
    · rw [List.mem_singleton.mp ht]
      exact program_keeps operationDigest role
  | answer s' i m o k r ht hr =>
    have hk := h.threads _ (List.mem_of_getElem? ht)
    obtain ⟨hrec, hv, hthreads⟩ := h.serves hk.1 hr
    have h' : Inv s' := ⟨hrec, hthreads ▸ h.threads⟩
    exact ⟨h'.goOn (hk.2 r (h.mayAnswer hk.1 hr)), hv⟩
  | event i m a e ht hd =>
    have hk := h.threads _ (List.mem_of_getElem? ht)
    refine ⟨h.goOn ?_, List.suffix_refl _⟩
    obtain ⟨-, hi⟩ | ⟨hdone, -⟩ := hk a rfl
    · refine (Actor.onEvent_keeps hi hd e).seq fun m' a' ha' ↦ Prog.keeps_pure.mpr fun b hb ↦ ?_
      cases hb
      exact ha'.1
    · exact absurd hdone hd
  | fork gate => exact ⟨⟨h.record, h.threads⟩, List.suffix_refl _⟩
  | childReads j gate b rest hc hb => exact ⟨⟨h.record, h.threads⟩, List.suffix_refl _⟩
  | childWaits j gate read hc hr => exact ⟨⟨h.record, h.threads⟩, List.suffix_refl _⟩

/-- Every reached state satisfies the invariant. -/
theorem inv_of_reached {operationDigest : String → String} {path : String} {s : Sys}
    (h : Reached operationDigest path s) : Inv s := by
  refine h.induct (fun s hs ↦ ?_) fun s t _ hi hs ↦ (hi.step hs).1
  obtain ⟨hd, hv, -, ht, -, -⟩ := hs
  refine ⟨⟨?_, ?_, ?_⟩, ?_⟩
  · rw [hv]
    exact hd
  · simp [hv]
  · rw [hv]
    exact .nil
  · simp [ht]

/-- Of any two versions the newer keeps what the older one settled. -/
theorem Sound.pairwise {file : RecordFile} {versions : List OperationRecord}
    (h : Sound file versions) : versions.Pairwise fun newer older ↦ Kept older newer := by
  have : Trans (fun newer older ↦ Kept older newer) (fun newer older ↦ Kept older newer)
      (fun newer older ↦ Kept older newer) := ⟨fun h k ↦ k.trans h⟩
  exact (h.follows.imp fun _ _ hf ↦ hf.move.kept).pairwise

/-- In every run, every version that reaches the disk passes the check, is numbered one
more than the one it replaces and lies one edge further at most; the operation, its
envelope, an ended state, the decision and the incarnation's identity stay as they are. -/
theorem versions_of_reached (operationDigest : String → String) (path : String) (s : Sys)
    (h : Reached operationDigest path s) :
    Holds s.dir.record s.versions ∧ (∀ v ∈ s.versions, v.check = .ok ()) ∧
      (s.versions.IsChain fun newer older ↦
        newer.revision = older.revision + 1 ∧ older.state.Edge newer.state) ∧
      s.versions.Pairwise fun newer older ↦ Kept older newer := by
  have hi := (inv_of_reached h).record
  refine ⟨hi.holds, hi.checked, ?_, hi.pairwise⟩
  exact hi.follows.imp fun newer older hf ↦ ⟨hf.revision, hf.move.state⟩

/-- No reservation and nobody at work. -/
def Sys.empty : Sys := ⟨⟨.absent, none⟩, [], [], [], fun _ ↦ [], []⟩

/-- The record of a reservation that recovery withdrew. -/
def recoveredRecord : OperationRecord :=
  { OperationRecord.reserved ⟨"sha", .null, "op", "rt", none⟩ "t4" with
    revision := 3
    state := .cancelled
    decision := some ⟨.withdrawn, "t3", some "r1", none⟩
    retirement := some ⟨"r1", .verified, .object []⟩ }

/-- Recovery of a fresh reservation, step by step. -/
theorem recovered_reached : ∃ s, Reached id "op.json" s ∧
    s.dir.record = .text (.ok recoveredRecord) ∧
    s.versions.map (fun v ↦ (v.revision, v.state)) =
      [(3, .cancelled), (2, .reserved), (1, .reserved)] := by
  have h₀ : Reached id "op.json" Sys.empty := .base ⟨rfl, rfl, rfl, rfl, fun _ ↦ rfl, rfl⟩
  have h₁ := h₀.tail (.reserve _ (.quiet "t0") ⟨"sha", .null, "op", "rt", none⟩ "t0")
  have h₂ := h₁.tail (.join _ (.recovery ⟨"op", "sha", "r1", none, "op.json"⟩))
  have h₃ := h₂.tail (.answer _ _ 0 _ (.env .lockExclusive) _ ExclusiveLock.taken rfl rfl)
  have h₄ := h₃.tail (.answer _ _ 0 _ .readRecord _ _ rfl ⟨⟨.quiet "t1", rfl⟩, rfl⟩)
  have h₅ := h₄.tail (.answer _ _ 0 _ (.env .bootIdentity) _ (some "boot") rfl rfl)
  have h₆ := h₅.tail (.answer _ _ 0 _ (.env .procTable) _ ProcTable.unreadable rfl rfl)
  have h₇ := h₆.tail (.answer _ _ 0 _ (.env .current) _ (.ok ⟨7, "1:0", "boot", 501⟩) rfl rfl)
  have h₈ := h₇.tail (.answer _ _ 0 _ (.writeCas _ _ _) _ _ rfl ⟨.quiet "t2", rfl, rfl⟩)
  have h₉ := h₈.tail (.answer _ _ 0 _ (.env .now) _ "t3" rfl rfl)
  have h₁₀ := h₉.tail (.answer _ _ 0 _ (.writeCas _ _ _) _ _ rfl ⟨.quiet "t4", rfl, rfl⟩)
  exact ⟨_, h₁₀, rfl, rfl⟩

/-- The three versions of a recovered reservation. -/
theorem versions_of_reached_recovered : ∃ s, Reached id "op.json" s ∧
    s.versions.map (fun v ↦ (v.revision, v.state)) =
      [(3, .cancelled), (2, .reserved), (1, .reserved)] ∧
    s.versions.Pairwise fun newer older ↦ Kept older newer := by
  obtain ⟨s, hs, -, hv⟩ := recovered_reached
  exact ⟨s, hs, hv, (versions_of_reached id "op.json" s hs).2.2.2⟩

end PtySpec.System
