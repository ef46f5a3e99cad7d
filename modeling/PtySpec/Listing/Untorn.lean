import PtySpec.Listing.Keyed
import PtySpec.Listing.Namespace

/-!
# The keyed reader under change

A session's files and the process table over time, while other processes create, replace and
remove the files and processes come and go, and the calls of the keyed reader in between. What
it finds was read from files that were all there together, and it does not take a session for
lost that is there.
-/

namespace PtySpec.Listing

open Lib
open Registry (Text Host join readableSocket boundedSocket byteLen)
open Metadata (SessionMetadata)

/-! ### Files and processes over time -/

/-- A file under a name: since when it is there, and what it is. A socket has no bytes. -/
structure Placed where
  since : Nat
  file : CompanionFile
  deriving DecidableEq, Repr

/-- A process: its birth identity, and whether it leads its thread group. -/
structure LiveProcess where
  identity : String
  leader : Bool

/-- The files of the registry and the processes at each moment, and the boot id. A file that is
under a name has been there since it was put there. -/
structure History where
  files : Nat → Text → Option Placed
  processes : Nat → Int32 → Option LiveProcess
  bootId : Option String
  placed : ∀ t f p, files t f = some p →
    p.since ≤ t ∧ ∀ m, p.since ≤ m → m ≤ t → files m f = some p

/-- The files of a session. -/
def keyedFiles (host : Host) (name : Text) : List Text :=
  [name ++ ".json".toList, name ++ ".pid".toList, readableSocket name, boundedSocket host name]

/-- Two files differ in inode or content. -/
def Differ (a b : CompanionFile) : Prop :=
  a.stamp.inode ≠ b.stamp.inode ∨ a.bytes ≠ b.bytes

namespace History

variable (h : History)

/-- A file differs from the one that was there before it. -/
def Adjacent (files : List Text) (start stop : Nat) : Prop :=
  ∀ f ∈ files, ∀ t u p q, start ≤ t → t ≤ u → u ≤ stop → h.files t f = some p →
    h.files u f = some q → p.since < q.since →
      (∀ m, t ≤ m → m < q.since → h.files m f = some p ∨ h.files m f = none) →
        Differ p.file q.file

/-- A file differs from all that were there before it. -/
def Distinct (files : List Text) (start stop : Nat) : Prop :=
  ∀ f ∈ files, ∀ t u p q, start ≤ t → t ≤ u → u ≤ stop → h.files t f = some p →
    h.files u f = some q → p.since < q.since → Differ p.file q.file

end History

/-! ### The moments of a call -/

/-- When the reads of an attempt are made. A process's identity and its thread group are read
one after the other. -/
structure Moments where
  metadata₁ : Nat
  pid₁ : Nat
  readable₁ : Nat
  bounded₁ : Nat
  process₁ : Nat
  leader₁ : Nat
  metadata₂ : Nat
  pid₂ : Nat
  readable₂ : Nat
  bounded₂ : Nat
  process₂ : Nat
  leader₂ : Nat

/-- The reads are in their order, between two moments. -/
def Moments.Ordered (start stop : Nat) (m : Moments) : Prop :=
  [start, m.metadata₁, m.pid₁, m.readable₁, m.bounded₁, m.process₁, m.leader₁, m.metadata₂,
    m.pid₂, m.readable₂, m.bounded₂, m.process₂, m.leader₂, stop].Pairwise (· ≤ ·)

/-- What opening and reading a file answers, if it is not an error. -/
def ReadsFile (h : History) (t : Nat) (f : Text) (answer : Keyed (Option CompanionFile)) :
    Prop :=
  ∀ c, answer = .ok c → c = (h.files t f).map (·.file)

/-- What the status of a socket answers, if it is not an error. -/
def StatsSocket (h : History) (t : Nat) (f : Text) (answer : Keyed (Option Stamp)) : Prop :=
  ∀ s, answer = .ok s → (h.files t f).map (·.file) = s.map fun stamp ↦ ⟨stamp, []⟩

/-- What a read of a process answers, if it is not an error. -/
def ReadsProcess (h : History) (t u : Nat) (answer : Int32 → Keyed (Option ProcessEvidence)) :
    Prop :=
  ∀ pid e, answer pid = .ok e →
    match e with
    | none => h.processes t pid = none
    | some e => (∃ p, h.processes t pid = some p ∧ e.liveIdentity = p.identity) ∧
      ∃ p, h.processes u pid = some p ∧ e.leader = p.leader

/-- The accesses of an attempt answer what is there at their moments. -/
structure Answered (h : History) (host : Host) (name : Text) (a : Accesses) (m : Moments) :
    Prop where
  metadata₁ : ReadsFile h m.metadata₁ (name ++ ".json".toList) a.first.metadata
  pid₁ : ReadsFile h m.pid₁ (name ++ ".pid".toList) a.first.pid
  readable₁ : StatsSocket h m.readable₁ (readableSocket name) a.first.readableSocket
  bounded₁ : StatsSocket h m.bounded₁ (boundedSocket host name) a.first.boundedSocket
  process₁ : ReadsProcess h m.process₁ m.leader₁ a.processFirst
  bootId : ∀ id, a.bootId = some id → h.bootId = some id
  metadata₂ : ReadsFile h m.metadata₂ (name ++ ".json".toList) a.second.metadata
  pid₂ : ReadsFile h m.pid₂ (name ++ ".pid".toList) a.second.pid
  readable₂ : StatsSocket h m.readable₂ (readableSocket name) a.second.readableSocket
  bounded₂ : StatsSocket h m.bounded₂ (boundedSocket host name) a.second.boundedSocket
  process₂ : ReadsProcess h m.process₂ m.leader₂ a.processSecond

/-- Attempts one after the other, between two moments. -/
inductive Attempts (h : History) (host : Host) (name : Text) :
    Nat → List (Accesses × Moments) → Nat → Prop
  | nil {start stop : Nat} (hs : start ≤ stop) : Attempts h host name start [] stop
  | cons {start middle stop : Nat} {a : Accesses} {m : Moments}
      {rest : List (Accesses × Moments)} (ho : m.Ordered start middle)
      (ha : Answered h host name a m) (hr : Attempts h host name middle rest stop) :
    Attempts h host name start ((a, m) :: rest) stop

/-- A call between two moments: the root is opened, and there is no file without it. -/
structure KeyedCall (h : History) (host : Host) (name : Text) (start stop : Nat)
    (opened : Keyed (Option Unit)) (attempts : List (Accesses × Moments)) : Prop where
  opening : opened = .ok none → ∃ t, start ≤ t ∧ t ≤ stop ∧ ∀ f, h.files t f = none
  attempts : Attempts h host name start attempts stop

/-! ### What an attempt finds -/

theorem bind_eq_ok {α β : Type} {x : Keyed α} {f : α → Keyed β} {b : β} :
    x >>= f = .ok b ↔ ∃ a, x = .ok a ∧ f a = .ok b := by
  cases x with
  | error e => exact ⟨fun h ↦ (nomatch h), fun ⟨a, ha, _⟩ ↦ (nomatch ha)⟩
  | ok a => exact ⟨fun h ↦ ⟨a, rfl, h⟩, fun ⟨_, ha, h⟩ ↦ by cases ha; exact h⟩

theorem ensure_eq_ok {p : Prop} [Decidable p] {e : KeyedSessionError} {u : Unit} :
    ensure p e = .ok u ↔ p := by
  unfold ensure
  split
  · next h => exact ⟨fun _ ↦ h, fun _ ↦ rfl⟩
  · next h => exact ⟨fun he ↦ (nomatch he), fun hp ↦ absurd hp h⟩

/-- What a capture is made of. -/
theorem capture_eq_ok {look : Look} {c : Capture} (h : capture look = .ok c) :
    look.metadata = .ok c.metadata ∧ look.pid = .ok c.pid ∧
      look.readableSocket = .ok c.readableSocket ∧ look.boundedSocket = .ok c.boundedSocket := by
  unfold capture at h
  obtain ⟨m, hm, h⟩ := bind_eq_ok.mp h
  obtain ⟨p, hp, h⟩ := bind_eq_ok.mp h
  obtain ⟨r, hr, h⟩ := bind_eq_ok.mp h
  obtain ⟨b, hb, h⟩ := bind_eq_ok.mp h
  cases h
  exact ⟨hm, hp, hr, hb⟩

/-- A confirmed capture is what the second one finds, and so is the process. -/
theorem confirm_eq_ok {root : Text} {a : Accesses} {c : Capture} {pid : Option Int32}
    {process : Option ProcessEvidence} (h : confirm root a c pid process = .ok ()) :
    capture a.second = .ok c ∧ ∀ d, pid = some d → a.processSecond d = .ok process := by
  unfold confirm at h
  obtain ⟨second, hs, h₁⟩ := bind_eq_ok.mp h
  obtain ⟨_, hc, h₂⟩ := bind_eq_ok.mp h₁
  obtain rfl := ensure_eq_ok.mp hc
  obtain ⟨again, ha, h₃⟩ := bind_eq_ok.mp h₂
  obtain rfl := ensure_eq_ok.mp h₃
  refine ⟨hs, ?_⟩
  rintro d rfl
  exact ha

variable {host : Host} {readers : Readers} {root name : Text} {a : Accesses}

/-- What the evidence of a capture says: `sidecar` and `pid` are the PIDs that the PID file and
both files name. -/
structure Concluded (host : Host) (readers : Readers) (root name : Text) (a : Accesses)
    (socketName socketPath : Text) (c : Capture) (info : SessionInfo) (pid : Option Int32)
    (process : Option ProcessEvidence) (sidecar : Option Int32) : Prop where
  parsed : parseMetadata readers (join root (name ++ ".json".toList)) c.metadata =
    .ok info.metadata
  pidParsed : parsePid readers (join root (name ++ ".pid".toList)) c.pid = .ok sidecar
  named : namedPid (join root (name ++ ".pid".toList)) info.metadata sidecar = .ok pid
  read : ∀ d, pid = some d → a.processFirst d = .ok process
  unread : pid = none → process = none
  identified : keyedIdentity (join root (name ++ ".json".toList)) c info.metadata pid process
    a.bootId = .ok info.identity
  stated : keyedStatus host name a c socketName socketPath info.metadata pid info.identity =
    .ok info.status

theorem conclude_eq_ok {socketName socketPath : Text} {c : Capture} {info : SessionInfo}
    {pid : Option Int32} {process : Option ProcessEvidence}
    (h : conclude host readers root name a socketName socketPath c = .ok (info, pid, process)) :
    ∃ sidecar, Concluded host readers root name a socketName socketPath c info pid process
      sidecar := by
  unfold conclude at h
  obtain ⟨metadata, hm, h⟩ := bind_eq_ok.mp h
  obtain ⟨sidecar, hs, h⟩ := bind_eq_ok.mp h
  obtain ⟨named, hn, h⟩ := bind_eq_ok.mp h
  obtain ⟨evidence, he, h⟩ := bind_eq_ok.mp h
  obtain ⟨_, -, h⟩ := bind_eq_ok.mp h
  obtain ⟨identity, hi, h⟩ := bind_eq_ok.mp h
  obtain ⟨status, ht, h⟩ := bind_eq_ok.mp h
  cases h
  refine ⟨sidecar, hm, hs, hn, ?_, ?_, hi, ht⟩
  · rintro d rfl
    exact he
  · rintro rfl
    cases he
    rfl

/-- An attempt that finds nothing captured nothing twice. -/
theorem attempt_eq_none (h : attempt host readers root name a = .ok none) :
    ∃ c, capture a.first = .ok c ∧ capture a.second = .ok c ∧ c.isEmpty = true := by
  unfold attempt at h
  obtain ⟨first, hf, h⟩ := bind_eq_ok.mp h
  obtain ⟨socketName, -, h⟩ := bind_eq_ok.mp h
  obtain ⟨socketPath, -, h⟩ := bind_eq_ok.mp h
  obtain ⟨_, -, h⟩ := bind_eq_ok.mp h
  split at h
  · next he =>
    obtain ⟨second, hs, h⟩ := bind_eq_ok.mp h
    obtain ⟨_, hc, -⟩ := bind_eq_ok.mp h
    obtain rfl := ensure_eq_ok.mp hc
    exact ⟨first, hf, hs, he⟩
  · obtain ⟨⟨session, pid, process⟩, -, h⟩ := bind_eq_ok.mp h
    obtain ⟨_, -, h⟩ := bind_eq_ok.mp h
    cases h

/-- An attempt that finds a session concluded it from what it captured twice. -/
theorem attempt_eq_some {info : SessionInfo}
    (h : attempt host readers root name a = .ok (some info)) :
    ∃ c socketName socketPath pid process,
      capture a.first = .ok c ∧ capture a.second = .ok c ∧
      conclude host readers root name a socketName socketPath c = .ok (info, pid, process) ∧
      ∀ d, pid = some d → a.processSecond d = .ok process := by
  unfold attempt at h
  obtain ⟨first, hf, h⟩ := bind_eq_ok.mp h
  obtain ⟨socketName, -, h⟩ := bind_eq_ok.mp h
  obtain ⟨socketPath, -, h⟩ := bind_eq_ok.mp h
  obtain ⟨_, -, h⟩ := bind_eq_ok.mp h
  split at h
  · obtain ⟨_, -, h⟩ := bind_eq_ok.mp h
    obtain ⟨_, -, h⟩ := bind_eq_ok.mp h
    cases h
  · obtain ⟨⟨session, pid, process⟩, hc, h⟩ := bind_eq_ok.mp h
    obtain ⟨⟨⟩, hk, h⟩ := bind_eq_ok.mp h
    cases h
    obtain ⟨hs, hp⟩ := confirm_eq_ok hk
    exact ⟨first, socketName, socketPath, pid, process, hf, hs, hc, hp⟩

/-- The answer of a call is that of one of its attempts. -/
theorem observeAttempts_cases (rest : List Accesses) :
    (∃ b ∈ a :: rest, ∃ info, attempt host readers root name b = .ok (some info) ∧
        observeAttempts host readers root name a rest = .found info) ∨
      (∃ b ∈ a :: rest, attempt host readers root name b = .ok none ∧
        observeAttempts host readers root name a rest = .missing) ∨
      ∃ e, observeAttempts host readers root name a rest = .indeterminate e := by
  induction rest generalizing a with
  | nil =>
    unfold observeAttempts
    cases h : attempt host readers root name a with
    | error e => exact .inr (.inr ⟨e, rfl⟩)
    | ok r =>
      cases r with
      | none => exact .inr (.inl ⟨a, List.mem_cons_self, h, rfl⟩)
      | some info => exact .inl ⟨a, List.mem_cons_self, info, h, rfl⟩
  | cons b rest ih =>
    unfold observeAttempts
    cases h : attempt host readers root name a with
    | error e =>
      dsimp only
      split
      · obtain ⟨d, hd, hr⟩ | ⟨d, hd, hr⟩ | hr := ih (a := b)
        · exact .inl ⟨d, List.mem_cons_of_mem a hd, hr⟩
        · exact .inr (.inl ⟨d, List.mem_cons_of_mem a hd, hr⟩)
        · exact .inr (.inr hr)
      · exact .inr (.inr ⟨e, rfl⟩)
    | ok r =>
      cases r with
      | none => exact .inr (.inl ⟨a, List.mem_cons_self, h, rfl⟩)
      | some info => exact .inl ⟨a, List.mem_cons_self, info, h, rfl⟩

/-! ### What was there -/

/-- A file that is read the same twice was there all the time in between. -/
theorem History.unchanged {h : History} {files : List Text} {start stop t u : Nat} {f : Text}
    {p q : Placed} (hd : h.Distinct files start stop) (hf : f ∈ files) (ht : start ≤ t)
    (htu : t ≤ u) (hu : u ≤ stop) (hp : h.files t f = some p) (hq : h.files u f = some q)
    (he : p.file = q.file) : ∀ m, t ≤ m → m ≤ u → h.files m f = some p := by
  have hle : q.since ≤ p.since := by
    by_contra hlt
    obtain hn | hn := hd f hf t u p q ht htu hu hp hq (not_le.mp hlt)
    · exact hn (by rw [he])
    · exact hn (by rw [he])
  obtain ⟨-, hlast⟩ := h.placed u f q hq
  have hsince : q.since ≤ t := hle.trans (h.placed t f p hp).1
  have hpq : p = q := Option.some.inj (hp.symm.trans (hlast t hsince htu))
  intro m hm hmu
  rw [hpq]
  exact hlast m (hsince.trans hm) hmu

/-- A file, if there is one, is under a name all the time between two moments. -/
def History.Lasts (h : History) (f : Text) (start stop : Nat) (file : Option CompanionFile) :
    Prop :=
  ∀ c, file = some c → ∃ p, p.file = c ∧
    ∀ t, start ≤ t → t ≤ stop → h.files t f = some p

/-- A session is concluded from files that were all there, unchanged, from the end of the first
capture of an attempt to the start of the second, and from one answer about its process. -/
def Whole (h : History) (host : Host) (readers : Readers) (root name : Text) (a : Accesses)
    (m : Moments) (info : SessionInfo) : Prop :=
  ∃ c socketName socketPath pid process,
    capture a.first = .ok c ∧ capture a.second = .ok c ∧
    conclude host readers root name a socketName socketPath c = .ok (info, pid, process) ∧
    (∀ d, pid = some d → a.processFirst d = .ok process ∧ a.processSecond d = .ok process) ∧
    h.Lasts (name ++ ".json".toList) m.bounded₁ m.metadata₂ c.metadata ∧
    h.Lasts (name ++ ".pid".toList) m.bounded₁ m.metadata₂ c.pid ∧
    h.Lasts (readableSocket name) m.bounded₁ m.metadata₂
      (c.readableSocket.map fun stamp ↦ ⟨stamp, []⟩) ∧
    h.Lasts (boundedSocket host name) m.bounded₁ m.metadata₂
      (c.boundedSocket.map fun stamp ↦ ⟨stamp, []⟩)

variable {h : History} {start stop : Nat} {m : Moments}

private theorem lasts_of_twice {f : Text} {t u b e : Nat} {file : Option CompanionFile}
    (hd : h.Distinct (keyedFiles host name) start stop) (hf : f ∈ keyedFiles host name)
    (ht : start ≤ t) (htb : t ≤ b) (htu : t ≤ u) (heu : e ≤ u) (hu : u ≤ stop)
    (h₁ : (h.files t f).map (·.file) = file) (h₂ : (h.files u f).map (·.file) = file) :
    h.Lasts f b e file := by
  rintro c rfl
  obtain ⟨p, hp, rfl⟩ := Option.map_eq_some_iff.mp h₁
  obtain ⟨q, hq, he⟩ := Option.map_eq_some_iff.mp h₂
  refine ⟨p, rfl, fun k hk hke ↦ ?_⟩
  exact History.unchanged hd hf ht htu hu hp hq he.symm k (htb.trans hk) (hke.trans heu)

/-- What an attempt finds is whole. -/
private theorem whole_of_attempt {info : SessionInfo}
    (hd : h.Distinct (keyedFiles host name) start stop) (ho : m.Ordered start stop)
    (ha : Answered h host name a m)
    (hf : attempt host readers root name a = .ok (some info)) :
    Whole h host readers root name a m info := by
  obtain ⟨c, socketName, socketPath, pid, process, hc₁, hc₂, hc, hp⟩ := attempt_eq_some hf
  obtain ⟨hm₁, hp₁, hr₁, hb₁⟩ := capture_eq_ok hc₁
  obtain ⟨hm₂, hp₂, hr₂, hb₂⟩ := capture_eq_ok hc₂
  obtain ⟨sidecar, hk⟩ := conclude_eq_ok hc
  simp only [Moments.Ordered, List.pairwise_cons, List.mem_cons, List.not_mem_nil, or_false,
    forall_eq_or_imp, forall_eq] at ho
  refine ⟨c, socketName, socketPath, pid, process, hc₁, hc₂, hc,
    fun d hpd ↦ ⟨hk.read d hpd, hp d hpd⟩, ?_, ?_, ?_, ?_⟩
  · exact lasts_of_twice hd (by simp [keyedFiles]) (t := m.metadata₁) (u := m.metadata₂)
      (by omega) (by omega) (by omega) (by omega) (by omega)
      (ha.metadata₁ _ hm₁).symm (ha.metadata₂ _ hm₂).symm
  · exact lasts_of_twice hd (by simp [keyedFiles]) (t := m.pid₁) (u := m.pid₂)
      (by omega) (by omega) (by omega) (by omega) (by omega)
      (ha.pid₁ _ hp₁).symm (ha.pid₂ _ hp₂).symm
  · exact lasts_of_twice hd (by simp [keyedFiles]) (t := m.readable₁) (u := m.readable₂)
      (by omega) (by omega) (by omega) (by omega) (by omega)
      (ha.readable₁ _ hr₁) (ha.readable₂ _ hr₂)
  · exact lasts_of_twice hd (by simp [keyedFiles]) (t := m.bounded₁) (u := m.bounded₂)
      (by omega) (by omega) (by omega) (by omega) (by omega)
      (ha.bounded₁ _ hb₁) (ha.bounded₂ _ hb₂)

/-- An attempt that finds nothing saw a moment without the record. -/
private theorem absent_of_attempt (ho : m.Ordered start stop) (ha : Answered h host name a m)
    (hf : attempt host readers root name a = .ok none) :
    ∃ t, start ≤ t ∧ t ≤ stop ∧ h.files t (name ++ ".json".toList) = none := by
  obtain ⟨c, hc, -, he⟩ := attempt_eq_none hf
  simp only [Capture.isEmpty, Bool.and_eq_true, Option.isNone_iff_eq_none] at he
  have hm := ha.metadata₁ _ (capture_eq_ok hc).1
  rw [he.1.1] at hm
  simp only [Moments.Ordered, List.pairwise_cons, List.mem_cons, List.not_mem_nil, or_false,
    forall_eq_or_imp, forall_eq] at ho
  exact ⟨m.metadata₁, by omega, by omega, Option.map_eq_none_iff.mp hm.symm⟩

/-- A daemon that lives through a call, and matches a record that does not change in it. -/
structure Lives (h : History) (readers : Readers) (root name : Text) (start stop : Nat)
    (d : Int32) (p : LiveProcess) (record : Placed) (r : SessionMetadata) : Prop where
  alive : ∀ t, start ≤ t → t ≤ stop → h.processes t d = some p
  leader : p.leader = true
  recorded : ∀ t, start ≤ t → t ≤ stop → h.files t (name ++ ".json".toList) = some record
  parsed : readers.metadata record.file.bytes = .ok r
  token : daemonStartToken r = some p.identity
  boot : checkBootIdentity r h.bootId ≠ .mismatch
  named : r.field .daemonPid = some d ∨ ∀ t, start ≤ t → t ≤ stop →
    ∃ q, h.files t (name ++ ".pid".toList) = some q ∧
      parsePid readers (join root (name ++ ".pid".toList)) (some q.file) = .ok (some d)

private theorem checkBootIdentity_ne_gone (r : SessionMetadata) (live : Option String) :
    checkBootIdentity r live ≠ .gone := by
  unfold checkBootIdentity
  split
  · exact DaemonIdentityCheck.noConfusion
  split
  · exact DaemonIdentityCheck.noConfusion
  split
  · split
    · exact DaemonIdentityCheck.noConfusion
    split <;> exact DaemonIdentityCheck.noConfusion
  · exact DaemonIdentityCheck.noConfusion

private theorem checkBootIdentity_none (r : SessionMetadata) :
    checkBootIdentity r none = .unknown := by
  unfold checkBootIdentity
  split
  · rfl
  · dsimp only
    split <;> rfl

private theorem eq_of_namedPid {path : Text} {metadata : Option SessionMetadata}
    {sidecar pid : Option Int32} {d : Int32} (hn : namedPid path metadata sidecar = .ok pid)
    (hd : metadata.bind (·.field .daemonPid) = some d ∨ sidecar = some d) : pid = some d := by
  unfold namedPid at hn
  cases sidecar with
  | none =>
    obtain hd | hd := hd
    · rw [hd] at hn
      cases hn
      rfl
    · cases hd
  | some s =>
    cases hr : metadata.bind (·.field .daemonPid) with
    | none =>
      rw [hr] at hn hd
      cases hn
      exact hd.resolve_left fun hd ↦ nomatch hd
    | some r =>
      rw [hr] at hn hd
      dsimp only at hn
      split at hn
      · cases hn
      next he =>
      rw [not_not] at he
      cases hn
      rw [he] at hd ⊢
      exact hd.elim id id

/-- An attempt does not find a living daemon's session vanished. -/
private theorem not_vanished_of_attempt {info : SessionInfo} {d : Int32} {p : LiveProcess}
    {record : Placed} {r : SessionMetadata}
    (hl : Lives h readers root name start stop d p record r) (ho : m.Ordered start stop)
    (ha : Answered h host name a m)
    (hf : attempt host readers root name a = .ok (some info)) : info.status ≠ .vanished := by
  obtain ⟨c, socketName, socketPath, pid, process, hc₁, -, hc, -⟩ := attempt_eq_some hf
  obtain ⟨hm₁, hp₁, -, -⟩ := capture_eq_ok hc₁
  obtain ⟨sidecar, hk⟩ := conclude_eq_ok hc
  simp only [Moments.Ordered, List.pairwise_cons, List.mem_cons, List.not_mem_nil, or_false,
    forall_eq_or_imp, forall_eq] at ho
  have hmeta : c.metadata = some record.file := by
    rw [ha.metadata₁ _ hm₁, hl.recorded m.metadata₁ (by omega) (by omega)]
    rfl
  have hinfo : info.metadata = some r := by
    have hparsed := hk.parsed
    rw [hmeta, parseMetadata, hl.parsed] at hparsed
    exact (Except.ok.inj hparsed).symm
  have hpid : pid = some d := by
    refine eq_of_namedPid hk.named (hl.named.imp (fun hd ↦ by rw [hinfo]; exact hd) fun hd ↦ ?_)
    obtain ⟨q, hq, hparse⟩ := hd m.pid₁ (by omega) (by omega)
    have hcp : c.pid = some q.file := by
      rw [ha.pid₁ _ hp₁, hq]
      rfl
    have hside := hk.pidParsed
    rw [hcp, hparse] at hside
    exact (Except.ok.inj hside).symm
  have hread := ha.process₁ d process (hk.read d hpid)
  have hident := hk.identified
  cases process with
  | none =>
    rw [hl.alive m.process₁ (by omega) (by omega)] at hread
    cases hread
  | some e =>
    obtain ⟨⟨x, hx, hxe⟩, y, hy, hye⟩ := hread
    rw [hl.alive m.process₁ (by omega) (by omega)] at hx
    rw [hl.alive m.leader₁ (by omega) (by omega)] at hy
    cases hx
    cases hy
    have hlead : e.leader = true := hye.trans hl.leader
    rw [hpid, hinfo, keyedIdentity] at hident
    simp only [hlead, Bool.not_true, Bool.false_eq_true, if_false, Option.bind_some, hl.token,
      Option.map_some, hxe, ne_eq, not_true_eq_false] at hident
    have hid : checkBootIdentity r a.bootId = info.identity := Except.ok.inj hident
    have hne : info.identity ≠ .mismatch := by
      rw [← hid]
      cases hb : a.bootId with
      | none =>
        rw [checkBootIdentity_none]
        exact DaemonIdentityCheck.noConfusion
      | some id =>
        rw [← ha.bootId id hb]
        exact hl.boot
    have hgone : info.identity ≠ .gone := hid ▸ checkBootIdentity_ne_gone r a.bootId
    have hstat := hk.stated
    unfold keyedStatus at hstat
    split at hstat
    · rw [← Except.ok.inj hstat]
      exact SessionStatus.noConfusion
    cases hi : info.identity with
    | mismatch => exact absurd hi hne
    | gone => exact absurd hi hgone
    | matched =>
      rw [hi] at hstat
      rw [← Except.ok.inj hstat]
      exact SessionStatus.noConfusion
    | unknown =>
      rw [hi, hpid] at hstat
      rw [← Except.ok.inj hstat]
      exact SessionStatus.noConfusion

/-! ### Calls -/

theorem Moments.Ordered.mono {start' stop' : Nat} (ho : m.Ordered start stop)
    (hs : start' ≤ start) (ht : stop ≤ stop') : m.Ordered start' stop' := by
  simp only [Moments.Ordered, List.pairwise_cons, List.mem_cons, List.not_mem_nil, or_false,
    forall_eq_or_imp, forall_eq] at ho ⊢
  and_intros <;> grind

private theorem Attempts.le {l : List (Accesses × Moments)}
    (hl : Attempts h host name start l stop) : start ≤ stop := by
  induction hl with
  | nil hs => exact hs
  | cons ho ha hr ih =>
    simp only [Moments.Ordered, List.pairwise_cons, List.mem_cons, List.not_mem_nil, or_false,
      forall_eq_or_imp, forall_eq] at ho
    omega

/-- Each attempt of a call is made between its two moments. -/
theorem Attempts.answered {l : List (Accesses × Moments)}
    (hl : Attempts h host name start l stop) :
    ∀ x ∈ l, x.2.Ordered start stop ∧ Answered h host name x.1 x.2 := by
  induction hl with
  | nil hs => exact fun x hx ↦ nomatch hx
  | @cons start middle stop a m rest ho ha hr ih =>
    have hle : start ≤ middle := by
      simp only [Moments.Ordered, List.pairwise_cons, List.mem_cons, List.not_mem_nil, or_false,
        forall_eq_or_imp, forall_eq] at ho
      omega
    intro x hx
    obtain rfl | hx := List.mem_cons.mp hx
    · exact ⟨ho.mono le_rfl hr.le, ha⟩
    · exact ⟨(ih x hx).1.mono hle le_rfl, (ih x hx).2⟩

variable {opened : Keyed (Option Unit)} {rest : List (Accesses × Moments)}

/-- What a call finds is whole; a session whose record is there all the time is not missing;
and a daemon that lives through the call and matches its record has not vanished. -/
theorem observe_untorn (hc : KeyedCall h host name start stop opened ((a, m) :: rest)) :
    (h.Distinct (keyedFiles host name) start stop →
      ∀ info, observeSessionIn host readers root name opened a (rest.map (·.1)) = .found info →
        ∃ x ∈ (a, m) :: rest, Whole h host readers root name x.1 x.2 info) ∧
    ((∀ t, start ≤ t → t ≤ stop → (h.files t (name ++ ".json".toList)).isSome = true) →
      observeSessionIn host readers root name opened a (rest.map (·.1)) ≠ .missing) ∧
    ∀ d p record r, Lives h readers root name start stop d p record r →
      ∀ info, observeSessionIn host readers root name opened a (rest.map (·.1)) = .found info →
        info.status ≠ .vanished := by
  have hmem : ∀ b ∈ a :: rest.map (·.1), ∃ x ∈ (a, m) :: rest, x.1 = b := by
    intro b hb
    obtain rfl | hb := List.mem_cons.mp hb
    · exact ⟨(b, m), List.mem_cons_self, rfl⟩
    · obtain ⟨x, hx, rfl⟩ := List.mem_map.mp hb
      exact ⟨x, List.mem_cons_of_mem _ hx, rfl⟩
  have hfound : ∀ info, observeSessionIn host readers root name opened a (rest.map (·.1)) =
      .found info → ∃ x ∈ (a, m) :: rest,
        attempt host readers root name x.1 = .ok (some info) := by
    intro info hi
    unfold observeSessionIn at hi
    split at hi
    · cases hi
    split at hi
    · cases hi
    · cases hi
    obtain ⟨b, hb, i, hat, ho⟩ | ⟨b, hb, -, ho⟩ | ⟨e, ho⟩ :=
      @observeAttempts_cases host readers root name a (rest.map (·.1))
    · cases hi.symm.trans ho
      obtain ⟨x, hx, rfl⟩ := hmem b hb
      exact ⟨x, hx, hat⟩
    · cases hi.symm.trans ho
    · cases hi.symm.trans ho
  refine ⟨fun hd info hi ↦ ?_, fun hsome hmiss ↦ ?_, fun d p record r hl info hi ↦ ?_⟩
  · obtain ⟨x, hx, hat⟩ := hfound info hi
    obtain ⟨ho, ha⟩ := hc.attempts.answered x hx
    exact ⟨x, hx, whole_of_attempt hd ho ha hat⟩
  · unfold observeSessionIn at hmiss
    split at hmiss
    · cases hmiss
    split at hmiss
    · obtain ⟨t, hst, hts, hnone⟩ := hc.opening rfl
      have := hsome t hst hts
      rw [hnone] at this
      cases this
    · cases hmiss
    obtain ⟨b, hb, i, hat, ho⟩ | ⟨b, hb, hat, ho⟩ | ⟨e, ho⟩ :=
      @observeAttempts_cases host readers root name a (rest.map (·.1))
    · cases hmiss.symm.trans ho
    · obtain ⟨x, hx, rfl⟩ := hmem b hb
      obtain ⟨hord, ha⟩ := hc.attempts.answered x hx
      obtain ⟨t, hst, hts, hnone⟩ := absent_of_attempt hord ha hat
      have := hsome t hst hts
      rw [hnone] at this
      cases this
    · cases hmiss.symm.trans ho
  · obtain ⟨x, hx, hat⟩ := hfound info hi
    obtain ⟨ho, ha⟩ := hc.attempts.answered x hx
    exact not_vanished_of_attempt hl ho ha hat

/-! ### A daemon that lives through a call -/

/-- A file of one byte. -/
def oneByte (inode : Nat) (byte : UInt8) : CompanionFile := ⟨⟨1, inode, 33188, 0, 1⟩, [byte]⟩

/-- A record of a daemon. -/
def daemonRecord : SessionMetadata :=
  (SessionMetadata.fromMap [("daemonPid", .integer 7), ("daemonStartToken", .string "born")]).get
    (by decide)

/-- A registry in which nothing happens while the daemon of `s` is there. -/
def steadyHistory : History where
  files _ f := if f = "s.json".toList then some ⟨0, oneByte 5 1⟩ else none
  processes _ d := if d = 7 then some ⟨"born", true⟩ else none
  bootId := none
  placed t f p hp := by
    split at hp
    · next hf =>
      cases hp
      exact ⟨Nat.zero_le t, fun _ _ _ ↦ if_pos hf⟩
    · cases hp

/-- Readers that know the bytes of that record. -/
def daemonReaders : Readers where
  metadata bytes := if bytes = [1] then .ok daemonRecord else .error "unknown"
  utf8Error _ := ""
  intError _ := ""

/-- The record, and nothing else. -/
def recordOnly : Look := ⟨.ok (some (oneByte 5 1)), .ok none, .ok none, .ok none⟩

/-- An attempt that reads the record and the daemon. -/
def steadyAccesses : Accesses where
  first := recordOnly
  candidate file := .ok (join "/r".toList file)
  address file := .ok (join "/r".toList file)
  processFirst d := .ok (if d = 7 then some ⟨"born", true⟩ else none)
  bootId := none
  probe _ _ := .ok false
  second := recordOnly
  processSecond d := .ok (if d = 7 then some ⟨"born", true⟩ else none)

/-- The first capture at 1, the second at 4. -/
def twoCaptures : Moments := ⟨1, 1, 1, 1, 2, 3, 4, 4, 4, 4, 4, 4⟩

private theorem twoCaptures_ordered : twoCaptures.Ordered 0 5 := by
  unfold Moments.Ordered twoCaptures
  decide

private theorem steady_process (t u : Nat) :
    ReadsProcess steadyHistory t u steadyAccesses.processFirst := by
  intro pid e he
  have he : (if pid = 7 then some ⟨"born", true⟩ else none) = e := Except.ok.inj he
  by_cases hd : pid = 7
  · rw [if_pos hd] at he
    subst he
    exact ⟨⟨_, if_pos hd, rfl⟩, _, if_pos hd, rfl⟩
  · rw [if_neg hd] at he
    subst he
    exact if_neg hd

private theorem steady_answered :
    Answered steadyHistory plainHost "s".toList steadyAccesses twoCaptures where
  metadata₁ c hc := by
    cases hc
    rfl
  pid₁ c hc := by
    cases hc
    decide
  readable₁ c hc := by
    cases hc
    decide
  bounded₁ c hc := by
    cases hc
    decide
  process₁ := steady_process _ _
  bootId id hid := nomatch hid
  metadata₂ c hc := by
    cases hc
    rfl
  pid₂ c hc := by
    cases hc
    decide
  readable₂ c hc := by
    cases hc
    decide
  bounded₂ c hc := by
    cases hc
    decide
  process₂ := steady_process _ _

/-- `observe_untorn` for a daemon that lives through a call of one attempt. -/
theorem observe_untorn_steady :
    ∃ info, observeSessionIn plainHost daemonReaders "/r".toList "s".toList (.ok (some ()))
        steadyAccesses [] = .found info ∧
      Whole steadyHistory plainHost daemonReaders "/r".toList "s".toList steadyAccesses
        twoCaptures info ∧ info.status ≠ .vanished := by
  have hcall : KeyedCall steadyHistory plainHost "s".toList 0 5 (.ok (some ()))
      [(steadyAccesses, twoCaptures)] :=
    ⟨fun h ↦ (nomatch h),
      .cons twoCaptures_ordered steady_answered (.nil (Nat.le_refl 5))⟩
  obtain ⟨hwhole, -, hlives⟩ := @observe_untorn plainHost daemonReaders "/r".toList "s".toList
    steadyAccesses steadyHistory 0 5 twoCaptures (.ok (some ())) [] hcall
  have hdistinct : steadyHistory.Distinct (keyedFiles plainHost "s".toList) 0 5 := by
    intro f _ t u p q _ _ _ hp hq hlt
    cases hp.symm.trans hq
    exact absurd hlt (Nat.lt_irrefl _)
  have hl : Lives steadyHistory daemonReaders "/r".toList "s".toList 0 5 7 ⟨"born", true⟩
      ⟨0, oneByte 5 1⟩ daemonRecord := by
    refine ⟨fun _ _ _ ↦ rfl, rfl, fun _ _ _ ↦ rfl, rfl, rfl, ?_, .inl rfl⟩
    decide
  refine ⟨_, rfl, ?_, hlives _ _ _ _ hl _ rfl⟩
  obtain ⟨x, hx, hw⟩ := hwhole hdistinct _ rfl
  obtain rfl := List.mem_singleton.mp hx
  exact hw

/-! ### A record that is put back -/

/-- A record of a session that has exited. -/
def exitedRecord : SessionMetadata :=
  (SessionMetadata.fromMap [("exitedAt", .string "today")]).get (by decide)

/-- The record's file: one, another, and the first again, in the inode that it had. -/
def putBack (t : Nat) : Placed :=
  if t < 2 then ⟨0, oneByte 5 1⟩ else if t < 3 then ⟨2, oneByte 6 2⟩ else ⟨3, oneByte 5 1⟩

/-- A registry in which nothing but the record of `s` changes. -/
def putBackHistory : History where
  files t f := if f = "s.json".toList then some (putBack t) else none
  processes _ _ := none
  bootId := none
  placed t f p hp := by
    split at hp
    · next hf =>
      cases hp
      unfold putBack
      constructor
      · split
        · exact Nat.zero_le t
        split <;> simp only <;> omega
      · intro k hk hkt
        rw [if_pos hf]
        congr 1
        split at hk
        · rw [if_pos (by omega), if_pos (by assumption)]
        split at hk
        · simp only at hk
          rw [if_neg (by omega), if_pos (by omega), if_neg (by assumption),
            if_pos (by assumption)]
        · simp only at hk
          rw [if_neg (by omega), if_neg (by omega), if_neg (by assumption),
            if_neg (by assumption)]
    · cases hp

/-- Readers that know the bytes of those files. -/
def putBackReaders : Readers where
  metadata bytes := if bytes = [1] ∨ bytes = [2] then .ok exitedRecord else .error "unknown"
  utf8Error _ := ""
  intError _ := ""

/-- An attempt that reads the record before it is replaced and after it is put back. -/
def putBackAccesses : Accesses where
  first := recordOnly
  candidate file := .ok (join "/r".toList file)
  address file := .ok (join "/r".toList file)
  processFirst _ := .ok none
  bootId := none
  probe _ _ := .ok false
  second := recordOnly
  processSecond _ := .ok none

private theorem putBack_answered :
    Answered putBackHistory plainHost "s".toList putBackAccesses twoCaptures where
  metadata₁ c hc := by
    cases hc
    decide
  pid₁ c hc := by
    cases hc
    decide
  readable₁ c hc := by
    cases hc
    decide
  bounded₁ c hc := by
    cases hc
    decide
  process₁ pid e he := by
    cases he
    rfl
  bootId id hid := nomatch hid
  metadata₂ c hc := by
    cases hc
    decide
  pid₂ c hc := by
    cases hc
    decide
  readable₂ c hc := by
    cases hc
    decide
  bounded₂ c hc := by
    cases hc
    decide
  process₂ pid e he := by
    cases he
    rfl

private theorem putBack_call : KeyedCall putBackHistory plainHost "s".toList 0 5 (.ok (some ()))
    [(putBackAccesses, twoCaptures)] where
  opening h := nomatch h
  attempts := .cons twoCaptures_ordered putBack_answered (.nil (Nat.le_refl 5))

private theorem putBack_cases (t : Nat) :
    t < 2 ∧ putBack t = ⟨0, oneByte 5 1⟩ ∨ t = 2 ∧ putBack t = ⟨2, oneByte 6 2⟩ ∨
      3 ≤ t ∧ putBack t = ⟨3, oneByte 5 1⟩ := by
  unfold putBack
  split
  · next h => exact .inl ⟨h, rfl⟩
  split
  · next h₂ h₃ => exact .inr (.inl ⟨by omega, rfl⟩)
  · next h => exact .inr (.inr ⟨by omega, rfl⟩)

private theorem putBack_files (m : Nat) :
    putBackHistory.files m "s.json".toList = some (putBack m) := rfl

/-- The file changes each time that it is replaced. -/
private theorem putBack_adjacent :
    putBackHistory.Adjacent (keyedFiles plainHost "s".toList) 0 5 := by
  intro f _ t u p q _ htu _ hp hq hlt hbetween
  by_cases hf : f = "s.json".toList
  · subst hf
    obtain rfl := Option.some.inj ((putBack_files t).symm.trans hp)
    obtain rfl := Option.some.inj ((putBack_files u).symm.trans hq)
    obtain ⟨ht, hpt⟩ | ⟨ht, hpt⟩ | ⟨ht, hpt⟩ := putBack_cases t <;>
      obtain ⟨hu, hpu⟩ | ⟨hu, hpu⟩ | ⟨hu, hpu⟩ := putBack_cases u <;>
      rw [hpt, hpu] at hlt ⊢
    · exact absurd hlt (by decide)
    · exact .inl (by decide)
    · -- in between there is the other one
      obtain h | h := hbetween 2 (by omega) (by rw [hpu]; decide)
      · rw [putBack_files, hpt] at h
        exact absurd h (by decide)
      · cases (putBack_files 2).symm.trans h
    · exact absurd hlt (by decide)
    · exact absurd hlt (by decide)
    · exact .inl (by decide)
    · exact absurd hlt (by decide)
    · exact absurd hlt (by decide)
    · exact absurd hlt (by decide)
  · have : putBackHistory.files t f = none := if_neg hf
    cases this.symm.trans hp

/-- A record may be put back between the two captures: a call then finds a session whose record
was not there all the time. -/
theorem whole_of_adjacent_refuted :
    ¬ ∀ (h : History) (host : Host) (readers : Readers) (root name : Text) (start stop : Nat)
        (opened : Keyed (Option Unit)) (a : Accesses) (m : Moments)
        (rest : List (Accesses × Moments)),
      KeyedCall h host name start stop opened ((a, m) :: rest) →
      h.Adjacent (keyedFiles host name) start stop →
      ∀ info, observeSessionIn host readers root name opened a (rest.map (·.1)) = .found info →
        ∃ x ∈ (a, m) :: rest, Whole h host readers root name x.1 x.2 info := by
  intro hall
  have hfound : ∃ info, observeSessionIn plainHost putBackReaders "/r".toList "s".toList
      (.ok (some ())) putBackAccesses [] = .found info := ⟨_, rfl⟩
  obtain ⟨info, hinfo⟩ := hfound
  obtain ⟨x, hx, c, socketName, socketPath, pid, process, hc, -, -, -, hlasts, -⟩ :=
    hall putBackHistory plainHost putBackReaders "/r".toList "s".toList 0 5 (.ok (some ()))
      putBackAccesses twoCaptures [] putBack_call putBack_adjacent info hinfo
  obtain rfl := List.mem_singleton.mp hx
  cases hc
  obtain ⟨p, -, hp⟩ := hlasts (oneByte 5 1) rfl
  have h₁ := (putBack_files 1).symm.trans (hp 1 (by decide) (by decide))
  have h₂ := (putBack_files 2).symm.trans (hp 2 (by decide) (by decide))
  exact absurd (h₁.trans h₂.symm) (by decide)

end PtySpec.Listing
