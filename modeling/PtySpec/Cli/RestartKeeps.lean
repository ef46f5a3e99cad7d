import PtySpec.Cli.RestartAgree
import PtySpec.Metadata.Linear

/-!
# A failed restart and the record

What a manual restart that reports a failure has left on disk: the record it found, with what the
old daemon and the stop have written there, or the record of a newer daemon, or nothing.
-/

namespace PtySpec.Cli.Restart

open Lib Metadata
open Lifecycle (published publicationMap readMetadata isPermanent)

/-! ### Records of one launch -/

/-- Two records of a session that is launched with the same. -/
structure SameLaunch (m r : SessionMetadata) : Prop where
  command : r.field .command = m.field .command
  args : r.field .args = m.field .args
  cwd : r.field .cwd = m.field .cwd
  displayName : r.displayName = m.displayName
  tags : ∀ key, r.tag key = m.tag key

theorem SameLaunch.refl (m : SessionMetadata) : SameLaunch m m := ⟨rfl, rfl, rfl, rfl, fun _ ↦ rfl⟩

theorem SameLaunch.symm {m r : SessionMetadata} (h : SameLaunch m r) : SameLaunch r m :=
  ⟨h.command.symm, h.args.symm, h.cwd.symm, h.displayName.symm, fun key ↦ (h.tags key).symm⟩

theorem SameLaunch.trans {m r q : SessionMetadata} (h : SameLaunch m r) (h' : SameLaunch r q) :
    SameLaunch m q :=
  ⟨h'.command.trans h.command, h'.args.trans h.args, h'.cwd.trans h.cwd,
    h'.displayName.trans h.displayName, fun key ↦ (h'.tags key).trans (h.tags key)⟩

private theorem text_eq_of_agree {m n : SessionMetadata} {f : Field} {a b : String}
    (ha : m.written f = some (.string a)) (hb : n.written f = some (.string b))
    (h : m.agree n f = true) : a = b := by
  rw [SessionMetadata.agree, SessionMetadata.same, decide_eq_true_iff, ha, hb] at h
  simpa [Json.normal] using h

private theorem normalList_strings (xs : List String) :
    Json.normalList (xs.map .string) = xs.map .string := by
  induction xs with
  | nil => rfl
  | cons x xs ih => simp [Json.normalList, Json.normal, ih]

private theorem args_eq_of_agree {m n : SessionMetadata} (h : m.agree n .args = true) :
    m.field .args = n.field .args := by
  have hw (k : SessionMetadata) :
      k.written .args = some (.array ((k.field .args).map .string)) := rfl
  rw [SessionMetadata.agree, SessionMetadata.same, decide_eq_true_iff, hw, hw] at h
  simp only [Option.map_some, Json.normal, normalList_strings, Option.some.injEq,
    Json.array.injEq] at h
  exact List.map_injective_iff.mpr (fun _ _ hs ↦ Json.string.inj hs) h

/-- Equal records are of one launch. -/
theorem sameLaunch_of_equal {m r : SessionMetadata} (h : r.Equal m) : SameLaunch m r where
  command := text_eq_of_agree rfl rfl (h.1 .command)
  args := args_eq_of_agree (h.1 .args)
  cwd := text_eq_of_agree rfl rfl (h.1 .cwd)
  displayName := displayName_eq_of_agree (h.1 .displayName)
  tags := tag_eq_of_agree (h.1 .tags)

/-- What is on disk is a record of the same launch. -/
def Holds (metadata : SessionMetadata) (record : Option JsonMap) : Prop :=
  ∃ r, readMetadata record = some r ∧ SameLaunch metadata r

/-! ### Changes of a record -/

/-- A change that a record can be read back after. -/
structure Plain (change : SessionMetadata → SessionMetadata) : Prop where
  extra : ∀ m, (change m).extra = m.extra
  recovery : ∀ m, (change m).recovery = m.recovery

/-- An amended record reads back as the changed one. -/
theorem read_amend {raw : JsonMap} {m : SessionMetadata} (hr : SessionMetadata.fromMap raw = some m)
    {change : SessionMetadata → SessionMetadata} (hc : Plain change) :
    ∃ r, readMetadata (amend (some raw) change) = some r ∧ SameLaunch (change m) r := by
  obtain ⟨hal, hrec⟩ : m.plain := plain_of_equal hr
    ⟨fun f ↦ SessionMetadata.same_refl _, fun key ↦ SessionMetadata.same_refl _⟩
  have hp : (change m).plain := by
    refine ⟨?_, (hc.recovery m).trans_ne hrec⟩
    rw [SessionMetadata.aliases, hc.extra]
    exact hal
  obtain ⟨r, hm, he⟩ := fromMap_published hr hp
  refine ⟨r, ?_, sameLaunch_of_equal he⟩
  rw [amend, Option.bind_some, hr]
  exact hm

theorem holds_amend {metadata : SessionMetadata} {record : Option JsonMap}
    {change : SessionMetadata → SessionMetadata} (hc : Plain change)
    (hs : ∀ m, SameLaunch m (change m)) :
    Holds metadata (amend record change) ↔ Holds metadata record := by
  cases record with
  | none => exact Iff.rfl
  | some raw =>
    cases hm : SessionMetadata.fromMap raw with
    | none =>
      rw [amend, Option.bind_some, hm]
    | some m =>
      obtain ⟨r, hr, hl⟩ := read_amend hm hc
      have hread : readMetadata (some raw) = some m := hm
      unfold Holds
      rw [hr, hread]
      simp only [Option.some.injEq, exists_eq_left']
      exact ⟨fun h ↦ h.trans (hl.symm.trans (hs m).symm), fun h ↦ h.trans ((hs m).trans hl)⟩

private theorem plain_recorded (e : ExitEvidence) : Plain e.recorded :=
  ⟨fun _ ↦ rfl, fun m ↦ by
    simp [ExitEvidence.recorded, SessionMetadata.recovery, SessionMetadata.field_set_of_ne]⟩

private theorem sameLaunch_recorded (e : ExitEvidence) (m : SessionMetadata) :
    SameLaunch m (e.recorded m) := by
  constructor <;>
    simp [ExitEvidence.recorded, SessionMetadata.displayName, SessionMetadata.tag,
      SessionMetadata.tags, SessionMetadata.field_set_of_ne]

/-- The old daemon keeps the launch of its record unless it removes the record. -/
theorem holds_leaves (d : OldDaemon) {metadata : SessionMetadata} {record : Option JsonMap} :
    Holds metadata (d.leaves record) ↔ d.reaps = false ∧ Holds metadata record := by
  unfold OldDaemon.leaves
  cases d.reaps with
  | true => simp [Holds, readMetadata]
  | false =>
    cases d.evidence with
    | none => simp
    | some e => simpa using holds_amend (plain_recorded e) (sameLaunch_recorded e)

private theorem plain_untagged : Plain untagged :=
  ⟨fun _ ↦ rfl, fun m ↦ by
    simp [untagged, SessionMetadata.recovery, SessionMetadata.field_set_of_ne]⟩

private theorem tag_untagged (m : SessionMetadata) : (untagged m).tag "strategy" = none := by
  unfold untagged
  dsimp only
  rw [SessionMetadata.tag, SessionMetadata.tags_set]
  split
  · rfl
  · rw [Option.bind_some, IndexMap.get_remove, if_pos rfl]

/-- A stop costs a session its launch: the daemon removes the record, or a permanent session has
lost its strategy. -/
def Stop.Harms (s : Stop) (metadata : SessionMetadata) : Prop :=
  s.daemon.reaps = true ∨ isPermanent metadata = true ∧ s.untags = true

theorem holds_stop (s : Stop) {metadata : SessionMetadata} {record : Option JsonMap}
    (h : readMetadata record = some metadata) :
    Holds metadata (s.leaves metadata record) ↔ ¬s.Harms metadata := by
  unfold Stop.leaves Stop.Harms
  rw [holds_leaves, not_or, Bool.not_eq_true, ← Bool.and_eq_true]
  refine and_congr_right fun _ ↦ ?_
  cases hc : isPermanent metadata && s.untags with
  | false => simpa using ⟨metadata, h, .refl metadata⟩
  | true =>
    rw [Bool.and_eq_true] at hc
    simp only [if_true, not_true_eq_false, iff_false]
    rintro ⟨r, hr, hl⟩
    cases record with
    | none => cases h
    | some raw =>
      obtain ⟨r', hr', hl'⟩ := read_amend h plain_untagged
      obtain rfl := Option.some_inj.mp (hr.symm.trans hr')
      have hnone := (hl.tags "strategy").symm.trans ((hl'.tags "strategy").trans (tag_untagged _))
      rw [isPermanent, hnone] at hc
      cases hc.1

/-! ### Steps that refuse -/

/-- A step that fails with a refusal only. -/
def Refuses (x : Except RestartOutcome Unit) : Prop :=
  ∀ outcome, x = .error outcome → ∃ message, outcome = .refused message

private theorem refuses_step (x : Except String Unit) : Refuses (step x) := by
  intro outcome h
  cases x with
  | error message =>
    cases h
    exact ⟨message, rfl⟩
  | ok _ => cases h

private theorem Refuses.bind {x : Except RestartOutcome Unit}
    {next : Unit → Except RestartOutcome Unit} (h : Refuses x) (hn : ∀ u, Refuses (next u)) :
    Refuses (x >>= next) := by
  intro outcome he
  cases x with
  | error e =>
    cases he
    exact h _ rfl
  | ok u => exact hn u outcome he

private theorem refuses_locked (w : RestartWorld) (wording : Wording) (metadata : SessionMetadata)
    (record : Option JsonMap) : Refuses (locked w wording metadata record) := by
  refine (refuses_step _).bind fun _ ↦ (refuses_step _).bind fun _ outcome h ↦ ?_
  split at h
  · split at h
    · cases h
      exact ⟨_, rfl⟩
    · cases h
  · cases h
    exact ⟨_, rfl⟩

private theorem refuses_preparedUnderLocks (w : RestartWorld) : Refuses (preparedUnderLocks w) :=
  (refuses_step _).bind fun _ ↦ (refuses_step _).bind fun _ ↦ refuses_step _

private theorem refuses_stopped (w : RestartWorld) (name : String) : Refuses (stopped w name) := by
  intro outcome h
  unfold stopped at h
  split at h
  · cases h
    exact ⟨_, rfl⟩
  · cases h
  · cases h
    exact ⟨_, rfl⟩

/-! ### The launch -/

/-- A record of the session is left: of the same launch, or a newer generation's. -/
def Survives (metadata : SessionMetadata) : Left → Prop
  | .recorded record => Holds metadata record
  | .newer record => (readMetadata (some record)).isSome

/-- A restart that reports a failure has not lost the session. -/
def LosesNothing (metadata : SessionMetadata) (result : RestartOutcome × Left) : Prop :=
  ∀ message, result.1 = .refused message → Survives metadata result.2

/-- The launch does not fail with nothing on disk: it publishes, or the old record is still there
and of the same launch. -/
def LaunchSpares (w : RestartWorld) (harmed : Prop) : Prop :=
  ∀ error, w.launch.result = .error error → w.launch.birth = none → w.unlinked = false ∧ ¬harmed

private theorem launch_losesNothing_iff (w : RestartWorld) (wording : Wording)
    (params : RestartParams) {metadata : SessionMetadata} {record : Option JsonMap} {harmed : Prop}
    (h : Holds metadata record ↔ ¬harmed) :
    LosesNothing metadata (cleanupAndLaunch w wording params record) ↔ LaunchSpares w harmed := by
  unfold LosesNothing LaunchSpares cleanupAndLaunch
  dsimp only
  cases w.launch.result with
  | ok u => simp
  | error e =>
    cases w.launch.birth with
    | some b =>
      obtain ⟨r, hr, -⟩ := Lifecycle.readMetadata_publicationMap
        (m := published params.toSpawnParams b) (fun _ ↦ rfl)
      simp [Survives, hr]
    | none =>
      cases w.unlinked with
      | true => simp [Survives, Holds, readMetadata]
      | false => simpa [Survives] using h

/-- From the wait on: a step that fails finds the record unharmed, and so does the launch. -/
def RelaunchSpares (w : RestartWorld) (claimed : Except RestartOutcome Unit) (harmed : Prop) :
    Prop :=
  (claimed ≠ .ok () → ¬harmed) ∧ (claimed = .ok () → LaunchSpares w harmed)

private theorem relaunch_losesNothing_iff {w : RestartWorld} {wording : Wording}
    {waited prepared : Except RestartOutcome Unit} (hwaited : Refuses waited)
    (hprepared : Refuses prepared) {metadata : SessionMetadata} (params : RestartParams)
    {record : Option JsonMap} {harmed : Prop} (h : Holds metadata record ↔ ¬harmed) :
    LosesNothing metadata (relaunch w wording waited prepared metadata params record) ↔
      RelaunchSpares w (waited >>= fun _ ↦ locked w wording metadata
        (w.finishing.leaves record) >>= fun _ ↦ prepared) (w.finishing.reaps = true ∨ harmed) := by
  have hleft : Holds metadata (w.finishing.leaves record) ↔
      ¬(w.finishing.reaps = true ∨ harmed) := by
    rw [holds_leaves, h, not_or, Bool.not_eq_true]
  have hrefuses := hwaited.bind fun _ ↦ (refuses_locked w wording metadata
    (w.finishing.leaves record)).bind fun _ ↦ hprepared
  unfold relaunch RelaunchSpares
  dsimp only
  generalize (waited >>= fun _ ↦ locked w wording metadata (w.finishing.leaves record) >>=
    fun _ ↦ prepared) = claimed at hrefuses
  cases claimed with
  | error outcome =>
    obtain ⟨message, rfl⟩ := hrefuses outcome rfl
    simp only [LosesNothing, Survives, RestartOutcome.refused.injEq, forall_eq', hleft]
    simp
  | ok u => simpa using launch_losesNothing_iff w wording params hleft

/-! ### The three restarts -/

/-- A manual restart with its own options. -/
inductive RestartPath where
  | restart (yes : Bool)
  | attach (autoRestart : Bool)
  | picker
deriving DecidableEq, Repr

namespace RestartPath

/-- What a restart comes to. -/
def run (path : RestartPath) (w : RestartWorld) (seat : Seat) (name : String)
    (metadata : SessionMetadata) (record : Option JsonMap) : RestartOutcome × Left :=
  match path with
  | restart yes => Restart.restart w seat name yes metadata record
  | attach autoRestart => handleDeadSession w seat name autoRestart metadata record
  | picker => pickerRestart w seat name metadata record

/-- The answer of the steps before anything is touched. -/
def before (path : RestartPath) (w : RestartWorld) (name : String) : Except RestartOutcome Unit :=
  match path with
  | restart yes => beforeRestart w name yes
  | attach autoRestart => beforeAttach w name autoRestart
  | picker => .ok ()

/-- Whether the session is stopped first. -/
def stops (path : RestartPath) (w : RestartWorld) : Bool :=
  match path with
  | restart _ => w.running
  | attach _ | picker => false

/-- How it words what it refuses. -/
def wording (path : RestartPath) (name : String) : Wording :=
  match path with
  | restart _ => restartWording name
  | attach _ => attachWording name
  | picker => pickerWording name

/-- The answer of the wait for the old daemon. -/
def waited (path : RestartPath) (w : RestartWorld) (name : String) : Except RestartOutcome Unit :=
  match path with
  | restart _ => step (w.ownerLoss.mapError (restartWording name).error)
  | attach _ => step (w.ownerLoss.mapError (attachWording name).error)
  | picker => step w.ownerLoss

/-- The answer of the steps between the locks and the cleanup. -/
def prepared (path : RestartPath) (w : RestartWorld) : Except RestartOutcome Unit :=
  match path with
  | restart _ => step w.checkLocked >>= fun _ ↦ step w.delegate
  | attach _ | picker => preparedUnderLocks w

/-- What is launched. -/
def params (path : RestartPath) (seat : Seat) (name : String) (metadata : SessionMetadata) :
    RestartParams :=
  match path with
  | restart _ => restartParams seat name metadata
  | attach _ => attachParams seat name metadata
  | picker => pickerParams seat name metadata

/-- The answer of the steps from the wait to the cleanup. -/
def claimed (path : RestartPath) (w : RestartWorld) (name : String) (metadata : SessionMetadata)
    (record : Option JsonMap) : Except RestartOutcome Unit :=
  path.waited w name >>= fun _ ↦
    locked w (path.wording name) metadata (w.finishing.leaves record) >>= fun _ ↦ path.prepared w

variable (path : RestartPath) (w : RestartWorld) (name : String)

/-- The three restarts are one: steps before, a stop, and the relaunch. -/
theorem run_eq (seat : Seat) (metadata : SessionMetadata) (record : Option JsonMap) :
    path.run w seat name metadata record =
      match path.before w name with
      | .error outcome => (outcome, .recorded record)
      | .ok _ =>
        if path.stops w then
          match stopped w name with
          | .error outcome => (outcome, .recorded (w.stop.leaves metadata record))
          | .ok _ => relaunch w (path.wording name) (path.waited w name) (path.prepared w) metadata
              (path.params seat name metadata) (w.stop.leaves metadata record)
        else relaunch w (path.wording name) (path.waited w name) (path.prepared w) metadata
          (path.params seat name metadata) record := by
  cases path <;> rfl

private theorem refuses_waited : Refuses (path.waited w name) := by
  cases path <;> exact refuses_step _

private theorem refuses_prepared : Refuses (path.prepared w) := by
  cases path with
  | restart _ => exact (refuses_step _).bind fun _ ↦ refuses_step _
  | attach _ => exact refuses_preparedUnderLocks w
  | picker => exact refuses_preparedUnderLocks w

/-- Nothing fails once the stop or the old daemon has harmed the record, and the launch does not
fail with nothing on disk. -/
def Spares (metadata : SessionMetadata) (record : Option JsonMap) : Prop :=
  path.before w name = .ok () →
    if path.stops w then
      (stopped w name ≠ .ok () → ¬w.stop.Harms metadata) ∧
        (stopped w name = .ok () →
          RelaunchSpares w (path.claimed w name metadata (w.stop.leaves metadata record))
            (w.finishing.reaps = true ∨ w.stop.Harms metadata))
    else RelaunchSpares w (path.claimed w name metadata record) (w.finishing.reaps = true)

variable {metadata : SessionMetadata} {record : Option JsonMap}

private theorem relaunch_iff (seat : Seat) {harmed : Prop} (h : Holds metadata record ↔ ¬harmed) :
    LosesNothing metadata (relaunch w (path.wording name) (path.waited w name) (path.prepared w)
      metadata (path.params seat name metadata) record) ↔
      RelaunchSpares w (path.claimed w name metadata record)
        (w.finishing.reaps = true ∨ harmed) :=
  relaunch_losesNothing_iff (refuses_waited path w name) (refuses_prepared path w) _ h

end RestartPath

/-- A world where every step succeeds up to the launch, which fails with nothing published. -/
def unlaunched : RestartWorld where
  identityKnown := true
  running := false
  stateful := none
  checkPublication := .ok ()
  consent := .yes
  checkAnswered := .ok ()
  prepareDaemon := .ok ()
  stop := ⟨false, .ok true, ⟨none, false⟩⟩
  ownerLoss := .ok ()
  finishing := ⟨none, false⟩
  eventLock := .ok ()
  creationLock := .ok ()
  checkLocked := .ok ()
  delegate := .ok ()
  unlinked := true
  launch := ⟨none, .error "cannot create config pipe: Too many open files", none, by simp⟩

private theorem read_flapping : ∃ metadata, readMetadata (some (publicationMap flapping)) =
    some metadata := by
  obtain ⟨r, hr, -⟩ := Lifecycle.readMetadata_publicationMap (m := flapping) (fun _ ↦ rfl)
  exact ⟨r, hr⟩

private theorem matches_self {metadata : SessionMetadata} :
    metadataMatchesObservation metadata metadata = true := by
  unfold metadataMatchesObservation
  split
  · next h => simpa using h
  · exact SessionMetadata.same_refl _

end PtySpec.Cli.Restart
