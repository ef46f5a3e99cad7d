import PtySpec.Lifecycle.Respawn

/-!
# The flapping bookkeeping over runs

A run is the visits of `pty gc` to one permanent session, each of which finds the tags that
the visit before asked for. The counter of a visit is compared with the number of fast
failures that the run itself has seen.
-/

namespace PtySpec.Lifecycle

open Lib Metadata
open Events (isWhitespace)
open Registry (iso8601FromEpochMs parseIso8601Ms yearOf parseIso8601Ms_bounds
  parseIso8601Ms_iso)

/-! ### Counters in tags -/

private theorem isWhitespace_of_isDigit {c : Char} (h : c.isDigit = true) :
    isWhitespace c = false := by
  have hd : 48 ≤ c.toNat ∧ c.toNat ≤ 57 := by
    simpa [Char.isDigit, UInt32.le_iff_toNat_le] using h
  unfold isWhitespace
  simp only [Bool.or_eq_false_iff, Bool.and_eq_false_iff, decide_eq_false_iff_not]
  omega

private theorem toDigits_cons (n : Nat) :
    ∃ c cs, Nat.toDigits 10 n = c :: cs ∧ c.isDigit = true := by
  cases hd : Nat.toDigits 10 n with
  | nil => exact absurd hd Nat.toDigits_ne_nil
  | cons c cs =>
    have hc : c ∈ Nat.toDigits 10 n := hd ▸ List.mem_cons_self
    exact ⟨c, cs, rfl, Nat.isDigit_of_mem_toDigits (by decide) (by decide) hc⟩

private theorem takeWhile_toDigits (n : Nat) :
    (Nat.toDigits 10 n).takeWhile Char.isDigit = Nat.toDigits 10 n :=
  List.takeWhile_eq_self_iff.mpr fun _ hc ↦
    Nat.isDigit_of_mem_toDigits (by decide) (by decide) hc

/-- A number of an `i64` is read back from its text. -/
theorem jsParseInt_decimal {n : Int} (hl : -i64Max ≤ n) (hu : n ≤ i64Max) :
    jsParseInt (decimal n) = some n := by
  have hv : Nat.ofDigitChars 10 (Nat.toDigits 10 n.natAbs) 0 = n.natAbs :=
    Nat.ofDigitChars_toDigits (by decide) (by decide)
  have hne : Nat.toDigits 10 n.natAbs ≠ [] := Nat.toDigits_ne_nil
  unfold jsParseInt decimal
  rw [String.toList_ofList]
  by_cases hn : n < 0
  · have hw : isWhitespace '-' = false := by decide
    simp only [if_pos hn, List.dropWhile_cons, hw, Bool.false_eq_true, if_false,
      takeWhile_toDigits, if_neg hne, hv]
    rw [if_pos (by omega)]
    simp only [if_true, Option.some_inj]
    omega
  · obtain ⟨c, cs, hc, hd⟩ := toDigits_cons n.natAbs
    have hw := isWhitespace_of_isDigit hd
    have hm : c ≠ '-' ∧ c ≠ '+' := by
      constructor <;> rintro rfl <;> cases hd
    rw [if_neg hn, hc, List.dropWhile_cons_of_neg (by simp [hw])]
    split
    next neg rest he =>
      have hr : neg = false ∧ rest = c :: cs := by
        split at he <;> simp_all
      obtain ⟨rfl, rfl⟩ := hr
      rw [← hc, takeWhile_toDigits]
      simp only [if_neg hne, hv]
      rw [if_pos (by omega)]
      simp only [Bool.false_eq_true, if_false, Option.some_inj]
      omega

theorem jsParseInt_bounds {s : String} {n : Int} (h : jsParseInt s = some n) :
    -i64Max ≤ n ∧ n ≤ i64Max := by
  unfold jsParseInt at h
  split at h
  dsimp only at h
  split at h
  · cases h
  · split at h
    · cases h
      split <;> omega
    · cases h

theorem previousCounter_bounds (m : SessionMetadata) :
    -i64Max ≤ previousCounter m ∧ previousCounter m ≤ i64Max := by
  unfold previousCounter
  cases h : (m.tag "strategy.consecutive-fast-fails").bind jsParseInt with
  | none => decide
  | some n =>
    obtain ⟨s, -, hs⟩ := Option.bind_eq_some_iff.mp h
    exact jsParseInt_bounds hs

/-! ### Visits -/

/-- A visit: the record that it finds, the command that the session would be started with, the
clock and the options of `pty gc`, which are an `i64`. -/
structure Visit where
  record : SessionMetadata
  command : String
  args : List String
  nowMs : Int
  globalWindow : Option Int
  globalLimit : Option Int
  limit_le : ∀ n ∈ globalLimit, n ≤ i64Max

namespace Visit

variable (sha256 : List UInt8 → List Char)

/-- What is decided at a visit. -/
def decision (v : Visit) : FlappingDecision :=
  classifyFlapping sha256 v.record v.command v.args v.nowMs v.globalWindow v.globalLimit

/-- The window at a visit, in seconds. -/
def window (v : Visit) : Int := effectiveWindow v.record v.globalWindow

/-- The limit at a visit. -/
def limit (v : Visit) : Int := effectiveLimit v.record v.globalLimit

/-- The fingerprint of the command at a visit. -/
def fingerprint (v : Visit) : String := commandFingerprint sha256 v.command v.args

/-- The command is the same at two visits. -/
def SameCommand (v u : Visit) : Prop := v.command = u.command ∧ v.args = u.args

instance (v u : Visit) : Decidable (SameCommand v u) := inferInstanceAs (Decidable (_ ∧ _))

/-- The session respawned at the visit `u` had failed fast when the next visit `v` came: it
ended within the window after the respawn. -/
def failedFast (u v : Visit) : Bool :=
  ((v.record.field .exitedAt).bind parseIso8601Ms).any fun ended ↦
    u.nowMs ≤ ended && ended - u.nowMs < v.window * 1000

end Visit

/-- The tags of the flapping bookkeeping. -/
def bookkeepingKeys : List String :=
  ["strategy.status", "strategy.consecutive-fast-fails", "strategy.last-respawn-at",
    "strategy.command-hash"]

/-- The tags that a decision asks for are written back: a respawned session has them and no
others of the bookkeeping, one whose flap was reported has them over its own, and one that is
skipped keeps its own. -/
def WrittenBack (d : FlappingDecision) (before after : SessionMetadata) : Prop :=
  ∀ key ∈ bookkeepingKeys, after.tag key =
    match d.action with
    | .respawn => d.bookkeeping.get key
    | .flap => (d.bookkeeping.get key).or (before.tag key)
    | .skip => before.tag key

section

variable (sha256 : List UInt8 → List Char)

/-- The visits to a session, the newest first. At the first one it is not flapping. -/
inductive Run : List Visit → Prop
  | start (v : Visit) (h : v.record.tag "strategy.status" ≠ some "flapping") : Run [v]
  | visit {u : Visit} {past : List Visit} (hr : Run (u :: past)) (v : Visit)
      (h : WrittenBack (u.decision sha256) u.record v.record) : Run (v :: u :: past)

/-- How many times in a row the session has failed fast, since it last did not or since its
command changed; the first visit has the number that its tags say. -/
def fastFailures : List Visit → Int
  | [] => 0
  | [v] => (v.decision sha256).counter
  | v :: u :: past =>
    if v.SameCommand u then
      if (u.decision sha256).action = .respawn then
        if u.failedFast v then fastFailures (u :: past) + 1 else 0
      else fastFailures (u :: past)
    else 0

/-- The flap was reported at an earlier visit, and the command is still the same. -/
def flapped : List Visit → Prop
  | v :: u :: past =>
    v.SameCommand u ∧ ((u.decision sha256).action = .flap ∨ flapped (u :: past))
  | _ => False

end

/-! ### One visit -/

variable {sha256 : List UInt8 → List Char}

private theorem limit_le (v : Visit) : v.limit ≤ i64Max := by
  unfold Visit.limit effectiveLimit
  cases hp : (positiveTag v.record "strategy.fast-fail-limit").or
      (v.globalLimit.filter (0 < ·)) with
  | none => decide
  | some n =>
    rw [Option.or_eq_some_iff] at hp
    obtain hp | ⟨-, hp⟩ := hp
    · obtain ⟨s, -, hs⟩ := Option.bind_eq_some_iff.mp (Option.filter_eq_some_iff.mp hp).1
      exact (jsParseInt_bounds hs).2
    · exact v.limit_le n (Option.filter_eq_some_iff.mp hp).1

/-- What a visit comes to when it is not skipped. -/
private theorem decision_of_awake {v : Visit}
    (h : ¬(v.record.tag "strategy.status" = some "flapping" ∧
      commandChanged v.record (v.fingerprint sha256) = false)) :
    (v.decision sha256).counter = nextCounter v.record (v.fingerprint sha256) v.window ∧
      ((v.decision sha256).action = .flap ↔ v.limit ≤ (v.decision sha256).counter) ∧
      (v.decision sha256).action ≠ .skip := by
  unfold Visit.decision classifyFlapping
  dsimp only
  rw [if_neg (show ¬(v.record.tag "strategy.status" = some "flapping" ∧
    commandChanged v.record (commandFingerprint sha256 v.command v.args) = false) from h)]
  split
  · next hl =>
    refine ⟨rfl, iff_of_true rfl hl, by simp⟩
  · next hl =>
    refine ⟨rfl, iff_of_false (by simp) hl, by simp⟩

/-- What a visit comes to when it is skipped. -/
private theorem decision_of_asleep {v : Visit}
    (h : v.record.tag "strategy.status" = some "flapping" ∧
      commandChanged v.record (v.fingerprint sha256) = false) :
    (v.decision sha256).action = .skip ∧
      (v.decision sha256).counter = previousCounter v.record := by
  unfold Visit.decision classifyFlapping
  dsimp only
  rw [if_pos (show v.record.tag "strategy.status" = some "flapping" ∧
    commandChanged v.record (commandFingerprint sha256 v.command v.args) = false from h)]
  exact ⟨rfl, rfl⟩

private theorem decision_bookkeeping (v : Visit) :
    ((v.decision sha256).action = .flap → (v.decision sha256).bookkeeping =
      flapBookkeeping v.record (v.fingerprint sha256) (v.decision sha256).counter) ∧
    ((v.decision sha256).action = .respawn → (v.decision sha256).bookkeeping =
      respawnBookkeeping v.nowMs (v.fingerprint sha256) (v.decision sha256).counter) := by
  unfold Visit.decision classifyFlapping
  dsimp only
  split
  · simp
  · split
    · exact ⟨fun _ ↦ rfl, fun h ↦ by cases h⟩
    · exact ⟨fun h ↦ (by cases h), fun _ ↦ rfl⟩

private theorem counter_bounds (v : Visit) :
    -i64Max ≤ (v.decision sha256).counter ∧ (v.decision sha256).counter ≤ i64Max := by
  have hp := previousCounter_bounds v.record
  by_cases h : v.record.tag "strategy.status" = some "flapping" ∧
      commandChanged v.record (v.fingerprint sha256) = false
  · rw [(decision_of_asleep h).2]
    exact hp
  · rw [(decision_of_awake h).1]
    unfold nextCounter i64Max at *
    split
    · omega
    · split <;> omega

/-! ### From one visit to the next -/

/-- What a visit finds of the one before. -/
private structure Carried (sha256 : List UInt8 → List Char) (u v : Visit) : Prop where
  hash : v.record.tag "strategy.command-hash" = some (u.fingerprint sha256)
  previous : previousCounter v.record = (u.decision sha256).counter
  status : v.record.tag "strategy.status" = some "flapping" ↔
    (u.decision sha256).action ≠ .respawn
  start : (u.decision sha256).action = .respawn →
    v.record.tag "strategy.last-respawn-at" = some (iso8601FromEpochMs u.nowMs)

private theorem previous_of_tag {v : Visit} {n : Int} (hl : -i64Max ≤ n) (hu : n ≤ i64Max)
    (h : v.record.tag "strategy.consecutive-fast-fails" = some (decimal n)) :
    previousCounter v.record = n := by
  unfold previousCounter
  rw [h, Option.bind_some, jsParseInt_decimal hl hu]
  rfl

private theorem get_flapBookkeeping (m : SessionMetadata) (hash : String) (counter : Int) :
    (flapBookkeeping m hash counter).get "strategy.status" = some "flapping" ∧
      (flapBookkeeping m hash counter).get "strategy.consecutive-fast-fails" =
        some (decimal counter) ∧
      (flapBookkeeping m hash counter).get "strategy.command-hash" = some hash := by
  unfold flapBookkeeping
  cases m.tag "strategy.last-respawn-at" <;> simp [IndexMap.get_insert, IndexMap.get_cons]

private theorem carried {u v : Visit} (h : WrittenBack (u.decision sha256) u.record v.record)
    (hs : (u.decision sha256).action = .skip →
      u.record.tag "strategy.status" = some "flapping" ∧
        u.record.tag "strategy.command-hash" = some (u.fingerprint sha256) ∧
          (u.decision sha256).counter = previousCounter u.record) :
    Carried sha256 u v := by
  have hstatus := h "strategy.status" (by decide)
  have hcount := h "strategy.consecutive-fast-fails" (by decide)
  have hlast := h "strategy.last-respawn-at" (by decide)
  have hhash := h "strategy.command-hash" (by decide)
  obtain ⟨hl, hu⟩ : -i64Max ≤ (u.decision sha256).counter ∧ _ := counter_bounds u
  cases ha : (u.decision sha256).action with
  | respawn =>
    rw [ha, (decision_bookkeeping u).2 ha] at hstatus hcount hlast hhash
    refine ⟨hhash, previous_of_tag hl hu hcount, ?_, fun _ ↦ hlast⟩
    rw [hstatus]
    simp [respawnBookkeeping, IndexMap.get_cons, ha]
  | flap =>
    rw [ha, (decision_bookkeeping u).1 ha] at hstatus hcount hlast hhash
    obtain ⟨hb, hc, hf⟩ := get_flapBookkeeping u.record (u.fingerprint sha256)
      (u.decision sha256).counter
    simp only [hb, Option.some_or] at hstatus
    simp only [hc, Option.some_or] at hcount
    simp only [hf, Option.some_or] at hhash
    refine ⟨hhash, previous_of_tag hl hu hcount, ?_, fun h ↦ by rw [ha] at h; cases h⟩
    exact iff_of_true hstatus (by simp [ha])
  | skip =>
    obtain ⟨hfs, hfh, hfc⟩ := hs ha
    rw [ha] at hstatus hcount hhash
    refine ⟨hhash.trans hfh, ?_, ?_, fun h ↦ by rw [ha] at h; cases h⟩
    · rw [hfc]
      unfold previousCounter
      rw [hcount]
    · exact iff_of_true (hstatus.trans hfs) (by simp [ha])

/-- The recorded times of a respawn and of the exit that followed say whether it was fast. -/
private theorem wasFast_eq {u v : Visit}
    (hs : v.record.tag "strategy.last-respawn-at" = some (iso8601FromEpochMs u.nowMs))
    (hy : 0 ≤ yearOf u.nowMs ∧ yearOf u.nowMs ≤ 9999) :
    wasFast v.record v.window = u.failedFast v := by
  have hr : parseIso8601Ms (iso8601FromEpochMs u.nowMs) = some u.nowMs :=
    parseIso8601Ms_iso hy
  unfold wasFast Visit.failedFast
  rw [hs, Option.bind_some, hr]
  cases he : (v.record.field .exitedAt).bind parseIso8601Ms with
  | none => rfl
  | some ended =>
    obtain ⟨text, -, ht⟩ := Option.bind_eq_some_iff.mp he
    have hb := parseIso8601Ms_bounds ht
    have hn := parseIso8601Ms_bounds hr
    dsimp only [Option.any_some]
    unfold i64Max
    rw [Bool.eq_iff_iff, Bool.and_eq_true, Bool.and_eq_true]
    simp only [decide_eq_true_eq]
    omega

/-! ### Runs -/

/-- What holds at the newest visit of a run. -/
private structure Tracked (sha256 : List UInt8 → List Char) (v : Visit) (past : List Visit) :
    Prop where
  counter : (v.decision sha256).counter = fastFailures sha256 (v :: past)
  skip : (v.decision sha256).action = .skip ↔ flapped sha256 (v :: past)
  flap : (v.decision sha256).action = .flap ↔
    ¬flapped sha256 (v :: past) ∧ v.limit ≤ (v.decision sha256).counter
  asleep : (v.decision sha256).action = .skip →
    v.record.tag "strategy.status" = some "flapping" ∧
      v.record.tag "strategy.command-hash" = some (v.fingerprint sha256) ∧
        (v.decision sha256).counter = previousCounter v.record

private theorem tracked_start {v : Visit}
    (h : v.record.tag "strategy.status" ≠ some "flapping") : Tracked sha256 v [] := by
  obtain ⟨-, hflap, hskip⟩ := @decision_of_awake sha256 v fun hs ↦ h hs.1
  exact ⟨rfl, iff_of_false hskip id, by simp [flapped, hflap], fun hs ↦ absurd hs hskip⟩

private theorem tracked_visit {u v : Visit} {past : List Visit} (ht : Tracked sha256 u past)
    (hw : WrittenBack (u.decision sha256) u.record v.record)
    (hy : 0 ≤ yearOf u.nowMs ∧ yearOf u.nowMs ≤ 9999)
    (hf : v.fingerprint sha256 = u.fingerprint sha256 → v.SameCommand u) :
    Tracked sha256 v (u :: past) := by
  have hc := carried hw ht.asleep
  have hsame : commandChanged v.record (v.fingerprint sha256) = false ↔ v.SameCommand u := by
    unfold commandChanged
    rw [hc.hash]
    constructor
    · intro h
      exact hf (by simpa using h.symm : u.fingerprint sha256 = v.fingerprint sha256).symm
    · intro h
      simp [Visit.fingerprint, h.1, h.2]
  have hslept : (u.decision sha256).action ≠ .respawn ↔
      (u.decision sha256).action = .flap ∨ flapped sha256 (u :: past) := by
    rw [← ht.skip]
    cases (u.decision sha256).action <;> simp
  by_cases ha : v.record.tag "strategy.status" = some "flapping" ∧
      commandChanged v.record (v.fingerprint sha256) = false
  · obtain ⟨hskip, hcount⟩ := decision_of_asleep ha
    have hs := hsame.mp ha.2
    have hr := hc.status.mp ha.1
    have hfl : flapped sha256 (v :: u :: past) := ⟨hs, hslept.mp hr⟩
    refine ⟨?_, iff_of_true hskip hfl, iff_of_false (by simp [hskip]) (fun h ↦ h.1 hfl), ?_⟩
    · rw [hcount, hc.previous, ht.counter, fastFailures.eq_3, if_pos hs, if_neg hr]
    · intro _
      refine ⟨ha.1, ?_, hcount⟩
      rw [hc.hash, Visit.fingerprint, Visit.fingerprint, hs.1, hs.2]
  · obtain ⟨hcount, hflap, hskip⟩ := decision_of_awake ha
    have hnf : ¬flapped sha256 (v :: u :: past) := by
      intro hfl
      exact ha ⟨hc.status.mpr (hslept.mpr hfl.2), hsame.mpr hfl.1⟩
    refine ⟨?_, iff_of_false hskip hnf, hflap.trans (and_iff_right hnf).symm,
      fun h ↦ absurd h hskip⟩
    rw [hcount, nextCounter, fastFailures.eq_3]
    by_cases hs : v.SameCommand u
    · have hch := hsame.mpr hs
      have hr : (u.decision sha256).action = .respawn := by
        by_contra hr
        exact ha ⟨hc.status.mpr hr, hch⟩
      -- the limit was not reached, so the counter is below the largest `i64`
      have hlt : (u.decision sha256).counter < i64Max := by
        have hl := limit_le u
        have hnot : ¬u.limit ≤ (u.decision sha256).counter := by
          intro hle
          have hnskip : ¬flapped sha256 (u :: past) := fun h ↦ by
            have := ht.skip.mpr h
            rw [hr] at this
            cases this
          have := ht.flap.mpr ⟨hnskip, hle⟩
          rw [hr] at this
          cases this
        omega
      rw [hch, if_neg (by simp), if_pos hs, if_pos hr, wasFast_eq (hc.start hr) hy, hc.previous,
        ← ht.counter]
      have hm : min ((u.decision sha256).counter + 1) i64Max = (u.decision sha256).counter + 1 :=
        min_eq_left (by omega)
      rw [hm]
    · have hch : commandChanged v.record (v.fingerprint sha256) = true := by
        rw [← Bool.not_eq_false]
        exact fun h ↦ hs (hsame.mp h)
      rw [hch, if_pos rfl, if_neg hs]

private theorem tracked_of_run {v : Visit} {past : List Visit} (hr : Run sha256 (v :: past))
    (hy : ∀ u ∈ past, 0 ≤ yearOf u.nowMs ∧ yearOf u.nowMs ≤ 9999)
    (hf : (v :: past).IsChain fun w u ↦
      w.fingerprint sha256 = u.fingerprint sha256 → w.SameCommand u) :
    Tracked sha256 v past := by
  generalize hl : v :: past = visits at hr
  induction hr generalizing v past with
  | start u h =>
    cases hl
    exact tracked_start h
  | visit hr w hw ih =>
    cases hl
    rw [List.isChain_cons_cons] at hf
    exact tracked_visit (ih (fun x hx ↦ hy x (List.mem_cons_of_mem _ hx)) hf.2 rfl) hw
      (hy _ List.mem_cons_self) hf.1

/-- At every visit of a run the counter is the number of fast failures in a row, the session
is skipped exactly when its flap was reported and its command has not changed since, and the
flap is reported exactly when it is not skipped and the counter has reached the limit; this
is so when the fingerprint tells the commands of successive visits apart, and the clock shows
a year of at most four digits. -/
theorem flapping_run {v : Visit} {past : List Visit} (hr : Run sha256 (v :: past))
    (hy : ∀ u ∈ past, 0 ≤ yearOf u.nowMs ∧ yearOf u.nowMs ≤ 9999)
    (hf : (v :: past).IsChain fun w u ↦
      w.fingerprint sha256 = u.fingerprint sha256 → w.SameCommand u) :
    (v.decision sha256).counter = fastFailures sha256 (v :: past) ∧
      ((v.decision sha256).action = .flap ↔
        ¬flapped sha256 (v :: past) ∧ v.limit ≤ (v.decision sha256).counter) ∧
      ((v.decision sha256).action = .skip ↔ flapped sha256 (v :: past)) := by
  have ht := tracked_of_run hr hy hf
  exact ⟨ht.counter, ht.flap, ht.skip⟩

/-! ### The tags are written back -/

/-- Whether the visit came to a decision and carried it out. -/
def PermanentOutcome.settled : PermanentOutcome → Bool
  | .respawned _ | .flapped .. | .skippedFlapping => true
  | .failed _ | .stale => false

private theorem nodup_flapBookkeeping (m : SessionMetadata) (hash : String) (counter : Int) :
    (flapBookkeeping m hash counter).keys.Nodup := by
  unfold flapBookkeeping
  have hn : (IndexMap.keys [("strategy.status", "flapping"),
      ("strategy.consecutive-fast-fails", decimal counter),
      ("strategy.command-hash", hash)]).Nodup := by
    change List.Nodup ["strategy.status", "strategy.consecutive-fast-fails",
      "strategy.command-hash"]
    decide
  cases m.tag "strategy.last-respawn-at" with
  | none => exact hn
  | some last => exact IndexMap.nodup_insert hn _ _

private theorem nodup_bookkeeping (m : SessionMetadata) (command : String)
    (args : List String) (nowMs : Int) (globalWindow globalLimit : Option Int) :
    (classifyFlapping sha256 m command args nowMs globalWindow
      globalLimit).bookkeeping.keys.Nodup := by
  unfold classifyFlapping
  dsimp only
  split
  · exact List.nodup_nil
  · split
    · exact nodup_flapBookkeeping _ _ _
    · change List.Nodup ["strategy.last-respawn-at", "strategy.consecutive-fast-fails",
        "strategy.command-hash"]
      decide

private theorem status_respawnParams {readPtyFile : String → Option PtyFile}
    {terminal : UInt16 × UInt16} {name : String} {current : SessionMetadata}
    {params : SpawnParams} {reread : Bool}
    (h : respawnParams readPtyFile terminal name current = .ok (params, reread)) :
    params.tags.get "strategy.status" = none := by
  have hr : ∀ tags : TagMap, (tags.remove "strategy.status").get "strategy.status" = none := by
    intro tags
    rw [IndexMap.get_remove, if_pos rfl]
  unfold respawnParams at h
  dsimp only at h
  split at h
  · cases h
    exact hr _
  · split at h
    · cases h
    · cases h
      exact hr _

/-- What is left when a session was respawned: the record of the new daemon. -/
private theorem tag_of_respawned {s : Surroundings} {current : SessionMetadata}
    {params : SpawnParams} {record : Option JsonMap} {after : SessionMetadata}
    (hres : s.launch.result = .ok ())
    (ha : readMetadata (cleanupAndSpawn s current params record).2 = some after) (key : String) :
    after.tag key = params.tags.get key := by
  obtain ⟨b, hb⟩ : ∃ b, (cleanupAndSpawn s current params record).2 =
      some (publicationMap (published params b)) := by
    unfold cleanupAndSpawn
    simp only [hres]
    cases s.launch.late with
    | some b => exact ⟨b, rfl⟩
    | none =>
      obtain ⟨b, hb⟩ := Option.isSome_iff_exists.mp (s.launch.published hres)
      exact ⟨b, by rw [hb]⟩
  obtain ⟨r, hr, -, -, ht⟩ := readMetadata_publicationMap (m := published params b) (fun _ ↦ rfl)
  rw [hb, hr] at ha
  cases ha
  exact (ht key).trans (tag_published params b key)

/-- The record of a session whose flap was reported. -/
def reported : JsonMap :=
  [("generation", .string "g"), ("tags", .object [("strategy", .string "permanent"),
    ("strategy.status", .string "flapping"), ("strategy.command-hash", .string "")])]

/-- The surroundings of that session: its locks are free and its daemon is gone. -/
def reportedSurroundings : Surroundings where
  eventLock := true
  creationLock := true
  ownerLost := true
  readPtyFile _ := none
  terminal := (24, 80)
  checkPublication _ := .ok ()
  nowMs := 2000
  writeFlap := true
  daemonExecutable := true
  prepareDaemon _ := .ok ()
  resolveCommand _ := .ok ()
  delegate := .ok ()
  unlinked := true
  launch := ⟨none, .error "unused", none, fun h ↦ by cases h⟩
  writeRetry := true

/-- The record of a session that ran for a second, with a limit of one. -/
def crashed : JsonMap :=
  [("exitedAt", .string "1970-01-01T00:00:01.000Z"),
    ("tags", .object [("strategy", .string "permanent"), ("strategy.fast-fail-limit", .string "1"),
      ("strategy.last-respawn-at", .string "1970-01-01T00:00:00.000Z")])]

/-- What `crashed` reads as. -/
def crashedMeta : SessionMetadata := (SessionMetadata.fromMap crashed).get (by decide)

/-- The visit that reports the flap. -/
def flapVisit : Visit := ⟨crashedMeta, "serve", [], 2000, none, none, by simp⟩

/-- The visit after it, when the session has other arguments. -/
def laterVisit (sha256 : List UInt8 → List Char) (args : List String) : Visit :=
  ⟨withBookkeeping crashedMeta (flapVisit.decision sha256).bookkeeping, "serve", args, 3000, none,
    none, by simp⟩

private theorem status_crashed : crashedMeta.tag "strategy.status" = none := by rfl

private theorem hash_crashed : crashedMeta.tag "strategy.command-hash" = none := by rfl

private theorem flapVisit_action : (flapVisit.decision sha256).action = .flap := by
  obtain ⟨hc, hf, -⟩ := @decision_of_awake sha256 flapVisit
    (fun h ↦ by
      rw [show flapVisit.record = crashedMeta from rfl, status_crashed] at h
      cases h.1)
  rw [hf, hc, nextCounter]
  have hch : commandChanged flapVisit.record (flapVisit.fingerprint sha256) = false := by
    rw [commandChanged, show flapVisit.record = crashedMeta from rfl, hash_crashed]
    rfl
  have hw : wasFast flapVisit.record flapVisit.window = true := by decide
  rw [hch, hw]
  decide

private theorem run_laterVisit (args : List String) :
    Run sha256 [laterVisit sha256 args, flapVisit] := by
  refine .visit (.start flapVisit ?_) _ fun key _ ↦ ?_
  · rw [show flapVisit.record = crashedMeta from rfl, status_crashed]
    simp
  · rw [flapVisit_action]
    exact tag_withBookkeeping (nodup_bookkeeping ..) key

/-- One empty argument has the fingerprint of no argument, so the change from the one to the
other leaves the session skipped. -/
theorem flapping_run_refuted :
    ¬ ∃ sha256 : List UInt8 → List Char, ∀ (v : Visit) (past : List Visit),
      Run sha256 (v :: past) →
      (∀ u ∈ past, 0 ≤ yearOf u.nowMs ∧ yearOf u.nowMs ≤ 9999) →
      ((v.decision sha256).action = .skip ↔ flapped sha256 (v :: past)) := by
  rintro ⟨sha256, h⟩
  have hs := h (laterVisit sha256 [""]) [flapVisit] (run_laterVisit [""]) (by decide)
  have hb := (@decision_bookkeeping sha256 flapVisit).1 flapVisit_action
  obtain ⟨hst, -, hha⟩ := get_flapBookkeeping flapVisit.record (flapVisit.fingerprint sha256)
    (flapVisit.decision sha256).counter
  have ht : ∀ key, (laterVisit sha256 [""]).record.tag key =
      ((flapVisit.decision sha256).bookkeeping.get key).or (crashedMeta.tag key) :=
    fun key ↦ tag_withBookkeeping (nodup_bookkeeping ..) key
  have hskip : ((laterVisit sha256 [""]).decision sha256).action = .skip := by
    refine (decision_of_asleep ⟨?_, ?_⟩).1
    · rw [ht, hb, hst, Option.some_or]
    · rw [commandChanged, ht, hb, hha, Option.some_or]
      have hi : fingerprintInput "serve" [] = fingerprintInput "serve" [""] := by decide
      have hfp : flapVisit.fingerprint sha256 = (laterVisit sha256 [""]).fingerprint sha256 :=
        congrArg (fun input ↦ String.ofList ((sha256 input).take 16)) hi
      rw [hfp]
      simp
  have hfl := (hs.mp hskip).1.2
  cases hfl

/-- The session of `flapVisit` with its command unchanged. -/
theorem flapping_run_crashed :
    (((laterVisit (fun _ ↦ []) []).decision fun _ ↦ []).action = .skip ↔
      flapped (fun _ ↦ []) [laterVisit (fun _ ↦ []) [], flapVisit]) :=
  (@flapping_run (fun _ ↦ []) _ _ (run_laterVisit []) (by decide) (by
    rw [List.isChain_pair]
    exact fun _ ↦ ⟨rfl, rfl⟩)).2.2

end PtySpec.Lifecycle
