import PtySpec.Metadata.Activity

/-!
# Whose output is reported

A session's record and sidecar under the daemons that write them, the cleanup and launch of a
replacement, and readers. What a reader reports was written by the generation that its record
names, or is the record's own; no daemon touches the sidecar of a later one; and the stamps of
one generation do not go back as long as none of its readers loses the sidecar between its two
reads.
-/

namespace PtySpec.Metadata

open Lib SessionMetadata

/-- How far the process with the lock has come. -/
inductive Section where
  | publish (a : OutputActivity)
  | write (a : OutputActivity)
  | exit (g : String) (facts : ExitFacts)
  | store (g : String) (after : SessionMetadata)
  | retire (g : String)
  | clean
  | cleaned
  | launch

/-- How far a reader has come: `past` is how many reports there were when it began. -/
inductive Reader where
  | idle
  | begun (past : Nat)
  | read (past : Nat) (m : SessionMetadata)

/-- What a reader reported of the record that it had read. -/
structure Report where
  past : Nat
  record : SessionMetadata
  stamp : Option Int64

/-- The two files, the section under way, the generations in the order of their launches, the
newest stamp of each daemon and whether its child has exited, the readers, what was written to
the sidecar and what was reported. -/
structure Site where
  record : Option SessionMetadata
  sidecar : Option OutputActivity
  holder : Option Section
  launched : List String
  newest : String → Option Int64
  exited : String → Bool
  readers : Nat → Reader
  written : List OutputActivity
  reports : List Report

namespace Site

/-- A name without a session. -/
def start : Site := ⟨none, none, none, [], fun _ ↦ none, fun _ ↦ false, fun _ ↦ .idle, [], []⟩

/-- With another progress of one reader. -/
def setReader (s : Site) (n : Nat) (r : Reader) : Site :=
  { s with readers := Function.update s.readers n r }

/-- One step of a daemon, a launcher or a reader. -/
inductive Step (s : Site) : Site → Prop
  -- `stamp_output_activity`, `lifecycle.rs:1181`
  | stamp (g : String) (x : Int64) (hg : g ∈ s.launched) :
    Step s { s with newest := Function.update s.newest g (some x) }
  | exits (g : String) : Step s { s with exited := Function.update s.exited g true }
  -- `persist_output_activity`, `lifecycle.rs:1195`, and `publish_output_activity`
  | publish (g : String) (x : Int64) (hh : s.holder = none) (he : s.exited g = false)
      (hn : s.newest g = some x) :
    Step s { s with holder := some (.publish ⟨g, x⟩) }
  | check (a : OutputActivity) (hh : s.holder = some (.publish a)) :
    Step s { s with holder :=
      match checkRecord (ownedBy a.generation) (fun _ ↦ none) s.record with
      | .ok _ => some (.write a)
      | .error _ => none }
  | write (a : OutputActivity) (hh : s.holder = some (.write a)) :
    Step s { s with sidecar := some a, written := s.written ++ [a], holder := none }
  -- `record_exit_retiring_output_activity`, `activity.rs:79`
  | exit (g : String) (facts : ExitFacts) (hh : s.holder = none) (he : s.exited g = true)
      (hl : facts.lastOutput = s.newest g) :
    Step s { s with holder := some (.exit g facts) }
  | checkExit (g : String) (facts : ExitFacts) (hh : s.holder = some (.exit g facts)) :
    Step s { s with holder :=
      match checkRecord (ownedBy g) facts.mutate s.record with
      | .ok (_, none) => some (.retire g)
      | .ok (_, some after) => some (.store g after)
      | .error _ => none }
  | store (g : String) (after : SessionMetadata) (hh : s.holder = some (.store g after)) :
    Step s { s with record := some after, holder := some (.retire g) }
  | retire (g : String) (hh : s.holder = some (.retire g)) :
    Step s { s with sidecar := none, holder := none }
  -- `cleanup_all_while_locked`, `cleanup.rs:30`, and the new daemon's record
  | clean (hh : s.holder = none) : Step s { s with holder := some .clean }
  | remove (hh : s.holder = some .clean) :
    Step s { s with record := none, holder := some .cleaned }
  | unlink (hh : s.holder = some .cleaned) :
    Step s { s with sidecar := none, holder := some .launch }
  | launch (g : String) (m : SessionMetadata)
      (hh : s.holder = some .cleaned ∨ s.holder = some .launch) (hg : g ∉ s.launched)
      (hm : m.generation = some g) (he : m.hasExited = false)
      (hl : m.lastOutputAtMs = none) :
    Step s { s with record := some m, launched := s.launched ++ [g], holder := none }
  -- a section that ends early: a write or an unlink that fails, no launch, a process that dies
  | leave : Step s { s with holder := none }
  -- a mutation of anything else
  | edit (m m' : SessionMetadata) (hh : s.holder = none) (hr : s.record = some m)
      (hg : m'.generation = m.generation) (he : m'.hasExited = m.hasExited)
      (hl : m'.lastOutputAtMs = m.lastOutputAtMs) :
    Step s { s with record := some m' }
  | begin (n : Nat) (hn : s.readers n = .idle) : Step s (s.setReader n (.begun s.reports.length))
  | miss (n : Nat) (past : Nat) (hn : s.readers n = .begun past) (hr : s.record = none) :
    Step s (s.setReader n .idle)
  | read (n : Nat) (past : Nat) (m : SessionMetadata) (hn : s.readers n = .begun past)
      (hr : s.record = some m) :
    Step s (s.setReader n (.read past m))
  | answer (n : Nat) (past : Nat) (m : SessionMetadata) (hn : s.readers n = .read past m) :
    Step s { s.setReader n .idle with
      reports := s.reports ++ [⟨past, m, lastOutputAtMsIn m s.sidecar⟩] }

/-- Sites reached from a name without a session. -/
abbrev Reached : Site → Prop := Relation.ReflTransGen Step start

/-! ### What is written, and by whom -/

/-- What the process with the lock knows of the record. -/
def Knows (record : Option SessionMetadata) : Section → Prop
  | .write a => ∃ m, record = some m ∧ m.generation = some a.generation
  | .store g after =>
    (∃ m, record = some m ∧ m.generation = some g) ∧ after.generation = some g ∧
      after.hasExited = true
  | .retire g => ∃ m, record = some m ∧ m.generation = some g ∧ m.hasExited = true
  | .cleaned | .launch => record = none
  | _ => True

/-- What a report credits is the record's own stamp, or was written by the generation that the
record names. -/
def Credits (written : List OutputActivity) (r : Report) : Prop :=
  ∀ v, r.stamp = some v → r.record.lastOutputAtMs = some v ∨
    ∃ a ∈ written, r.record.generation = some a.generation ∧ a.lastOutputAtMs = v

/-- The record is of the last generation that was launched, and the sidecar of one of them. -/
structure Inv (s : Site) : Prop where
  nodup : s.launched.Nodup
  current : ∀ m, s.record = some m →
    ∃ pre g, s.launched = pre ++ [g] ∧ m.generation = some g
  knows : ∀ c, s.holder = some c → Knows s.record c
  sidecar : ∀ a, s.sidecar = some a → a ∈ s.written
  written : ∀ a ∈ s.written, a.generation ∈ s.launched
  credits : ∀ r ∈ s.reports, Credits s.written r

theorem inv_start : Inv start where
  nodup := List.nodup_nil
  current _ h := nomatch h
  knows _ h := nomatch h
  sidecar _ h := nomatch h
  written _ h := nomatch h
  credits _ h := nomatch h

variable {s t : Site}

private theorem mem_launched_of_current (h : Inv s) {m : SessionMetadata} {g : String}
    (hr : s.record = some m) (hg : m.generation = some g) : g ∈ s.launched := by
  obtain ⟨pre, g', hl, hg'⟩ := h.current m hr
  obtain rfl := Option.some.inj (hg.symm.trans hg')
  rw [hl]
  exact List.mem_append_right _ List.mem_cons_self

private theorem Credits.mono {l k : List OutputActivity} {r : Report} (h : Credits l r) :
    Credits (l ++ k) r := fun v hv ↦
  (h v hv).imp_right fun ⟨a, ha, hg⟩ ↦ ⟨a, List.mem_append_left k ha, hg⟩

/-- What a reader reports is the record's own stamp unless the record is running and the
sidecar its generation's. -/
theorem lastOutputAtMsIn_cases (m : SessionMetadata) (sidecar : Option OutputActivity) :
    lastOutputAtMsIn m sidecar = m.lastOutputAtMs ∨
      ∃ a, sidecar = some a ∧ m.hasExited = false ∧ m.generation = some a.generation ∧
        lastOutputAtMsIn m sidecar = some a.lastOutputAtMs := by
  unfold lastOutputAtMsIn newestOutputAtMs
  cases he : m.hasExited with
  | true => exact .inl rfl
  | false =>
    cases sidecar with
    | none => exact .inl rfl
    | some a =>
      by_cases hg : m.generation = some a.generation
      · exact .inr ⟨a, rfl, rfl, hg, by simp [hg]⟩
      · exact .inl (by simp [hg])

/-- Each step keeps the invariant. -/
theorem Step.inv (hs : Step s t) (h : Inv s) : Inv t := by
  cases hs with
  | stamp g x hg => exact { h with }
  | exits g => exact { h with }
  | publish g x hh he hn =>
    exact { h with knows := fun c hc ↦ by cases hc; trivial }
  | check a hh =>
    refine { h with knows := fun c hc ↦ ?_ }
    dsimp only at hc
    split at hc
    · next before _ hk =>
      cases hc
      obtain ⟨hr, hg, -⟩ := checkRecord_ok hk
      exact ⟨_, hr, generation_of_ownedBy hg⟩
    · cases hc
  | write a hh =>
    obtain ⟨m, hr, hg⟩ := h.knows _ hh
    exact { h with
      knows := fun c hc ↦ nomatch hc
      sidecar := fun b hb ↦ by
        cases hb
        exact List.mem_append_right _ List.mem_cons_self
      written := fun b hb ↦ by
        obtain hb | hb := List.mem_append.mp hb
        · exact h.written b hb
        · obtain rfl := List.mem_singleton.mp hb
          exact mem_launched_of_current h hr hg
      credits := fun r hr ↦ (h.credits r hr).mono }
  | exit g facts hh he hl =>
    exact { h with knows := fun c hc ↦ by cases hc; trivial }
  | checkExit g facts hh =>
    refine { h with knows := fun c hc ↦ ?_ }
    dsimp only at hc
    split at hc
    · next before hk =>
      cases hc
      obtain ⟨hr, hg, hm⟩ := checkRecord_ok hk
      exact ⟨before, hr, generation_of_ownedBy hg, (ExitFacts.mutate_eq_none hm).1⟩
    · next before after hk =>
      cases hc
      obtain ⟨hr, hg, hm⟩ := checkRecord_ok hk
      have hg := generation_of_ownedBy hg
      refine ⟨⟨before, hr, hg⟩, ?_, ?_⟩ <;> rw [ExitFacts.mutate_eq_some hm]
      · exact hg
      · exact facts.hasExited_recorded before
    · cases hc
  | store g after hh =>
    obtain ⟨⟨m, hr, hg⟩, hga, hea⟩ := h.knows _ hh
    exact { h with
      current := fun k hk ↦ by
        cases hk
        obtain ⟨pre, g', hl, hg'⟩ := h.current m hr
        exact ⟨pre, g', hl, (hga.trans hg.symm).trans hg'⟩
      knows := fun c hc ↦ by
        cases hc
        exact ⟨after, rfl, hga, hea⟩ }
  | retire g hh =>
    exact { h with
      knows := fun c hc ↦ nomatch hc
      sidecar := fun b hb ↦ nomatch hb }
  | clean hh => exact { h with knows := fun c hc ↦ by cases hc; trivial }
  | remove hh =>
    exact { h with
      current := fun m hm ↦ nomatch hm
      knows := fun c hc ↦ by
        cases hc
        rfl }
  | unlink hh =>
    have hk := h.knows _ hh
    exact { h with
      knows := fun c hc ↦ by
        cases hc
        exact hk
      sidecar := fun b hb ↦ nomatch hb }
  | launch g m hh hg hm he hl =>
    exact { h with
      nodup := List.nodup_append.mpr ⟨h.nodup, List.nodup_singleton g, fun a ha b hb hab ↦
        hg (by rw [← List.mem_singleton.mp hb, ← hab]; exact ha)⟩
      current := fun k hk ↦ by
        cases hk
        exact ⟨s.launched, g, rfl, hm⟩
      knows := fun c hc ↦ nomatch hc
      written := fun a ha ↦ List.mem_append_left _ (h.written a ha) }
  | leave => exact { h with knows := fun c hc ↦ nomatch hc }
  | edit m m' hh hr hg he hl =>
    exact { h with
      current := fun k hk ↦ by
        cases hk
        rw [hg]
        exact h.current m hr
      knows := fun c hc ↦ by
        change s.holder = some c at hc
        rw [hh] at hc
        cases hc }
  | begin n hn => exact { h with }
  | miss n past hn hr => exact { h with }
  | read n past m hn hr => exact { h with }
  | answer n past m hn =>
    refine { h with credits := fun r hr ↦ ?_ }
    obtain hr | hr := List.mem_append.mp hr
    · exact h.credits r hr
    · obtain rfl := List.mem_singleton.mp hr
      intro v hv
      obtain ho | ⟨a, ha, -, hg, ho⟩ := lastOutputAtMsIn_cases m s.sidecar
      · exact .inl (ho.symm.trans hv)
      · exact .inr ⟨a, h.sidecar a ha, hg, Option.some.inj (ho.symm.trans hv)⟩

/-- Every reached site has the invariant. -/
theorem inv_of_reached (h : Reached s) : Inv s := by
  induction h with
  | refl => exact inv_start
  | tail _ hs ih => exact hs.inv ih

/-! ### The stamps of one generation -/

/-- A stamp is at most another, which is there. -/
def AtMost (v : Int64) (o : Option Int64) : Prop := ∃ w, o = some w ∧ v.toInt ≤ w.toInt

theorem AtMost.trans {v w : Int64} {o : Option Int64} (h : v.toInt ≤ w.toInt)
    (hw : AtMost w o) : AtMost v o := by
  obtain ⟨x, hx, hle⟩ := hw
  exact ⟨x, hx, h.trans hle⟩

theorem AtMost.bind {v : Int64} {o p : Option Int64} (h : AtMost v o)
    (hp : ∀ w, o = some w → AtMost w p) : AtMost v p := by
  obtain ⟨w, hw, hle⟩ := h
  exact (hp w hw).trans hle

/-- The stamp is in the sidecar of the generation, or a newer one. -/
def InSidecar (g : String) (sidecar : Option OutputActivity) (v : Int64) : Prop :=
  ∃ x, sidecar = some ⟨g, x⟩ ∧ v.toInt ≤ x.toInt

/-- A stamp of the generation is not lost: as long as the record is the generation's, a running
one has it in the sidecar and an exited one itself, or a newer one. -/
def Kept (record : Option SessionMetadata) (sidecar : Option OutputActivity) (g : String)
    (v : Int64) : Prop :=
  ∀ m, record = some m → m.generation = some g →
    (m.hasExited = false → InSidecar g sidecar v) ∧
      (m.hasExited = true → AtMost v m.lastOutputAtMs)

/-- A stamp of the generation was reported by one of the first readers to answer. -/
def Reported (reports : List Report) (g : String) (past : Nat) (v : Int64) : Prop :=
  ∃ r ∈ reports.take past, r.record.generation = some g ∧ r.stamp = some v

/-- A step in which the generation's stamps do not go back. -/
structure Forward (g : String) (s t : Site) : Prop where
  step : Step s t
  stamps : ∀ x, s.newest g = some x → AtMost x (t.newest g)

/-- A step in which, besides, a reader that has read the generation's running record does not
lose its sidecar. -/
structure Careful (g : String) (s t : Site) : Prop extends Forward g s t where
  sidecar : ∀ n past m, s.readers n = .read past m → m.generation = some g →
    m.hasExited = false → ∀ x, s.sidecar = some ⟨g, x⟩ → ∃ y, t.sidecar = some ⟨g, y⟩

/-- Sites reached by careful steps. -/
abbrev CarefullyReached (g : String) : Site → Prop := Relation.ReflTransGen (Careful g) start

/-- A stamp that is at least what the sidecar and the record have of the generation, and at
most the newest that its daemon has seen. -/
structure Between (record : Option SessionMetadata) (sidecar : Option OutputActivity)
    (newest : Option Int64) (g : String) (o : Option Int64) : Prop where
  sidecar : ∀ x, sidecar = some ⟨g, x⟩ → AtMost x o
  record : ∀ m z, record = some m → m.generation = some g → m.lastOutputAtMs = some z →
    AtMost z o
  newest : ∀ y, o = some y → AtMost y newest

/-- The stamps of the process with the lock. -/
def Carries (record : Option SessionMetadata) (sidecar : Option OutputActivity)
    (newest : Option Int64) (exited : Bool) (g : String) : Section → Prop
  | .publish a | .write a => a.generation = g →
    Between record sidecar newest g (some a.lastOutputAtMs) ∧
      ∀ m, record = some m → m.generation = some g → m.hasExited = false
  | .exit h facts => h = g → Between record sidecar newest g facts.lastOutput ∧ exited = true
  | .store h after => h = g →
    Between record sidecar newest g after.lastOutputAtMs ∧ exited = true
  | _ => True

/-- What a reader that has read the record of the generation can rely on. -/
structure Relies (record : Option SessionMetadata) (sidecar : Option OutputActivity)
    (launched : List String) (reports : List Report) (g : String) (past : Nat)
    (m : SessionMetadata) : Prop where
  launched : g ∈ launched
  running : m.hasExited = false → m.lastOutputAtMs = none ∧
    ∀ v, Reported reports g past v → InSidecar g sidecar v
  exited : m.hasExited = true →
    (∀ z, m.lastOutputAtMs = some z → Kept record sidecar g z) ∧
      ∀ v, Reported reports g past v → AtMost v m.lastOutputAtMs

/-- What a record of the generation has: none while it runs, and what the sidecar had after. -/
def Owns (sidecar : Option OutputActivity) (exited : Bool) (g : String) (m : SessionMetadata) :
    Prop :=
  (m.hasExited = false → m.lastOutputAtMs = none) ∧
    (m.hasExited = true → exited = true ∧
      ∀ x, sidecar = some ⟨g, x⟩ → AtMost x m.lastOutputAtMs)

/-- A report does not lose or go behind what was reported before its reader began. -/
def NotBehind (reports : List Report) (g : String) (r : Report) : Prop :=
  r.record.generation = some g → ∀ v, Reported reports g r.past v → AtMost v r.stamp

/-- What holds of a generation's stamps in runs of careful steps. -/
structure Steady (s : Site) (g : String) : Prop where
  newest : Between s.record s.sidecar (s.newest g) g (s.newest g)
  carries : ∀ c, s.holder = some c →
    Carries s.record s.sidecar (s.newest g) (s.exited g) g c
  own : ∀ m, s.record = some m → m.generation = some g → Owns s.sidecar (s.exited g) g m
  begun : ∀ n past, s.readers n = .begun past → past ≤ s.reports.length
  past : ∀ n past m, s.readers n = .read past m → past ≤ s.reports.length
  relies : ∀ n past m, s.readers n = .read past m → m.generation = some g →
    Relies s.record s.sidecar s.launched s.reports g past m
  launched : ∀ r ∈ s.reports, r.record.generation = some g → g ∈ s.launched
  kept : ∀ r ∈ s.reports, r.record.generation = some g → ∀ v, r.stamp = some v →
    Kept s.record s.sidecar g v
  pasts : ∀ r ∈ s.reports, r.past ≤ s.reports.length
  steady : ∀ r ∈ s.reports, NotBehind s.reports g r

variable {g : String}

theorem steady_start (g : String) : Steady start g where
  newest := ⟨fun _ h ↦ (nomatch h), fun _ _ h ↦ (nomatch h), fun _ h ↦ (nomatch h)⟩
  carries _ h := nomatch h
  own _ h := nomatch h
  begun _ _ h := nomatch h
  past _ _ _ h := nomatch h
  relies _ _ _ h := nomatch h
  launched _ h := nomatch h
  kept _ h := nomatch h
  pasts _ h := nomatch h
  steady _ h := nomatch h

section
variable {record : Option SessionMetadata} {sidecar : Option OutputActivity}
  {newest newest' o : Option Int64} {c : Section}

private theorem Between.of_le (h : Between record sidecar newest g o)
    (hx : ∀ y, newest = some y → AtMost y newest') : Between record sidecar newest' g o :=
  ⟨h.sidecar, h.record, fun y hy ↦ (h.newest y hy).bind hx⟩

private theorem Carries.of_le {exited exited' : Bool}
    (h : Carries record sidecar newest exited g c)
    (hx : ∀ y, newest = some y → AtMost y newest') (he : exited = true → exited' = true) :
    Carries record sidecar newest' exited' g c := by
  cases c with
  | publish a => exact fun hg ↦ ⟨(h hg).1.of_le hx, (h hg).2⟩
  | write a => exact fun hg ↦ ⟨(h hg).1.of_le hx, (h hg).2⟩
  | exit k facts => exact fun hg ↦ ⟨(h hg).1.of_le hx, he (h hg).2⟩
  | store k after => exact fun hg ↦ ⟨(h hg).1.of_le hx, he (h hg).2⟩
  | _ => trivial

end

/-- The daemon's stamps grow. -/
private theorem Steady.stamp {x : String → Option Int64} (h : Steady s g)
    (hx : ∀ y, s.newest g = some y → AtMost y (x g)) :
    Steady { s with newest := x } g :=
  { h with
    newest := ⟨fun y hy ↦ (h.newest.sidecar y hy).bind hx,
      fun m z hm hg hz ↦ (h.newest.record m z hm hg hz).bind hx,
      fun y hy ↦ ⟨y, hy, le_rfl⟩⟩
    carries := fun c hc ↦ (h.carries c hc).of_le hx id }

/-- A daemon learns that its child has exited. -/
private theorem Steady.exits {k : String} (h : Steady s g) :
    Steady { s with exited := Function.update s.exited k true } g := by
  have hu : s.exited g = true → Function.update s.exited k true g = true := by
    intro he
    by_cases hk : g = k
    · rw [hk, Function.update_self]
    · rw [Function.update_of_ne hk, he]
  exact { h with
    carries := fun c hc ↦ (h.carries c hc).of_le (fun y hy ↦ ⟨y, hy, le_rfl⟩) hu
    own := fun m hr hg ↦ ⟨(h.own m hr hg).1, fun he ↦ ((h.own m hr hg).2 he).imp hu id⟩ }

/-- The lock passes to a section that takes nothing with it, or is given up. -/
private theorem Steady.hold {c : Option Section} (h : Steady s g)
    (hc : ∀ d, c = some d → Carries s.record s.sidecar (s.newest g) (s.exited g) g d) :
    Steady { s with holder := c } g :=
  { h with carries := hc }

private theorem Kept.of_exited {m : SessionMetadata} {sidecar : Option OutputActivity}
    {v : Int64} (he : m.hasExited = true) (hv : AtMost v m.lastOutputAtMs) :
    Kept (some m) sidecar g v := by
  intro k hk _
  cases hk
  exact ⟨fun hf ↦ absurd hf (by simp [he]), fun _ ↦ hv⟩

private theorem Kept.of_ne {m : SessionMetadata} {sidecar : Option OutputActivity} {v : Int64}
    (hg : m.generation ≠ some g) : Kept (some m) sidecar g v := by
  intro k hk hkg
  cases hk
  exact absurd hkg hg

private theorem kept_none {sidecar : Option OutputActivity} {v : Int64} :
    Kept none sidecar g v := fun _ h ↦ nomatch h

/-- A step on the files: no stamp is lost, and no reader of a running record loses it. -/
private theorem Steady.files {record : Option SessionMetadata}
    {sidecar : Option OutputActivity} {holder : Option Section} {launched : List String}
    {written : List OutputActivity} (h : Steady s g) (hl : ∀ k ∈ s.launched, k ∈ launched)
    (hn : Between record sidecar (s.newest g) g (s.newest g))
    (hc : ∀ c, holder = some c → Carries record sidecar (s.newest g) (s.exited g) g c)
    (ho : ∀ m, record = some m → m.generation = some g → Owns sidecar (s.exited g) g m)
    (hk : ∀ v, g ∈ s.launched → Kept s.record s.sidecar g v → Kept record sidecar g v)
    (hs : ∀ n past m, s.readers n = .read past m → m.generation = some g →
      m.hasExited = false → ∀ v, InSidecar g s.sidecar v → InSidecar g sidecar v) :
    Steady
      { s with
        record := record
        sidecar := sidecar
        holder := holder
        launched := launched
        written := written } g :=
  { h with
    newest := hn
    carries := hc
    own := ho
    relies := fun n past m hr hg ↦
      have hm := h.relies n past m hr hg
      { launched := hl g hm.launched
        running := fun he ↦ ⟨(hm.running he).1,
          fun v hv ↦ hs n past m hr hg he v ((hm.running he).2 v hv)⟩
        exited := fun he ↦ ⟨fun z hz ↦ hk z hm.launched ((hm.exited he).1 z hz),
          (hm.exited he).2⟩ }
    launched := fun r hr hg ↦ hl g (h.launched r hr hg)
    kept := fun r hr hg v hv ↦ hk v (h.launched r hr hg) (h.kept r hr hg v hv) }

private theorem inSidecar_of_atMost {a : OutputActivity} {v : Int64} (ha : a.generation = g)
    (h : AtMost v (some a.lastOutputAtMs)) : InSidecar g (some a) v := by
  obtain ⟨w, hw, hle⟩ := h
  obtain rfl := Option.some.inj hw
  exact ⟨a.lastOutputAtMs, by rw [← ha], hle⟩

private theorem atMost_of_inSidecar {sidecar : Option OutputActivity} {v : Int64}
    {o : Option Int64} (h : InSidecar g sidecar v)
    (ho : ∀ x, sidecar = some ⟨g, x⟩ → AtMost x o) : AtMost v o := by
  obtain ⟨x, hx, hle⟩ := h
  exact (ho x hx).trans hle

/-- The daemon with the lock writes the sidecar. -/
private theorem Steady.write {a : OutputActivity} (h : Steady s g) (hi : Inv s)
    (hh : s.holder = some (.write a))
    (hs : ∀ n past m, s.readers n = .read past m → m.generation = some g →
      m.hasExited = false → ∀ x, s.sidecar = some ⟨g, x⟩ →
        ∃ y, some a = some (OutputActivity.mk g y)) :
    Steady { s with sidecar := some a, written := s.written ++ [a], holder := none } g := by
  obtain ⟨m, hr, hg⟩ := hi.knows _ hh
  have hcar : a.generation = g → _ := h.carries _ hh
  refine h.files (fun _ hk ↦ hk) ⟨fun x hx ↦ ?_, h.newest.record, h.newest.newest⟩
    (fun c hc ↦ nomatch hc) (fun k hk hkg ↦ ⟨(h.own k hk hkg).1, fun he ↦ ?_⟩)
    (fun v hl hv k hk hkg ↦ ⟨fun he ↦ ?_, (hv k hk hkg).2⟩) fun n past k hn hkg he v hv ↦ ?_
  · cases hx
    exact (hcar rfl).1.newest x rfl
  · obtain rfl := Option.some.inj (hr.symm.trans hk)
    have ha := Option.some.inj (hg.symm.trans hkg)
    rw [(hcar ha).2 m hr hkg] at he
    cases he
  · obtain rfl := Option.some.inj (hr.symm.trans hk)
    have ha := Option.some.inj (hg.symm.trans hkg)
    exact inSidecar_of_atMost ha
      (atMost_of_inSidecar ((hv m hr hkg).1 he) (hcar ha).1.sidecar)
  · obtain ⟨x, hx, -⟩ := id hv
    obtain ⟨y, hy⟩ := hs n past k hn hkg he x hx
    obtain rfl := Option.some.inj hy
    exact inSidecar_of_atMost rfl (atMost_of_inSidecar hv (hcar rfl).1.sidecar)

/-- The daemon with the lock publishes its exit record. -/
private theorem Steady.store {k : String} {after : SessionMetadata} (h : Steady s g)
    (hi : Inv s) (hh : s.holder = some (.store k after)) :
    Steady { s with record := some after, holder := some (.retire k) } g := by
  obtain ⟨⟨m, hr, hg⟩, hga, hea⟩ := hi.knows _ hh
  have hcar : k = g → _ := h.carries _ hh
  have hown : ∀ p, some after = some p → p.generation = some g → k = g ∧ after = p :=
    fun p hp hpg ↦ by
      cases hp
      exact ⟨Option.some.inj (hga.symm.trans hpg), rfl⟩
  refine h.files (fun _ hk ↦ hk)
    ⟨h.newest.sidecar, fun p z hp hpg hz ↦ ?_, h.newest.newest⟩
    (fun c hc ↦ by cases hc; trivial) (fun p hp hpg ↦ ?_) (fun v hl hv p hp hpg ↦ ?_)
    fun n past p hn hpg he v hv ↦ hv
  · obtain ⟨hk, rfl⟩ := hown p hp hpg
    exact (hcar hk).1.newest z hz
  · obtain ⟨hk, rfl⟩ := hown p hp hpg
    exact ⟨fun hf ↦ absurd hf (by simp [hea]), fun _ ↦ ⟨(hcar hk).2, (hcar hk).1.sidecar⟩⟩
  · obtain ⟨hk, rfl⟩ := hown p hp hpg
    refine ⟨fun hf ↦ absurd hf (by simp [hea]), fun _ ↦ ?_⟩
    have hm := hv m hr (hg.trans (congrArg some hk))
    cases hme : m.hasExited with
    | false => exact atMost_of_inSidecar (hm.1 hme) (hcar hk).1.sidecar
    | true =>
      exact (hm.2 hme).bind fun w hw ↦
        (hcar hk).1.record m w hr (hg.trans (congrArg some hk)) hw

/-- The sidecar is removed, by a daemon whose record has its exit or after the record. -/
private theorem Steady.unlink {c : Option Section} (h : Steady s g)
    (hr : ∀ m, s.record = some m → m.hasExited = true)
    (hc : ∀ d, c = some d → Carries s.record none (s.newest g) (s.exited g) g d)
    (hs : ∀ n past m, s.readers n = .read past m → m.generation = some g →
      m.hasExited = false → ∀ x, s.sidecar = some ⟨g, x⟩ →
        ∃ y, (none : Option OutputActivity) = some ⟨g, y⟩) :
    Steady { s with sidecar := none, holder := c } g := by
  refine h.files (fun _ hk ↦ hk)
    ⟨fun x hx ↦ (nomatch hx), h.newest.record, h.newest.newest⟩ hc
    (fun m hm hg ↦ ⟨(h.own m hm hg).1, fun he ↦
      ⟨((h.own m hm hg).2 he).1, fun x hx ↦ nomatch hx⟩⟩)
    (fun v hl hv m hm hg ↦ ⟨fun he ↦ ?_, (hv m hm hg).2⟩) fun n past m hn hg he v hv ↦ ?_
  · rw [hr m hm] at he
    cases he
  · obtain ⟨x, hx, -⟩ := hv
    obtain ⟨y, hy⟩ := hs n past m hn hg he x hx
    cases hy

/-- The record is removed. -/
private theorem Steady.remove {c : Option Section} (h : Steady s g)
    (hc : ∀ d, c = some d → Carries none s.sidecar (s.newest g) (s.exited g) g d) :
    Steady { s with record := none, holder := c } g :=
  h.files (fun _ hk ↦ hk) ⟨h.newest.sidecar, fun _ _ hm ↦ (nomatch hm), h.newest.newest⟩ hc
    (fun _ hm ↦ nomatch hm) (fun _ _ _ ↦ kept_none) fun _ _ _ _ _ _ _ hv ↦ hv

/-- A daemon is launched, with a record that has no stamp. -/
private theorem Steady.launch {k : String} {m : SessionMetadata} (h : Steady s g)
    (hk : k ∉ s.launched) (hm : m.generation = some k) (he : m.hasExited = false)
    (hl : m.lastOutputAtMs = none) :
    Steady { s with record := some m, launched := s.launched ++ [k], holder := none } g := by
  refine h.files (fun _ hk ↦ List.mem_append_left _ hk)
    ⟨h.newest.sidecar, fun p z hp _ hz ↦ ?_, h.newest.newest⟩ (fun c hc ↦ nomatch hc)
    (fun p hp _ ↦ ?_) (fun v hg _ ↦ Kept.of_ne fun hmg ↦ hk ?_)
    fun n past p hn hpg he v hv ↦ hv
  · cases hp
    rw [hl] at hz
    cases hz
  · cases hp
    exact ⟨fun _ ↦ hl, fun hf ↦ absurd hf (by simp [he])⟩
  · rw [Option.some.inj (hm.symm.trans hmg)]
    exact hg

/-- Something else in the record is changed. -/
private theorem Steady.edit {m m' : SessionMetadata} (h : Steady s g) (hh : s.holder = none)
    (hr : s.record = some m) (hg : m'.generation = m.generation)
    (he : m'.hasExited = m.hasExited) (hl : m'.lastOutputAtMs = m.lastOutputAtMs) :
    Steady { s with record := some m' } g := by
  refine h.files
    (fun _ hk ↦ hk) ⟨h.newest.sidecar, fun p z hp hpg hz ↦ ?_, h.newest.newest⟩
    (fun c hc ↦ by rw [hh] at hc; cases hc) (fun p hp hpg ↦ ?_) (fun v _ hv p hp hpg ↦ ?_)
    fun n past p hn hpg he v hv ↦ hv
  · cases hp
    exact h.newest.record m z hr (hg ▸ hpg) (hl ▸ hz)
  · cases hp
    have ho := h.own m hr (hg ▸ hpg)
    unfold Owns at ho ⊢
    rw [he, hl]
    exact ho
  · cases hp
    have hm := hv m hr (hg ▸ hpg)
    rw [he, hl]
    exact hm

/-- A reader goes on without a report. -/
private theorem Steady.reader {n : Nat} {r : Reader} (h : Steady s g)
    (hb : ∀ past, r = .begun past → past ≤ s.reports.length)
    (hp : ∀ past m, r = .read past m → past ≤ s.reports.length)
    (hr : ∀ past m, r = .read past m → m.generation = some g →
      Relies s.record s.sidecar s.launched s.reports g past m) :
    Steady (s.setReader n r) g := by
  have hu : ∀ k, Function.update s.readers n r k = r ∨
      Function.update s.readers n r k = s.readers k := by
    intro k
    by_cases hk : k = n
    · exact .inl (by rw [hk, Function.update_self])
    · exact .inr (Function.update_of_ne hk ..)
  exact { h with
    begun := fun k past hk ↦ (hu k).elim (fun he ↦ hb past (he.symm.trans hk))
      fun he ↦ h.begun k past (he.symm.trans hk)
    past := fun k past m hk ↦ (hu k).elim (fun he ↦ hp past m (he.symm.trans hk))
      fun he ↦ h.past k past m (he.symm.trans hk)
    relies := fun k past m hk ↦ (hu k).elim (fun he ↦ hr past m (he.symm.trans hk))
      fun he ↦ h.relies k past m (he.symm.trans hk) }

/-- What a reader can rely on when it has read the record. -/
private theorem Steady.relies_read (h : Steady s g) (hi : Inv s) {m : SessionMetadata}
    (hr : s.record = some m) (hg : m.generation = some g) (past : Nat) :
    Relies s.record s.sidecar s.launched s.reports g past m where
  launched := mem_launched_of_current hi hr hg
  running he := by
    refine ⟨(h.own m hr hg).1 he, ?_⟩
    rintro v ⟨r, hm, hrg, hv⟩
    exact (h.kept r (List.mem_of_mem_take hm) hrg v hv m hr hg).1 he
  exited he := by
    refine ⟨fun z hz ↦ ?_, ?_⟩
    · rw [hr]
      exact .of_exited he ⟨z, hz, le_rfl⟩
    · rintro v ⟨r, hm, hrg, hv⟩
      exact (h.kept r (List.mem_of_mem_take hm) hrg v hv m hr hg).2 he

private theorem reported_append {l k : List Report} {past : Nat} {v : Int64}
    (hp : past ≤ l.length) : Reported (l ++ k) g past v ↔ Reported l g past v := by
  unfold Reported
  rw [List.take_append_of_le_length hp]

/-- A reader reports. -/
private theorem Steady.answer {n past : Nat} {m : SessionMetadata} (h : Steady s g)
    (hn : s.readers n = .read past m) :
    Steady { s.setReader n .idle with
      reports := s.reports ++ [⟨past, m, lastOutputAtMsIn m s.sidecar⟩] } g := by
  have hidle : Steady (s.setReader n .idle) g :=
    h.reader (fun _ hb ↦ nomatch hb) (fun _ _ hb ↦ nomatch hb) fun _ _ hb ↦ nomatch hb
  have hlen : s.reports.length ≤
      (s.reports ++ [Report.mk past m (lastOutputAtMsIn m s.sidecar)]).length := by
    rw [List.length_append]
    omega
  have hp := h.past n past m hn
  exact { hidle with
    begun := fun k p hk ↦ (hidle.begun k p hk).trans hlen
    past := fun k p q hk ↦ (hidle.past k p q hk).trans hlen
    relies := fun k p q hk hg ↦
      have hq := hidle.relies k p q hk hg
      have hle : p ≤ s.reports.length := hidle.past k p q hk
      { launched := hq.launched
        running := fun he ↦ ⟨(hq.running he).1, fun v hv ↦
          (hq.running he).2 v ((reported_append hle).mp hv)⟩
        exited := fun he ↦ ⟨(hq.exited he).1, fun v hv ↦
          (hq.exited he).2 v ((reported_append hle).mp hv)⟩ }
    launched := fun r hr hg ↦ by
      obtain hr | hr := List.mem_append.mp hr
      · exact h.launched r hr hg
      · obtain rfl := List.mem_singleton.mp hr
        exact (h.relies n past m hn hg).launched
    kept := fun r hr hg v hv ↦ by
      obtain hr | hr := List.mem_append.mp hr
      · exact h.kept r hr hg v hv
      obtain rfl := List.mem_singleton.mp hr
      have hm := h.relies n past m hn hg
      obtain ho | ⟨a, ha, -, hga, ho⟩ := lastOutputAtMsIn_cases m s.sidecar
      · -- the record's own stamp: a running record has none
        cases he : m.hasExited with
        | false =>
          rw [(hm.running he).1] at ho
          cases ho.symm.trans hv
        | true => exact (hm.exited he).1 v (ho.symm.trans hv)
      · obtain rfl := Option.some.inj (ho.symm.trans hv)
        have hag := Option.some.inj (hg.symm.trans hga)
        intro k hk hkg
        refine ⟨fun _ ↦ ⟨a.lastOutputAtMs, by rw [hag]; exact ha, le_rfl⟩, fun he ↦ ?_⟩
        exact ((h.own k hk hkg).2 he).2 a.lastOutputAtMs (by rw [hag]; exact ha)
    pasts := fun r hr ↦ by
      obtain hr | hr := List.mem_append.mp hr
      · exact (h.pasts r hr).trans hlen
      · obtain rfl := List.mem_singleton.mp hr
        exact hp.trans hlen
    steady := fun r hr hg v hv ↦ by
      obtain hr | hr := List.mem_append.mp hr
      · exact h.steady r hr hg v ((reported_append (h.pasts r hr)).mp hv)
      obtain rfl := List.mem_singleton.mp hr
      have hm := h.relies n past m hn hg
      have hv := (reported_append hp).mp hv
      cases he : m.hasExited with
      | false =>
        obtain ⟨x, hx, hle⟩ := (hm.running he).2 v hv
        refine ⟨x, ?_, hle⟩
        dsimp only
        rw [hx]
        have hg' : m.generation = some g := hg
        simp [lastOutputAtMsIn, newestOutputAtMs, he, hg']
      | true =>
        have ho : lastOutputAtMsIn m s.sidecar = m.lastOutputAtMs := by
          simp [lastOutputAtMsIn, newestOutputAtMs, he]
        dsimp only
        rw [ho]
        exact (hm.exited he).2 v hv }

/-- Each careful step keeps the generation's stamps. -/
theorem Careful.steady (hc : Careful g s t) (hi : Inv s) (h : Steady s g) : Steady t g := by
  obtain ⟨⟨hs, hx⟩, hl⟩ := hc
  cases hs with
  | stamp k x hk => exact h.stamp hx
  | exits k => exact h.exits
  | publish k x hh he hn =>
    refine h.hold fun d hd ↦ ?_
    cases hd
    rintro rfl
    refine ⟨hn ▸ h.newest, fun m hr hg ↦ ?_⟩
    rw [Bool.eq_false_iff]
    intro hme
    have hex := ((h.own m hr hg).2 hme).1
    change s.exited k = true at hex
    rw [he] at hex
    cases hex
  | check a hh =>
    have hk := h.carries _ hh
    refine h.hold fun d hd ↦ ?_
    split at hd <;> cases hd
    exact hk
  | write a hh => exact h.write hi hh hl
  | exit k facts hh he hf =>
    refine h.hold fun d hd ↦ ?_
    cases hd
    rintro rfl
    exact ⟨hf ▸ h.newest, he⟩
  | checkExit k facts hh =>
    have hk := h.carries _ hh
    refine h.hold fun d hd ↦ ?_
    split at hd
    · cases hd
      trivial
    · next before after hck =>
      cases hd
      rintro rfl
      obtain ⟨hr, hg, hm⟩ := checkRecord_ok hck
      obtain ⟨hb, hex⟩ := hk rfl
      rw [ExitFacts.mutate_eq_some hm, ExitFacts.lastOutputAtMs_recorded]
      have hor : ∀ v, AtMost v facts.lastOutput →
          AtMost v (facts.lastOutput.or before.lastOutputAtMs) := by
        rintro v ⟨w, hw, hle⟩
        exact ⟨w, by rw [hw]; rfl, hle⟩
      refine ⟨⟨fun x hx ↦ hor x (hb.sidecar x hx),
        fun p z hp hpg hz ↦ hor z (hb.record p z hp hpg hz), fun y hy ↦ ?_⟩, hex⟩
      cases hfl : facts.lastOutput with
      | some w =>
        rw [hfl] at hy
        exact hb.newest y (hfl.trans hy)
      | none =>
        rw [hfl] at hy
        exact h.newest.record before y hr (generation_of_ownedBy hg) hy
    · cases hd
  | store k after hh => exact h.store hi hh
  | retire k hh =>
    obtain ⟨m, hr, hg, he⟩ := hi.knows _ hh
    refine h.unlink (fun p hp ↦ ?_) (fun d hd ↦ nomatch hd) hl
    obtain rfl := Option.some.inj (hr.symm.trans hp)
    exact he
  | clean hh =>
    refine h.hold fun d hd ↦ ?_
    cases hd
    trivial
  | remove hh =>
    refine h.remove fun d hd ↦ ?_
    cases hd
    trivial
  | unlink hh =>
    have hr : s.record = none := hi.knows _ hh
    refine h.unlink (fun p hp ↦ ?_) (fun d hd ↦ ?_) hl
    · cases hr.symm.trans hp
    · cases hd
      trivial
  | launch k m hh hk hm he hlo => exact h.launch hk hm he hlo
  | leave => exact h.hold fun d hd ↦ nomatch hd
  | edit m m' hh hr hg he hlo => exact h.edit hh hr hg he hlo
  | begin n hn =>
    refine h.reader (fun past hb ↦ ?_) (fun _ _ hb ↦ nomatch hb) fun _ _ hb ↦ nomatch hb
    cases hb
    exact le_rfl
  | miss n past hn hr =>
    exact h.reader (fun _ hb ↦ nomatch hb) (fun _ _ hb ↦ nomatch hb) fun _ _ hb ↦ nomatch hb
  | read n past m hn hr =>
    refine h.reader (fun _ hb ↦ nomatch hb) (fun p q hb ↦ ?_) fun p q hb hg ↦ ?_
    · cases hb
      exact h.begun n past hn
    · cases hb
      exact h.relies_read hi hr hg past
  | answer n past m hn => exact h.answer hn

theorem steady_of_reached (h : CarefullyReached g s) : Steady s g := by
  induction h with
  | refl => exact steady_start g
  | tail hr hc ih =>
    have hs : Reached _ := Relation.ReflTransGen.mono (fun _ _ hc ↦ hc.step) _ _ hr
    exact hc.steady (inv_of_reached hs) ih

/-! ### The contract -/

/-- A generation was launched after another. -/
def Later (launched : List String) (g k : String) : Prop :=
  ∃ pre mid post, launched = pre ++ g :: mid ++ k :: post

/-- The last generation is before none. -/
private theorem not_later {pre : List String} {k : String} (hn : (pre ++ [g]).Nodup) :
    ¬ Later (pre ++ [g]) g k := by
  rintro ⟨front, mid, post, he⟩
  obtain rfl | ⟨post, x, rfl⟩ := List.eq_nil_or_concat' post
  · obtain ⟨rfl, hk⟩ := List.append_inj' he rfl
    obtain rfl := List.singleton_inj.mp hk
    rw [List.nodup_append] at hn
    exact hn.2.2 g (by simp) g (by simp) rfl
  · rw [← List.cons_append, ← List.append_assoc] at he
    obtain ⟨rfl, hk⟩ := List.append_inj' he rfl
    obtain rfl := List.singleton_inj.mp hk
    rw [List.nodup_append] at hn
    exact hn.2.2 g (by simp) g (by simp) rfl

/-- A step leaves the sidecar, or cleans up after the record is gone, or is that of a daemon
that writes or removes it, which is then not that of a later one. -/
def Fenced (s t : Site) : Prop :=
  t.sidecar = s.sidecar ∨ s.holder = some .cleaned ∨
    ∃ g, ((∃ x, s.holder = some (.write ⟨g, x⟩) ∧ t.sidecar = some ⟨g, x⟩) ∨
        s.holder = some (.retire g) ∧ t.sidecar = none) ∧
      ∀ b, s.sidecar = some b → ¬ Later s.launched g b.generation

private theorem not_later_of_current (h : Inv s) {m : SessionMetadata} (hr : s.record = some m)
    (hg : m.generation = some g) (k : String) : ¬ Later s.launched g k := by
  obtain ⟨pre, g', hl, hg'⟩ := h.current m hr
  obtain rfl := Option.some.inj (hg.symm.trans hg')
  have hn := h.nodup
  rw [hl] at hn ⊢
  exact not_later hn

theorem Step.fenced (hs : Step s t) (h : Inv s) : Fenced s t := by
  cases hs with
  | write a hh =>
    obtain ⟨m, hr, hg⟩ := h.knows _ hh
    exact .inr (.inr ⟨a.generation, .inl ⟨a.lastOutputAtMs, hh, rfl⟩,
      fun b _ ↦ not_later_of_current h hr hg b.generation⟩)
  | retire g hh =>
    obtain ⟨m, hr, hg, -⟩ := h.knows _ hh
    exact .inr (.inr ⟨g, .inr ⟨hh, rfl⟩, fun b _ ↦ not_later_of_current h hr hg b.generation⟩)
  | unlink hh => exact .inr (.inl hh)
  | _ => exact .inl rfl

/-- In every run, a report credits the record's own stamp or one that the record's generation
wrote, and no daemon overwrites or removes the sidecar of a later one. In every run in which a
generation's stamps do not go back, and none of its readers loses the sidecar between reading
the running record and reading the sidecar, its reports do not go back and lose nothing. -/
theorem output_activity (g : String) (s : Site) :
    (Reached s → (∀ r ∈ s.reports, Credits s.written r) ∧ ∀ t, Step s t → Fenced s t) ∧
      (CarefullyReached g s → ∀ r ∈ s.reports, NotBehind s.reports g r) :=
  ⟨fun h ↦ ⟨(inv_of_reached h).credits, fun _ hs ↦ hs.fenced (inv_of_reached h)⟩,
    fun h ↦ (steady_of_reached h).steady⟩

/-! ### A reader across the exit -/

/-- The record of a daemon that was just launched. -/
def fresh : SessionMetadata := (fromMap [("generation", .string "g1")]).get (by decide)

/-- A daemon whose first stamp is in the sidecar. -/
private theorem stamped : ∃ s : Site, CarefullyReached "g1" s ∧ s.record = some fresh ∧
    s.sidecar = some ⟨"g1", 5⟩ ∧ s.holder = none ∧ s.newest = Function.update (fun _ ↦ none)
      "g1" (some 5) ∧ s.exited = (fun _ ↦ false) ∧ s.readers = (fun _ ↦ .idle) ∧
    s.reports = [] := by
  have quiet : ∀ {s t : Site}, CarefullyReached "g1" s → Step s t →
      s.readers = (fun _ ↦ .idle) → (∀ x, s.newest "g1" = some x → AtMost x (t.newest "g1")) →
      CarefullyReached "g1" t := by
    intro s t h hs hr hx
    refine h.tail ⟨⟨hs, hx⟩, fun n past m hn ↦ ?_⟩
    rw [hr] at hn
    cases hn
  have h₁ := quiet .refl (.clean rfl) rfl fun x hx ↦ nomatch hx
  have h₂ := quiet h₁ (.remove rfl) rfl fun x hx ↦ nomatch hx
  have h₃ := quiet h₂ (.launch "g1" fresh (.inl rfl) (by decide) (by decide) (by decide)
    (by decide)) rfl fun x hx ↦ nomatch hx
  have h₄ := quiet h₃ (.stamp "g1" 5 (by decide)) rfl fun x hx ↦ nomatch hx
  have hn : Function.update (fun _ ↦ none) "g1" (some (5 : Int64)) "g1" = some 5 := by decide
  have h₅ := quiet h₄ (.publish "g1" 5 rfl rfl hn) rfl fun x hx ↦ ⟨x, hx, le_rfl⟩
  have h₆ := quiet h₅ (.check ⟨"g1", 5⟩ rfl) rfl fun x hx ↦ ⟨x, hx, le_rfl⟩
  have h₇ := quiet h₆ (.write ⟨"g1", 5⟩ rfl) rfl fun x hx ↦ ⟨x, hx, le_rfl⟩
  exact ⟨_, h₇, rfl, rfl, rfl, rfl, rfl, rfl, rfl⟩

/-- A reader that reads both files, and reports the stamp. -/
private theorem reported : ∃ s : Site, CarefullyReached "g1" s ∧ s.record = some fresh ∧
    s.sidecar = some ⟨"g1", 5⟩ ∧ s.holder = none ∧ s.newest "g1" = some 5 ∧
    s.readers 1 = .idle ∧ s.reports = [⟨0, fresh, some 5⟩] := by
  obtain ⟨s, hs, hr, hc, hh, hn, he, hrd, hrp⟩ := stamped
  have still : ∀ {s t : Site}, CarefullyReached "g1" s → Step s t → t.sidecar = s.sidecar →
      t.newest = s.newest → CarefullyReached "g1" t := by
    intro s t h hs hc hx
    exact h.tail ⟨⟨hs, fun x hx' ↦ ⟨x, by rw [hx]; exact hx', le_rfl⟩⟩,
      fun _ _ _ _ _ _ x hx' ↦ ⟨x, by rw [hc]; exact hx'⟩⟩
  have h₁ := still hs (.begin 0 (by rw [hrd])) rfl rfl
  have h₂ := still h₁ (.read 0 s.reports.length fresh (by simp [setReader]) hr) rfl rfl
  have h₃ := still h₂ (.answer 0 s.reports.length fresh (by simp [setReader])) rfl rfl
  refine ⟨_, h₃, hr, hc, hh, by simp [setReader, hn], by simp [setReader, hrd], ?_⟩
  have hl : lastOutputAtMsIn fresh (some ⟨"g1", 5⟩) = some 5 := by decide
  simp [setReader, hrp, hc, hl]

/-- The reader's report is credited, and the next one does not fall behind it. -/
theorem output_activity_five : ∃ s : Site, CarefullyReached "g1" s ∧
    (⟨0, fresh, some 5⟩ : Report) ∈ s.reports ∧ (∀ r ∈ s.reports, Credits s.written r) ∧
    ∀ r ∈ s.reports, NotBehind s.reports "g1" r := by
  obtain ⟨s, hs, -, -, -, -, -, hrp⟩ := reported
  have hr : Reached s := Relation.ReflTransGen.mono (fun _ _ hc ↦ hc.step) _ _ hs
  exact ⟨s, hs, by simp [hrp], ((output_activity "g1" s).1 hr).1, (output_activity "g1" s).2 hs⟩

/-- A reader that reads the running record, and the sidecar only after the exit record took
over, loses the stamp that was reported before. -/
theorem not_behind_refuted :
    ¬ ∀ g s, Relation.ReflTransGen (Forward g) start s →
      ∀ r ∈ s.reports, NotBehind s.reports g r := by
  intro hall
  obtain ⟨s, hs, hr, hc, hh, hn, hrd, hrp⟩ := reported
  have still : ∀ {s t : Site}, Relation.ReflTransGen (Forward "g1") start s → Step s t →
      t.newest = s.newest → Relation.ReflTransGen (Forward "g1") start t := by
    intro s t h hs hx
    exact h.tail ⟨hs, fun x hx' ↦ ⟨x, by rw [hx]; exact hx', le_rfl⟩⟩
  have h₀ : Relation.ReflTransGen (Forward "g1") start s :=
    Relation.ReflTransGen.mono (fun _ _ hc ↦ hc.toForward) _ _ hs
  have h₁ := still h₀ (.begin 1 hrd) rfl
  have h₂ := still h₁ (.read 1 s.reports.length fresh (by simp [setReader]) hr) rfl
  have h₃ := still h₂ (.exits "g1") rfl
  have h₄ := still h₃ (.exit "g1" ⟨0, "now", [], some 5⟩ hh (by simp) hn.symm) rfl
  have h₅ := still h₄ (.checkExit "g1" ⟨0, "now", [], some 5⟩ rfl) rfl
  have hck : checkRecord (ownedBy "g1") (ExitFacts.mutate ⟨0, "now", [], some 5⟩) s.record =
      .ok (fresh, some (ExitFacts.recorded ⟨0, "now", [], some 5⟩ fresh)) := by
    have hg : guardsHold (ownedBy "g1") fresh = true := by decide
    have hk : keepsPublication fresh (ExitFacts.recorded ⟨0, "now", [], some 5⟩ fresh) =
        true := by
      decide
    have hm : ExitFacts.mutate ⟨0, "now", [], some 5⟩ fresh =
        some (ExitFacts.recorded ⟨0, "now", [], some 5⟩ fresh) := if_pos (by decide)
    simp [checkRecord, hr, hg, hm, hk]
  have h₆ := still h₅ (.store "g1" _ (by
    change (match checkRecord (ownedBy "g1") _ s.record with
      | .ok (_, none) => some (Section.retire "g1")
      | .ok (_, some after) => some (.store "g1" after)
      | .error _ => none) = _
    rw [hck])) rfl
  have h₇ := still h₆ (.retire "g1" rfl) rfl
  have h₈ := still h₇ (.answer 1 s.reports.length fresh (by simp [setReader])) rfl
  have hgen : fresh.generation = some "g1" := by decide
  have hb := hall "g1" _ h₈ ⟨s.reports.length, fresh, lastOutputAtMsIn fresh none⟩
    (List.mem_append_right _ List.mem_cons_self) hgen 5
    ⟨⟨0, fresh, some 5⟩, by simp [setReader, hrp], by decide, rfl⟩
  obtain ⟨w, hw, -⟩ := hb
  have hnone : lastOutputAtMsIn fresh none = none := by decide
  rw [hnone] at hw
  cases hw

end Site
end PtySpec.Metadata
