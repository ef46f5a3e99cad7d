import PtySpec.Lifecycle.Retention

/-!
# What retention sweeps remove

Over the runs of a root: a sweep removes only what is due and not permanent, with its owner
proven lost under the locks; the stamp that it counts from was written a window before, by
another sweep, unless something else than a sweep brought it to the record; and a sweep counts
everything that it does, up to its limit, and does nothing once it is stopped.
-/

namespace PtySpec.Lifecycle

open Lib Metadata
open Registry (Text iso8601FromEpochMs parseIso8601Ms eq_of_parseIso8601Ms_iso)
open Listing (DaemonIdentityCheck SessionInfo)

/-! ### One record -/

/-- What `act` acts on, and what it leaves. -/
structure Acted (action : Action) (nowMs windowMs keepMaxAgeMs : Int) (io : ActIo)
    (raw : JsonMap) (current : SessionMetadata) (left : Option JsonMap) : Prop where
  locked : io.locked = true
  read : SessionMetadata.fromMap raw = some current
  lost : knownOwnerLost io.identity = true
  notPermanent : isPermanent current = false
  decided : decideAction current nowMs windowMs keepMaxAgeMs = some action
  left_eq : left = match action with
    | .remove => if io.unlinked then none else some raw
    | .stamp => some (applyMetadataDiff current (stamped current nowMs) raw)

theorem act_cases {observed : SessionInfo} {action : Action}
    {nowMs windowMs keepMaxAgeMs : Int} {io : ActIo} {record left : Option JsonMap} {done : Bool}
    (h : act observed action nowMs windowMs keepMaxAgeMs io record = (done, left)) :
    done = false ∧ left = record ∨ done = true ∧ ∃ raw current, record = some raw ∧
      Acted action nowMs windowMs keepMaxAgeMs io raw current left := by
  unfold act at h
  cases hm : observed.metadata with
  | none =>
    rw [hm] at h
    cases h
    exact .inl ⟨rfl, rfl⟩
  | some seen =>
    rw [hm] at h
    dsimp only at h
    split at h
    · cases h
      exact .inl ⟨rfl, rfl⟩
    · next hl =>
      cases record with
      | none =>
        cases h
        exact .inl ⟨rfl, rfl⟩
      | some raw =>
        dsimp only at h
        split at h
        · cases h
          exact .inl ⟨rfl, rfl⟩
        · next current hc =>
          split at h
          · cases h
            exact .inl ⟨rfl, rfl⟩
          · next hg =>
            simp only [not_or, Bool.not_eq_false, Bool.not_eq_true, not_not] at hg hl
            obtain ⟨-, hlost, hperm, hdec⟩ := hg
            cases action with
            | remove =>
              cases h
              exact .inr ⟨rfl, raw, current, rfl, hl, hc, hlost, hperm, hdec, rfl⟩
            | stamp =>
              dsimp only at h
              split at h
              · cases h
                exact .inr ⟨rfl, raw, current, rfl, hl, hc, hlost, hperm, hdec, rfl⟩
              · cases h
                exact .inl ⟨rfl, rfl⟩

/-- The stamp that a sweep leaves is its reading of the clock. -/
theorem recordStamp_stamped {raw : JsonMap} {m : SessionMetadata}
    (h : SessionMetadata.fromMap raw = some m) (nowMs : Int) :
    recordStamp (some (applyMetadataDiff m (stamped m nowMs) raw)) =
      some (iso8601FromEpochMs nowMs) := by
  obtain ⟨m', hm', ht⟩ := fromMap_withBookkeeping h
    [(retentionLostAtTag, iso8601FromEpochMs nowMs)]
  have hn : (IndexMap.keys [(retentionLostAtTag, iso8601FromEpochMs nowMs)]).Nodup :=
    List.nodup_singleton _
  rw [recordStamp, readMetadata, Option.bind_some, stamped, hm', Option.bind_some, ht,
    tag_withBookkeeping hn, IndexMap.get_cons, if_pos rfl, Option.some_or]

/-- An edit leaves the stamp, or it names it. -/
theorem recordStamp_editTags (patch : MetadataPatch) (record : Option JsonMap) :
    recordStamp (editTags patch record) = recordStamp record ∨
      (patch.tags.getD []).get retentionLostAtTag =
        some (recordStamp (editTags patch record)) := by
  unfold editTags
  cases record with
  | none => exact .inl rfl
  | some raw =>
    dsimp only
    split
    · exact .inl rfl
    · next before hb =>
      split
      · exact .inl rfl
      · next after ha =>
        split
        · obtain rfl := MetadataPatch.mutate_eq_some ha
          obtain ⟨m, hm, -, ht⟩ := fromMap_patched patch hb
          rw [recordStamp, recordStamp, readMetadata, readMetadata, Option.bind_some,
            Option.bind_some, hm, hb, Option.bind_some, Option.bind_some, ht,
            MetadataPatch.tag_patched]
          cases (patch.tags.getD []).get retentionLostAtTag with
          | none => exact .inl rfl
          | some value => exact .inr rfl
        · exact .inl rfl

/-! ### One turn -/

/-- Two moments of one sweep: it keeps its clock and its windows, and once it is stopped it
stays so and counts nothing. -/
structure Sweep.Continues (s t : Sweep) : Prop where
  now : t.nowMs = s.nowMs
  window : t.windowMs = s.windowMs
  keep : t.keepMaxAgeMs = s.keepMaxAgeMs
  stopped : s.stopped = true → t.stopped = true ∧ t.result = s.result

theorem Sweep.Continues.refl (s : Sweep) : s.Continues s := ⟨rfl, rfl, rfl, fun h ↦ ⟨h, rfl⟩⟩

theorem Sweep.Continues.remaining (s : Sweep) (rest : List SessionInfo) :
    s.Continues { s with remaining := rest } := ⟨rfl, rfl, rfl, fun h ↦ ⟨h, rfl⟩⟩

theorem Sweep.Continues.trans {s t u : Sweep} (h : s.Continues t) (k : t.Continues u) :
    s.Continues u where
  now := k.now.trans h.now
  window := k.window.trans h.window
  keep := k.keep.trans h.keep
  stopped hs := by
    obtain ⟨ht, hr⟩ := h.stopped hs
    obtain ⟨hu, hr'⟩ := k.stopped ht
    exact ⟨hu, hr'.trans hr⟩

theorem of_gated {α : Type} {stopped : Bool} {work a : α} (h : gated stopped work = some a) :
    stopped = false ∧ work = a := by
  cases stopped with
  | true => cases h
  | false => exact ⟨rfl, Option.some.inj h⟩

/-- What a turn can come to: it counts nothing and leaves the record, or it acts on it. -/
theorem Sweep.turn_cases {s s' : Sweep} {scan : DaemonIdentityCheck} {io : ActIo}
    {session : SessionInfo} {rest : List SessionInfo} {record left : Option JsonMap}
    (h : s.turn scan io session rest record = (s', left)) :
    s.Continues s' ∧ (s'.remaining = [] ∨ s'.remaining = rest) ∧
      (s'.result = s.result ∧ left = record ∨
        ∃ action raw current, s.stopped = false ∧ s.result.actions < maxActionsPerSweep ∧
          s'.result = s.result.add action session.name ∧ record = some raw ∧
          Acted action s.nowMs s.windowMs s.keepMaxAgeMs io raw current left) := by
  unfold Sweep.turn at h
  split at h
  · cases h
    exact ⟨.remaining _ _, .inl rfl, .inl ⟨rfl, rfl⟩⟩
  · next hlt =>
    split at h
    · cases h
      exact ⟨.remaining _ _, .inr rfl, .inl ⟨rfl, rfl⟩⟩
    · next action hw =>
      split at h
      · cases h
        exact ⟨.remaining _ _, .inl rfl, .inl ⟨rfl, rfl⟩⟩
      · next left' hg =>
        cases h
        obtain ⟨hst, ha⟩ := of_gated hg
        obtain ⟨hd, -⟩ | ⟨-, raw, current, hr, ha⟩ := act_cases ha
        · cases hd
        · exact ⟨⟨rfl, rfl, rfl, fun h ↦ by rw [hst] at h; cases h⟩, .inr rfl,
            .inr ⟨action, raw, current, hst, not_le.mp hlt, rfl, hr, ha⟩⟩
      · next left' hg =>
        cases h
        obtain ⟨-, hl⟩ | ⟨hd, -⟩ := act_cases (of_gated hg).2
        · exact ⟨.remaining _ _, .inr rfl, .inl ⟨rfl, hl⟩⟩
        · cases hd

namespace World

variable {w w' : World}

/-- The turn of a sweep works on the record of one name. -/
theorem step_turn {i : Nat} {scan : DaemonIdentityCheck} {io : ActIo}
    (h : w.step (.turn i scan io) = some w') :
    ∃ s s' session rest left, w.sweeps[i]? = some s ∧ s.remaining = session :: rest ∧
      s.turn scan io session rest (w.records session.name) = (s', left) ∧
      w' = ⟨Function.update w.records session.name left, w.sweeps.set i s'⟩ := by
  rw [step] at h
  split at h
  · cases h
  · next s hs =>
    split at h
    · cases h
    · next session rest hrest =>
      cases h
      exact ⟨s, _, session, rest, _, hs, hrest, rfl, rfl⟩

/-- Every sweep goes on. -/
theorem step_continues {e : Event} (h : w.step e = some w') {i : Nat} {s : Sweep}
    (hs : w.sweeps[i]? = some s) : ∃ s', w'.sweeps[i]? = some s' ∧ s.Continues s' := by
  cases e with
  | start nowMs windowMs keepMaxAgeMs listing =>
    cases h
    refine ⟨s, ?_, .refl s⟩
    rw [List.getElem?_append_left (List.getElem?_eq_some_iff.mp hs).1, hs]
  | turn j scan io =>
    obtain ⟨t, t', session, rest, left, ht, -, hturn, rfl⟩ := step_turn h
    by_cases hij : j = i
    · subst hij
      rw [hs] at ht
      cases ht
      refine ⟨t', ?_, (Sweep.turn_cases hturn).1⟩
      rw [List.getElem?_set_self (List.getElem?_eq_some_iff.mp hs).1]
    · refine ⟨s, ?_, .refl s⟩
      rw [List.getElem?_set_ne hij, hs]
  | stop j =>
    obtain ⟨t, ht, rfl⟩ := Option.map_eq_some_iff.mp h
    by_cases hij : j = i
    · subst hij
      rw [hs] at ht
      cases ht
      refine ⟨{ s with stopped := true }, ?_, rfl, rfl, rfl, fun _ ↦ ⟨rfl, rfl⟩⟩
      rw [List.getElem?_set_self (List.getElem?_eq_some_iff.mp hs).1]
    · refine ⟨s, ?_, .refl s⟩
      rw [List.getElem?_set_ne hij, hs]
  | edit name patch =>
    cases h
    exact ⟨s, hs, .refl s⟩
  | rewrite name record =>
    cases h
    exact ⟨s, hs, .refl s⟩

/-- Every sweep goes on through a run. -/
theorem replay_continues {run : List Event} (h : replay step w run = some w') {i : Nat}
    {s : Sweep} (hs : w.sweeps[i]? = some s) :
    ∃ s', w'.sweeps[i]? = some s' ∧ s.Continues s' := by
  induction run generalizing w s with
  | nil =>
    cases h
    exact ⟨s, hs, .refl s⟩
  | cons e rest ih =>
    obtain ⟨u, hu, hrest⟩ := Option.bind_eq_some_iff.mp h
    obtain ⟨t, ht, hst⟩ := step_continues hu hs
    obtain ⟨s', hs', htt⟩ := ih hrest ht
    exact ⟨s', hs', hst.trans htt⟩

/-! ### Counting -/

/-- The turn of a sweep counts the record of a name. -/
def Counts (w : World) (action : Action) (i : Nat) (s : Sweep) (scan : DaemonIdentityCheck)
    (io : ActIo) (name : Text) (w' : World) : Prop :=
  w.sweeps[i]? = some s ∧ w.step (.turn i scan io) = some w' ∧
    ∃ s', w'.sweeps[i]? = some s' ∧ s'.result = s.result.add action name

private theorem actions_add (r : RetentionResult) (action : Action) (name : Text) :
    (r.add action name).actions = r.actions + 1 := by
  cases action <;> simp only [RetentionResult.add, RetentionResult.actions, List.length_append,
    List.length_singleton] <;> omega

private theorem add_inj {r : RetentionResult} {a b : Action} {m n : Text}
    (h : r.add a m = r.add b n) : a = b ∧ m = n := by
  cases a <;> cases b <;> simp_all [RetentionResult.add]

/-- What holds of every sweep: it has counted no more than it may, and it does not work
without a window. -/
structure Bounded (s : Sweep) : Prop where
  actions : s.result.actions ≤ maxActionsPerSweep
  window : s.remaining ≠ [] → 0 < s.windowMs

private theorem bounded_turn {s s' : Sweep} {scan : DaemonIdentityCheck} {io : ActIo}
    {session : SessionInfo} {rest : List SessionInfo} {record left : Option JsonMap}
    (hs : Bounded s) (hrest : s.remaining = session :: rest)
    (h : s.turn scan io session rest record = (s', left)) : Bounded s' := by
  obtain ⟨hc, -, hres⟩ := Sweep.turn_cases h
  constructor
  · obtain ⟨hr, -⟩ | ⟨action, raw, current, -, hlt, hr, -⟩ := hres
    · rw [hr]
      exact hs.actions
    · rw [hr, actions_add]
      exact hlt
  · intro _
    rw [hc.window]
    exact hs.window (by simp [hrest])

private theorem bounded_step {e : Event} (h : w.step e = some w')
    (hw : ∀ s ∈ w.sweeps, Bounded s) : ∀ s ∈ w'.sweeps, Bounded s := by
  cases e with
  | start nowMs windowMs keepMaxAgeMs listing =>
    cases h
    intro s hs
    obtain hs | rfl := List.mem_append.mp hs |>.imp_right List.mem_singleton.mp
    · exact hw s hs
    · refine ⟨Nat.zero_le _, fun hne ↦ ?_⟩
      by_contra hle
      exact hne (if_pos (not_lt.mp hle))
  | turn i scan io =>
    obtain ⟨t, t', session, rest, left, ht, hrest, hturn, rfl⟩ := step_turn h
    intro s hs
    obtain hs | rfl := List.mem_or_eq_of_mem_set hs
    · exact hw s hs
    · exact bounded_turn (hw t (List.mem_of_getElem? ht)) hrest hturn
  | stop i =>
    obtain ⟨t, ht, rfl⟩ := Option.map_eq_some_iff.mp h
    intro s hs
    obtain hs | rfl := List.mem_or_eq_of_mem_set hs
    · exact hw s hs
    · have hb := hw t (List.mem_of_getElem? ht)
      exact ⟨hb.actions, hb.window⟩
  | edit name patch =>
    cases h
    exact hw
  | rewrite name record =>
    cases h
    exact hw

private theorem bounded_replay {run : List Event} (h : replay step w run = some w')
    (hw : ∀ s ∈ w.sweeps, Bounded s) : ∀ s ∈ w'.sweeps, Bounded s := by
  induction run generalizing w with
  | nil =>
    cases h
    exact hw
  | cons e rest ih =>
    obtain ⟨u, hu, hrest⟩ := Option.bind_eq_some_iff.mp h
    exact ih hrest (bounded_step hu hw)

/-- What is counted was acted on, and nothing else was changed. -/
theorem counts_cases {action : Action} {i : Nat} {s : Sweep} {scan : DaemonIdentityCheck}
    {io : ActIo} {name : Text} (h : w.Counts action i s scan io name w') :
    s.stopped = false ∧ s.remaining ≠ [] ∧ ∃ raw current, w.records name = some raw ∧
      Acted action s.nowMs s.windowMs s.keepMaxAgeMs io raw current (w'.records name) := by
  obtain ⟨hs, hstep, s', hs', hadd⟩ := h
  obtain ⟨t, t', session, rest, left, ht, hrest, hturn, rfl⟩ := step_turn hstep
  rw [hs] at ht
  cases ht
  rw [List.getElem?_set_self (List.getElem?_eq_some_iff.mp hs).1] at hs'
  cases hs'
  obtain ⟨-, -, ⟨hr, -⟩ | ⟨a, raw, current, hst, -, hr, hraw, ha⟩⟩ := Sweep.turn_cases hturn
  · have hl := congrArg RetentionResult.actions (hr.symm.trans hadd)
    rw [actions_add] at hl
    omega
  · obtain ⟨rfl, rfl⟩ := add_inj (hr.symm.trans hadd)
    refine ⟨hst, by simp [hrest], raw, current, hraw, ?_⟩
    dsimp only
    rw [Function.update_self]
    exact ha

/-- A turn that changes a record counts it. -/
theorem counts_of_changed {i : Nat} {scan : DaemonIdentityCheck} {io : ActIo} {name : Text}
    (h : w.step (.turn i scan io) = some w') (hn : w'.records name ≠ w.records name) :
    ∃ action s, w.Counts action i s scan io name w' := by
  obtain ⟨s, s', session, rest, left, hs, hrest, hturn, rfl⟩ := step_turn h
  by_cases hname : name = session.name
  · subst hname
    obtain ⟨-, -, ⟨-, hl⟩ | ⟨a, raw, current, -, -, hr, -⟩⟩ := Sweep.turn_cases hturn
    · dsimp only at hn
      rw [Function.update_self] at hn
      exact absurd hl hn
    · refine ⟨a, s, hs, h, s', ?_, hr⟩
      rw [List.getElem?_set_self (List.getElem?_eq_some_iff.mp hs).1]
  · exact absurd (Function.update_of_ne hname ..) hn

/-- What `act` does is counted. -/
theorem counts_of_act {action : Action} {i : Nat} {s : Sweep}
    {scan : DaemonIdentityCheck} {io : ActIo} {session : SessionInfo} {rest : List SessionInfo}
    {left : Option JsonMap} (hs : w.sweeps[i]? = some s) (hrest : s.remaining = session :: rest)
    (hst : s.stopped = false) (hlt : s.result.actions < maxActionsPerSweep)
    (hw : s.wants session scan = some action)
    (ha : act session action s.nowMs s.windowMs s.keepMaxAgeMs io (w.records session.name) =
      (true, left)) :
    w.Counts action i s scan io session.name
      ⟨Function.update w.records session.name left, w.sweeps.set i
        { s with remaining := rest, result := s.result.add action session.name }⟩ := by
  have hturn : s.turn scan io session rest (w.records session.name) =
      ({ s with remaining := rest, result := s.result.add action session.name }, left) := by
    rw [Sweep.turn, if_neg (not_le.mpr hlt), hw]
    dsimp only
    rw [gated, hst, if_neg (by simp), ha]
  refine ⟨hs, ?_, _, List.getElem?_set_self (List.getElem?_eq_some_iff.mp hs).1, rfl⟩
  rw [World.step, hs]
  dsimp only
  rw [hrest]
  dsimp only
  rw [hturn]

/-! ### Where a stamp comes from -/

/-- What brings a stamp to a record: a sweep that reads the clock there, a tag edit that names
it, or whatever else publishes the record. -/
inductive Brings (u : World) (name : Text) (stamp : String) (v : World) : Event → Prop
  | sweep {j : Nat} {t : Sweep} {scan : DaemonIdentityCheck} {io : ActIo}
      (hc : u.Counts .stamp j t scan io name v) (hs : stamp = iso8601FromEpochMs t.nowMs) :
      Brings u name stamp v (.turn j scan io)
  | edit {patch : MetadataPatch}
      (h : (patch.tags.getD []).get retentionLostAtTag = some (some stamp)) :
      Brings u name stamp v (.edit name patch)
  | rewrite {record : Option JsonMap} (h : recordStamp record = some stamp) :
      Brings u name stamp v (.rewrite name record)

theorem brings_of_step {u v : World} {e : Event} {name : Text} {stamp : String}
    (h : u.step e = some v) (hu : u.stampOf name ≠ some stamp)
    (hv : v.stampOf name = some stamp) : Brings u name stamp v e := by
  cases e with
  | start nowMs windowMs keepMaxAgeMs listing =>
    cases h
    exact absurd hv hu
  | stop i =>
    obtain ⟨t, ht, rfl⟩ := Option.map_eq_some_iff.mp h
    exact absurd hv hu
  | turn i scan io =>
    obtain ⟨action, s, hc⟩ := @counts_of_changed u v i scan io name h fun he ↦
      hu ((congrArg recordStamp he).symm.trans hv)
    obtain ⟨-, -, raw, current, hraw, ha⟩ := counts_cases hc
    rw [stampOf, ha.left_eq] at hv
    cases action with
    | stamp =>
      dsimp only at hv
      rw [recordStamp_stamped ha.read] at hv
      exact .sweep hc (Option.some.inj hv).symm
    | remove =>
      dsimp only at hv
      split at hv
      · cases hv
      · rw [stampOf, hraw] at hu
        exact absurd hv hu
  | edit other patch =>
    cases h
    by_cases hn : name = other
    · subst hn
      dsimp only [stampOf] at hv
      rw [Function.update_self] at hv
      obtain he | he := recordStamp_editTags patch (u.records name)
      · exact absurd (he.symm.trans hv) hu
      · exact .edit (he.trans (congrArg some hv))
    · dsimp only [stampOf] at hv
      rw [Function.update_of_ne hn] at hv
      exact absurd hv hu
  | rewrite other record =>
    cases h
    by_cases hn : name = other
    · subst hn
      dsimp only [stampOf] at hv
      rw [Function.update_self] at hv
      exact .rewrite hv
    · dsimp only [stampOf] at hv
      rw [Function.update_of_ne hn] at hv
      exact absurd hv hu

/-- The stamp of a record came to it at an event of the run, when no earlier record of the
name had it. -/
theorem stamp_brought {records : Text → Option JsonMap} {run : List Event} {name : Text}
    {stamp : String} (hr : replay step (start records) run = some w)
    (hs : (start records).stampOf name ≠ some stamp) (hw : w.stampOf name = some stamp) :
    ∃ before e after u v, run = before ++ e :: after ∧
      replay step (start records) before = some u ∧ u.step e = some v ∧
      Brings u name stamp v e ∧
      ∀ early r, early <+: before → replay step (start records) early = some r →
        r.stampOf name ≠ some stamp := by
  obtain ⟨before, e, after, u, v, he, hu, hv, hp, hn⟩ :=
    replay_first (P := fun r ↦ r.stampOf name = some stamp) hr hs hw
  have hun := hn before u (List.prefix_refl before) hu
  exact ⟨before, e, after, u, v, he, hu, hv, brings_of_step hv hun hp, hn⟩

end World

/-! ### The guarantee -/

/-- The stamp `lostAt` of a record was there at the start of the run, or it was brought to the
record since, and no record of the name had had it: by another sweep, which read the clock
then, or by something else than a sweep. -/
def StampedBefore (records : Text → Option JsonMap) (run : List Event) (i : Nat) (name : Text)
    (stamp : String) (lostAt : Int) : Prop :=
  (World.start records).stampOf name = some stamp ∨
    ∃ before e after u v, run = before ++ e :: after ∧
      replay World.step (World.start records) before = some u ∧ u.step e = some v ∧
      (∀ early r, early <+: before → replay World.step (World.start records) early = some r →
        r.stampOf name ≠ some stamp) ∧
      ((∃ j t scan io, j ≠ i ∧ e = .turn j scan io ∧ u.Counts .stamp j t scan io name v ∧
          t.nowMs = lostAt) ∨
        (∃ patch, e = .edit name patch ∧
          (patch.tags.getD []).get retentionLostAtTag = some (some stamp)) ∨
        ∃ record, e = .rewrite name record ∧ recordStamp record = some stamp)

/-- A removal by the sweep `i` that a run comes to. -/
structure Removal (records : Text → Option JsonMap) (run : List Event) (w : World) (i : Nat)
    (s : Sweep) (io : ActIo) (name : Text) (current : SessionMetadata) (lostAt : Int) :
    Prop where
  locked : io.locked = true
  read : readMetadata (w.records name) = some current
  lost : knownOwnerLost io.identity = true
  notPermanent : isPermanent current = false
  due : Due current s.nowMs s.windowMs s.keepMaxAgeMs lostAt
  stamped : exitedAt current = none → ∃ stamp, current.tag retentionLostAtTag = some stamp ∧
    StampedBefore records run i name stamp lostAt

/-- Whatever a run came to: no sweep has counted more than its limit; a sweep that is stopped
counts nothing any more, however the run goes on; a turn changes no record without counting
it, and never of a stopped sweep; and what a turn counts as removed was due under the locks,
and not by a stamp of the same sweep. -/
theorem retention_timing (records : Text → Option JsonMap) (run : List Event) (w : World)
    (hr : replay World.step (World.start records) run = some w) :
    (∀ s ∈ w.sweeps, s.result.actions ≤ maxActionsPerSweep) ∧
    (∀ (i : Nat) (s : Sweep), w.sweeps[i]? = some s → s.stopped = true → ∀ later w',
      replay World.step w later = some w' →
      ∃ s', w'.sweeps[i]? = some s' ∧ s'.stopped = true ∧ s'.result = s.result) ∧
    (∀ i scan io w', w.step (.turn i scan io) = some w' → ∀ name,
      w'.records name ≠ w.records name →
      ∃ action s, s.stopped = false ∧ w.Counts action i s scan io name w') ∧
    ∀ i s scan io name w', w.Counts .remove i s scan io name w' →
      ∃ current lostAt, Removal records run w i s io name current lostAt := by
  have hb := World.bounded_replay hr fun s hs ↦ by cases hs
  refine ⟨fun s hs ↦ (hb s hs).actions, ?_, ?_, ?_⟩
  · intro i s hs hst later w' hl
    obtain ⟨s', hs', hc⟩ := World.replay_continues hl hs
    exact ⟨s', hs', hc.stopped hst⟩
  · intro i scan io w' hstep name hn
    obtain ⟨action, s, hc⟩ := World.counts_of_changed hstep hn
    exact ⟨action, s, (World.counts_cases hc).1, hc⟩
  · intro i s scan io name w' hc
    obtain ⟨-, hrest, raw, current, hraw, ha⟩ := World.counts_cases hc
    obtain ⟨lostAt, hdue⟩ := due_of_remove ha.decided
    have hread : readMetadata (w.records name) = some current := by
      rw [hraw]
      exact ha.read
    have hwin := (hb s (List.mem_of_getElem? hc.1)).window hrest
    refine ⟨current, lostAt, ha.locked, hread, ha.lost, ha.notPermanent, hdue, fun he ↦ ?_⟩
    obtain ⟨stamp, createdAt, ht, hp, -, -⟩ := hdue.vanished he
    refine ⟨stamp, ht, ?_⟩
    have hw : w.stampOf name = some stamp := by
      rw [World.stampOf, recordStamp, hread]
      exact ht
    by_cases hs : (World.start records).stampOf name = some stamp
    · exact .inl hs
    · obtain ⟨before, e, after, u, v, rfl, hu, hv, hbr, hn⟩ := World.stamp_brought hr hs hw
      refine .inr ⟨before, e, after, u, v, rfl, hu, hv, hn, ?_⟩
      cases hbr with
      | @sweep j t scan io hcj hst =>
        subst hst
        have hnow := eq_of_parseIso8601Ms_iso hp
        refine .inl ⟨j, t, scan, io, ?_, rfl, hcj, hnow.symm⟩
        rintro rfl
        -- a sweep keeps its clock, and its window is positive
        rw [replay_append, hu, Option.bind_some] at hr
        obtain ⟨t', ht', hct⟩ := World.replay_continues hr hcj.1
        rw [hc.1] at ht'
        cases ht'
        have hnow' := hct.now
        have hdw := hdue.window
        omega
      | edit h => exact .inr (.inl ⟨_, rfl, h⟩)
      | rewrite h => exact .inr (.inr ⟨_, rfl, h⟩)

/-! ### Runs of one record -/

/-- The record of a session that vanished without a stamp. -/
def vanishedRaw : JsonMap :=
  [("generation", .string "g1"), ("createdAt", .string "1970-01-01T00:00:00.000Z")]

/-- The record with a stamp. -/
def stampedRaw (stamp : String) : JsonMap :=
  vanishedRaw ++ [("tags", .object [("retention.lost-at", .string stamp)])]

/-- A root whose record `s` is given. -/
def only (record : Option JsonMap) : Text → Option JsonMap :=
  Function.update (fun _ ↦ none) ['s'] record

/-- What a listing has of it. -/
def seen (raw : JsonMap) : SessionInfo :=
  ⟨['s'], [], none, .vanished, .gone, SessionMetadata.fromMap raw⟩

/-- A turn that has both locks and finds the owner gone. -/
def proven : ActIo := ⟨true, .gone, true, true⟩

/-- A tag edit that writes the stamp. -/
def stampPatch : MetadataPatch :=
  ⟨none, some [("retention.lost-at", some "1970-01-01T00:00:00.000Z")], by decide⟩

/-- A stamp that a tag edit wrote lets the first sweep remove the record. -/
theorem stamped_by_sweep_refuted :
    ¬ ∀ (records : Text → Option JsonMap) (run : List Event) (w : World),
      replay World.step (World.start records) run = some w →
      (∀ name, (World.start records).stampOf name = none) →
      ∀ i s scan io name w', w.Counts .remove i s scan io name w' →
        ∀ current, readMetadata (w.records name) = some current → exitedAt current = none →
        ∃ before j scan io after u t v, run = before ++ .turn j scan io :: after ∧ j ≠ i ∧
          replay World.step (World.start records) before = some u ∧
          u.Counts .stamp j t scan io name v := by
  intro hall
  let s := Sweep.start 1000 1000 0 [seen (stampedRaw "1970-01-01T00:00:00.000Z")]
  have hedit : editTags stampPatch (some vanishedRaw) =
      some (stampedRaw "1970-01-01T00:00:00.000Z") := by decide
  let w : World := ⟨only (some (stampedRaw "1970-01-01T00:00:00.000Z")), [s]⟩
  have hr : replay World.step (World.start (only (some vanishedRaw)))
      [.edit ['s'] stampPatch,
        .start 1000 1000 0 [seen (stampedRaw "1970-01-01T00:00:00.000Z")]] = some w := by
    simp only [replay, World.step, World.start, only, Option.bind_some, Function.update_self, hedit,
      Function.update_idem, List.nil_append]
    rfl
  have hc := @World.counts_of_act w .remove 0 s .gone proven
    (seen (stampedRaw "1970-01-01T00:00:00.000Z")) [] none rfl rfl rfl (by decide) (by decide)
    (by decide)
  obtain ⟨before, j, scan, io, after, u, t, v, he, -⟩ := hall _ _ w hr (fun name ↦ by
    unfold World.stampOf World.start only
    by_cases hn : name = ['s']
    · subst hn
      dsimp only
      rw [Function.update_self]
      decide
    · dsimp only
      rw [Function.update_of_ne hn]
      rfl) _ _ _ _ _ _ hc
      ((SessionMetadata.fromMap (stampedRaw "1970-01-01T00:00:00.000Z")).get (by decide))
      (Option.some_get _).symm (by decide)
  have hmem : Event.turn j scan io ∈ [Event.edit ['s'] stampPatch,
      .start 1000 1000 0 [seen (stampedRaw "1970-01-01T00:00:00.000Z")]] := by
    rw [he]
    exact List.mem_append_right before List.mem_cons_self
  simp at hmem

/-- A record that one sweep stamps, and that another removes a window later. -/
theorem retention_timing_twice :
    ∃ (run : List Event) (w w' : World) (s : Sweep) (current : SessionMetadata) (lostAt : Int),
      replay World.step (World.start (only (some vanishedRaw))) run = some w ∧
      w.Counts .remove 1 s .gone proven ['s'] w' ∧
      Removal (only (some vanishedRaw)) run w 1 s proven ['s'] current lostAt := by
  let first := Sweep.start 1000 1000 0 [seen vanishedRaw]
  let second := Sweep.start 2000 1000 0 [seen (stampedRaw "1970-01-01T00:00:01.000Z")]
  have hstamp := @World.counts_of_act ⟨only (some vanishedRaw), [first]⟩ .stamp 0 first .gone
    proven (seen vanishedRaw) [] (some (stampedRaw "1970-01-01T00:00:01.000Z")) rfl rfl rfl
    (by decide) (by decide) (by decide)
  let w : World := ⟨Function.update (only (some vanishedRaw)) ['s']
      (some (stampedRaw "1970-01-01T00:00:01.000Z")),
    [{ first with remaining := [], result := first.result.add .stamp ['s'] }, second]⟩
  have hr : replay World.step (World.start (only (some vanishedRaw)))
      [.start 1000 1000 0 [seen vanishedRaw], .turn 0 .gone proven,
        .start 2000 1000 0 [seen (stampedRaw "1970-01-01T00:00:01.000Z")]] = some w := by
    have hstart : (World.start (only (some vanishedRaw))).step
        (.start 1000 1000 0 [seen vanishedRaw]) = some ⟨only (some vanishedRaw), [first]⟩ := rfl
    rw [replay, hstart, Option.bind_some, replay, hstamp.2.1, Option.bind_some]
    rfl
  have hc := @World.counts_of_act w .remove 1 second .gone proven
    (seen (stampedRaw "1970-01-01T00:00:01.000Z")) [] none rfl rfl rfl (by decide) (by decide)
    (by decide)
  obtain ⟨current, lostAt, hrem⟩ :=
    (retention_timing _ _ w hr).2.2.2 1 second .gone proven ['s'] _ hc
  exact ⟨_, w, _, second, current, lostAt, hr, hc, hrem⟩

end PtySpec.Lifecycle
