import PtySpec.Lib.Program

/-!
# Runs of an executable step

A system given by a partial step function on labels: which states its runs reach, the
same with some labels forbidden in some states, and concrete runs by evaluation.
-/

namespace PtySpec.Lib

universe u v

variable {S : Type u} {L : Type v}

/-- The states that runs of a step function reach. -/
def Runs (init : S → Prop) (step : S → L → Option S) : S → Prop :=
  Reachable init fun s t ↦ ∃ l, step s l = some t

/-- The steps that a condition on the state and the label allows. -/
def gate (ok : S → L → Bool) (step : S → L → Option S) (s : S) (l : L) : Option S :=
  if ok s l then step s l else none

/-- Every label taken in order. -/
def replay (step : S → L → Option S) : S → List L → Option S
  | s, [] => some s
  | s, l :: rest => (step s l).bind (replay step · rest)

theorem gate_eq_some {ok : S → L → Bool} {step : S → L → Option S} {s t : S} {l : L} :
    gate ok step s l = some t ↔ ok s l = true ∧ step s l = some t := by
  unfold gate
  split
  · next h => simp [h]
  · next h => simp [h]

/-- Labels in two parts. -/
theorem replay_append {step : S → L → Option S} {s : S} {before after : List L} :
    replay step s (before ++ after) = (replay step s before).bind (replay step · after) := by
  induction before generalizing s with
  | nil => rfl
  | cons l rest ih =>
    rw [List.cons_append, replay, replay, Option.bind_assoc]
    exact congrArg _ (funext fun t ↦ ih)

/-- A property that a run ends with and did not start with is there from some step on, and it
was in no state before that one. -/
theorem replay_first {step : S → L → Option S} {P : S → Prop} {s t : S} {labels : List L}
    (h : replay step s labels = some t) (hs : ¬P s) (ht : P t) :
    ∃ before l after u v, labels = before ++ l :: after ∧ replay step s before = some u ∧
      step u l = some v ∧ P v ∧
      ∀ early r, early <+: before → replay step s early = some r → ¬P r := by
  induction labels generalizing s with
  | nil =>
    cases h
    exact absurd ht hs
  | cons l rest ih =>
    rw [replay, Option.bind_eq_some_iff] at h
    obtain ⟨v, hv, h⟩ := h
    by_cases hp : P v
    · refine ⟨[], l, rest, s, v, rfl, rfl, hv, hp, fun early r he hr ↦ ?_⟩
      obtain rfl := List.prefix_nil.mp he
      cases hr
      exact hs
    · obtain ⟨before, k, after, u, w, rfl, hu, hw, hpw, hn⟩ := ih h hp
      refine ⟨l :: before, k, after, u, w, rfl, ?_, hw, hpw, fun early r he hr ↦ ?_⟩
      · rw [replay, hv, Option.bind_some, hu]
      · cases early with
        | nil =>
          cases hr
          exact hs
        | cons m early =>
          obtain ⟨rfl, hp'⟩ := List.cons_prefix_cons.mp he
          rw [replay, hv, Option.bind_some] at hr
          exact hn early r hp' hr

/-- A condition on a step that every step of a run meets, as far as the run goes. -/
def Throughout (step : S → L → Option S) (C : S → L → Prop) (s : S) (labels : List L) : Prop :=
  ∀ before l, before ++ [l] <+: labels → ∀ t, replay step s before = some t → C t l

theorem throughout_nil {step : S → L → Option S} {C : S → L → Prop} {s : S} :
    Throughout step C s [] := by
  intro before l hpre
  cases (List.append_eq_nil_iff.1 (List.prefix_nil.1 hpre)).2

theorem throughout_cons {step : S → L → Option S} {C : S → L → Prop} {s : S} {l : L}
    {rest : List L} : Throughout step C s (l :: rest) ↔
      C s l ∧ ∀ t, step s l = some t → Throughout step C t rest := by
  constructor
  · intro h
    refine ⟨h [] l (by simp) s rfl, fun t ht before m hpre u hu ↦ ?_⟩
    refine h (l :: before) m (List.cons_prefix_cons.2 ⟨rfl, hpre⟩) u ?_
    rw [replay, ht]
    exact hu
  · rintro ⟨hl, hrest⟩ before m hpre u hu
    cases before with
    | nil =>
      obtain rfl : m = l := (List.cons_prefix_cons.1 hpre).1
      cases hu
      exact hl
    | cons k before =>
      obtain ⟨rfl, hbefore⟩ := List.cons_prefix_cons.1 hpre
      rw [replay, Option.bind_eq_some_iff] at hu
      obtain ⟨t, ht, hu⟩ := hu
      exact hrest t ht before m hbefore u hu

/-- Where a step keeps a property exactly when it is safe, the states of a run have the property
exactly when every step of the run is safe. -/
theorem forall_replay_iff {step : S → L → Option S} {P : S → Prop} {C safe : S → L → Prop}
    (hstep : ∀ s l, P s → C s l → ((∃ t, step s l = some t ∧ P t) ↔ safe s l)) {s : S}
    (hs : P s) {labels : List L} (hC : Throughout step C s labels) :
    (∀ before, before <+: labels → ∃ t, replay step s before = some t ∧ P t) ↔
      Throughout step safe s labels := by
  induction labels generalizing s with
  | nil =>
    refine iff_of_true (fun before hpre ↦ ?_) throughout_nil
    obtain rfl := List.prefix_nil.1 hpre
    exact ⟨s, rfl, hs⟩
  | cons l rest ih =>
    rw [throughout_cons] at hC ⊢
    constructor
    · intro h
      obtain ⟨t, ht, hp⟩ := h [l] (List.cons_prefix_cons.2 ⟨rfl, List.nil_prefix⟩)
      rw [replay, Option.bind_eq_some_iff] at ht
      obtain ⟨u, hu, hut⟩ := ht
      obtain rfl := Option.some.inj hut
      refine ⟨(hstep s l hs hC.1).1 ⟨u, hu, hp⟩, fun v hv ↦ ?_⟩
      obtain rfl := Option.some.inj (hu.symm.trans hv)
      refine (ih hp (hC.2 u hu)).1 fun before hpre ↦ ?_
      obtain ⟨w, hw, hpw⟩ := h (l :: before) (List.cons_prefix_cons.2 ⟨rfl, hpre⟩)
      rw [replay, hu] at hw
      exact ⟨w, hw, hpw⟩
    · rintro ⟨hl, hrest⟩ before hpre
      cases before with
      | nil => exact ⟨s, rfl, hs⟩
      | cons k before =>
        obtain ⟨rfl, hbefore⟩ := List.cons_prefix_cons.1 hpre
        obtain ⟨t, ht, hp⟩ := (hstep s k hs hC.1).2 hl
        obtain ⟨w, hw, hpw⟩ := (ih hp (hC.2 t ht)).2 (hrest t ht) before hbefore
        refine ⟨w, ?_, hpw⟩
        rw [replay, ht]
        exact hw

namespace Runs

variable {init : S → Prop} {step : S → L → Option S}

/-- An invariant of the steps holds in every state that runs reach. -/
theorem induct {P : S → Prop} {s : S} (h : Runs init step s) (h₀ : ∀ s, init s → P s)
    (hs : ∀ s l t, Runs init step s → P s → step s l = some t → P t) : P s := by
  apply Reachable.induct h h₀
  intro s t hr hp hst
  obtain ⟨l, hl⟩ := hst
  exact hs s l t hr hp hl

/-- A run by evaluation, from a state that runs reach. -/
theorem replay {s t : S} (hs : Runs init step s) {labels : List L}
    (h : Lib.replay step s labels = some t) : Runs init step t := by
  induction labels generalizing s with
  | nil =>
    cases h
    exact hs
  | cons l rest ih =>
    rw [Lib.replay, Option.bind_eq_some_iff] at h
    obtain ⟨u, hu, ht⟩ := h
    exact ih (Reachable.tail hs ⟨l, hu⟩) ht

end Runs
end PtySpec.Lib
