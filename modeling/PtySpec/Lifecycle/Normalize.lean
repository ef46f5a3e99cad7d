import PtySpec.Lib.Paths

/-!
# The two path normalizers

Model of the lexical normalizers of `crates/pty-core/src/ptyfile.rs:198-228` and
`crates/pty-core/src/spawn.rs:72-85`, both written after `path.resolve`. One keeps the components
on a stack, the other takes them off a path; they part where a `..` reaches the root.
-/

namespace PtySpec.Lifecycle

open Lib.Paths

namespace Ptyfile

/-- The stack after a component, `ptyfile.rs:214`. -/
def step (out : List Component) (comp : Component) : List Component :=
  match comp with
  | .parentDir =>
    match out.getLast? with
    | some (.normal _) => out.dropLast
    | _ => out ++ [.parentDir]
  | .curDir => out
  | other => out ++ [other]

/-- `normalize`, `ptyfile.rs:211`. -/
def normalize (p : Text) : Text := collect ((components p).foldl step [])

/-- `resolve_against`, `ptyfile.rs:199`. -/
def resolveAgainst (base p : Text) : Text :=
  normalize (if isAbsolute p then p else push base p)

end Ptyfile

namespace Spawn

/-- The path after a component, `spawn.rs:76`. -/
def step (out : Text) (comp : Component) : Text :=
  match comp with
  | .curDir => out
  | .parentDir => pop out
  | other => push out other.asOsStr

/-- `normalize`, `spawn.rs:73`. -/
def normalize (p : Text) : Text := (components p).foldl step []

end Spawn

/-! ### What both compute -/

/-- The names left by a component: `..` takes the last one, if there is one. -/
def walk (names : List Component) (comp : Component) : List Component :=
  match comp with
  | .parentDir => names.dropLast
  | .normal name => names ++ [.normal name]
  | _ => names

/-- A path whose `..` never reach its root: each has a name before it that no other takes. -/
def StaysBelowRoot (p : Text) : Prop :=
  ∀ pre, pre <+: components p → pre.count .parentDir ≤ pre.countP Component.isNormal

private theorem walk_names {names : List Component} {comp : Component}
    (hn : ∀ c ∈ names, c.Inner ∧ c.isNormal = true) (hc : comp.Inner) :
    ∀ c ∈ walk names comp, c.Inner ∧ c.isNormal = true := by
  intro c hmem
  cases comp with
  | rootDir => exact hn c hmem
  | curDir => exact hn c hmem
  | parentDir => exact hn c (List.dropLast_subset _ hmem)
  | normal name =>
    obtain hmem | hmem := List.mem_append.1 hmem
    · exact hn c hmem
    · obtain rfl := List.mem_singleton.1 hmem
      exact ⟨hc, rfl⟩

private theorem walk_run {parts : List Component} (h : ∀ c ∈ parts, c.Inner) :
    ∀ c ∈ parts.foldl walk [], c.Inner ∧ c.isNormal = true := by
  induction parts using List.reverseRecOn with
  | nil => simp
  | append_singleton parts c ih =>
    rw [List.foldl_concat]
    exact walk_names (ih fun d hd ↦ h d (by simp [hd])) (h c (by simp))

/-- The pop of `spawn` is the abstract one: nothing lies above the root. -/
private theorem spawn_step {names : List Component} {comp : Component}
    (hn : ∀ c ∈ names, c.Inner) (hc : comp.Inner) :
    Spawn.step (absolute names) comp = absolute (walk names comp) := by
  cases comp with
  | rootDir => exact hc.elim
  | curDir => exact hc.elim
  | parentDir =>
    obtain rfl | ⟨front, c, rfl⟩ := List.eq_nil_or_concat' names
    · exact pop_root
    · have hfront : ∀ d ∈ front, d.Inner := fun d hd ↦ hn d (by simp [hd])
      simpa [Spawn.step, walk] using pop_absolute_concat hfront (hn c (by simp))
  | normal name => exact push_absolute hn hc

private theorem spawn_run {parts : List Component} (h : ∀ c ∈ parts, c.Inner) :
    parts.foldl Spawn.step (absolute []) = absolute (parts.foldl walk []) := by
  induction parts using List.reverseRecOn with
  | nil => rfl
  | append_singleton parts c ih =>
    have hparts : ∀ d ∈ parts, d.Inner := fun d hd ↦ h d (by simp [hd])
    rw [List.foldl_concat, List.foldl_concat, ih hparts]
    exact spawn_step (fun d hd ↦ (walk_run hparts d hd).1) (h c (by simp))

/-- `spawn::normalize` of an absolute path is the path of the names left. -/
theorem spawn_normalize_eq {p : Text} {parts : List Component}
    (hp : components p = .rootDir :: parts) (h : ∀ c ∈ parts, c.Inner) :
    Spawn.normalize p = absolute (parts.foldl walk []) := by
  have hroot : Spawn.step [] .rootDir = absolute [] := by decide
  rw [Spawn.normalize, hp, List.foldl_cons, hroot, spawn_run h]

/-! ### The stack of `ptyfile` -/

/-- Components in which no prefix has more `..` than names. -/
private def Within (parts : List Component) : Prop :=
  ∀ pre, pre <+: parts → pre.count .parentDir ≤ pre.countP Component.isNormal

private theorem within_concat {parts : List Component} {c : Component} :
    Within (parts ++ [c]) ↔ Within parts ∧
      (parts ++ [c]).count .parentDir ≤ (parts ++ [c]).countP Component.isNormal := by
  constructor
  · exact fun h ↦ ⟨fun pre hpre ↦ h pre (hpre.trans (List.prefix_append _ _)),
      h _ List.prefix_rfl⟩
  · rintro ⟨h, hall⟩ pre hpre
    obtain rfl | hpre := List.prefix_concat_iff.1 hpre
    · exact hall
    · exact h pre hpre

private theorem staysBelowRoot_iff {p : Text} {parts : List Component}
    (hp : components p = .rootDir :: parts) : StaysBelowRoot p ↔ Within parts := by
  unfold StaysBelowRoot
  rw [hp]
  constructor
  · intro h pre hpre
    simpa [Component.isNormal] using h (.rootDir :: pre) (List.cons_prefix_cons.2 ⟨rfl, hpre⟩)
  · intro h pre hpre
    obtain rfl | ⟨rest, rfl, hrest⟩ := List.prefix_cons_iff.1 hpre
    · simp
    · simpa [Component.isNormal] using h rest hrest

/-- While the path stays below its root, the stack is the root and the names left, and there are
as many as the `..` have not taken. -/
private theorem ptyfile_run {parts : List Component} (h : ∀ c ∈ parts, c.Inner)
    (hw : Within parts) :
    parts.foldl Ptyfile.step [.rootDir] = .rootDir :: parts.foldl walk [] ∧
      (parts.foldl walk []).length + parts.count .parentDir =
        parts.countP Component.isNormal := by
  induction parts using List.reverseRecOn with
  | nil => exact ⟨rfl, rfl⟩
  | append_singleton parts c ih =>
    have hparts : ∀ d ∈ parts, d.Inner := fun d hd ↦ h d (by simp [hd])
    obtain ⟨hw, hcount⟩ := within_concat.1 hw
    obtain ⟨hrun, hlen⟩ := ih hparts hw
    have hnames := walk_run hparts
    rw [List.foldl_concat, List.foldl_concat, hrun]
    cases c with
    | rootDir => exact (h .rootDir (by simp)).elim
    | curDir => exact (h .curDir (by simp)).elim
    | parentDir =>
      have hne : parts.foldl walk [] ≠ [] := by
        intro hnil
        simp [hnil, Component.isNormal] at hlen hcount
        omega
      obtain ⟨front, d, hd⟩ := (List.eq_nil_or_concat' _).resolve_left hne
      have hnormal := (hnames d (by simp [hd])).2
      cases d with
      | normal name =>
        rw [hd] at hlen ⊢
        refine ⟨?_, ?_⟩
        · have hlast : (Component.rootDir :: (front ++ [.normal name])).getLast? =
              some (.normal name) := by
            rw [← List.cons_append, List.getLast?_concat]
          simp only [Ptyfile.step, hlast, walk]
          rw [← List.cons_append, List.dropLast_concat, List.dropLast_concat]
        · simp [walk, Component.isNormal] at hlen ⊢
          omega
      | rootDir => cases hnormal
      | curDir => cases hnormal
      | parentDir => cases hnormal
    | normal name =>
      refine ⟨rfl, ?_⟩
      simp [walk, Component.isNormal]
      omega

/-- A `..` that is on the stack stays on it. -/
private theorem ptyfile_step_mem {out : List Component} {comp : Component}
    (h : Component.parentDir ∈ out) : Component.parentDir ∈ Ptyfile.step out comp := by
  cases comp with
  | rootDir => exact List.mem_append_left _ h
  | curDir => exact h
  | normal name => exact List.mem_append_left _ h
  | parentDir =>
    simp only [Ptyfile.step]
    split
    · next name hlast =>
      obtain ⟨front, rfl⟩ := List.getLast?_eq_some_iff.1 hlast
      simpa using h
    · exact List.mem_append_left _ h

/-- A path that does not stay below its root leaves a `..` on the stack. -/
private theorem ptyfile_climbs {parts : List Component} (h : ∀ c ∈ parts, c.Inner)
    (hw : ¬Within parts) :
    Component.parentDir ∈ parts.foldl Ptyfile.step [.rootDir] := by
  induction parts using List.reverseRecOn with
  | nil =>
    refine absurd (fun pre hpre ↦ ?_) hw
    obtain rfl := List.prefix_nil.1 hpre
    exact Nat.le_refl _
  | append_singleton parts c ih =>
    have hparts : ∀ d ∈ parts, d.Inner := fun d hd ↦ h d (by simp [hd])
    rw [List.foldl_concat]
    by_cases hfront : Within parts
    · obtain ⟨hrun, hlen⟩ := ptyfile_run hparts hfront
      have hcount : ¬_ := fun hcount ↦ hw (within_concat.2 ⟨hfront, hcount⟩)
      have hin := hfront parts List.prefix_rfl
      cases c with
      | parentDir =>
        simp [Component.isNormal] at hcount
        have hnil : parts.foldl walk [] = [] := List.length_eq_zero_iff.1 (by omega)
        rw [hrun, hnil]
        decide
      | rootDir => exact (h .rootDir (by simp)).elim
      | curDir => exact (h .curDir (by simp)).elim
      | normal name =>
        simp [Component.isNormal] at hcount
        omega
    · exact ptyfile_step_mem (ih hparts hfront)

/-- What is on the stack above the root is `..` and names. -/
private theorem ptyfile_inner {parts : List Component} (h : ∀ c ∈ parts, c.Inner) :
    ∃ out, parts.foldl Ptyfile.step [.rootDir] = .rootDir :: out ∧ ∀ c ∈ out, c.Inner := by
  induction parts using List.reverseRecOn with
  | nil => exact ⟨[], rfl, by simp⟩
  | append_singleton parts c ih =>
    have hc := h c (by simp)
    obtain ⟨out, hrun, hout⟩ := ih fun d hd ↦ h d (by simp [hd])
    have hpush : ∀ d ∈ out ++ [c], d.Inner := by
      intro d hd
      obtain hd | hd := List.mem_append.1 hd
      · exact hout d hd
      · exact List.mem_singleton.1 hd ▸ hc
    rw [List.foldl_concat, hrun]
    cases c with
    | rootDir => exact hc.elim
    | curDir => exact hc.elim
    | normal name => exact ⟨out ++ [.normal name], rfl, hpush⟩
    | parentDir =>
      simp only [Ptyfile.step]
      split
      · next name hlast =>
        obtain rfl | ⟨front, d, rfl⟩ := List.eq_nil_or_concat' out
        · cases hlast
        · refine ⟨front, ?_, fun d hd ↦ hout d (by simp [hd])⟩
          rw [← List.cons_append, List.dropLast_concat]
      · exact ⟨out ++ [.parentDir], rfl, hpush⟩

private theorem collect_root {out : List Component} (h : ∀ c ∈ out, c.Inner) :
    collect (.rootDir :: out) = absolute out := by
  induction out using List.reverseRecOn with
  | nil => rfl
  | append_singleton out c ih =>
    have hout : ∀ d ∈ out, d.Inner := fun d hd ↦ h d (by simp [hd])
    rw [← List.cons_append, collect, List.foldl_concat, ← collect, ih hout,
      push_absolute hout (h c (by simp))]

/-! ### One spelling -/

/-- `ptyfile::normalize` of an absolute path is an absolute path. -/
theorem ptyfile_normalize_eq {p : Text} {parts : List Component}
    (hp : components p = .rootDir :: parts) (h : ∀ c ∈ parts, c.Inner) :
    ∃ out, Ptyfile.normalize p = absolute out ∧ (∀ c ∈ out, c.Inner) ∧
      parts.foldl Ptyfile.step [.rootDir] = .rootDir :: out := by
  obtain ⟨out, hrun, hout⟩ := ptyfile_inner h
  have hroot : Ptyfile.step [] .rootDir = [.rootDir] := rfl
  refine ⟨out, ?_, hout, hrun⟩
  rw [Ptyfile.normalize, hp, List.foldl_cons, hroot, hrun, collect_root hout]

private theorem walk_normal {names : List Component} (h : ∀ c ∈ names, c.isNormal = true) :
    names.foldl walk [] = names := by
  induction names using List.reverseRecOn with
  | nil => rfl
  | append_singleton names c ih =>
    have hc := h c (by simp)
    rw [List.foldl_concat, ih fun d hd ↦ h d (by simp [hd])]
    cases c with
    | normal name => rfl
    | rootDir => cases hc
    | curDir => cases hc
    | parentDir => cases hc

private theorem within_normal {names : List Component} (h : ∀ c ∈ names, c.isNormal = true) :
    Within names := by
  intro pre hpre
  have hzero : pre.count .parentDir = 0 := by
    rw [List.count_eq_zero]
    intro hmem
    cases h _ (hpre.subset hmem)
  omega

/-- A path of names alone is as both normalizers leave it. -/
theorem normalize_names {names : List Component}
    (h : ∀ c ∈ names, c.Inner ∧ c.isNormal = true) :
    Ptyfile.normalize (absolute names) = absolute names ∧
      Spawn.normalize (absolute names) = absolute names := by
  have hinner : ∀ c ∈ names, c.Inner := fun c hc ↦ (h c hc).1
  have hnormal : ∀ c ∈ names, c.isNormal = true := fun c hc ↦ (h c hc).2
  have hp := components_absolute hinner
  obtain ⟨out, hout, -, hrun⟩ := ptyfile_normalize_eq hp hinner
  have hstack := (ptyfile_run hinner (within_normal hnormal)).1
  rw [walk_normal hnormal, hrun] at hstack
  obtain rfl := (List.cons.inj hstack).2
  exact ⟨hout, (spawn_normalize_eq hp hinner).trans (by rw [walk_normal hnormal])⟩

/-- What a path has one spelling by: both normalizers make it the same absolute path, without a
segment `.` or `..`, which neither changes again. -/
structure OneSpelling (p : Text) : Prop where
  same : Ptyfile.normalize p = Spawn.normalize p
  isAbsolute : isAbsolute (Ptyfile.normalize p) = true
  plain : ∀ s ∈ (Ptyfile.normalize p).splitOn SLASH, s ≠ [DOT] ∧ s ≠ [DOT, DOT]
  ptyfileAgain : Ptyfile.normalize (Ptyfile.normalize p) = Ptyfile.normalize p
  spawnAgain : Spawn.normalize (Ptyfile.normalize p) = Ptyfile.normalize p

/-- The normalizers agree on an absolute path exactly when no `..` of it reaches the root:
`ptyfile` keeps such a `..`, `spawn` and `path.resolve` drop it. -/
theorem oneSpelling_iff (p : Text) (h : isAbsolute p = true) :
    OneSpelling p ↔ StaysBelowRoot p := by
  obtain ⟨parts, hp, hinner⟩ := components_of_isAbsolute h
  obtain ⟨out, hout, hin, hrun⟩ := ptyfile_normalize_eq hp hinner
  rw [staysBelowRoot_iff hp]
  constructor
  · intro hone
    by_contra hw
    have hmem : Component.parentDir ∈ out := by
      simpa [hrun] using ptyfile_climbs hinner hw
    have hsegment : [DOT, DOT] ∈ (Ptyfile.normalize p).splitOn SLASH := by
      rw [hout, splitOn_absolute hin (List.ne_nil_of_mem hmem)]
      exact List.mem_cons_of_mem _ (List.mem_map_of_mem hmem)
    exact (hone.plain _ hsegment).2 rfl
  · intro hw
    have hnames := walk_run hinner
    have hstack := (ptyfile_run hinner hw).1
    rw [hrun] at hstack
    obtain rfl := (List.cons.inj hstack).2
    obtain ⟨hptyfile, hspawn⟩ := normalize_names hnames
    refine ⟨?_, ?_, ?_, ?_, ?_⟩
    · rw [hout, spawn_normalize_eq hp hinner]
    · rw [hout, isAbsolute_absolute]
    · intro s hs
      rw [hout] at hs
      obtain rfl | ⟨c, hc, rfl⟩ := mem_splitOn_absolute hin hs
      · decide
      · cases c with
        | normal name => exact (hnames _ hc).1.2.2
        | rootDir => cases (hnames _ hc).2
        | curDir => cases (hnames _ hc).2
        | parentDir => cases (hnames _ hc).2
    · rw [hout, hptyfile]
    · rw [hout, hspawn]

/-- `/a/../b` stays below its root. -/
theorem oneSpelling_sibling :
    isAbsolute [SLASH, 97, SLASH, DOT, DOT, SLASH, 98] = true ∧
      (OneSpelling [SLASH, 97, SLASH, DOT, DOT, SLASH, 98] ↔
        StaysBelowRoot [SLASH, 97, SLASH, DOT, DOT, SLASH, 98]) :=
  ⟨by decide, oneSpelling_iff _ (by decide)⟩

/-- `/../a` is `/../a` to one normalizer and `/a` to the other. -/
theorem not_oneSpelling_root :
    Ptyfile.normalize [SLASH, DOT, DOT, SLASH, 97] = [SLASH, DOT, DOT, SLASH, 97] ∧
      Spawn.normalize [SLASH, DOT, DOT, SLASH, 97] = [SLASH, 97] ∧
      ¬∀ p, isAbsolute p = true → OneSpelling p := by
  have hp : Ptyfile.normalize [SLASH, DOT, DOT, SLASH, 97] = [SLASH, DOT, DOT, SLASH, 97] := by
    decide
  have hs : Spawn.normalize [SLASH, DOT, DOT, SLASH, 97] = [SLASH, 97] := by decide
  refine ⟨hp, hs, fun hall ↦ ?_⟩
  have hsame := (hall [SLASH, DOT, DOT, SLASH, 97] (by decide)).same
  rw [hp, hs] at hsame
  exact absurd hsame (by decide)

/-- What a manifest names is an absolute path, whatever it is resolved against. -/
theorem isAbsolute_resolveAgainst {base : Text} (h : isAbsolute base = true) (p : Text) :
    isAbsolute (Ptyfile.resolveAgainst base p) = true := by
  have hjoined : isAbsolute (if isAbsolute p then p else push base p) = true := by
    split
    · assumption
    · next hp =>
      obtain ⟨c, rest, rfl⟩ : ∃ c rest, base = c :: rest := by
        cases base with
        | nil => cases h
        | cons c rest => exact ⟨c, rest, rfl⟩
      unfold push
      rw [if_neg hp]
      split <;> exact h
  obtain ⟨parts, hparts, hinner⟩ := components_of_isAbsolute hjoined
  obtain ⟨out, hout, -⟩ := ptyfile_normalize_eq hparts hinner
  rw [Ptyfile.resolveAgainst, hout, isAbsolute_absolute]

end PtySpec.Lifecycle
