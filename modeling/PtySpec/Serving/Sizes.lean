import PtySpec.Serving.Geometry

/-!
# The smallest size

`negotiate_size`, `crates/pty/src/daemon/geometry.rs:19`, folds the sizes of the clients with
zero for "none yet", and a client may declare a zero. After a zero the fold begins again: it
gives the smallest of the sizes that are not zero exactly if none before a zero is smaller than
all after it.
-/

namespace PtySpec.Serving

/-! ### One axis -/

/-- One axis of the fold, `geometry.rs:23`. -/
def fit (sizes : List UInt16) : UInt16 :=
  sizes.foldl (fun least size ↦ if least = 0 then size else min least size) 0

/-- The smallest of the sizes that are not zero, in whatever order, or zero for none. -/
def Smallest (sizes : List UInt16) (n : UInt16) : Prop :=
  (n = 0 ∧ ∀ m ∈ sizes, m = 0) ∨ (n ≠ 0 ∧ n ∈ sizes ∧ ∀ m ∈ sizes, m ≠ 0 → n ≤ m)

/-- Of the sizes before a zero, those that are not zero are not smaller than all after it. -/
def ZerosApart (sizes : List UInt16) : Prop :=
  ∀ pre post, sizes = pre ++ 0 :: post → ∀ n ∈ pre, n ≠ 0 → ∃ m ∈ post, m ≠ 0 ∧ m ≤ n

section Axis

variable {sizes pre post : List UInt16} {n m : UInt16}

private theorem min_cases (n m : UInt16) : (min n m = n ∧ n ≤ m) ∨ (min n m = m ∧ m ≤ n) := by
  have hmin : min n m = if n ≤ m then n else m := rfl
  rw [hmin]
  split
  · next h => exact .inl ⟨rfl, h⟩
  · next h => exact .inr ⟨rfl, (UInt16.le_total n m).resolve_left h⟩

private theorem fit_append_singleton (sizes : List UInt16) (n : UInt16) :
    fit (sizes ++ [n]) = if fit sizes = 0 then n else min (fit sizes) n := by
  unfold fit
  rw [List.foldl_append, List.foldl_cons, List.foldl_nil]

/-- At a zero the fold begins again. -/
private theorem fit_after_zero (pre post : List UInt16) : fit (pre ++ 0 :: post) = fit post := by
  have hzero : fit (pre ++ [0]) = 0 := by
    rw [fit_append_singleton]
    split
    · rfl
    · next hne =>
      rcases min_cases (fit pre) 0 with ⟨-, h⟩ | ⟨h, -⟩
      · exact absurd (UInt16.le_antisymm h UInt16.zero_le) hne
      · exact h
  have hsplit : pre ++ 0 :: post = (pre ++ [0]) ++ post := by simp
  unfold fit at hzero ⊢
  rw [hsplit, List.foldl_append, hzero]

/-- The fold gives one of the sizes. -/
private theorem fit_mem (h : sizes ≠ []) : fit sizes ∈ sizes := by
  induction sizes using List.reverseRecOn with
  | nil => exact absurd rfl h
  | append_singleton l x ih =>
    rw [fit_append_singleton]
    split
    · simp
    · next hne =>
      have hl : l ≠ [] := fun hl ↦ hne (by rw [hl]; rfl)
      rcases min_cases (fit l) x with ⟨hm, -⟩ | ⟨hm, -⟩ <;> rw [hm]
      · exact List.mem_append_left _ (ih hl)
      · simp

/-- Without zeros the fold is a minimum. -/
private theorem fit_le (h : 0 ∉ sizes) : ∀ m ∈ sizes, fit sizes ≤ m := by
  induction sizes using List.reverseRecOn with
  | nil => simp
  | append_singleton l x ih =>
    have hl : 0 ∉ l := fun hm ↦ h (List.mem_append_left _ hm)
    intro m hm
    rw [fit_append_singleton]
    rcases List.mem_append.mp hm with hm | hm
    · have hne : fit l ≠ 0 := fun he ↦ hl (he ▸ fit_mem (List.ne_nil_of_mem hm))
      rw [if_neg hne]
      rcases min_cases (fit l) x with ⟨he, -⟩ | ⟨he, hx⟩ <;> rw [he]
      · exact ih hl m hm
      · exact UInt16.le_trans hx (ih hl m hm)
    · obtain rfl := List.mem_singleton.mp hm
      split
      · exact UInt16.le_refl m
      · rcases min_cases (fit l) m with ⟨he, hx⟩ | ⟨he, -⟩ <;> rw [he]
        · exact hx
        · exact UInt16.le_refl m

/-- The last zero, if there is one. -/
private theorem exists_last_zero (h : 0 ∈ sizes) :
    ∃ pre post, sizes = pre ++ 0 :: post ∧ 0 ∉ post := by
  obtain ⟨pre, post, he, hn⟩ := List.eq_append_cons_of_mem (List.mem_reverse.mpr h)
  refine ⟨post.reverse, pre.reverse, ?_, by simpa using hn⟩
  rw [← List.reverse_reverse sizes, he]
  simp

theorem smallest_fit_iff (sizes : List UInt16) : Smallest sizes (fit sizes) ↔ ZerosApart sizes := by
  constructor
  · rintro h pre post rfl n hn hne
    rw [fit_after_zero] at h
    have hmem : n ∈ pre ++ 0 :: post := List.mem_append_left _ hn
    rcases h with ⟨-, hall⟩ | ⟨hfit, -, hle⟩
    · exact absurd (hall n hmem) hne
    · have hpost : post ≠ [] := fun hp ↦ hfit (by rw [hp]; rfl)
      exact ⟨fit post, fit_mem hpost, hfit, hle n hmem hne⟩
  · intro h
    by_cases hall : ∀ m ∈ sizes, m = 0
    · refine .inl ⟨?_, hall⟩
      by_cases he : sizes = []
      · rw [he]
        rfl
      · exact hall _ (fit_mem he)
    · push Not at hall
      obtain ⟨n, hn, hne⟩ := hall
      right
      by_cases hzero : 0 ∈ sizes
      · obtain ⟨pre, post, rfl, hpost⟩ := exists_last_zero hzero
        rw [fit_after_zero]
        have hback : ∀ m ∈ pre ++ 0 :: post, m ≠ 0 → ∃ k ∈ post, k ≤ m := by
          intro m hm hm0
          rcases List.mem_append.mp hm with hm | hm
          · obtain ⟨k, hk, -, hle⟩ := h pre post rfl m hm hm0
            exact ⟨k, hk, hle⟩
          · exact ⟨m, (List.mem_cons.mp hm).resolve_left hm0, UInt16.le_refl m⟩
        obtain ⟨k, hk, -⟩ := hback n hn hne
        have hfit := fit_mem (List.ne_nil_of_mem hk)
        refine ⟨fun he ↦ hpost (he ▸ hfit), List.mem_append_right _ (List.mem_cons_of_mem _ hfit),
          fun m hm hm0 ↦ ?_⟩
        obtain ⟨k, hk, hle⟩ := hback m hm hm0
        exact UInt16.le_trans (fit_le hpost k hk) hle
      · have hfit := fit_mem (List.ne_nil_of_mem hn)
        exact ⟨fun he ↦ hzero (he ▸ hfit), hfit, fun m hm _ ↦ fit_le hzero m hm⟩

end Axis

/-! ### The session -/

namespace Daemon

variable {T : Type} [Terminal T]

/-- The rows of the clients that constrain the size, in the order of the clients. -/
def rowsOf (clients : List (Nat × Client)) : List UInt16 :=
  (clients.filter (·.2.constrainsSize)).map (·.2.rows)

/-- The columns of the clients that constrain the size. -/
def colsOf (clients : List (Nat × Client)) : List UInt16 :=
  (clients.filter (·.2.constrainsSize)).map (·.2.cols)

omit [Terminal T] in
private theorem negotiated_eq (clients : List (Nat × Client)) :
    negotiated clients = (fit (rowsOf clients), fit (colsOf clients)) := by
  unfold negotiated rowsOf colsOf fit
  induction clients.filter (·.2.constrainsSize) using List.reverseRecOn with
  | nil => rfl
  | append_singleton l p ih =>
    rw [List.foldl_append, List.foldl_cons, List.foldl_nil, ih]
    simp only [List.map_append, List.map_cons, List.map_nil, List.foldl_append, List.foldl_cons,
      List.foldl_nil]

/-- A size that a session may have and does not have yet. -/
def Applies (s : Daemon T) (rows cols : UInt16) : Prop :=
  (rows ≠ 0 ∧ cols ≠ 0) ∧ (rows ≤ 4096 ∧ cols ≤ 4096 ∧ rows.toNat * cols.toNat ≤ 250000) ∧
    ¬(rows = Terminal.rows s.actor ∧ cols = Terminal.cols s.actor)

/-- The session is resized to that size exactly if it applies, and is left alone if not. -/
def ResizesTo (s : Daemon T) (now : Nat) (rows cols : UInt16) : Prop :=
  (s.Applies rows cols → ∃ t, s.negotiateSize now = (true, t) ∧ Resized rows cols s t) ∧
    (¬s.Applies rows cols → s.negotiateSize now = (false, s))

/-- `negotiate_size` aims at the smallest size, and resizes to it exactly if it applies. -/
structure Negotiates (s : Daemon T) (now : Nat) : Prop where
  rows : Smallest (rowsOf s.clients) (negotiated s.clients).1
  cols : Smallest (colsOf s.clients) (negotiated s.clients).2
  resizes : s.ResizesTo now (negotiated s.clients).1 (negotiated s.clients).2

/-- Whatever the size it aims at, `negotiate_size` resizes to it exactly if it applies. -/
theorem resizesTo_negotiated (s : Daemon T) (now : Nat) :
    s.ResizesTo now (negotiated s.clients).1 (negotiated s.clients).2 := by
  unfold ResizesTo Applies negotiateSize
  dsimp only
  split
  · next hz => exact ⟨fun h ↦ by tauto, fun _ ↦ rfl⟩
  · next hz =>
    split
    · next hl =>
      refine ⟨fun h ↦ absurd hl ?_, fun _ ↦ rfl⟩
      obtain ⟨-, ⟨hr, hc, hp⟩, -⟩ := h
      rintro (h | h | h)
      · exact absurd hr (UInt16.not_le.mpr h)
      · exact absurd hc (UInt16.not_le.mpr h)
      · exact absurd hp (Nat.not_le.mpr h)
    · next hl =>
      split
      · next he => exact ⟨fun h ↦ absurd he h.2.2, fun _ ↦ rfl⟩
      · next hne =>
        refine ⟨fun _ ↦ ⟨_, rfl, rfl, rfl, ⟨_, _, rfl⟩, rfl, rfl⟩, fun h ↦ absurd ?_ h⟩
        rw [not_or] at hz
        rw [not_or, not_or, gt_iff_lt, gt_iff_lt, gt_iff_lt, UInt16.not_lt, UInt16.not_lt,
          Nat.not_lt] at hl
        exact ⟨hz, hl, hne⟩

/-- For all clients in every order, `negotiate_size` aims at the smallest of their sizes that are
not zero, and resizes to it exactly if it applies, exactly if on both axes no size before a zero
is smaller than all after it. -/
theorem negotiates_iff (s : Daemon T) (now : Nat) :
    s.Negotiates now ↔ ZerosApart (rowsOf s.clients) ∧ ZerosApart (colsOf s.clients) := by
  have heq := negotiated_eq s.clients
  have hrows : (negotiated s.clients).1 = fit (rowsOf s.clients) := congrArg Prod.fst heq
  have hcols : (negotiated s.clients).2 = fit (colsOf s.clients) := congrArg Prod.snd heq
  constructor
  · intro h
    exact ⟨(smallest_fit_iff _).mp (hrows ▸ h.rows), (smallest_fit_iff _).mp (hcols ▸ h.cols)⟩
  · rintro ⟨hr, hc⟩
    exact ⟨hrows ▸ (smallest_fit_iff _).mpr hr, hcols ▸ (smallest_fit_iff _).mpr hc,
      s.resizesTo_negotiated now⟩

/-- Writable clients of these sizes, attached one after another. -/
private def attached (sizes : List (UInt16 × UInt16)) : Daemon Grid :=
  { grid 24 80 with
    clients := sizes.mapIdx fun i size ↦
      (i, { rows := size.1, cols := size.2, role := .writable, attachSeq := i + 1 }) }

/-- A client without a size comes between a small and a large one: the session grows beyond the
small client, and in another order it does not. -/
theorem negotiates_forgets :
    (attached [(24, 80), (0, 0), (50, 100)]).clients.length = 3 ∧
      negotiated (attached [(24, 80), (0, 0), (50, 100)]).clients = (50, 100) ∧
      negotiated (attached [(0, 0), (24, 80), (50, 100)]).clients = (24, 80) ∧
      ¬(attached [(24, 80), (0, 0), (50, 100)]).Negotiates 0 := by
  refine ⟨rfl, by decide, by decide, fun h ↦ ?_⟩
  rcases h.rows with ⟨h, -⟩ | ⟨-, -, h⟩
  · exact absurd h (by decide)
  · exact absurd (h 24 (by decide) (by decide)) (by decide)

end Daemon

end PtySpec.Serving
