import Mathlib

/-!
# Breadth-first search

A search over a list of edges with a queue of vertices and their depths. It ends, it finds
every vertex that is reached from where it started, once, and at its shortest distance.
-/

namespace PtySpec.Lib

universe u

variable {α : Type u}

/-! ### Distances -/

/-- A path along some edges, with its length. -/
inductive Path (edges : List (α × α)) (a : α) : Nat → α → Prop where
  | refl : Path edges a 0 a
  | snoc {n : Nat} {b c : α} : Path edges a n b → (b, c) ∈ edges → Path edges a (n + 1) c

/-- The length of a shortest path. -/
structure Distance (edges : List (α × α)) (a b : α) (n : Nat) : Prop where
  path : Path edges a n b
  least : ∀ m, Path edges a m b → n ≤ m

namespace Distance

variable {edges : List (α × α)} {a b c : α} {m n : Nat}

theorem exists_of_path (h : Path edges a n b) : ∃ m, Distance edges a b m := by
  classical
  have hex : ∃ m, Path edges a m b := ⟨n, h⟩
  exact ⟨Nat.find hex, Nat.find_spec hex, fun m hm ↦ Nat.find_min' hex hm⟩

theorem unique (h : Distance edges a b m) (h' : Distance edges a b n) : m = n :=
  Nat.le_antisymm (h.least n h'.path) (h'.least m h.path)

/-- A vertex with a single edge to it is one further than the vertex that edge is from. -/
theorem pred (h : Distance edges a c n) (ha : c ≠ a)
    (hu : ∀ d, (d, c) ∈ edges → d = b) : ∃ m, n = m + 1 ∧ Distance edges a b m := by
  obtain ⟨hp, hl⟩ := h
  cases hp with
  | refl => exact absurd rfl ha
  | @snoc m d _ hp he =>
    obtain rfl := hu d he
    exact ⟨m, rfl, hp, fun k hk ↦ Nat.le_of_succ_le_succ (hl (k + 1) (hk.snoc he))⟩

end Distance

/-! ### The search -/

variable [DecidableEq α]

/-- The vertices that an edge from a vertex leads to. -/
def nexts (edges : List (α × α)) (a : α) : List α :=
  (edges.filter fun e ↦ e.1 = a).map (·.2)

/-- The vertices seen, the queue, and what was found. -/
structure Search (α : Type u) where
  seen : List α
  queue : List (α × Nat)
  out : List (α × Nat)

namespace Search

/-- The search from the vertices that `a` leads to. -/
def start (edges : List (α × α)) (a : α) : Search α where
  seen := [a]
  queue := (nexts edges a).map fun b ↦ (b, 1)
  out := []

/-- A vertex is taken off the queue; one not seen before is found, and what it leads to is
put on the queue. -/
def turn (edges : List (α × α)) (s : Search α) : Search α :=
  match s.queue with
  | [] => s
  | (b, depth) :: rest =>
    if b ∈ s.seen then { s with queue := rest }
    else
      { seen := b :: s.seen
        queue := rest ++ (nexts edges b).map fun c ↦ (c, depth + 1)
        out := s.out ++ [(b, depth)] }

/-- Some turns. -/
def turns (edges : List (α × α)) : Nat → Search α → Search α
  | 0, s => s
  | n + 1, s => turns edges n (s.turn edges)

/-- What the search finds, in its order. -/
def found (edges : List (α × α)) (a : α) : List (α × Nat) :=
  (turns edges edges.length (start edges a)).out

/-- What a search finds that starts with `a` itself on the queue. -/
def foundFrom (edges : List (α × α)) (a : α) : List (α × Nat) :=
  (turns edges (edges.length + 1) ⟨[], [(a, 0)], []⟩).out

/-! ### It ends -/

/-- What is still on the queue or may be put there. -/
def left (edges : List (α × α)) (s : Search α) : Nat :=
  s.queue.length + (edges.filter fun e ↦ e.1 ∉ s.seen).length

private theorem length_nexts (edges : List (α × α)) (seen : List α) {b : α} (hb : b ∉ seen) :
    (edges.filter fun e ↦ e.1 ∉ b :: seen).length + (nexts edges b).length =
      (edges.filter fun e ↦ e.1 ∉ seen).length := by
  unfold nexts
  rw [List.length_map]
  induction edges with
  | nil => rfl
  | cons e edges ih =>
    by_cases he : e.1 = b
    · have hs : e.1 ∉ seen := he ▸ hb
      simp [he, hb] at ih ⊢
      omega
    · by_cases hs : e.1 ∈ seen
      · simp [he, hs] at ih ⊢
        omega
      · simp [he, hs] at ih ⊢
        omega

/-- Every turn leaves one less. -/
private theorem left_turn {edges : List (α × α)} {s : Search α} (h : s.queue ≠ []) :
    (s.turn edges).left edges + 1 = s.left edges := by
  unfold turn
  split
  · next hq => exact absurd hq h
  · next b depth rest hq =>
    unfold left
    rw [hq, List.length_cons]
    split
    · dsimp only
      omega
    · next hb =>
      have hl := length_nexts edges s.seen hb
      dsimp only
      rw [List.length_append, List.length_map]
      omega

private theorem turns_of_empty (edges : List (α × α)) {s : Search α} (h : s.queue = []) (n : Nat) :
    turns edges n s = s := by
  have ht : s.turn edges = s := by
    unfold turn
    rw [h]
  induction n with
  | zero => rfl
  | succ n ih => rw [turns, ht, ih]

/-- As many turns as there is left to do are enough. -/
theorem queue_turns {edges : List (α × α)} {n : Nat} {s : Search α} (h : s.left edges ≤ n) :
    (turns edges n s).queue = [] := by
  induction n generalizing s with
  | zero => exact List.length_eq_zero_iff.mp (Nat.eq_zero_of_add_eq_zero_right (Nat.le_zero.mp h))
  | succ n ih =>
    rw [turns]
    by_cases hq : s.queue = []
    · have ht := turns_of_empty edges hq 1
      rw [turns, turns] at ht
      rw [ht, turns_of_empty edges hq, hq]
    · have hl : (s.turn edges).left edges + 1 = s.left edges := left_turn hq
      exact ih (by omega)

theorem left_start (edges : List (α × α)) (a : α) : (start edges a).left edges = edges.length := by
  have hl := length_nexts edges [] (b := a) List.not_mem_nil
  have hall : (edges.filter fun e ↦ e.1 ∉ ([] : List α)) = edges := by simp
  rw [hall, Nat.add_comm] at hl
  unfold left start
  dsimp only
  rw [List.length_map]
  exact hl

/-- The search is over after as many turns as there are edges. -/
theorem finished (edges : List (α × α)) (a : α) :
    (turns edges edges.length (start edges a)).queue = [] :=
  queue_turns (left_start edges a).le

/-! ### What it finds -/

theorem mem_nexts {edges : List (α × α)} {a b : α} : b ∈ nexts edges a ↔ (a, b) ∈ edges := by
  simp only [nexts, List.mem_map, List.mem_filter, decide_eq_true_eq]
  constructor
  · rintro ⟨⟨_, _⟩, ⟨h, rfl⟩, rfl⟩
    exact h
  · intro h
    exact ⟨(a, b), ⟨h, rfl⟩, rfl⟩

/-- The queue holds vertices in the order of their depths, which span at most one step and
are those of paths; and whatever an edge leads to from a vertex found, or from the start, is
found no deeper than one step further, or still on the queue. -/
structure Inv (edges : List (α × α)) (a : α) (s : Search α) : Prop where
  seen : ∀ b, b ∈ s.seen ↔ b = a ∨ b ∈ s.out.map (·.1)
  nodup : (s.out.map (·.1)).Nodup
  start_notMem : a ∉ s.out.map (·.1)
  path : ∀ x ∈ s.queue ++ s.out, Path edges a x.2 x.1
  sorted : (s.out ++ s.queue).Pairwise fun x y ↦ x.2 ≤ y.2
  span : ∀ x ∈ s.queue, ∀ y ∈ s.queue, x.2 ≤ y.2 + 1
  closed : ∀ x ∈ (a, 0) :: s.out, ∀ c, (x.1, c) ∈ edges →
    c = a ∨ (∃ m ≤ x.2 + 1, (c, m) ∈ s.out) ∨ (c, x.2 + 1) ∈ s.queue

theorem inv_start (edges : List (α × α)) (a : α) : Inv edges a (start edges a) where
  seen b := by simp [start]
  nodup := List.nodup_nil
  start_notMem := List.not_mem_nil
  path x hx := by
    simp only [start, List.append_nil, List.mem_map] at hx
    obtain ⟨b, hb, rfl⟩ := hx
    exact Path.snoc .refl (mem_nexts.mp hb)
  sorted := by
    rw [start, List.nil_append, List.pairwise_map]
    exact List.pairwise_of_forall fun _ _ ↦ Nat.le_refl 1
  span x hx y hy := by
    simp only [start, List.mem_map] at hx hy
    obtain ⟨b, -, rfl⟩ := hx
    obtain ⟨c, -, rfl⟩ := hy
    exact Nat.le_succ 1
  closed x hx c hc := by
    rw [start, List.mem_singleton] at hx
    subst hx
    exact .inr (.inr (List.mem_map_of_mem (mem_nexts.mpr hc)))

variable {edges : List (α × α)} {a : α} {s : Search α}

omit [DecidableEq α] in
/-- A vertex that was seen before is dropped: it was found no deeper. -/
private theorem Inv.drop (h : Inv edges a s) {b : α} {depth : Nat} {rest : List (α × Nat)}
    (hq : s.queue = (b, depth) :: rest) (hb : b ∈ s.seen) :
    Inv edges a { s with queue := rest } := by
  have hsort := h.sorted
  have hpath := h.path
  have hspan := h.span
  rw [hq] at hsort hpath hspan
  refine ⟨h.seen, h.nodup, h.start_notMem, ?_, ?_, ?_, ?_⟩
  · exact fun x hx ↦ hpath x (List.mem_cons_of_mem _ hx)
  · exact hsort.sublist ((List.sublist_cons_self _ _).append_left _)
  · exact fun x hx y hy ↦ hspan x (List.mem_cons_of_mem _ hx) y (List.mem_cons_of_mem _ hy)
  · intro x hx c hc
    obtain ha | hfound | hqueue := h.closed x hx c hc
    · exact .inl ha
    · exact .inr (.inl hfound)
    · rw [hq, List.mem_cons] at hqueue
      obtain heq | hrest := hqueue
      · obtain ⟨rfl, rfl⟩ := Prod.mk.inj heq
        obtain rfl | hout := (h.seen c).mp hb
        · exact .inl rfl
        · obtain ⟨⟨c', m⟩, hm, rfl⟩ := List.mem_map.mp hout
          have hle := (List.pairwise_append.mp hsort).2.2 _ hm _ List.mem_cons_self
          exact .inr (.inl ⟨m, hle, hm⟩)
      · exact .inr (.inr hrest)

/-- A vertex that was not seen is found, and what it leads to goes on the queue. -/
private theorem Inv.find (h : Inv edges a s) {b : α} {depth : Nat} {rest : List (α × Nat)}
    (hq : s.queue = (b, depth) :: rest) (hb : b ∉ s.seen) :
    Inv edges a
      { seen := b :: s.seen
        queue := rest ++ (nexts edges b).map fun c ↦ (c, depth + 1)
        out := s.out ++ [(b, depth)] } := by
  have hsort := h.sorted
  have hpath := h.path
  have hspan := h.span
  rw [hq] at hsort hpath hspan
  have hnew := (not_congr (h.seen b)).mp hb
  rw [not_or] at hnew
  have hbp : Path edges a depth b := hpath _ List.mem_cons_self
  have hpushed : ∀ x ∈ (nexts edges b).map fun c ↦ (c, depth + 1),
      x.2 = depth + 1 ∧ (b, x.1) ∈ edges := by
    intro x hx
    obtain ⟨c, hc, rfl⟩ := List.mem_map.mp hx
    exact ⟨rfl, mem_nexts.mp hc⟩
  refine ⟨?_, ?_, ?_, ?_, ?_, ?_, ?_⟩
  · intro c
    rw [List.mem_cons, h.seen, List.map_append, List.mem_append, List.map_singleton,
      List.mem_singleton]
    tauto
  · rw [List.map_append, List.map_singleton]
    refine List.nodup_append.mpr ⟨h.nodup, List.nodup_singleton b, ?_⟩
    rintro c hc _ hd rfl
    rw [List.mem_singleton.mp hd] at hc
    exact hnew.2 hc
  · rw [List.map_append, List.map_singleton, List.mem_append, List.mem_singleton, not_or]
    exact ⟨h.start_notMem, fun ha ↦ hnew.1 ha.symm⟩
  · intro x hx
    rw [List.mem_append, List.mem_append, List.mem_append, List.mem_singleton] at hx
    obtain (hrest | hpush) | hout | rfl := hx
    · exact hpath x (List.mem_cons_of_mem _ (List.mem_append_left _ hrest))
    · obtain ⟨hd, he⟩ := hpushed x hpush
      exact hd ▸ hbp.snoc he
    · exact hpath x (List.mem_cons_of_mem _ (List.mem_append_right _ hout))
    · exact hbp
  · rw [List.append_assoc, List.singleton_append, ← List.cons_append, ← List.append_assoc,
      List.pairwise_append]
    refine ⟨hsort, ?_, ?_⟩
    · rw [List.pairwise_map]
      exact List.pairwise_of_forall fun _ _ ↦ Nat.le_refl _
    · intro x hx y hy
      rw [(hpushed y hy).1]
      obtain hout | hqueue := List.mem_append.mp hx
      · have hle := (List.pairwise_append.mp hsort).2.2 x hout _ List.mem_cons_self
        exact Nat.le_succ_of_le hle
      · exact hspan x hqueue _ List.mem_cons_self
  · intro x hx y hy
    have hle : ∀ z ∈ rest, depth ≤ z.2 ∧ z.2 ≤ depth + 1 := by
      intro z hz
      have hord := (List.pairwise_append.mp hsort).2.1
      exact ⟨List.rel_of_pairwise_cons hord hz,
        hspan z (List.mem_cons_of_mem _ hz) _ List.mem_cons_self⟩
    obtain hx | hx := List.mem_append.mp hx
    · obtain hy | hy := List.mem_append.mp hy
      · exact hspan x (List.mem_cons_of_mem _ hx) y (List.mem_cons_of_mem _ hy)
      · have h1 := (hpushed y hy).1
        have h2 := hle x hx
        omega
    · have h1 := (hpushed x hx).1
      obtain hy | hy := List.mem_append.mp hy
      · have h2 := hle y hy
        omega
      · have h2 := (hpushed y hy).1
        omega
  · intro x hx c hc
    rw [← List.cons_append, List.mem_append, List.mem_singleton] at hx
    obtain hx | rfl := hx
    · obtain ha | ⟨m, hm, hout⟩ | hqueue := h.closed x hx c hc
      · exact .inl ha
      · exact .inr (.inl ⟨m, hm, List.mem_append_left _ hout⟩)
      · rw [hq, List.mem_cons] at hqueue
        obtain heq | hrest := hqueue
        · refine .inr (.inl ⟨x.2 + 1, Nat.le_refl _, ?_⟩)
          rw [heq]
          exact List.mem_append_right _ (List.mem_singleton_self _)
        · exact .inr (.inr (List.mem_append_left _ hrest))
    · exact .inr (.inr (List.mem_append_right _ (List.mem_map.mpr ⟨c, mem_nexts.mpr hc, rfl⟩)))

theorem Inv.turn (h : Inv edges a s) : Inv edges a (s.turn edges) := by
  unfold Search.turn
  split
  · exact h
  · next b depth rest hq =>
    split
    · next hb => exact h.drop hq hb
    · next hb => exact h.find hq hb

theorem Inv.turns (h : Inv edges a s) (n : Nat) : Inv edges a (turns edges n s) := by
  induction n generalizing s with
  | zero => exact h
  | succ n ih => exact ih h.turn

omit [DecidableEq α] in
/-- When the queue is empty, a path leads only to the start and to what was found as deep as
the path is long, or less. -/
private theorem Inv.of_path (h : Inv edges a s) (hq : s.queue = []) {b : α} {n : Nat}
    (hp : Path edges a n b) : b = a ∨ ∃ m ≤ n, (b, m) ∈ s.out := by
  induction hp with
  | refl => exact .inl rfl
  | @snoc n b c _ he ih =>
    have hclosed : ∀ x ∈ (a, 0) :: s.out, x.1 = b → x.2 ≤ n →
        c = a ∨ ∃ m ≤ n + 1, (c, m) ∈ s.out := by
      rintro x hx rfl hn
      obtain ha | ⟨m, hm, hout⟩ | hqueue := h.closed x hx c he
      · exact .inl ha
      · exact .inr ⟨m, by omega, hout⟩
      · rw [hq] at hqueue
        cases hqueue
    obtain rfl | ⟨m, hm, hout⟩ := ih
    · exact hclosed _ List.mem_cons_self rfl (Nat.zero_le n)
    · exact hclosed _ (List.mem_cons_of_mem _ hout) rfl hm

/-- The search finds every vertex that is reached from the start, and not the start itself,
at its shortest distance. -/
theorem mem_found {b : α} {n : Nat} :
    (b, n) ∈ found edges a ↔ b ≠ a ∧ Distance edges a b n := by
  have h := (inv_start edges a).turns edges.length
  have hq := finished edges a
  unfold found
  generalize Search.turns edges edges.length (start edges a) = s at h hq
  have hout : ∀ {b : α} {n : Nat}, (b, n) ∈ s.out → b ≠ a := by
    rintro b n hb rfl
    exact h.start_notMem (List.mem_map_of_mem hb)
  have hfound : ∀ {b : α} {n : Nat}, (b, n) ∈ s.out → Distance edges a b n := by
    intro b n hb
    refine ⟨h.path _ (List.mem_append_right _ hb), fun m hm ↦ ?_⟩
    obtain rfl | ⟨k, hk, hbk⟩ := h.of_path hq hm
    · exact absurd rfl (hout hb)
    · have heq := List.inj_on_of_nodup_map h.nodup hb hbk rfl
      rw [Prod.mk.injEq] at heq
      omega
  constructor
  · exact fun hb ↦ ⟨hout hb, hfound hb⟩
  · rintro ⟨hne, hd⟩
    obtain rfl | ⟨m, -, hm⟩ := h.of_path hq hd.path
    · exact absurd rfl hne
    · rw [hd.unique (hfound hm)]
      exact hm

/-- What was found before makes no difference to a search. -/
private theorem prefix_turns (edges : List (α × α)) (before : List (α × Nat))
    (n : Nat) (s : Search α) :
    Search.turns edges n { s with out := before ++ s.out } =
      { Search.turns edges n s with out := before ++ (Search.turns edges n s).out } := by
  induction n generalizing s with
  | zero => rfl
  | succ n ih =>
    have ht : Search.turn edges { s with out := before ++ s.out } =
        { s.turn edges with out := before ++ (s.turn edges).out } := by
      obtain ⟨seen, queue, out⟩ := s
      cases queue with
      | nil => rfl
      | cons x rest =>
        unfold Search.turn
        dsimp only
        split
        · rfl
        · rw [List.append_assoc]
    rw [Search.turns, Search.turns, ht, ih]

/-- The start is found first, and the rest as from what it leads to. -/
theorem foundFrom_eq (edges : List (α × α)) (a : α) :
    foundFrom edges a = (a, 0) :: found edges a := by
  have ht : Search.turn edges ⟨[], [(a, 0)], []⟩ =
      { start edges a with out := [(a, 0)] ++ (start edges a).out } := rfl
  rw [foundFrom, Search.turns, ht, prefix_turns]
  rfl

/-- It finds each of them once. -/
theorem nodup_found : ((found edges a).map (·.1)).Nodup :=
  ((inv_start edges a).turns edges.length).nodup

end Search
end PtySpec.Lib
