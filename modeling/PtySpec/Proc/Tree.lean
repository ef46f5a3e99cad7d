import PtySpec.Lib.Breadth
import PtySpec.Proc.Table

/-!
# The tree below a process

Model of `walk` and of the snapshots of a process's descendants,
`crates/pty-core/src/process_tree.rs:20-42, 150-223`. The rows of a table come in any order,
and the parents they name need not make a tree.
-/

namespace PtySpec.Proc

open Lib
open Operation (Answer)

/-- What `ProcTable::rows` yields, `proctable.rs:470`: the row that counts of each process, in
any order. -/
structure Yields (t : ProcTable) (rows : List Row) : Prop where
  nodup : (rows.map Row.pid).Nodup
  mem_iff : ∀ r, r ∈ rows ↔ t.rows.reverse.find? (·.pid == r.pid) = some r

/-- From each parent to its child. -/
def links (rows : List Row) : List (Int32 × Int32) := rows.map fun r ↦ (r.ppid, r.pid)

/-- `walk`, `process_tree.rs:21`: breadth first; the loop ends when its queue is empty. -/
def walk (root : Int32) (rows : List Row) : List (Int32 × Nat) := Search.found (links rows) root

/-- `ProcessIdentity`, `process_tree.rs:13`. -/
structure ProcessIdentity where
  pid : Int32
  identity : List Char
  depth : Nat
  deriving DecidableEq, Repr

/-- `b.depth.cmp(&a.depth).then(b.pid.cmp(&a.pid))` is not greater, `process_tree.rs:160`. -/
def killsBefore (a b : ProcessIdentity) : Bool :=
  b.depth < a.depth || (b.depth = a.depth && b.pid ≤ a.pid)

/-- `snapshot_from_table`, `process_tree.rs:150`. -/
def snapshotFromTable (root : Int32) (t : ProcTable) (rows : List Row) : List ProcessIdentity :=
  let out := (walk root rows).filterMap fun (pid, depth) ↦
    match t.identity pid with
    | .known identity => some ⟨pid, identity, depth⟩
    | _ => none
  out.mergeSort killsBefore

/-- `observed_identities`, `process_tree.rs:205`. -/
def observedIdentities (root : Int32) (t : ProcTable) (rows : List Row) : List ProcessIdentity :=
  let out := (walk root rows).filterMap fun (pid, depth) ↦
    match t.row pid with
    | .known row =>
      if row.isZombie then none else row.identity.map fun identity ↦ ⟨pid, identity, depth⟩
    | _ => none
  out.mergeSort killsBefore

/-! ### Ancestors -/

/-- A process's parent, as its row names it. -/
def ParentOf (rows : List Row) (pid parent : Int32) : Prop := (parent, pid) ∈ links rows

instance (rows : List Row) (pid parent : Int32) : Decidable (ParentOf rows pid parent) :=
  inferInstanceAs (Decidable (_ ∈ _))

/-- A chain of parent links leads from a process to another. -/
def Ancestor (rows : List Row) : Int32 → Int32 → Prop := Relation.TransGen (ParentOf rows)

/-- A chain of parent links leads from a process to another and does not go on from the
root. -/
def AncestorBelow (root : Int32) (rows : List Row) : Int32 → Int32 → Prop :=
  Relation.TransGen fun pid parent ↦ pid ≠ root ∧ ParentOf rows pid parent

/-- A process has one parent. -/
theorem ParentOf.unique {rows : List Row} (h : (rows.map Row.pid).Nodup) {pid p q : Int32}
    (hp : ParentOf rows pid p) (hq : ParentOf rows pid q) : p = q := by
  obtain ⟨r, hr, hrp⟩ := List.mem_map.mp hp
  obtain ⟨s, hs, hsq⟩ := List.mem_map.mp hq
  obtain ⟨rfl, rfl⟩ := Prod.mk.inj hrp
  obtain ⟨rfl, hpid⟩ := Prod.mk.inj hsq
  rw [List.inj_on_of_nodup_map h hr hs hpid.symm]

/-- The ancestors of a process on its way up to the root are less deep. -/
theorem AncestorBelow.depth_lt {root : Int32} {rows : List Row}
    (h : (rows.map Row.pid).Nodup) {p q : Int32} (ha : AncestorBelow root rows p q) {m n : Nat}
    (hp : Distance (links rows) root p m) (hq : Distance (links rows) root q n) : n < m := by
  have hstep : ∀ {p q : Int32} {m : Nat}, p ≠ root → ParentOf rows p q →
      Distance (links rows) root p m → ∃ k, m = k + 1 ∧ Distance (links rows) root q k :=
    fun hr hpq hd ↦ hd.pred hr fun _ hd' ↦ ParentOf.unique h hd' hpq
  induction ha using Relation.TransGen.head_induction_on generalizing m with
  | single hpq =>
    obtain ⟨k, rfl, hk⟩ := hstep hpq.1 hpq.2 hp
    rw [hq.unique hk]
    exact Nat.lt_succ_self k
  | head hpq _ ih =>
    obtain ⟨k, rfl, hk⟩ := hstep hpq.1 hpq.2 hp
    exact Nat.lt_succ_of_lt (ih hk)

/-! ### The order of a snapshot -/

private theorem killsBefore_trans (a b c : ProcessIdentity) (hab : killsBefore a b = true)
    (hbc : killsBefore b c = true) : killsBefore a c = true := by
  simp only [killsBefore, Bool.or_eq_true, Bool.and_eq_true, decide_eq_true_eq] at *
  obtain hab | ⟨hab, hpab⟩ := hab
  · obtain hbc | ⟨hbc, -⟩ := hbc
    · exact .inl (Nat.lt_trans hbc hab)
    · exact .inl (hbc ▸ hab)
  · obtain hbc | ⟨hbc, hpbc⟩ := hbc
    · exact .inl (hab ▸ hbc)
    · exact .inr ⟨hbc.trans hab, Int32.le_trans hpbc hpab⟩

private theorem killsBefore_total (a b : ProcessIdentity) :
    (killsBefore a b || killsBefore b a) = true := by
  simp only [killsBefore, Bool.or_eq_true, Bool.and_eq_true, decide_eq_true_eq]
  rcases Nat.lt_trichotomy a.depth b.depth with h | h | h
  · exact .inr (.inl h)
  · rcases Int32.le_total a.pid b.pid with hp | hp
    · exact .inr (.inr ⟨h, hp⟩)
    · exact .inl (.inr ⟨h.symm, hp⟩)
  · exact .inl (.inl h)

/-- In a list where no element comes after one it may not follow, it comes before. -/
private theorem pair_sublist {α : Type} {R : α → α → Prop} {xs : List α} (h : xs.Pairwise R)
    {x y : α} (hx : x ∈ xs) (hy : y ∈ xs) (hne : x ≠ y) (hyx : ¬ R y x) : [x, y].Sublist xs := by
  induction h with
  | nil => cases hx
  | @cons a xs ha _ ih =>
    obtain rfl | hx' := List.mem_cons.mp hx
    · obtain rfl | hy' := List.mem_cons.mp hy
      · exact absurd rfl hne
      · exact (List.singleton_sublist.mpr hy').cons_cons x
    · obtain rfl | hy' := List.mem_cons.mp hy
      · exact absurd (ha x hx') hyx
      · exact (ih hx' hy').cons a

/-- A list of identities with the depths of a walk is killed from below. -/
private theorem sorted_kills {root : Int32} {rows : List Row} (h : (rows.map Row.pid).Nodup)
    {out : List ProcessIdentity} (hout : ∀ x ∈ out, (x.pid, x.depth) ∈ walk root rows)
    {x y : ProcessIdentity} (hx : x ∈ out.mergeSort killsBefore)
    (hy : y ∈ out.mergeSort killsBefore) (ha : AncestorBelow root rows x.pid y.pid) :
    [x, y].Sublist (out.mergeSort killsBefore) := by
  have hdx := (Search.mem_found.mp (hout x (List.mem_mergeSort.mp hx))).2
  have hdy := (Search.mem_found.mp (hout y (List.mem_mergeSort.mp hy))).2
  have hlt := ha.depth_lt h hdx hdy
  refine pair_sublist (List.pairwise_mergeSort killsBefore_trans killsBefore_total out) hx hy ?_ ?_
  · rintro rfl
    exact Nat.lt_irrefl _ hlt
  · simp only [killsBefore, Bool.or_eq_true, Bool.and_eq_true, decide_eq_true_eq]
    omega

private theorem mem_snapshotFromTable {root : Int32} {t : ProcTable} {rows : List Row} :
    ∀ x ∈ ((walk root rows).filterMap fun (pid, depth) ↦
      match t.identity pid with
      | .known identity => some (⟨pid, identity, depth⟩ : ProcessIdentity)
      | _ => none), (x.pid, x.depth) ∈ walk root rows := by
  intro x hx
  obtain ⟨⟨pid, depth⟩, hw, he⟩ := List.mem_filterMap.mp hx
  dsimp only at he
  split at he
  · cases he
    exact hw
  · cases he

private theorem mem_observedIdentities {root : Int32} {t : ProcTable} {rows : List Row} :
    ∀ x ∈ ((walk root rows).filterMap fun (pid, depth) ↦
      match t.row pid with
      | .known row =>
        if row.isZombie then none
        else row.identity.map fun identity ↦ (⟨pid, identity, depth⟩ : ProcessIdentity)
      | _ => none), (x.pid, x.depth) ∈ walk root rows := by
  intro x hx
  obtain ⟨⟨pid, depth⟩, hw, he⟩ := List.mem_filterMap.mp hx
  dsimp only at he
  split at he
  · split at he
    · cases he
    · obtain ⟨identity, -, rfl⟩ := Option.map_eq_some_iff.mp he
      exact hw
  · cases he

/-- Over any table the walk ends, and yields every process that parent links lead down to from
the root once, never the root, at its shortest distance; and a snapshot puts every process
before each of its ancestors on its way up to the root. -/
theorem walk_correct {t : ProcTable} {rows : List Row} (h : Yields t rows) (root : Int32) :
    (Search.turns (links rows) rows.length (Search.start (links rows) root)).queue = [] ∧
    ((walk root rows).map (·.1)).Nodup ∧
    (∀ pid depth, (pid, depth) ∈ walk root rows ↔
      pid ≠ root ∧ Distance (links rows) root pid depth) ∧
    (∀ pid n, pid ≠ root → Path (links rows) root n pid → pid ∈ (walk root rows).map (·.1)) ∧
    (∀ x ∈ snapshotFromTable root t rows, ∀ y ∈ snapshotFromTable root t rows,
      AncestorBelow root rows x.pid y.pid → [x, y].Sublist (snapshotFromTable root t rows)) ∧
    ∀ x ∈ observedIdentities root t rows, ∀ y ∈ observedIdentities root t rows,
      AncestorBelow root rows x.pid y.pid → [x, y].Sublist (observedIdentities root t rows) := by
  refine ⟨?_, Search.nodup_found, fun pid depth ↦ Search.mem_found, ?_, ?_, ?_⟩
  · have hf := Search.finished (links rows) root
    rwa [links, List.length_map] at hf
  · intro pid n hne hp
    obtain ⟨depth, hd⟩ := Distance.exists_of_path hp
    exact List.mem_map_of_mem (Search.mem_found.mpr ⟨hne, hd⟩)
  · exact fun x hx y hy ↦ sorted_kills h.nodup mem_snapshotFromTable hx hy
  · exact fun x hx y hy ↦ sorted_kills h.nodup mem_observedIdentities hx hy

/-- A table that lists no process twice yields its rows as they are listed. -/
theorem yields_self {t : ProcTable} (h : (t.rows.map Row.pid).Nodup) : Yields t t.rows := by
  refine ⟨h, fun r ↦ ⟨fun hr ↦ ?_, fun hf ↦ List.mem_reverse.mp (List.mem_of_find?_eq_some hf)⟩⟩
  cases hf : t.rows.reverse.find? (·.pid == r.pid) with
  | none =>
    have hno := List.find?_eq_none.mp hf r (List.mem_reverse.mpr hr)
    exact absurd (beq_self_eq_true r.pid) hno
  | some s =>
    have hs := List.mem_reverse.mp (List.mem_of_find?_eq_some hf)
    have hpid : s.pid = r.pid := by simpa using List.find?_some hf
    rw [List.inj_on_of_nodup_map h hs hr hpid]

/-! ### A cycle through the root -/

/-- A running process. -/
private def running (pid ppid : Int32) : Row := ⟨pid, ppid, 1, ['S'], none, some ['t']⟩

/-- The root 1, its child 2, and 3, child of 2 and parent of 1. -/
private def cycle : ProcTable := .fromRows [running 1 3, running 2 1, running 3 2]

private theorem mem_snapshot_cycle {x : ProcessIdentity} :
    x ∈ snapshotFromTable 1 cycle cycle.rows ↔ x = ⟨2, ['t'], 1⟩ ∨ x = ⟨3, ['t'], 2⟩ := by
  have hw : walk 1 cycle.rows = [(2, 1), (3, 2)] := by decide
  rw [snapshotFromTable, List.mem_mergeSort, hw]
  change x ∈ [⟨2, ['t'], 1⟩, ⟨3, ['t'], 2⟩] ↔ _
  rw [List.mem_cons, List.mem_singleton]

/-- There the child of the child is killed before its parent. -/
theorem walk_correct_cycle : [(⟨3, ['t'], 2⟩ : ProcessIdentity), ⟨2, ['t'], 1⟩].Sublist
    (snapshotFromTable 1 cycle cycle.rows) := by
  have h32 : ParentOf cycle.rows 3 2 := by decide
  have hkills := (walk_correct (yields_self (t := cycle) (by decide)) 1).2.2.2.2.1
  exact hkills _ (mem_snapshot_cycle.mpr (.inr rfl)) _ (mem_snapshot_cycle.mpr (.inl rfl))
    (.single ⟨by decide, h32⟩)

/-- The ancestor that a process has through the root comes before it. -/
theorem ancestor_refuted : ∃ (t : ProcTable) (rows : List Row) (root : Int32), Yields t rows ∧
    ∃ x ∈ snapshotFromTable root t rows, ∃ y ∈ snapshotFromTable root t rows,
      Ancestor rows x.pid y.pid ∧ ¬ [x, y].Sublist (snapshotFromTable root t rows) := by
  have h21 : ParentOf cycle.rows 2 1 := by decide
  have h13 : ParentOf cycle.rows 1 3 := by decide
  refine ⟨cycle, cycle.rows, 1, yields_self (by decide), ⟨2, ['t'], 1⟩,
    mem_snapshot_cycle.mpr (.inl rfl), ⟨3, ['t'], 2⟩, mem_snapshot_cycle.mpr (.inr rfl),
    .head h21 (.single h13), fun hs ↦ ?_⟩
  have hle := (List.pairwise_mergeSort killsBefore_trans killsBefore_total _).sublist hs
  have hk := List.rel_of_pairwise_cons hle (List.mem_singleton_self _)
  exact absurd hk (by decide)

end PtySpec.Proc
