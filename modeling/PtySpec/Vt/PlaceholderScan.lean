import PtySpec.Lib.Collect
import PtySpec.Vt.Placeholders

/-!
# Where the placeholder cells of a window are

Model of `scan_placeholders`, `crates/pty-terminal/src/graphics.rs:629-706`: one pass over
the rows of a window, and for each pair of an image and a placement the box of its cells.
What libghostty's grid answers is a parameter.
-/

namespace PtySpec.Vt

open Lib

/-- What a scan reads of a terminal. -/
structure Window where
  rows : Option UInt16
  cols : Option UInt16
  scrollbackRows : Option UInt64
  totalRows : Option UInt64
  active : UInt16 → UInt32 → Option GridCell
  screen : UInt16 → UInt32 → Option GridCell

/-- `PlaceholderRect`, `graphics.rs:225`. -/
structure PlaceholderRect where
  row : UInt16
  col : UInt16
  rows : UInt16
  cols : UInt16
  cellRow : UInt16
  cellCol : UInt16
  originRow : Int32
  originCol : Int32
  deriving DecidableEq, Repr

/-- A placeholder cell, and where in the window it is. -/
structure Sighting where
  row : UInt16
  col : UInt16
  cell : PlaceholderCell
  deriving DecidableEq, Repr

/-- The pair that a cell names. -/
def Sighting.key (s : Sighting) : UInt32 × UInt32 := (s.cell.imageId, s.cell.placementId)

/-- `Accum`, `graphics.rs:613`. -/
structure Accum where
  imageId : UInt32
  placementId : UInt32
  row : UInt16
  col : UInt16
  lastRow : UInt16
  lastCol : UInt16
  cellRow : UInt16
  cellCol : UInt16
  deriving DecidableEq, Repr

/-- The pair whose cells are accumulated. -/
def Accum.key (a : Accum) : UInt32 × UInt32 := (a.imageId, a.placementId)

/-- A region's first cell, `graphics.rs:675-684`. -/
def Accum.first (s : Sighting) : Accum where
  imageId := s.cell.imageId
  placementId := s.cell.placementId
  row := s.row
  col := s.col
  lastRow := s.row
  lastCol := s.col
  cellRow := s.cell.cellRow
  cellCol := s.cell.cellCol

/-- A further cell of a region, `graphics.rs:663-674`. -/
def Accum.widen (a : Accum) (s : Sighting) : Accum :=
  let row := if s.row < a.row then s.row else a.row
  let col := if s.col < a.col then s.col else a.col
  { a with
    row, col
    lastRow := if a.lastRow < s.row then s.row else a.lastRow
    lastCol := if a.lastCol < s.col then s.col else a.lastCol
    cellCol := if s.col < a.col then s.cell.cellCol else a.cellCol
    cellRow := if s.row < row ∨ s.row = row ∧ s.col = col then s.cell.cellRow else a.cellRow }

@[simp] theorem Accum.key_first (s : Sighting) : (Accum.first s).key = s.key := rfl

@[simp] theorem Accum.key_widen (a : Accum) (s : Sighting) : (a.widen s).key = a.key := rfl

/-- What is reported of a region, `graphics.rs:693-702`. -/
def Accum.rect (a : Accum) : PlaceholderRect where
  row := a.row
  col := a.col
  rows := a.lastRow - a.row + 1
  cols := a.lastCol - a.col + 1
  cellRow := a.cellRow
  cellCol := a.cellCol
  originRow := a.row.toUInt32.toInt32 - a.cellRow.toUInt32.toInt32
  originCol := a.col.toUInt32.toInt32 - a.cellCol.toUInt32.toInt32

/-- The columns of one row, `graphics.rs:645-686`. -/
def scanRow (read : Nat → Option GridCell) (row : UInt16) :
    List Nat → Option PlaceholderCell → List Accum → List Accum
  | [], _, acc => acc
  | x :: xs, prev, acc =>
    match placeholderCell (read x) prev with
    | none => scanRow read row xs none acc
    | some cell =>
      let s : Sighting := ⟨row, x.toUInt16, cell⟩
      scanRow read row xs (some cell) (upsert Accum.key s.key (.first s) (·.widen s) acc)

namespace Window

variable (w : Window) (scrollOffset : UInt64)

/-- `rows_n`, `graphics.rs:630`. -/
def rowsN : UInt16 := w.rows.getD 0

/-- `cols`, `graphics.rs:631`. -/
def colsN : UInt16 := w.cols.getD 0

/-- `base_y`, `graphics.rs:632`. -/
def baseY : UInt64 := w.scrollbackRows.getD 0

/-- `len`, `graphics.rs:633`. -/
def len : UInt64 := w.totalRows.getD w.rowsN.toUInt64

/-- `start`, `graphics.rs:634`. -/
def start : UInt64 := if w.baseY ≤ scrollOffset then 0 else w.baseY - scrollOffset

/-- `live`, `graphics.rs:635`. -/
def live : Bool := w.start scrollOffset = w.baseY

/-- The cell at a point of the window, `graphics.rs:646-653`. -/
def cellAt (r x : UInt16) : Option GridCell :=
  if w.live scrollOffset then w.active x r.toUInt32
  else w.screen x (w.start scrollOffset + r.toUInt64).toUInt32

/-- The cells of a row by their column. -/
def rowCells (r : Nat) (x : Nat) : Option GridCell :=
  w.cellAt scrollOffset r.toUInt16 x.toUInt16

/-- The rows before the end of the grid, `graphics.rs:638-641`. -/
def rowsRead : List Nat :=
  (List.range w.rowsN.toNat).takeWhile fun r ↦
    w.start scrollOffset + r.toUInt16.toUInt64 < w.len

/-- The regions after all rows. -/
def accums : List Accum :=
  (w.rowsRead scrollOffset).foldl (fun acc r ↦
    scanRow (w.rowCells scrollOffset r) r.toUInt16 (List.range w.colsN.toNat) none acc) []

/-- `scan_placeholders`, `graphics.rs:629`. -/
def scanPlaceholders : List (UInt32 × UInt32 × PlaceholderRect) :=
  (w.accums scrollOffset).map fun a ↦ (a.imageId, a.placementId, a.rect)

end Window

/-! ### What is to be reported -/

/-- The cells of the rows of a window that are in the grid, with what each shows. -/
def Window.Shows (w : Window) (scrollOffset : UInt64) (r x : Nat) (e : Shown) : Prop :=
  r < w.rowsN.toNat ∧ (w.start scrollOffset).toNat + r < w.len.toNat ∧ x < w.colsN.toNat ∧
    shownAt (w.rowCells scrollOffset r) x = some e

/-- A cell of an image and a placement. -/
def Window.ShowsPair (w : Window) (scrollOffset : UInt64) (image placement : UInt32)
    (r x : Nat) (e : Shown) : Prop :=
  w.Shows scrollOffset r x e ∧ e.image = image.toNat ∧ e.placement = placement.toNat

/-- The box and the origin of the cells of a pair: the edges are those of its outermost
cells, and the origin is what the first cell of the top row and the first of the leftmost
column say. -/
structure Window.Located (w : Window) (scrollOffset : UInt64) (image placement : UInt32)
    (rect : PlaceholderRect) : Prop where
  within : ∀ r x e, w.ShowsPair scrollOffset image placement r x e →
    rect.row.toNat ≤ r ∧ r < rect.row.toNat + rect.rows.toNat ∧
    rect.col.toNat ≤ x ∧ x < rect.col.toNat + rect.cols.toNat
  top : ∃ x e, w.ShowsPair scrollOffset image placement rect.row.toNat x e ∧
    e.row = rect.cellRow.toNat ∧
    ∀ x' e', w.ShowsPair scrollOffset image placement rect.row.toNat x' e' → x ≤ x'
  left : ∃ r e, w.ShowsPair scrollOffset image placement r rect.col.toNat e ∧
    e.col = rect.cellCol.toNat ∧
    ∀ r' e', w.ShowsPair scrollOffset image placement r' rect.col.toNat e' → r ≤ r'
  bottom : ∃ r x e, w.ShowsPair scrollOffset image placement r x e ∧
    r + 1 = rect.row.toNat + rect.rows.toNat
  right : ∃ r x e, w.ShowsPair scrollOffset image placement r x e ∧
    x + 1 = rect.col.toNat + rect.cols.toNat
  originRow : rect.originRow.toInt = rect.row.toNat - rect.cellRow.toNat
  originCol : rect.originCol.toInt = rect.col.toNat - rect.cellCol.toNat

/-- What a scan is to report: every cell belongs to one entry, and every entry is the box
of its pair. -/
structure Window.Correct (w : Window) (scrollOffset : UInt64)
    (out : List (UInt32 × UInt32 × PlaceholderRect)) : Prop where
  assigned : ∀ r x e, w.Shows scrollOffset r x e →
    ∃! p, p ∈ out ∧ e.image = p.1.toNat ∧ e.placement = p.2.1.toNat
  located : ∀ p ∈ out, w.Located scrollOffset p.1 p.2.1 p.2.2

/-- The arithmetic of a scan is exact, in the rows it reads, the cells of these and what it
reports. -/
structure Window.Exact (w : Window) (scrollOffset : UInt64) : Prop where
  rows : ∀ r < w.rowsN.toNat, (∀ i < r, i ∈ w.rowsRead scrollOffset) →
    (w.start scrollOffset).toNat + r < 2 ^ 64
  points : w.live scrollOffset = false → w.colsN ≠ 0 → ∀ r ∈ w.rowsRead scrollOffset,
    (w.start scrollOffset).toNat + r < 2 ^ 32
  cells : ∀ r ∈ w.rowsRead scrollOffset, ∀ x < w.colsN.toNat,
    CellExact (w.rowCells scrollOffset r x) (prevAt (w.rowCells scrollOffset r) x)
  boxes : ∀ a ∈ w.accums scrollOffset,
    a.row.toNat ≤ a.lastRow.toNat ∧ a.lastRow.toNat - a.row.toNat + 1 < 2 ^ 16 ∧
    a.col.toNat ≤ a.lastCol.toNat ∧ a.lastCol.toNat - a.col.toNat + 1 < 2 ^ 16

/-- When the code's numbers are wide enough: the rows read can be addressed, and their
cells fit. -/
structure Window.Fits (w : Window) (scrollOffset : UInt64) : Prop where
  points : w.live scrollOffset = false → w.colsN ≠ 0 → ∀ r < w.rowsN.toNat,
    (w.start scrollOffset).toNat + r < w.len.toNat → (w.start scrollOffset).toNat + r < 2 ^ 32
  rows : ∀ r < w.rowsN.toNat, (w.start scrollOffset).toNat + r < w.len.toNat →
    RowFits (w.rowCells scrollOffset r) w.colsN.toNat

/-! ### The rows and cells of a scan -/

private theorem takeWhile_range {p : Nat → Bool} {n m : Nat} (hp : ∀ i < min n m, p i = true)
    (hm : m < n → p m = false) : (List.range n).takeWhile p = List.range (min n m) := by
  have hpos : ∀ i ∈ List.range (min n m), p i = true := fun i hi ↦ hp i (List.mem_range.mp hi)
  rcases Nat.lt_or_ge m n with hlt | hle
  · obtain ⟨k, rfl⟩ : ∃ k, n = m + (k + 1) := ⟨n - m - 1, by omega⟩
    rw [Nat.min_eq_right (Nat.le_of_lt hlt)] at hpos ⊢
    rw [List.range_add, List.takeWhile_append_of_pos hpos, List.range_succ_eq_map, List.map_cons,
      List.takeWhile_cons_of_neg (by simp [hm hlt]), List.append_nil]
  · rw [Nat.min_eq_left hle] at hpos ⊢
    exact List.takeWhile_eq_self_iff.mpr hpos

private theorem toNat_toUInt16 {n : Nat} (hn : n < 2 ^ 16) : n.toUInt16.toNat = n :=
  Nat.mod_eq_of_lt hn

namespace Window

variable {w : Window} {scrollOffset : UInt64}

private theorem rowsRead_eq : w.rowsRead scrollOffset =
    List.range (min w.rowsN.toNat (w.len.toNat - (w.start scrollOffset).toNat)) := by
  have hrows := w.rowsN.toNat_lt
  have hlen := w.len.toNat_lt
  have hstart := (w.start scrollOffset).toNat_lt
  refine takeWhile_range (fun i hi ↦ ?_) fun hm ↦ ?_
  · rw [decide_eq_true_eq, UInt64.lt_iff_toNat_lt, UInt64.toNat_add, UInt16.toNat_toUInt64,
      toNat_toUInt16 (by omega)]
    omega
  · rw [decide_eq_false_iff_not, UInt64.lt_iff_toNat_lt, UInt64.toNat_add, UInt16.toNat_toUInt64,
      toNat_toUInt16 (by omega)]
    omega

/-- The rows that are read are those of the window that are in the grid. -/
theorem mem_rowsRead {r : Nat} : r ∈ w.rowsRead scrollOffset ↔
    r < w.rowsN.toNat ∧ (w.start scrollOffset).toNat + r < w.len.toNat := by
  rw [rowsRead_eq, List.mem_range]
  omega

/-- The sum of a row and the start is exact, also at the row that ends the scan. -/
theorem rows_exact {r : Nat} (hr : ∀ i < r, i ∈ w.rowsRead scrollOffset) :
    (w.start scrollOffset).toNat + r < 2 ^ 64 := by
  cases r with
  | zero => exact (w.start scrollOffset).toNat_lt
  | succ r =>
    have hread := mem_rowsRead.mp (hr r (Nat.lt_succ_self r))
    have hlen := w.len.toNat_lt
    omega

end Window

/-- The placeholder cells of some columns of a row. -/
def sightingsIn (read : Nat → Option GridCell) (row : UInt16) (xs : List Nat) : List Sighting :=
  xs.filterMap fun x ↦ (decodeAt read x).map fun cell ↦ ⟨row, x.toUInt16, cell⟩

/-- A row adds its placeholder cells from the left to the right. -/
private theorem scanRow_eq (read : Nat → Option GridCell) (row : UInt16) (n x : Nat)
    (acc : List Accum) :
    scanRow read row (List.range' x n) (prevAt read x) acc =
      collect Sighting.key Accum.key Accum.first Accum.widen acc
        (sightingsIn read row (List.range' x n)) := by
  induction n generalizing x acc with
  | zero => rfl
  | succ n ih =>
    rw [List.range'_succ, scanRow, sightingsIn, List.filterMap_cons, ← decodeAt_eq]
    have hrest := ih (x + 1)
    rw [prevAt_succ] at hrest
    cases hd : decodeAt read x with
    | none =>
      rw [hd] at hrest
      exact hrest acc
    | some cell =>
      rw [hd] at hrest
      exact hrest _

namespace Window

variable (w : Window) (scrollOffset : UInt64)

/-- The placeholder cells of a window, row by row. -/
def sightings : List Sighting :=
  (w.rowsRead scrollOffset).flatMap fun r ↦
    sightingsIn (w.rowCells scrollOffset r) r.toUInt16 (List.range w.colsN.toNat)

/-- The regions are collected from the cells. -/
theorem accums_eq : w.accums scrollOffset =
    collect Sighting.key Accum.key Accum.first Accum.widen [] (w.sightings scrollOffset) := by
  rw [accums, sightings, collect, List.foldl_flatMap]
  refine List.foldl_ext _ _ _ fun acc r _ ↦ ?_
  rw [List.range_eq_range']
  exact scanRow_eq (w.rowCells scrollOffset r) r.toUInt16 w.colsN.toNat 0 acc

end Window

/-- The order in which a scan comes to two cells. -/
def Sighting.Before (s t : Sighting) : Prop :=
  s.row.toNat < t.row.toNat ∨ s.row.toNat = t.row.toNat ∧ s.col.toNat < t.col.toNat

private theorem mem_sightingsIn {read : Nat → Option GridCell} {row : UInt16} {n : Nat}
    {s : Sighting} (hs : s ∈ sightingsIn read row (List.range n)) :
    ∃ x < n, s.row = row ∧ s.col = x.toUInt16 ∧ decodeAt read x = some s.cell := by
  obtain ⟨x, hx, hmap⟩ := List.mem_filterMap.mp hs
  obtain ⟨cell, hcell, rfl⟩ := Option.map_eq_some_iff.mp hmap
  exact ⟨x, List.mem_range.mp hx, rfl, rfl, hcell⟩

/-- A scan comes to the cells row by row. -/
theorem Window.pairwise_sightings (w : Window) (scrollOffset : UInt64) :
    (w.sightings scrollOffset).Pairwise Sighting.Before := by
  have hrows := w.rowsN.toNat_lt
  have hcols := w.colsN.toNat_lt
  refine List.pairwise_flatMap.mpr ⟨fun r _ ↦ ?_, ?_⟩
  · refine List.pairwise_filterMap.mpr (List.Pairwise.imp_of_mem ?_ List.pairwise_lt_range)
    intro x y hx hy hlt s hs t ht
    rw [List.mem_range] at hx hy
    obtain ⟨c, -, rfl⟩ := Option.map_eq_some_iff.mp hs
    obtain ⟨d, -, rfl⟩ := Option.map_eq_some_iff.mp ht
    refine .inr ⟨rfl, ?_⟩
    rw [toNat_toUInt16 (by omega), toNat_toUInt16 (by omega)]
    exact hlt
  · rw [rowsRead_eq]
    refine List.Pairwise.imp_of_mem ?_ List.pairwise_lt_range
    intro r q hr hq hlt s hs t ht
    rw [List.mem_range] at hr hq
    obtain ⟨-, -, hsr, -⟩ := mem_sightingsIn hs
    obtain ⟨-, -, htr, -⟩ := mem_sightingsIn ht
    refine .inl ?_
    rw [hsr, htr, toNat_toUInt16 (by omega), toNat_toUInt16 (by omega)]
    exact hlt

/-- A cell is come to exactly if its row is read and it decodes. -/
theorem Window.mem_sightings {w : Window} {scrollOffset : UInt64} {s : Sighting} :
    s ∈ w.sightings scrollOffset ↔ s.row.toNat ∈ w.rowsRead scrollOffset ∧
      s.col.toNat < w.colsN.toNat ∧
      decodeAt (w.rowCells scrollOffset s.row.toNat) s.col.toNat = some s.cell := by
  have hrows := w.rowsN.toNat_lt
  have hcols := w.colsN.toNat_lt
  rw [sightings, List.mem_flatMap]
  constructor
  · rintro ⟨r, hr, hs⟩
    obtain ⟨x, hx, hrow, hcol, hcell⟩ := mem_sightingsIn hs
    have hlt := (mem_rowsRead.mp hr).1
    rw [hrow, hcol, toNat_toUInt16 (by omega), toNat_toUInt16 (by omega)]
    exact ⟨hr, hx, hcell⟩
  · rintro ⟨hr, hx, hcell⟩
    refine ⟨_, hr, List.mem_filterMap.mpr ⟨_, List.mem_range.mpr hx, ?_⟩⟩
    rw [hcell, Option.map_some]
    cases s
    simp

/-! ### The box of some cells -/

/-- A region is the box of the cells it was made of, and keeps the image row of the first
cell of its top row and the image column of the first cell of its leftmost column. -/
structure Accum.Boxes (a : Accum) (cells : List Sighting) : Prop where
  within : ∀ t ∈ cells, a.row.toNat ≤ t.row.toNat ∧ t.row.toNat ≤ a.lastRow.toNat ∧
    a.col.toNat ≤ t.col.toNat ∧ t.col.toNat ≤ a.lastCol.toNat
  top : ∃ s ∈ cells, s.row = a.row ∧ s.cell.cellRow = a.cellRow ∧
    ∀ t ∈ cells, t.row = a.row → s.col.toNat ≤ t.col.toNat
  left : ∃ s ∈ cells, s.col = a.col ∧ s.cell.cellCol = a.cellCol ∧
    ∀ t ∈ cells, t.col = a.col → s.row.toNat ≤ t.row.toNat
  bottom : ∃ s ∈ cells, s.row = a.lastRow
  right : ∃ s ∈ cells, s.col = a.lastCol

theorem Accum.boxes_first (s : Sighting) : (Accum.first s).Boxes [s] := by
  have hself : s ∈ [s] := List.mem_singleton_self s
  constructor
  · intro t ht
    obtain rfl := List.mem_singleton.mp ht
    exact ⟨Nat.le_refl _, Nat.le_refl _, Nat.le_refl _, Nat.le_refl _⟩
  · exact ⟨s, hself, rfl, rfl, fun t ht _ ↦ by rw [List.mem_singleton.mp ht]⟩
  · exact ⟨s, hself, rfl, rfl, fun t ht _ ↦ by rw [List.mem_singleton.mp ht]⟩
  · exact ⟨s, hself, rfl⟩
  · exact ⟨s, hself, rfl⟩

/-- A further cell, in the order of a scan, is below all others or right of those of its
row, so the top row and its first cell stay. -/
private theorem widen_rows {a : Accum} {cells : List Sighting} (hb : a.Boxes cells)
    {s : Sighting} (hs : ∀ t ∈ cells, t.Before s) :
    (a.widen s).row = a.row ∧ (a.widen s).lastRow = s.row ∧
      (a.widen s).cellRow = a.cellRow := by
  obtain ⟨t, ht, htr, -, -⟩ := hb.top
  obtain ⟨b, hbm, hbr⟩ := hb.bottom
  have htin := hb.within t ht
  have hts := hs t ht
  have hbs := hs b hbm
  rw [Sighting.Before, htr] at hts
  rw [Sighting.Before, hbr] at hbs
  have hrow : ¬ s.row < a.row := by
    rw [UInt16.lt_iff_toNat_lt]
    omega
  have hlastRow : (a.widen s).lastRow = if a.lastRow < s.row then s.row else a.lastRow := rfl
  refine ⟨if_neg hrow, ?_, ?_⟩
  · rw [hlastRow]
    split
    · rfl
    · next hlast =>
      rw [UInt16.lt_iff_toNat_lt] at hlast
      exact UInt16.toNat_inj.mp (by omega)
  · unfold Accum.widen
    simp only [if_neg hrow]
    refine if_neg ?_
    rintro (hlt | ⟨hr, hc⟩)
    · exact hrow hlt
    · -- A cell of the top row is right of its first cell, and so right of the left edge.
      have hcol : ¬ s.col < a.col := by
        rw [UInt16.lt_iff_toNat_lt]
        rw [hr] at hts
        omega
      rw [if_neg hcol] at hc
      rw [hr, hc] at hts
      omega

/-- A further cell, in the order of a scan, widens the box. -/
theorem Accum.Boxes.widen {a : Accum} {cells : List Sighting} (hb : a.Boxes cells)
    {s : Sighting} (hs : ∀ t ∈ cells, t.Before s) : (a.widen s).Boxes (cells ++ [s]) := by
  obtain ⟨hrow, hlast, hcellRow⟩ := widen_rows hb hs
  have hself : s ∈ cells ++ [s] := List.mem_append_right _ (List.mem_singleton_self s)
  have hold : ∀ t ∈ cells, t ∈ cells ++ [s] := fun t ht ↦ List.mem_append_left _ ht
  have hcol : (a.widen s).col = if s.col < a.col then s.col else a.col := rfl
  have hcellCol : (a.widen s).cellCol = if s.col < a.col then s.cell.cellCol else a.cellCol := rfl
  have hlastCol : (a.widen s).lastCol = if a.lastCol < s.col then s.col else a.lastCol := rfl
  obtain ⟨hin, ⟨t, ht, htr, htc, htmin⟩, ⟨l, hl, hlc, hlr, hlmin⟩, -, ⟨r, hr, hrc⟩⟩ := hb
  have hts := hs t ht
  have hls := hs l hl
  rw [Sighting.Before] at hts hls
  constructor
  · intro u hu
    rw [hrow, hlast, hcol, hlastCol]
    rcases List.mem_append.mp hu with hu | hu
    · have hus := hs u hu
      have huin := hin u hu
      rw [Sighting.Before] at hus
      simp only [UInt16.lt_iff_toNat_lt]
      refine ⟨huin.1, by omega, ?_, ?_⟩
      · split <;> omega
      · split <;> omega
    · obtain rfl := List.mem_singleton.mp hu
      have htin := hin t ht
      simp only [UInt16.lt_iff_toNat_lt]
      refine ⟨by omega, Nat.le_refl _, ?_, ?_⟩
      · split <;> omega
      · split <;> omega
  · rw [hrow, hcellRow]
    refine ⟨t, hold t ht, htr, htc, fun u hu hur ↦ ?_⟩
    rcases List.mem_append.mp hu with hu | hu
    · exact htmin u hu hur
    · obtain rfl := List.mem_singleton.mp hu
      rw [htr, hur] at hts
      omega
  · rw [hcol, hcellCol]
    split
    · next hlt =>
      refine ⟨s, hself, rfl, rfl, fun u hu huc ↦ ?_⟩
      rcases List.mem_append.mp hu with hu | hu
      · have huin := hin u hu
        rw [UInt16.lt_iff_toNat_lt] at hlt
        rw [huc] at huin
        omega
      · rw [List.mem_singleton.mp hu]
    · refine ⟨l, hold l hl, hlc, hlr, fun u hu huc ↦ ?_⟩
      rcases List.mem_append.mp hu with hu | hu
      · exact hlmin u hu huc
      · rw [List.mem_singleton.mp hu]
        omega
  · exact ⟨s, hself, hlast.symm⟩
  · rw [hlastCol]
    split
    · exact ⟨s, hself, rfl⟩
    · exact ⟨r, hold r hr, hrc⟩

/-- Cells in the order of a scan make the box of all of them. -/
theorem Accum.boxes_foldl {s : Sighting} {cells : List Sighting}
    (hs : (s :: cells).Pairwise Sighting.Before) :
    (cells.foldl Accum.widen (Accum.first s)).Boxes (s :: cells) := by
  induction cells using List.reverseRecOn with
  | nil => exact Accum.boxes_first s
  | append_singleton cells t ih =>
    rw [← List.cons_append, List.pairwise_append] at hs
    rw [List.foldl_append, List.foldl_cons, List.foldl_nil, ← List.cons_append]
    exact (ih hs.1).widen fun u hu ↦ hs.2.2 u hu t (List.mem_singleton_self t)

/-- Every region is the box of the cells with its pair, which has one. -/
theorem Window.collected_accums (w : Window) (scrollOffset : UInt64) :
    ((w.accums scrollOffset).map Accum.key).Nodup ∧
    (∀ a ∈ w.accums scrollOffset,
      a.Boxes ((w.sightings scrollOffset).filter (Sighting.key · = a.key))) ∧
    ∀ s ∈ w.sightings scrollOffset, ∃ a ∈ w.accums scrollOffset, a.key = s.key := by
  have hc : Collected Sighting.key Accum.key Accum.first Accum.widen (w.sightings scrollOffset)
      (w.accums scrollOffset) := by
    rw [accums_eq]
    exact collected_collect Accum.key_first Accum.key_widen _
  refine ⟨hc.nodup, fun a ha ↦ ?_, hc.covered⟩
  obtain ⟨s, cells, hf, hmade⟩ := hc.made a ha
  have hp := (w.pairwise_sightings scrollOffset).filter (Sighting.key · = a.key)
  rw [hf] at hp ⊢
  rw [hmade]
  exact Accum.boxes_foldl hp

/-! ### What is reported -/

private theorem toInt_widened (n : UInt16) : n.toUInt32.toInt32.toInt = n.toNat := by
  have hlt := n.toNat_lt
  change BitVec.toInt n.toUInt32.toBitVec = n.toNat
  rw [BitVec.toInt_eq_toNat_bmod, UInt32.toNat_toBitVec, UInt16.toNat_toUInt32, Int.bmod_def]
  split <;> omega

private theorem toInt_origin (m n : UInt16) :
    (m.toUInt32.toInt32 - n.toUInt32.toInt32).toInt = m.toNat - n.toNat := by
  have hm := m.toNat_lt
  have hn := n.toNat_lt
  rw [Int32.toInt_sub, toInt_widened, toInt_widened, Int.bmod_def]
  split <;> omega

private theorem toNat_extent {m n : UInt16} (hle : m.toNat ≤ n.toNat)
    (hlt : n.toNat - m.toNat + 1 < 2 ^ 16) : (n - m + 1).toNat = n.toNat - m.toNat + 1 := by
  rw [UInt16.toNat_add, UInt16.toNat_sub_of_le _ _ (UInt16.le_iff_toNat_le.mpr hle)]
  exact Nat.mod_eq_of_lt hlt

namespace Window

variable {w : Window} {scrollOffset : UInt64}

/-- The extents of a region are exact: a window has fewer than 2^16 rows and columns. -/
theorem boxes_exact {a : Accum} (ha : a ∈ w.accums scrollOffset) :
    a.row.toNat ≤ a.lastRow.toNat ∧ a.lastRow.toNat - a.row.toNat + 1 < 2 ^ 16 ∧
    a.col.toNat ≤ a.lastCol.toNat ∧ a.lastCol.toNat - a.col.toNat + 1 < 2 ^ 16 := by
  have hb := (w.collected_accums scrollOffset).2.1 a ha
  have hrows := w.rowsN.toNat_lt
  have hcols := w.colsN.toNat_lt
  obtain ⟨b, hbm, hbr⟩ := hb.bottom
  obtain ⟨r, hrm, hrc⟩ := hb.right
  have hbs := mem_sightings.mp (List.mem_filter.mp hbm).1
  have hrs := mem_sightings.mp (List.mem_filter.mp hrm).1
  have hlt := (mem_rowsRead.mp hbs.1).1
  have hbin := hb.within b hbm
  have hrin := hb.within r hrm
  rw [hbr] at hlt hbin
  rw [hrc] at hrs hrin
  omega

/-- The arithmetic of a scan is exact exactly if the window fits. -/
theorem exact_iff : w.Exact scrollOffset ↔ w.Fits scrollOffset := by
  have hcols := w.colsN.toNat_lt
  constructor
  · intro he
    refine ⟨fun hl hc r hr hg ↦ he.points hl hc r (mem_rowsRead.mpr ⟨hr, hg⟩), fun r hr hg ↦ ?_⟩
    exact (row_exact_iff hcols).mp (he.cells r (mem_rowsRead.mpr ⟨hr, hg⟩))
  · intro hf
    refine ⟨fun r _ hi ↦ rows_exact hi, fun hl hc r hr ↦ ?_, fun r hr ↦ ?_,
      fun a ha ↦ boxes_exact ha⟩
    · exact hf.points hl hc r (mem_rowsRead.mp hr).1 (mem_rowsRead.mp hr).2
    · exact (row_exact_iff hcols).mpr (hf.rows r (mem_rowsRead.mp hr).1 (mem_rowsRead.mp hr).2)

/-- In exact arithmetic, the cells that a scan comes to are those of the window. -/
theorem Exact.shows_iff (he : w.Exact scrollOffset) {r x : Nat} {e : Shown} :
    w.Shows scrollOffset r x e ↔ ∃ s ∈ w.sightings scrollOffset,
      s.row.toNat = r ∧ s.col.toNat = x ∧ s.cell.value = e := by
  have hrows := w.rowsN.toNat_lt
  have hcols := w.colsN.toNat_lt
  constructor
  · rintro ⟨hr, hg, hx, hs⟩
    have hread := mem_rowsRead.mpr ⟨hr, hg⟩
    rw [← map_decodeAt fun y hy ↦ he.cells r hread y (by omega)] at hs
    obtain ⟨cell, hcell, rfl⟩ := Option.map_eq_some_iff.mp hs
    refine ⟨⟨r.toUInt16, x.toUInt16, cell⟩, mem_sightings.mpr ?_, ?_, ?_, rfl⟩
    · rw [toNat_toUInt16 (by omega), toNat_toUInt16 (by omega)]
      exact ⟨hread, hx, hcell⟩
    · exact toNat_toUInt16 (by omega)
    · exact toNat_toUInt16 (by omega)
  · rintro ⟨s, hs, rfl, rfl, rfl⟩
    obtain ⟨hread, hx, hcell⟩ := mem_sightings.mp hs
    obtain ⟨hr, hg⟩ := mem_rowsRead.mp hread
    refine ⟨hr, hg, hx, ?_⟩
    rw [← map_decodeAt fun y hy ↦ he.cells _ hread y (by omega), hcell, Option.map_some]

/-- In exact arithmetic, the cells of a region are those of its pair. -/
theorem Exact.showsPair_iff (he : w.Exact scrollOffset) {a : Accum} {r x : Nat} {e : Shown} :
    w.ShowsPair scrollOffset a.imageId a.placementId r x e ↔
      ∃ s ∈ (w.sightings scrollOffset).filter (Sighting.key · = a.key),
        s.row.toNat = r ∧ s.col.toNat = x ∧ s.cell.value = e := by
  have hkey : ∀ s : Sighting, s.key = a.key ↔
      s.cell.value.image = a.imageId.toNat ∧ s.cell.value.placement = a.placementId.toNat := by
    intro s
    rw [Sighting.key, Accum.key, Prod.ext_iff, ← UInt32.toNat_inj, ← UInt32.toNat_inj]
    rfl
  rw [ShowsPair, he.shows_iff]
  constructor
  · rintro ⟨⟨s, hs, hr, hx, rfl⟩, hi, hp⟩
    exact ⟨s, List.mem_filter.mpr ⟨hs, decide_eq_true ((hkey s).mpr ⟨hi, hp⟩)⟩, hr, hx, rfl⟩
  · rintro ⟨s, hs, hr, hx, rfl⟩
    obtain ⟨hs, hk⟩ := List.mem_filter.mp hs
    exact ⟨⟨s, hs, hr, hx, rfl⟩, (hkey s).mp (of_decide_eq_true hk)⟩

/-- In exact arithmetic, what is reported of a region is where the cells of its pair are. -/
theorem Exact.located (he : w.Exact scrollOffset) {a : Accum} (ha : a ∈ w.accums scrollOffset) :
    w.Located scrollOffset a.imageId a.placementId a.rect := by
  obtain ⟨hrow, hrows, hcol, hcols⟩ := boxes_exact ha
  have hheight : a.rect.rows.toNat = a.lastRow.toNat - a.row.toNat + 1 := toNat_extent hrow hrows
  have hwidth : a.rect.cols.toNat = a.lastCol.toNat - a.col.toNat + 1 := toNat_extent hcol hcols
  obtain ⟨hin, ⟨t, ht, htr, htc, htmin⟩, ⟨l, hl, hlc, hlr, hlmin⟩, ⟨b, hb, hbr⟩, ⟨r, hr, hrc⟩⟩ :=
    (w.collected_accums scrollOffset).2.1 a ha
  constructor
  · intro r x e hshow
    obtain ⟨s, hs, rfl, rfl, -⟩ := he.showsPair_iff.mp hshow
    have hsin := hin s hs
    rw [hheight, hwidth]
    change a.row.toNat ≤ _ ∧ _ < a.row.toNat + _ ∧ a.col.toNat ≤ _ ∧ _ < a.col.toNat + _
    omega
  · refine ⟨_, _, he.showsPair_iff.mpr ⟨t, ht, congrArg UInt16.toNat htr, rfl, rfl⟩,
      congrArg UInt16.toNat htc, fun x e hshow ↦ ?_⟩
    obtain ⟨s, hs, hsr, rfl, -⟩ := he.showsPair_iff.mp hshow
    exact htmin s hs (UInt16.toNat_inj.mp hsr)
  · refine ⟨_, _, he.showsPair_iff.mpr ⟨l, hl, rfl, congrArg UInt16.toNat hlc, rfl⟩,
      congrArg UInt16.toNat hlr, fun r e hshow ↦ ?_⟩
    obtain ⟨s, hs, rfl, hsc, -⟩ := he.showsPair_iff.mp hshow
    exact hlmin s hs (UInt16.toNat_inj.mp hsc)
  · refine ⟨_, _, _, he.showsPair_iff.mpr ⟨b, hb, rfl, rfl, rfl⟩, ?_⟩
    rw [hheight, hbr]
    change _ = a.row.toNat + _
    omega
  · refine ⟨_, _, _, he.showsPair_iff.mpr ⟨r, hr, rfl, rfl, rfl⟩, ?_⟩
    rw [hwidth, hrc]
    change _ = a.col.toNat + _
    omega
  · exact toInt_origin a.row a.cellRow
  · exact toInt_origin a.col a.cellCol

/-- In exact arithmetic, a scan reports the box of every pair, and every cell in one. -/
theorem Exact.correct (he : w.Exact scrollOffset) :
    w.Correct scrollOffset (w.scanPlaceholders scrollOffset) := by
  obtain ⟨hnodup, -, hcov⟩ := w.collected_accums scrollOffset
  constructor
  · intro r x e hshow
    obtain ⟨s, hs, -, -, rfl⟩ := he.shows_iff.mp hshow
    obtain ⟨a, ha, hk⟩ := hcov s hs
    have hkey := Prod.ext_iff.mp hk
    refine ⟨_, ⟨List.mem_map.mpr ⟨a, ha, rfl⟩, congrArg UInt32.toNat hkey.1.symm,
      congrArg UInt32.toNat hkey.2.symm⟩, ?_⟩
    rintro p ⟨hp, hi, hpl⟩
    obtain ⟨b, hb, rfl⟩ := List.mem_map.mp hp
    have hba : b.key = a.key := by
      rw [hk]
      exact Prod.ext (UInt32.toNat_inj.mp hi.symm) (UInt32.toNat_inj.mp hpl.symm)
    rw [List.inj_on_of_nodup_map hnodup hb ha hba]
  · intro p hp
    obtain ⟨a, ha, rfl⟩ := List.mem_map.mp hp
    exact he.located ha

/-- A scan of a window is exact and right exactly if the window fits the code's numbers. -/
theorem scan_correct_iff (w : Window) (scrollOffset : UInt64) :
    w.Exact scrollOffset ∧ w.Correct scrollOffset (w.scanPlaceholders scrollOffset) ↔
      w.Fits scrollOffset :=
  ⟨fun h ↦ exact_iff.mp h.1, fun h ↦ ⟨exact_iff.mpr h, (exact_iff.mpr h).correct⟩⟩

end Window

/-- A cell that names image 1 and states row 0, column 0 and the index 256 as high byte. -/
def overstated : GridCell where
  graphemes := [PLACEHOLDER, Char.ofNat 0x305, Char.ofNat 0x305, Char.ofNat 0xa8e6]
  fgColor := .rgb 0 0 1
  underlineColor := .none

/-- A window with one such cell. -/
def oneCell : Window where
  rows := some 1
  cols := some 1
  scrollbackRows := some 0
  totalRows := some 1
  active _ _ := some overstated
  screen _ _ := none

/-- Not every scan is exact and right: a cell whose third diacritic is no byte is reported
for the image that its colour alone names. -/
theorem Window.scan_refuted :
    ¬ ∀ (w : Window) (scrollOffset : UInt64),
      w.Exact scrollOffset ∧ w.Correct scrollOffset (w.scanPlaceholders scrollOffset) := by
  intro h
  have hf := Window.exact_iff.mp (h oneCell 0).1
  have hthird : overstated.diacritics[2]? = some 256 := by decide +kernel
  have hlt := (hf.rows 0 (by decide) (by decide)).high 0 overstated (1, 0) 256 (by decide) rfl
    (by decide +kernel) hthird
  exact absurd hlt (by decide)

end PtySpec.Vt
