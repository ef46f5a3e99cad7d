import PtySpec.Vt.Graphics

/-!
# The crop of a placement that has scrolled off the top

A replay of `crates/pty-terminal/src/graphics.rs:834-857` puts a direct placement whose top
is above the screen on row 0, and cuts the rows that are gone off its crop. The rows are
counted in cells of the screen, the crop in pixels of the image.
-/

namespace PtySpec.Vt

/-- A direct placement of which some rows, but not all, are above the screen, and whose
command is in the replay. -/
structure Clipped (rows cols : Int32) (p : Placement) (col row : Int32) : Prop where
  shown : p.isVirtual = false
  position : p.position = .direct col row
  above : row.toInt < 0
  partly : -row.toInt < p.cellSize.2.toNat
  emitted : onScreen rows cols p col row = true

/-- The live screen shows some of row `j` of the image: the placement is drawn `pixelHeight`
pixels high from `cellOffset.2` pixels below its top, and its first `k` rows of cells are
above the screen. -/
def Placement.Seen (p : Placement) (pixelHeight : Nat) (cell : CellSize) (k j : Nat) : Prop :=
  k * (max cell.height 1).toNat * p.source.height.toNat <
    p.cellOffset.2.toNat * p.source.height.toNat + (j - p.source.y.toNat + 1) * pixelHeight

instance (p : Placement) (pixelHeight : Nat) (cell : CellSize) (k j : Nat) :
    Decidable (p.Seen pixelHeight cell k j) :=
  inferInstanceAs (Decidable (_ < _))

/-- What a crop is to be: not empty, within the placement's own, with the same bottom edge,
and with no row of the image that is not on the live screen. -/
structure Placement.Kept (p : Placement) (pixelHeight : Nat) (cell : CellSize) (k : Nat)
    (crop : SourceRect) : Prop where
  left : crop.x = p.source.x
  width : crop.width = p.source.width
  positive : 0 < crop.height.toNat
  top : p.source.y.toNat ≤ crop.y.toNat
  bottom : crop.y.toNat + crop.height.toNat = p.source.y.toNat + p.source.height.toNat
  seen : ∀ j, crop.y.toNat ≤ j → j < crop.y.toNat + crop.height.toNat →
    p.Seen pixelHeight cell k j

/-- The pixels that `clip_top` takes off, `graphics.rs:923`, before they are bounded by the
height of the crop. -/
def cutRows (cell : CellSize) (k : Nat) : Nat := k * (max cell.height 1).toNat % 2 ^ 32

/-- When the rows that are gone can be cut off in pixels of the image: they are fewer than
the crop has, and the first row that stays is on the live screen. -/
structure Placement.Croppable (p : Placement) (pixelHeight : Nat) (cell : CellSize)
    (k : Nat) : Prop where
  fits : cutRows cell k < p.source.height.toNat
  bounded : p.source.y.toNat + cutRows cell k < 2 ^ 32
  seen : p.Seen pixelHeight cell k (p.source.y.toNat + cutRows cell k)

/-- What is seen of the image reaches down to its bottom edge. -/
theorem Placement.Seen.mono {p : Placement} {pixelHeight : Nat} {cell : CellSize} {k i j : Nat}
    (hs : p.Seen pixelHeight cell k i) (hij : i ≤ j) : p.Seen pixelHeight cell k j := by
  have hle : (i - p.source.y.toNat + 1) * pixelHeight ≤ (j - p.source.y.toNat + 1) * pixelHeight :=
    Nat.mul_le_mul_right _ (by omega)
  unfold Placement.Seen at hs ⊢
  omega

private theorem toNat_min (a b : UInt32) : (min a b).toNat = min a.toNat b.toNat := by
  simp only [Std.min_eq_if, UInt32.le_iff_toNat_le]
  split <;> omega

private theorem toInt_toInt32 (n : UInt32) : n.toInt32.toInt = (n.toNat : Int).bmod (2 ^ 32) :=
  BitVec.toInt_eq_toNat_bmod n.toBitVec

/-- The rows that are gone are not truncated: a replayed placement has fewer than 2^31. -/
theorem Clipped.toNat_clippedAbove {rows cols col row : Int32} {p : Placement}
    (hc : Clipped rows cols p col row) :
    (clippedAbove row).toUInt32.toNat = (-row.toInt).toNat := by
  obtain ⟨-, -, hab, hpart, hem⟩ := hc
  have hless : clippedAbove row < p.cellSize.2.toInt32 := by
    simp only [onScreen, Bool.not_eq_true', Bool.or_eq_false_iff, decide_eq_false_iff_not] at hem
    exact Int32.not_le.mp hem.2
  have hmin : row.toInt ≠ -2 ^ 31 := by
    -- The negation of the least number is itself, and nothing is cut for it.
    intro hrow
    obtain rfl : row = Int32.minValue := Int32.toInt_inj.mp hrow
    rw [show clippedAbove Int32.minValue = 0 by decide, Int32.lt_iff_toInt_lt, toInt_toInt32,
      Int.bmod_def, show (0 : Int32).toInt = 0 from rfl] at hless
    have hlt := p.cellSize.2.toNat_lt
    split at hless <;> omega
  have hle := Int32.le_toInt row
  have hneg : (-row).toInt = -row.toInt := by
    rw [Int32.toInt_neg, Int.bmod_def]
    split <;> omega
  have hpos : (0 : Int32) ≤ -row := by
    rw [Int32.le_iff_toInt_le, hneg, show (0 : Int32).toInt = 0 from rfl]
    omega
  have hclip : clippedAbove row = -row := by
    change (if -row ≤ 0 then 0 else -row) = -row
    split
    · next hn => exact Int32.le_antisymm hpos hn
    · rfl
  rw [hclip, Int32.toNat_toUInt32_of_le hpos, Int32.toNatClampNeg, hneg]

/-- The command of such a placement is put on row 0, with the rows that are gone cut off. -/
theorem Clipped.place_eq {rows cols col row : Int32} {p : Placement}
    (hc : Clipped rows cols p col row) (cell : CellSize) :
    place rows cols cell p = placeDirect p col 0 (clippedAbove row).toUInt32 cell := by
  have hmax : max row 0 = 0 := by
    change (if row ≤ 0 then 0 else row) = 0
    split
    · rfl
    · next hn =>
      have hab := hc.above
      rw [Int32.le_iff_toInt_le, show (0 : Int32).toInt = 0 from rfl] at hn
      omega
  simp only [place, hc.shown, hc.position, hc.emitted, hmax, Bool.false_eq_true, if_false, if_true]

/-- The top edge and the height of the crop that is left when `rows` rows are cut off. -/
theorem clipTop_source {p : Placement} {rows : UInt32} (hr : rows ≠ 0) (cell : CellSize) :
    (clipTop p rows cell).source.x = p.source.x ∧
    (clipTop p rows cell).source.width = p.source.width ∧
    (clipTop p rows cell).source.y.toNat =
      (p.source.y.toNat + min (cutRows cell rows.toNat) p.source.height.toNat) % 2 ^ 32 ∧
    (clipTop p rows cell).source.height.toNat =
      p.source.height.toNat - min (cutRows cell rows.toNat) p.source.height.toNat := by
  have hcut : (min (rows * max cell.height 1) p.source.height).toNat =
      min (cutRows cell rows.toNat) p.source.height.toNat := by
    rw [toNat_min, UInt32.toNat_mul]
    rfl
  have hle : min (rows * max cell.height 1) p.source.height ≤ p.source.height := by
    rw [UInt32.le_iff_toNat_le, toNat_min]
    omega
  unfold clipTop
  rw [if_neg hr]
  refine ⟨rfl, rfl, ?_, ?_⟩
  · rw [UInt32.toNat_add, hcut]
  · rw [UInt32.toNat_sub_of_le _ _ hle, hcut]

/-- A crop is what it is to be exactly if the rows that are gone can be cut off it. -/
theorem kept_clipTop_iff {p : Placement} {rows : UInt32} (hr : rows ≠ 0) (pixelHeight : Nat)
    (cell : CellSize) :
    p.Kept pixelHeight cell rows.toNat (clipTop p rows cell).source ↔
      p.Croppable pixelHeight cell rows.toNat := by
  obtain ⟨hx, hw, hy, hh⟩ := clipTop_source hr cell (p := p)
  have hlt := p.source.y.toNat_lt
  have hheight := p.source.height.toNat_lt
  constructor
  · intro hk
    obtain ⟨-, -, hpos, htop, hbot, hseen⟩ := hk
    have hfits : cutRows cell rows.toNat < p.source.height.toNat := by omega
    have hbounded : p.source.y.toNat + cutRows cell rows.toNat < 2 ^ 32 := by omega
    have hedge : (clipTop p rows cell).source.y.toNat =
        p.source.y.toNat + cutRows cell rows.toNat := by omega
    exact ⟨hfits, hbounded, hedge ▸ hseen _ (Nat.le_refl _) (by omega)⟩
  · intro hcr
    obtain ⟨hfits, hbounded, hseen⟩ := hcr
    have hedge : (clipTop p rows cell).source.y.toNat =
        p.source.y.toNat + cutRows cell rows.toNat := by omega
    exact ⟨hx, hw, by omega, by omega, by omega, fun j hj _ ↦ hseen.mono (hedge ▸ hj)⟩

/-- The replay of a placement that is partly above the screen keeps what the screen shows
exactly if the rows that are gone can be cut off in pixels of the image. -/
theorem Clipped.kept_iff {rows cols col row : Int32} {p : Placement}
    (hc : Clipped rows cols p col row) (pixelHeight : Nat) (cell : CellSize) :
    place rows cols cell p = placeDirect p col 0 (clippedAbove row).toUInt32 cell ∧
    (p.Kept pixelHeight cell (-row.toInt).toNat
        (clipTop p (clippedAbove row).toUInt32 cell).source ↔
      p.Croppable pixelHeight cell (-row.toInt).toNat) := by
  have hk := hc.toNat_clippedAbove
  have hab := hc.above
  have hne : (clippedAbove row).toUInt32 ≠ 0 := by
    intro hzero
    rw [hzero, show (0 : UInt32).toNat = 0 from rfl] at hk
    omega
  exact ⟨hc.place_eq cell, hk ▸ kept_clipTop_iff hne pixelHeight cell⟩

/-- An image 100 pixels high on five rows of 20 pixels, with two rows above the screen. -/
def unscaled : Placement where
  imageId := 1
  placementId := 0
  isVirtual := false
  z := 0
  source := ⟨0, 0, 40, 100⟩
  cellOffset := (0, 0)
  cellSize := (4, 5)
  requestedCells := (0, 0)
  position := .direct 0 (-2)

/-- An image 10 pixels high drawn on five rows of 20 pixels, with one row above the screen. -/
def enlarged : Placement :=
  { unscaled with source := ⟨0, 0, 10, 10⟩, requestedCells := (5, 5), position := .direct 0 (-1) }

/-- `Clipped.kept_iff` at an image drawn at its own size. -/
theorem Clipped.kept_iff_unscaled :
    unscaled.Kept 100 ⟨10, 20⟩ 2 (clipTop unscaled (clippedAbove (-2)).toUInt32 ⟨10, 20⟩).source :=
  (@Clipped.kept_iff 24 80 0 (-2) unscaled ⟨rfl, rfl, by decide, by decide, by decide⟩
    100 ⟨10, 20⟩).2.mpr
    ⟨by decide, by decide, by decide⟩

/-- Not every placement that is partly above the screen keeps a crop: nothing is left of an
image that is drawn larger than it is, and a height of 0 asks for the whole image. -/
theorem kept_refuted :
    ¬ ∀ (rows cols col row : Int32) (p : Placement) (pixelHeight : Nat) (cell : CellSize),
      Clipped rows cols p col row →
        p.Kept pixelHeight cell (-row.toInt).toNat
          (clipTop p (clippedAbove row).toUInt32 cell).source := by
  intro h
  have hk := h 24 80 0 (-1) enlarged 100 ⟨10, 20⟩ ⟨rfl, rfl, by decide, by decide, by decide⟩
  exact absurd hk.positive (by decide)

end PtySpec.Vt
