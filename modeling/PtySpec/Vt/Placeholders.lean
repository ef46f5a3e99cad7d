import Mathlib

/-!
# Placeholder cells

Model of `crates/pty-terminal/src/graphics.rs:570-781`: the cells that show an image say
which cell of which image they show, with what a cell leaves out taken from the cell to its
left. The code's numbers are of fixed width; the rules are stated without one.
-/

namespace PtySpec.Vt

/-- `PLACEHOLDER`, `graphics.rs:36`. -/
def PLACEHOLDER : Char := Char.ofNat 0x10eeee

/-- `ROWCOLUMN_DIACRITICS`, `graphics.rs:573`. -/
def ROWCOLUMN_DIACRITICS : List UInt32 := [
  0x0305, 0x030d, 0x030e, 0x0310, 0x0312, 0x033d, 0x033e, 0x033f, 0x0346, 0x034a, 0x034b, 0x034c,
  0x0350, 0x0351, 0x0352, 0x0357, 0x035b, 0x0363, 0x0364, 0x0365, 0x0366, 0x0367, 0x0368, 0x0369,
  0x036a, 0x036b, 0x036c, 0x036d, 0x036e, 0x036f, 0x0483, 0x0484, 0x0485, 0x0486, 0x0487, 0x0592,
  0x0593, 0x0594, 0x0595, 0x0597, 0x0598, 0x0599, 0x059c, 0x059d, 0x059e, 0x059f, 0x05a0, 0x05a1,
  0x05a8, 0x05a9, 0x05ab, 0x05ac, 0x05af, 0x05c4, 0x0610, 0x0611, 0x0612, 0x0613, 0x0614, 0x0615,
  0x0616, 0x0617, 0x0657, 0x0658, 0x0659, 0x065a, 0x065b, 0x065d, 0x065e, 0x06d6, 0x06d7, 0x06d8,
  0x06d9, 0x06da, 0x06db, 0x06dc, 0x06df, 0x06e0, 0x06e1, 0x06e2, 0x06e4, 0x06e7, 0x06e8, 0x06eb,
  0x06ec, 0x0730, 0x0732, 0x0733, 0x0735, 0x0736, 0x073a, 0x073d, 0x073f, 0x0740, 0x0741, 0x0743,
  0x0745, 0x0747, 0x0749, 0x074a, 0x07eb, 0x07ec, 0x07ed, 0x07ee, 0x07ef, 0x07f0, 0x07f1, 0x07f3,
  0x0816, 0x0817, 0x0818, 0x0819, 0x081b, 0x081c, 0x081d, 0x081e, 0x081f, 0x0820, 0x0821, 0x0822,
  0x0823, 0x0825, 0x0826, 0x0827, 0x0829, 0x082a, 0x082b, 0x082c, 0x082d, 0x0951, 0x0953, 0x0954,
  0x0f82, 0x0f83, 0x0f86, 0x0f87, 0x135d, 0x135e, 0x135f, 0x17dd, 0x193a, 0x1a17, 0x1a75, 0x1a76,
  0x1a77, 0x1a78, 0x1a79, 0x1a7a, 0x1a7b, 0x1a7c, 0x1b6b, 0x1b6d, 0x1b6e, 0x1b6f, 0x1b70, 0x1b71,
  0x1b72, 0x1b73, 0x1cd0, 0x1cd1, 0x1cd2, 0x1cda, 0x1cdb, 0x1ce0, 0x1dc0, 0x1dc1, 0x1dc3, 0x1dc4,
  0x1dc5, 0x1dc6, 0x1dc7, 0x1dc8, 0x1dc9, 0x1dcb, 0x1dcc, 0x1dd1, 0x1dd2, 0x1dd3, 0x1dd4, 0x1dd5,
  0x1dd6, 0x1dd7, 0x1dd8, 0x1dd9, 0x1dda, 0x1ddb, 0x1ddc, 0x1ddd, 0x1dde, 0x1ddf, 0x1de0, 0x1de1,
  0x1de2, 0x1de3, 0x1de4, 0x1de5, 0x1de6, 0x1dfe, 0x20d0, 0x20d1, 0x20d4, 0x20d5, 0x20d6, 0x20d7,
  0x20db, 0x20dc, 0x20e1, 0x20e7, 0x20e9, 0x20f0, 0x2cef, 0x2cf0, 0x2cf1, 0x2de0, 0x2de1, 0x2de2,
  0x2de3, 0x2de4, 0x2de5, 0x2de6, 0x2de7, 0x2de8, 0x2de9, 0x2dea, 0x2deb, 0x2dec, 0x2ded, 0x2dee,
  0x2def, 0x2df0, 0x2df1, 0x2df2, 0x2df3, 0x2df4, 0x2df5, 0x2df6, 0x2df7, 0x2df8, 0x2df9, 0x2dfa,
  0x2dfb, 0x2dfc, 0x2dfd, 0x2dfe, 0x2dff, 0xa66f, 0xa67c, 0xa67d, 0xa6f0, 0xa6f1, 0xa8e0, 0xa8e1,
  0xa8e2, 0xa8e3, 0xa8e4, 0xa8e5, 0xa8e6, 0xa8e7, 0xa8e8, 0xa8e9, 0xa8ea, 0xa8eb, 0xa8ec, 0xa8ed,
  0xa8ee, 0xa8ef, 0xa8f0, 0xa8f1, 0xaab0, 0xaab2, 0xaab3, 0xaab7, 0xaab8, 0xaabe, 0xaabf, 0xaac1,
  0xfe20, 0xfe21, 0xfe22, 0xfe23, 0xfe24, 0xfe25, 0xfe26, 0x10a0f, 0x10a38, 0x1d185, 0x1d186,
  0x1d187, 0x1d188, 0x1d189, 0x1d1aa, 0x1d1ab, 0x1d1ac, 0x1d1ad, 0x1d242, 0x1d243, 0x1d244]

/-- `diacritic_index`, `graphics.rs:605`: the place of a codepoint in the sorted list. -/
def diacriticIndex (c : Char) : Option UInt16 :=
  (ROWCOLUMN_DIACRITICS.idxOf? c.val).map fun i ↦ i.toUInt16

/-- `StyleColor` of libghostty. -/
inductive StyleColor where
  | none
  | palette (index : UInt8)
  | rgb (r g b : UInt8)
  deriving DecidableEq, Repr

/-- `color_id`, `graphics.rs:775`. -/
def colorId : StyleColor → Option UInt32
  | .rgb r g b => some ((r.toUInt32 <<< 16) ||| (g.toUInt32 <<< 8) ||| b.toUInt32)
  | .palette i => some i.toUInt32
  | .none => none

/-- What a cell of the grid answers: its codepoints, as `graphemes` puts them into a buffer
of 8, and two of its colours. -/
structure GridCell where
  graphemes : List Char
  fgColor : StyleColor
  underlineColor : StyleColor
  deriving DecidableEq, Repr

/-- `PlaceholderCell`, `graphics.rs:711`. -/
structure PlaceholderCell where
  imageId : UInt32
  placementId : UInt32
  cellRow : UInt16
  cellCol : UInt16
  idHigh : UInt16
  deriving DecidableEq, Repr

/-- The colours of a placeholder cell, as the low bytes of an image's id and the id of a
placement, `graphics.rs:742-747`: nothing for another cell, and for one without a colour. -/
def GridCell.name (g : GridCell) : Option (UInt32 × UInt32) :=
  if g.graphemes.head? ≠ some PLACEHOLDER then none
  else (colorId g.fgColor).map fun base ↦ (base, (colorId g.underlineColor).getD 0)

/-- The indices that a placeholder cell states, `graphics.rs:750`. -/
def GridCell.diacritics (g : GridCell) : List UInt16 := g.graphemes.tail.filterMap diacriticIndex

/-- `left`, `graphics.rs:749`: the cell to the left, if it names the same. -/
def continued (prev : Option PlaceholderCell) (name : UInt32 × UInt32) : Option PlaceholderCell :=
  prev.filter fun p ↦ p.imageId &&& 0x00ffffff = name.1 ∧ p.placementId = name.2

/-- What a placeholder cell of a name says, `graphics.rs:751-769`. -/
def GridCell.decoded (g : GridCell) (name : UInt32 × UInt32) (left : Option PlaceholderCell) :
    PlaceholderCell :=
  let idHigh := (g.diacritics[2]?.or (left.map (·.idHigh))).getD 0
  { imageId := (idHigh.toUInt32 <<< (24 : UInt32)) ||| name.1
    placementId := name.2
    cellRow := (g.diacritics[0]?.or (left.map (·.cellRow))).getD 0
    cellCol := (g.diacritics[1]?.or (left.map (·.cellCol + 1))).getD 0
    idHigh }

/-- `placeholder_cell`, `graphics.rs:733`, of a cell that could be read, or not. -/
def placeholderCell (cell : Option GridCell) (prev : Option PlaceholderCell) :
    Option PlaceholderCell :=
  cell.bind fun g ↦ g.name.map fun name ↦ g.decoded name (continued prev name)

/-- The cell at a column of a row, decoded after those to its left. -/
def decodeAt (read : Nat → Option GridCell) : Nat → Option PlaceholderCell
  | 0 => placeholderCell (read 0) none
  | x + 1 => placeholderCell (read (x + 1)) (decodeAt read x)

/-- `prev` at a column of a row. -/
def prevAt (read : Nat → Option GridCell) : Nat → Option PlaceholderCell
  | 0 => none
  | x + 1 => decodeAt read x

/-! ### The rules, without a width -/

/-- What a placeholder cell shows: a cell of an image, for a placement. -/
structure Shown where
  image : Nat
  placement : Nat
  row : Nat
  col : Nat
  high : Nat
  deriving DecidableEq, Repr

/-- The number that a colour stands for. -/
def StyleColor.number : StyleColor → Option Nat
  | rgb r g b => some (r.toNat * 2 ^ 16 + g.toNat * 2 ^ 8 + b.toNat)
  | palette i => some i.toNat
  | none => .none

/-- What a cell of two numbers shows that is right of one that names the same: the row, the
next column and the high byte of the image's id are the left cell's, unless it states its
own. -/
def GridCell.shownAs (g : GridCell) (base placement : Nat) (left : Option Shown) : Shown :=
  let stated := g.diacritics.map UInt16.toNat
  let high := (stated[2]?.or (left.map (·.high))).getD 0
  { image := high * 2 ^ 24 + base
    placement
    row := (stated[0]?.or (left.map (·.row))).getD 0
    col := (stated[1]?.or (left.map (·.col + 1))).getD 0
    high }

/-- What a cell shows that is right of another. -/
def GridCell.shown (g : GridCell) (prev : Option Shown) : Option Shown :=
  if g.graphemes.head? ≠ some PLACEHOLDER then none
  else g.fgColor.number.map fun base ↦
    let placement := g.underlineColor.number.getD 0
    g.shownAs base placement
      (prev.filter fun p ↦ p.image % 2 ^ 24 = base ∧ p.placement = placement)

/-- What the cell at a column of a row shows. -/
def shownAt (read : Nat → Option GridCell) : Nat → Option Shown
  | 0 => (read 0).bind (·.shown none)
  | x + 1 => (read (x + 1)).bind (·.shown (shownAt read x))

/-- What a decoded cell shows. -/
def PlaceholderCell.value (c : PlaceholderCell) : Shown where
  image := c.imageId.toNat
  placement := c.placementId.toNat
  row := c.cellRow.toNat
  col := c.cellCol.toNat
  high := c.idHigh.toNat

/-- The arithmetic of a cell is exact: the column after the left cell's, and the high byte
in its place. -/
structure CellExact (cell : Option GridCell) (prev : Option PlaceholderCell) : Prop where
  col : ∀ g name p, cell = some g → g.name = some name → g.diacritics[1]? = none →
    continued prev name = some p → p.cellCol.toNat + 1 < 2 ^ 16
  high : ∀ c, placeholderCell cell prev = some c → c.idHigh.toNat * 2 ^ 24 < 2 ^ 32

/-! ### Colours and ids -/

private theorem toNat_low (v : UInt32) : (v &&& 0x00ffffff).toNat = v.toNat % 2 ^ 24 := by
  rw [UInt32.toNat_and]
  exact Nat.and_two_pow_sub_one_eq_mod v.toNat 24

private theorem toNat_raised (high : UInt16) {base : UInt32} (hb : base.toNat < 2 ^ 24) :
    ((high.toUInt32 <<< (24 : UInt32)) ||| base).toNat =
      high.toNat % 256 * 2 ^ 24 + base.toNat := by
  have hraise : high.toNat <<< 24 % 2 ^ 32 = (high.toNat % 256) <<< 24 := by
    rw [Nat.shiftLeft_eq, Nat.shiftLeft_eq]
    omega
  rw [UInt32.toNat_or, UInt32.toNat_shiftLeft, UInt16.toNat_toUInt32,
    show (24 : UInt32).toNat % 32 = 24 from rfl, hraise, ← Nat.shiftLeft_add_eq_or_of_lt hb,
    Nat.shiftLeft_eq]

/-- The bytes of a colour are not cut off, and do not run into each other. -/
theorem toNat_colorId (color : StyleColor) : (colorId color).map UInt32.toNat = color.number := by
  cases color with
  | none => rfl
  | palette i => simp only [colorId, Option.map_some, UInt8.toNat_toUInt32, StyleColor.number]
  | rgb r g b =>
    have hr := r.toNat_lt
    have hg := g.toNat_lt
    have hb := b.toNat_lt
    have hgb : g.toNat <<< 8 ||| b.toNat = g.toNat * 2 ^ 8 + b.toNat := by
      rw [← Nat.shiftLeft_add_eq_or_of_lt hb, Nat.shiftLeft_eq]
    have hlow : g.toNat * 2 ^ 8 + b.toNat < 2 ^ 16 := by omega
    have hred : r.toNat <<< 16 % 2 ^ 32 = r.toNat <<< 16 := by
      rw [Nat.shiftLeft_eq]
      omega
    have hgreen : g.toNat <<< 8 % 2 ^ 32 = g.toNat <<< 8 := by
      rw [Nat.shiftLeft_eq]
      omega
    rw [colorId, Option.map_some, StyleColor.number, UInt32.toNat_or, UInt32.toNat_or,
      UInt32.toNat_shiftLeft, UInt32.toNat_shiftLeft, UInt8.toNat_toUInt32, UInt8.toNat_toUInt32,
      UInt8.toNat_toUInt32, show (16 : UInt32).toNat % 32 = 16 from rfl,
      show (8 : UInt32).toNat % 32 = 8 from rfl, hred, hgreen, Nat.or_assoc, hgb,
      ← Nat.shiftLeft_add_eq_or_of_lt hlow, Nat.shiftLeft_eq, Nat.add_assoc]

/-- The number of a colour has 24 bits. -/
theorem StyleColor.number_lt {color : StyleColor} {n : Nat} (hn : color.number = some n) :
    n < 2 ^ 24 := by
  cases color with
  | none => cases hn
  | palette i =>
    obtain rfl := Option.some.inj hn
    have hi := i.toNat_lt
    omega
  | rgb r g b =>
    obtain rfl := Option.some.inj hn
    have hr := r.toNat_lt
    have hg := g.toNat_lt
    have hb := b.toNat_lt
    omega

/-! ### One cell after another -/

@[simp] theorem placeholderCell_none (prev : Option PlaceholderCell) :
    placeholderCell none prev = none := rfl

theorem placeholderCell_some (g : GridCell) (prev : Option PlaceholderCell) :
    placeholderCell (some g) prev =
      g.name.map fun name ↦ g.decoded name (continued prev name) := rfl

theorem prevAt_succ (read : Nat → Option GridCell) (x : Nat) :
    prevAt read (x + 1) = decodeAt read x := rfl

theorem decodeAt_eq (read : Nat → Option GridCell) (x : Nat) :
    decodeAt read x = placeholderCell (read x) (prevAt read x) := by
  cases x <;> rfl

/-- A cell names what its colours stand for. -/
theorem GridCell.shown_eq (g : GridCell) (prev : Option Shown) :
    g.shown prev = g.name.map fun name ↦ g.shownAs name.1.toNat name.2.toNat
      (prev.filter fun p ↦ p.image % 2 ^ 24 = name.1.toNat ∧ p.placement = name.2.toNat) := by
  unfold GridCell.shown GridCell.name
  split
  · rfl
  · have hplacement : g.underlineColor.number.getD 0 =
        ((colorId g.underlineColor).getD 0).toNat := by
      rw [← toNat_colorId]
      exact Option.getD_map UInt32.toNat 0 _
    rw [hplacement, ← toNat_colorId, Option.map_map, Option.map_map]
    rfl

/-- The name of a placeholder cell has 24 bits for the image. -/
theorem GridCell.name_lt {g : GridCell} {name : UInt32 × UInt32} (hn : g.name = some name) :
    name.1.toNat < 2 ^ 24 := by
  unfold GridCell.name at hn
  split at hn
  · cases hn
  · obtain ⟨base, hb, rfl⟩ := Option.map_eq_some_iff.mp hn
    exact StyleColor.number_lt (by rw [← toNat_colorId, hb, Option.map_some])

private theorem map_continued (prev : Option PlaceholderCell) (name : UInt32 × UInt32) :
    (continued prev name).map PlaceholderCell.value =
      (prev.map PlaceholderCell.value).filter fun p ↦ p.image % 2 ^ 24 = name.1.toNat ∧
        p.placement = name.2.toNat := by
  cases prev with
  | none => rfl
  | some p =>
    have hiff : (p.imageId &&& 0x00ffffff = name.1 ∧ p.placementId = name.2) ↔
        (p.imageId.toNat % 2 ^ 24 = name.1.toNat ∧ p.placementId.toNat = name.2.toNat) := by
      rw [← toNat_low, UInt32.toNat_inj, UInt32.toNat_inj]
    simp only [continued, Option.filter_some, Option.map_some, PlaceholderCell.value, hiff]
    split <;> rfl

private theorem toNat_getD_or (o l : Option UInt16) :
    ((o.or l).getD 0).toNat = ((o.map UInt16.toNat).or (l.map UInt16.toNat)).getD 0 := by
  cases o <;> cases l <;> rfl

/-- What is decoded of a cell is what it shows, if its arithmetic is exact. -/
theorem value_decoded {g : GridCell} {name : UInt32 × UInt32} {left : Option PlaceholderCell}
    (hn : g.name = some name)
    (hcol : g.diacritics[1]? = none → ∀ p, left = some p → p.cellCol.toNat + 1 < 2 ^ 16)
    (hhigh : (g.decoded name left).idHigh.toNat * 2 ^ 24 < 2 ^ 32) :
    (g.decoded name left).value =
      g.shownAs name.1.toNat name.2.toNat (left.map PlaceholderCell.value) := by
  have hc : (g.decoded name left).cellCol.toNat = ((g.diacritics[1]?.map UInt16.toNat).or
      (left.map fun p : PlaceholderCell ↦ p.cellCol.toNat + 1)).getD 0 := by
    rw [GridCell.decoded, toNat_getD_or]
    cases hd : g.diacritics[1]? with
    | some c => rfl
    | none =>
      cases hp : left with
      | none => rfl
      | some p => exact Nat.mod_eq_of_lt (hcol hd p hp)
  have hh : (g.decoded name left).imageId.toNat =
      (g.decoded name left).idHigh.toNat * 2 ^ 24 + name.1.toNat := by
    rw [GridCell.decoded, toNat_raised _ (GridCell.name_lt hn), Nat.mod_eq_of_lt]
    exact Nat.lt_of_mul_lt_mul_right (a := 2 ^ 24) hhigh
  have hr : (g.decoded name left).cellRow.toNat = ((g.diacritics[0]?.map UInt16.toNat).or
      (left.map fun p : PlaceholderCell ↦ p.cellRow.toNat)).getD 0 := by
    rw [GridCell.decoded, toNat_getD_or, Option.map_map]
    rfl
  have hi : (g.decoded name left).idHigh.toNat = ((g.diacritics[2]?.map UInt16.toNat).or
      (left.map fun p : PlaceholderCell ↦ p.idHigh.toNat)).getD 0 := by
    rw [GridCell.decoded, toNat_getD_or, Option.map_map]
    rfl
  rw [PlaceholderCell.value, hh, hc, hr, hi, GridCell.shownAs]
  simp only [List.getElem?_map, Option.map_map, Function.comp_def, PlaceholderCell.value]
  rfl

/-- A cell shows what it decodes to, if its arithmetic is exact. -/
theorem map_placeholderCell {cell : Option GridCell} {prev : Option PlaceholderCell}
    (he : CellExact cell prev) :
    (placeholderCell cell prev).map PlaceholderCell.value =
      cell.bind (·.shown (prev.map PlaceholderCell.value)) := by
  cases cell with
  | none => rfl
  | some g =>
    rw [Option.bind_some, GridCell.shown_eq, placeholderCell_some]
    cases hn : g.name with
    | none => rfl
    | some name =>
      rw [Option.map_some, Option.map_some, Option.map_some, ← map_continued,
        value_decoded hn (fun hd p hp ↦ he.col g name p rfl hn hd hp)
          (he.high _ (by rw [placeholderCell_some, hn, Option.map_some]))]

/-- A row shows what it decodes to, as far as the arithmetic is exact. -/
theorem map_decodeAt {read : Nat → Option GridCell} {x : Nat}
    (he : ∀ y ≤ x, CellExact (read y) (prevAt read y)) :
    (decodeAt read x).map PlaceholderCell.value = shownAt read x := by
  induction x with
  | zero => exact map_placeholderCell (he 0 (Nat.le_refl 0))
  | succ x ih =>
    rw [decodeAt_eq, map_placeholderCell (he (x + 1) (Nat.le_refl _)), shownAt, prevAt_succ,
      ih fun y hy ↦ he y (Nat.le_succ_of_le hy)]

/-! ### When the arithmetic of a row is exact -/

/-- A cell names something without stating a column. -/
def Continues (cell : Option GridCell) (name : UInt32 × UInt32) : Prop :=
  ∃ g, cell = some g ∧ g.name = some name ∧ g.diacritics[1]? = none

/-- The cells of a row fit the code's numbers: no cell states a high byte that is none, and
no run of cells that leave the column out goes on past the last column. -/
structure RowFits (read : Nat → Option GridCell) (n : Nat) : Prop where
  high : ∀ x g name i, x < n → read x = some g → g.name = some name →
    g.diacritics[2]? = some i → i.toNat < 256
  col : ∀ x k g name c, x + k < n → read x = some g → g.name = some name →
    g.diacritics[1]? = some c → (∀ i < k, Continues (read (x + i + 1)) name) →
    c.toNat + k < 2 ^ 16

/-- A cell is continued by those that name the same. -/
theorem continued_placeholderCell {cell : Option GridCell} {prev : Option PlaceholderCell}
    {name : UInt32 × UInt32} {p : PlaceholderCell} :
    continued (placeholderCell cell prev) name = some p ↔
      placeholderCell cell prev = some p ∧ cell.bind GridCell.name = some name := by
  cases cell with
  | none => simp [continued]
  | some g =>
    rw [placeholderCell_some, Option.bind_some]
    cases hn : g.name with
    | none => simp [continued]
    | some own =>
      have hlow : (g.decoded own (continued prev own)).imageId &&& 0x00ffffff = own.1 := by
        have hlt := GridCell.name_lt hn
        rw [← UInt32.toNat_inj, toNat_low, GridCell.decoded, toNat_raised _ hlt]
        omega
      have hplacement : (g.decoded own (continued prev own)).placementId = own.2 := rfl
      rw [Option.map_some, continued, Option.filter_eq_some_iff]
      refine and_congr_right fun hp ↦ ?_
      obtain rfl := Option.some.inj hp
      rw [decide_eq_true_eq, hlow, hplacement, Option.some.injEq, Prod.ext_iff]

private theorem cellCol_stated {g : GridCell} {name : UInt32 × UInt32}
    {left : Option PlaceholderCell} {c : UInt16} (hc : g.diacritics[1]? = some c) :
    (g.decoded name left).cellCol = c := by
  rw [GridCell.decoded, hc]
  rfl

private theorem cellCol_left {g : GridCell} {name : UInt32 × UInt32} {p : PlaceholderCell}
    (hc : g.diacritics[1]? = none) : (g.decoded name (some p)).cellCol = p.cellCol + 1 := by
  rw [GridCell.decoded, hc]
  rfl

private theorem decodeAt_some {read : Nat → Option GridCell} {x : Nat} {g : GridCell}
    {name : UInt32 × UInt32} (hg : read x = some g) (hn : g.name = some name) :
    decodeAt read x = some (g.decoded name (continued (prevAt read x) name)) := by
  rw [decodeAt_eq, hg, placeholderCell_some, hn, Option.map_some]

private theorem continued_prevAt {read : Nat → Option GridCell} {x : Nat}
    {name : UInt32 × UInt32} {p : PlaceholderCell} :
    continued (prevAt read (x + 1)) name = some p ↔
      decodeAt read x = some p ∧ ∃ g, read x = some g ∧ g.name = some name := by
  rw [prevAt_succ, decodeAt_eq, continued_placeholderCell, Option.bind_eq_some_iff]

/-- In exact arithmetic, a run of cells that leave the column out counts on from the column
that was stated. -/
private theorem run_exact {read : Nat → Option GridCell} {n x k : Nat} {g : GridCell}
    {name : UInt32 × UInt32} {c : UInt16}
    (he : ∀ x < n, CellExact (read x) (prevAt read x)) (hx : x + k < n) (hg : read x = some g)
    (hn : g.name = some name) (hc : g.diacritics[1]? = some c)
    (hrun : ∀ i < k, Continues (read (x + i + 1)) name) :
    ∃ p, decodeAt read (x + k) = some p ∧ (∃ g, read (x + k) = some g ∧ g.name = some name) ∧
      p.cellCol.toNat = c.toNat + k := by
  induction k with
  | zero => exact ⟨_, decodeAt_some hg hn, ⟨g, hg, hn⟩, by rw [cellCol_stated hc, Nat.add_zero]⟩
  | succ k ih =>
    obtain ⟨p, hp, hname, hcol⟩ := ih (by omega) fun i hi ↦ hrun i (by omega)
    obtain ⟨h, hh, hhn, hhc⟩ := hrun k (by omega)
    have hleft : continued (prevAt read (x + (k + 1))) name = some p :=
      continued_prevAt.mpr ⟨hp, hname⟩
    have hlt := (he (x + k + 1) (by omega)).col h name p hh hhn hhc hleft
    refine ⟨_, decodeAt_some hh hhn, ⟨h, hh, hhn⟩, ?_⟩
    rw [hleft, cellCol_left hhc, UInt16.toNat_add, show (1 : UInt16).toNat = 1 from rfl,
      Nat.mod_eq_of_lt hlt, hcol, Nat.add_assoc]

private theorem continues_succ {read : Nat → Option GridCell} {x k : Nat}
    {name : UInt32 × UInt32} (hrun : ∀ i < k, Continues (read (x + i + 1)) name)
    (hlast : Continues (read (x + k + 1)) name) :
    ∀ i < k + 1, Continues (read (x + i + 1)) name := by
  intro i hi
  rcases Nat.lt_succ_iff_lt_or_eq.mp hi with hi | rfl
  · exact hrun i hi
  · exact hlast

/-- Where a column comes from: it was stated and counted on from, or it counts from the
first cell of a run. -/
private theorem col_origin {read : Nat → Option GridCell} {n : Nat} (hf : RowFits read n)
    (hsmall : n < 2 ^ 16) {y : Nat} (hy : y < n) {g : GridCell} {name : UInt32 × UInt32}
    (hg : read y = some g) (hn : g.name = some name) {p : PlaceholderCell}
    (hp : decodeAt read y = some p) :
    (∃ x k h c, x + k = y ∧ read x = some h ∧ h.name = some name ∧ h.diacritics[1]? = some c ∧
      (∀ i < k, Continues (read (x + i + 1)) name) ∧ p.cellCol.toNat = c.toNat + k) ∨
    p.cellCol.toNat ≤ y := by
  induction y generalizing g p with
  | zero =>
    rw [decodeAt_some hg hn] at hp
    obtain rfl := Option.some.inj hp
    cases hc : g.diacritics[1]? with
    | some c => exact .inl ⟨0, 0, g, c, rfl, hg, hn, hc, nofun, by rw [cellCol_stated hc]; rfl⟩
    | none =>
      rw [prevAt, GridCell.decoded, hc]
      exact .inr (Nat.le_refl 0)
  | succ y ih =>
    rw [decodeAt_some hg hn] at hp
    obtain rfl := Option.some.inj hp
    cases hc : g.diacritics[1]? with
    | some c =>
      exact .inl ⟨y + 1, 0, g, c, rfl, hg, hn, hc, nofun, by rw [cellCol_stated hc]; rfl⟩
    | none =>
      cases hl : continued (prevAt read (y + 1)) name with
      | none =>
        rw [GridCell.decoded, hc]
        exact .inr (Nat.zero_le _)
      | some q =>
        obtain ⟨hq, h, hh, hhn⟩ := continued_prevAt.mp hl
        rw [cellCol_left hc, UInt16.toNat_add, show (1 : UInt16).toNat = 1 from rfl]
        rcases ih (by omega) hh hhn hq with ⟨x, k, f, c, rfl, hf', hfn, hfc, hrun, hcol⟩ | hle
        · have hrun' := continues_succ hrun ⟨g, hg, hn, hc⟩
          have hlt := hf.col x (k + 1) f name c hy hf' hfn hfc hrun'
          exact .inl ⟨x, k + 1, f, c, rfl, hf', hfn, hfc, hrun', by omega⟩
        · exact .inr (by omega)

/-- A high byte is one that some cell stated, or 0. -/
private theorem high_of_fits {read : Nat → Option GridCell} {n : Nat} (hf : RowFits read n)
    {y : Nat} (hy : y < n) {p : PlaceholderCell} (hp : decodeAt read y = some p) :
    p.idHigh.toNat < 256 := by
  induction y using Nat.strong_induction_on generalizing p with
  | _ y ih =>
    rw [decodeAt_eq, placeholderCell, Option.bind_eq_some_iff] at hp
    obtain ⟨g, hg, hp⟩ := hp
    obtain ⟨name, hn, rfl⟩ := Option.map_eq_some_iff.mp hp
    cases hi : g.diacritics[2]? with
    | some i =>
      rw [GridCell.decoded, hi]
      exact hf.high y g name i hy hg hn hi
    | none =>
      cases hl : continued (prevAt read y) name with
      | none =>
        rw [GridCell.decoded, hi]
        exact Nat.zero_lt_succ 255
      | some q =>
        cases y with
        | zero => cases hl
        | succ y =>
          have hq := ih y (Nat.lt_succ_self y) (by omega) (continued_prevAt.mp hl).1
          rw [GridCell.decoded, hi]
          exact hq

/-- The arithmetic of a row is exact exactly if its cells fit. -/
theorem row_exact_iff {read : Nat → Option GridCell} {n : Nat} (hsmall : n < 2 ^ 16) :
    (∀ x < n, CellExact (read x) (prevAt read x)) ↔ RowFits read n := by
  constructor
  · intro he
    constructor
    · intro x g name i hx hg hn hi
      have hhigh := (he x hx).high _ ((decodeAt_eq read x).symm.trans (decodeAt_some hg hn))
      rw [GridCell.decoded, hi] at hhigh
      exact Nat.lt_of_mul_lt_mul_right (a := 2 ^ 24) hhigh
    · intro x k g name c hx hg hn hc hrun
      obtain ⟨p, -, -, hcol⟩ := run_exact he hx hg hn hc hrun
      exact hcol ▸ p.cellCol.toNat_lt
  · intro hf x hx
    constructor
    · intro g name p hg hn hc hleft
      cases x with
      | zero => cases hleft
      | succ y =>
        obtain ⟨hp, h, hh, hhn⟩ := continued_prevAt.mp hleft
        rcases col_origin hf hsmall (by omega) hh hhn hp with
          ⟨x, k, f, c, rfl, hf', hfn, hfc, hrun, hcol⟩ | hle
        · have hlt := hf.col x (k + 1) f name c hx hf' hfn hfc
            (continues_succ hrun ⟨g, hg, hn, hc⟩)
          omega
        · omega
    · intro p hp
      have hhigh := high_of_fits hf hx ((decodeAt_eq read x).trans hp)
      omega

end PtySpec.Vt
