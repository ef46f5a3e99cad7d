import PtySpec.Lib.Chunks
import PtySpec.Vt.Actor

/-!
# The graphics block of a replay

Model of `crates/pty-terminal/src/graphics.rs:807-990`: the stored images and placements
put back on the wire. What libghostty's storage holds is a parameter. Each text has its
length beside it, for the bound on a replay.
-/

namespace PtySpec.Vt

open Lib

/-- `MAX_STORAGE_BYTES`, `graphics.rs:90`. -/
def MAX_STORAGE_BYTES : Nat := 32 * 1024 * 1024

/-- `PixelFormat`, `graphics.rs:129`. -/
inductive PixelFormat where
  | rgb
  | rgba
  | png
  | gray
  | grayAlpha
  deriving DecidableEq, Repr

/-- `PixelFormat::kitty_format`, `graphics.rs:145`. -/
def PixelFormat.kittyFormat : PixelFormat → Option Nat
  | rgb => some 24
  | rgba => some 32
  | png => some 100
  | gray | grayAlpha => none

/-- `PixelFormat::is_raw`, `graphics.rs:156`. -/
def PixelFormat.isRaw (f : PixelFormat) : Bool := f ≠ .png

/-- `Compression`, `graphics.rs:163`. -/
inductive Compression where
  | none
  | zlibDeflate
  deriving DecidableEq, Repr

/-- `ImageDesc`, `graphics.rs:172`, as far as a replay reads it. -/
structure ImageDesc where
  id : UInt32
  width : UInt32
  height : UInt32
  format : PixelFormat
  compression : Compression
  deriving DecidableEq, Repr

/-- `ImageBytes`, `graphics.rs:195`. -/
structure ImageBytes where
  desc : ImageDesc
  data : List UInt8
  deriving DecidableEq, Repr

/-- `SourceRect`, `graphics.rs:205`. -/
structure SourceRect where
  x : UInt32
  y : UInt32
  width : UInt32
  height : UInt32
  deriving DecidableEq, Repr

/-- `PlacementPosition`, `graphics.rs:246`, as far as a replay reads it. -/
inductive PlacementPosition where
  | offscreen
  | direct (col row : Int32)
  | placeholder
  deriving DecidableEq, Repr

/-- `Placement`, `graphics.rs:268`, as far as a replay reads it. -/
structure Placement where
  imageId : UInt32
  placementId : UInt32
  isVirtual : Bool
  z : Int32
  source : SourceRect
  cellOffset : UInt32 × UInt32
  cellSize : UInt32 × UInt32
  requestedCells : UInt32 × UInt32
  position : PlacementPosition
  deriving DecidableEq, Repr

/-- `GraphicsState`, `graphics.rs:296`: the images that have a placement, and the placements. -/
structure GraphicsState where
  images : List ImageDesc
  placements : List Placement
  deriving DecidableEq, Repr

/-- What a replay reads of a terminal: its text, and its image storage. -/
class Storage (G : Type) extends Ghostty G where
  read : G → CellSize → GraphicsState
  imageBytes : G → UInt32 → Option ImageBytes

/-! ### The texts -/

/-- A signed number in decimal. -/
def decimalInt (n : Int) : List UInt8 :=
  if n < 0 then ascii "-" ++ decimal n.natAbs else decimal n.natAbs

/-- `ALPHABET`, `graphics.rs:964`. -/
def alphabet : List UInt8 :=
  ascii "ABCDEFGHIJKLMNOPQRSTUVWXYZabcdefghijklmnopqrstuvwxyz0123456789+/"

/-- `ALPHABET[n as usize & 63]`. -/
def sextet (n : UInt32) : UInt8 := alphabet.getD (n.toNat % 64) 0

/-- One turn of the loop of `base64`, `graphics.rs:966-984`. -/
def base64Chunk (chunk : List UInt8) : List UInt8 :=
  let n := ((chunk.getD 0 0).toUInt32 <<< 16) ||| ((chunk.getD 1 0).toUInt32 <<< 8) |||
    (chunk.getD 2 0).toUInt32
  [sextet (n >>> 18), sextet (n >>> 12),
    if chunk.length > 1 then sextet (n >>> 6) else 0x3d,
    if chunk.length > 2 then sextet n else 0x3d]

/-- `base64`, `graphics.rs:963`. -/
def base64 (data : List UInt8) : List UInt8 := (chunks 3 data).flatMap base64Chunk

/-- The parameters of an image's first chunk, `graphics.rs:866-872`. -/
def transmitParams (image : ImageBytes) (f : Nat) : List UInt8 :=
  ascii "a=t,q=2,i=" ++ decimal image.desc.id.toNat ++ ascii ",f=" ++ decimal f ++
    (if image.desc.format.isRaw then
      ascii ",s=" ++ decimal image.desc.width.toNat ++ ascii ",v=" ++
        decimal image.desc.height.toNat
    else []) ++
    (if image.desc.compression = .zlibDeflate then ascii ",o=z" else [])

/-- The chunks after an image's first, `graphics.rs:887-894`. -/
def transmitMore : List (List UInt8) → List UInt8
  | [] => []
  | chunk :: rest =>
    ascii "\x1b_Gq=2,m=" ++ (if rest = [] then ascii "0" else ascii "1") ++ ascii ";" ++ chunk ++
      ascii "\x1b\\" ++ transmitMore rest

/-- `transmit`, `graphics.rs:865`. -/
def transmit (image : ImageBytes) (f : Nat) : List UInt8 :=
  match chunks 4096 (base64 image.data) with
  | [] => []
  | chunk :: rest =>
    ascii "\x1b_G" ++ transmitParams image f ++ (if rest = [] then [] else ascii ",m=1") ++
      ascii ";" ++ chunk ++ ascii "\x1b\\" ++ transmitMore rest

/-- A parameter that is left out when it is zero. -/
def optional (key : String) (v : UInt32) : List UInt8 :=
  if v ≠ 0 then ascii key ++ decimal v.toNat else []

/-- `placement_params`, `graphics.rs:937`. -/
def placementParams (p : Placement) : List UInt8 :=
  ascii ",i=" ++ decimal p.imageId.toNat ++ optional ",p=" p.placementId ++
    optional ",c=" p.requestedCells.1 ++ optional ",r=" p.requestedCells.2 ++
    ascii ",x=" ++ decimal p.source.x.toNat ++ ascii ",y=" ++ decimal p.source.y.toNat ++
    ascii ",w=" ++ decimal p.source.width.toNat ++ ascii ",h=" ++
    decimal p.source.height.toNat ++ optional ",X=" p.cellOffset.1 ++
    optional ",Y=" p.cellOffset.2 ++
    (if p.z ≠ 0 then ascii ",z=" ++ decimalInt p.z.toInt else [])

/-- `place_virtual`, `graphics.rs:899`. -/
def placeVirtual (p : Placement) : List UInt8 :=
  ascii "\x1b_Ga=p,U=1,q=2" ++ placementParams p ++ ascii "\x1b\\"

/-- `clip_top`, `graphics.rs:919`, in wrapping arithmetic. -/
def clipTop (p : Placement) (rows : UInt32) (cell : CellSize) : Placement :=
  if rows = 0 then p
  else
    let cut := min (rows * max cell.height 1) p.source.height
    { p with
      source := { p.source with y := p.source.y + cut, height := p.source.height - cut }
      requestedCells := (p.requestedCells.1,
        if p.requestedCells.2 ≤ rows then 0 else p.requestedCells.2 - rows) }

/-- `place_direct`, `graphics.rs:911`. -/
def placeDirect (p : Placement) (col row : Int32) (clippedRows : UInt32) (cell : CellSize) :
    List UInt8 :=
  ascii "\x1b7\x1b[" ++ decimalInt (row + 1).toInt ++ ascii ";" ++ decimalInt (col + 1).toInt ++
    ascii "H\x1b_Ga=p,q=2" ++ placementParams (clipTop p clippedRows cell) ++
    ascii "\x1b\\\x1b8"

/-- The rows of a direct placement that are above the screen, `graphics.rs:850`. -/
def clippedAbove (row : Int32) : Int32 := max (-row) 0

/-- A direct placement that has a cell on the screen, `graphics.rs:851`. -/
def onScreen (rows cols : Int32) (p : Placement) (col row : Int32) : Bool :=
  !(row ≥ rows || col < 0 || col ≥ cols || clippedAbove row ≥ p.cellSize.2.toInt32)

/-- The command of one placement of a sent image, `graphics.rs:833-856`. -/
def place (rows cols : Int32) (cell : CellSize) (p : Placement) : List UInt8 :=
  if p.isVirtual then placeVirtual p
  else match p.position with
    | .direct col row =>
      if onScreen rows cols p col row then
        placeDirect p col (max row 0) (clippedAbove row).toUInt32 cell
      else []
    | _ => []

section Replay

variable {G : Type} [Storage G]

/-- What is sent of the image with an id, and its format, `graphics.rs:819-828`. -/
def sendable (term : G) (id : UInt32) : Option (ImageBytes × Nat) :=
  (Storage.imageBytes term id).bind fun bytes ↦ bytes.desc.format.kittyFormat.bind fun f ↦
    if bytes.data = [] then none else some (bytes, f)

/-- `replay`, `graphics.rs:807`. -/
def replay (term : G) (cell : CellSize) : List UInt8 :=
  let cell := cell.orFallback
  let state := Storage.read term cell
  if state.placements = [] then []
  else
    let rows := (Ghostty.rows term).toUInt32.toInt32
    let cols := (Ghostty.cols term).toUInt32.toInt32
    let ids := (state.images.map (·.id)).mergeSort
    let sent := ids.filter fun id ↦ (sendable term id).isSome
    (ids.flatMap fun id ↦ (sendable term id).elim [] fun b ↦ transmit b.1 b.2) ++
      state.placements.flatMap fun p ↦ if p.imageId ∈ sent then place rows cols cell p else []

end Replay

/-! ### Their lengths -/

/-- The number of digits of a number in decimal. -/
def digits10 (n : Nat) : Nat := (decimal n).length

/-- The length of a signed number in decimal. -/
def width10 (n : Int) : Nat := if n < 0 then 1 + digits10 n.natAbs else digits10 n.natAbs

/-- The length of a parameter that is left out when it is zero. -/
def optionalLength (v : UInt32) : Nat := if v ≠ 0 then 3 + digits10 v.toNat else 0

/-- The length of an image's data in base64: four bytes for three, rounded up. -/
def base64Length (n : Nat) : Nat := 4 * ((n + 2) / 3)

/-- The length of the parameters of an image's first chunk. -/
def transmitParamsLength (image : ImageBytes) (f : Nat) : Nat :=
  13 + digits10 image.desc.id.toNat + digits10 f +
    (if image.desc.format.isRaw then
      6 + digits10 image.desc.width.toNat + digits10 image.desc.height.toNat
    else 0) +
    (if image.desc.compression = .zlibDeflate then 4 else 0)

/-- The length of an image's transmission: its data, its parameters and 6 bytes around
them, and if there are more chunks of 4096, 4 bytes in the first and 13 around the others. -/
def transmitLength (image : ImageBytes) (f : Nat) : Nat :=
  let n := (base64Length image.data.length + 4095) / 4096
  base64Length image.data.length + transmitParamsLength image f + 6 +
    (if n ≤ 1 then 0 else 4 + 13 * (n - 1))

/-- The length of a placement's parameters. -/
def placementParamsLength (p : Placement) : Nat :=
  15 + digits10 p.imageId.toNat + optionalLength p.placementId +
    optionalLength p.requestedCells.1 + optionalLength p.requestedCells.2 +
    digits10 p.source.x.toNat + digits10 p.source.y.toNat + digits10 p.source.width.toNat +
    digits10 p.source.height.toNat + optionalLength p.cellOffset.1 +
    optionalLength p.cellOffset.2 + (if p.z ≠ 0 then 3 + width10 p.z.toInt else 0)

/-- The length of the command of a placement. -/
def placeLength (rows cols : Int32) (cell : CellSize) (p : Placement) : Nat :=
  if p.isVirtual then 16 + placementParamsLength p
  else match p.position with
    | .direct col row =>
      if onScreen rows cols p col row then
        20 + width10 (max row 0 + 1).toInt + width10 (col + 1).toInt +
          placementParamsLength (clipTop p (clippedAbove row).toUInt32 cell)
      else 0
    | _ => 0

@[simp] theorem length_ascii (s : String) : (ascii s).length = s.length := by
  rw [ascii, List.length_map, String.length_toList]

@[simp] theorem length_decimal (n : Nat) : (decimal n).length = digits10 n := rfl

@[simp] theorem length_decimalInt (n : Int) : (decimalInt n).length = width10 n := by
  unfold decimalInt width10
  split
  · rw [List.length_append, length_decimal, show (ascii "-").length = 1 from rfl]
  · rfl

@[simp] theorem length_optional (key : String) (v : UInt32) (hk : key.length = 3) :
    (optional key v).length = optionalLength v := by
  unfold optional optionalLength
  split
  · rw [List.length_append, length_decimal, length_ascii, hk]
  · rfl

theorem length_base64 (data : List UInt8) : (base64 data).length = base64Length data.length := by
  rw [base64, length_flatMap_const base64Chunk (k := 4) (fun _ ↦ rfl), length_chunks (by decide)]
  rfl

theorem length_transmitParams (image : ImageBytes) (f : Nat) :
    (transmitParams image f).length = transmitParamsLength image f := by
  have h₁ : (ascii "a=t,q=2,i=").length = 10 := rfl
  have h₂ : (ascii ",f=").length = 3 := rfl
  have h₃ : (ascii ",s=").length = 3 := rfl
  have h₄ : (ascii ",v=").length = 3 := rfl
  have h₅ : (ascii ",o=z").length = 4 := rfl
  simp only [transmitParams, transmitParamsLength, List.length_append, apply_ite List.length,
    length_decimal, h₁, h₂, h₃, h₄, h₅, List.length_nil]
  split <;> omega

theorem length_transmitMore (pieces : List (List UInt8)) :
    (transmitMore pieces).length = pieces.flatten.length + 13 * pieces.length := by
  induction pieces with
  | nil => rfl
  | cons piece rest ih =>
    have h₁ : (ascii "\x1b_Gq=2,m=").length = 9 := rfl
    have h₂ : (if rest = [] then ascii "0" else ascii "1").length = 1 := by
      split <;> rfl
    have h₃ : (ascii ";").length = 1 := rfl
    have h₄ : (ascii "\x1b\\").length = 2 := rfl
    simp only [transmitMore, List.length_append, h₁, h₂, h₃, h₄, ih, List.flatten_cons,
      List.length_cons]
    omega

/-- The length of a transmission is a matter of arithmetic. -/
theorem length_transmit (image : ImageBytes) (f : Nat) (hd : image.data ≠ []) :
    (transmit image f).length = transmitLength image f := by
  have hlen := length_base64 image.data
  have hcount := length_chunks (n := 4096) (by decide) (base64 image.data)
  have hflat := flatten_chunks 4096 (base64 image.data)
  rw [hlen, show base64Length image.data.length + 4096 - 1 =
    base64Length image.data.length + 4095 from rfl] at hcount
  unfold transmit transmitLength
  cases hc : chunks 4096 (base64 image.data) with
  | nil =>
    rw [hc] at hflat
    rw [← hflat, List.flatten_nil, List.length_nil, base64Length] at hlen
    have hpos := List.length_pos_iff.mpr hd
    omega
  | cons piece rest =>
    rw [hc] at hcount hflat
    rw [← hflat, List.flatten_cons, List.length_append] at hlen
    have h₁ : (ascii "\x1b_G").length = 3 := rfl
    have h₂ : (ascii ",m=1").length = 4 := rfl
    have h₃ : (ascii ";").length = 1 := rfl
    have h₄ : (ascii "\x1b\\").length = 2 := rfl
    simp only [List.length_append, h₁, h₃, h₄, length_transmitParams, length_transmitMore,
      apply_ite List.length, h₂, List.length_nil]
    rw [List.length_cons] at hcount
    cases rest with
    | nil =>
      simp only [List.length_nil] at hcount
      simp only [List.flatten_nil, List.length_nil] at hlen ⊢
      rw [if_pos trivial, if_pos (show (base64Length image.data.length + 4095) / 4096 ≤ 1 by omega)]
      omega
    | cons next more =>
      simp only [List.length_cons] at hcount
      rw [if_neg (List.cons_ne_nil next more), List.length_cons,
        if_neg (show ¬ (base64Length image.data.length + 4095) / 4096 ≤ 1 by omega)]
      omega

theorem length_placementParams (p : Placement) :
    (placementParams p).length = placementParamsLength p := by
  have h₁ : (ascii ",i=").length = 3 := rfl
  have h₂ : (ascii ",x=").length = 3 := rfl
  have h₃ : (ascii ",y=").length = 3 := rfl
  have h₄ : (ascii ",w=").length = 3 := rfl
  have h₅ : (ascii ",h=").length = 3 := rfl
  have h₆ : (ascii ",z=").length = 3 := rfl
  simp only [placementParams, placementParamsLength, List.length_append, apply_ite List.length,
    length_decimal, length_decimalInt, length_optional _ _ (show ",p=".length = 3 from rfl),
    length_optional _ _ (show ",c=".length = 3 from rfl),
    length_optional _ _ (show ",r=".length = 3 from rfl),
    length_optional _ _ (show ",X=".length = 3 from rfl),
    length_optional _ _ (show ",Y=".length = 3 from rfl), h₁, h₂, h₃, h₄, h₅, h₆,
    List.length_nil]
  omega

theorem length_place (rows cols : Int32) (cell : CellSize) (p : Placement) :
    (place rows cols cell p).length = placeLength rows cols cell p := by
  unfold place placeLength
  split
  · have h₁ : (ascii "\x1b_Ga=p,U=1,q=2").length = 14 := rfl
    have h₂ : (ascii "\x1b\\").length = 2 := rfl
    simp only [placeVirtual, List.length_append, h₁, h₂, length_placementParams]
    omega
  split
  · split
    · have h₁ : (ascii "\x1b7\x1b[").length = 4 := rfl
      have h₂ : (ascii ";").length = 1 := rfl
      have h₃ : (ascii "H\x1b_Ga=p,q=2").length = 11 := rfl
      have h₄ : (ascii "\x1b\\\x1b8").length = 4 := rfl
      simp only [placeDirect, List.length_append, h₁, h₂, h₃, h₄, length_decimalInt,
        length_placementParams]
      omega
    · rfl
  · rfl

section Replay

variable {G : Type} [Storage G]

/-- The length of what is sent of the image with an id. -/
def imageLength (term : G) (id : UInt32) : Nat :=
  (sendable term id).elim 0 fun b ↦ transmitLength b.1 b.2

/-- The length of a replay: the sum over the images that have a placement and over the
placements of those images. -/
def replayLength (term : G) (cell : CellSize) : Nat :=
  let cell := cell.orFallback
  let state := Storage.read term cell
  if state.placements = [] then 0
  else
    (state.images.map fun i ↦ imageLength term i.id).sum +
      ((state.placements.filter fun p ↦ p.imageId ∈ state.images.map (·.id) ∧
        (sendable term p.imageId).isSome).map
          (placeLength (Ghostty.rows term).toUInt32.toInt32 (Ghostty.cols term).toUInt32.toInt32
            cell)).sum

theorem length_sendable (term : G) (id : UInt32) :
    ((sendable term id).elim [] fun b ↦ transmit b.1 b.2).length = imageLength term id := by
  unfold imageLength
  cases h : sendable term id with
  | none => rfl
  | some b =>
    refine length_transmit b.1 b.2 ?_
    intro hd
    simp only [sendable, Option.bind_eq_some_iff] at h
    obtain ⟨bytes, -, f, -, h⟩ := h
    split at h
    · cases h
    · next hne =>
      cases h
      exact hne hd

/-- The length of a replay is a matter of arithmetic. -/
theorem length_replay (term : G) (cell : CellSize) :
    (replay term cell).length = replayLength term cell := by
  unfold replay replayLength
  dsimp only
  split
  · rfl
  have himages : ∀ ids : List UInt32, ((ids.mergeSort).flatMap fun id ↦
      (sendable term id).elim [] fun b ↦ transmit b.1 b.2).length =
        (ids.map (imageLength term)).sum := by
    intro ids
    simp only [List.length_flatMap, length_sendable]
    exact ((List.mergeSort_perm ids _).map (imageLength term)).sum_eq
  have hplaces : ∀ (sent : UInt32 → Prop) [DecidablePred sent] (f : Placement → List UInt8)
      (ps : List Placement), (ps.flatMap fun p ↦ if sent p.imageId then f p else []).length =
        ((ps.filter fun p ↦ sent p.imageId).map fun p ↦ (f p).length).sum := by
    intro sent _ f ps
    induction ps with
    | nil => rfl
    | cons p ps ih =>
      rw [List.flatMap_cons, List.length_append, ih, List.filter_cons]
      split
      · next h => simp [h]
      · next h => simp [h]
  rw [List.length_append, himages, hplaces (fun id ↦ id ∈ _), List.map_map]
  simp only [length_place]
  congr 3
  simp

end Replay

end PtySpec.Vt
