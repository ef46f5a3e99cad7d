import Mathlib.Data.List.Nodup
import Mathlib.Data.List.Range
import Mathlib.Tactic.Common

/-!
# Scroll regions and grouped lists

Model of `crates/pty-tui/src/scroll.rs`. A region keeps its selection valid and in the viewport
through every operation. The layout of a grouped list counts its offset apart from the region;
with a viewport of one row it scrolls the selected item away. Rows and items are counted in
natural numbers: the heights come from a terminal and the lengths from vectors in memory.
-/

namespace PtySpec.Tui

/-! ### `ScrollRegion` -/

/-- `ScrollRegion`, `scroll.rs:10`. -/
structure ScrollRegion where
  offset : Nat
  selected : Nat
  total : Nat
  viewport : Nat
deriving DecidableEq, Repr

/-- `items[start..end]` of the slices below. -/
def window {α : Type} (items : List α) (offset viewport : Nat) : List α :=
  let start := min offset items.length
  let stop := min (offset + viewport) items.length
  (items.drop start).take (stop - start)

namespace ScrollRegion

/-- `ScrollRegion::new`, `scroll.rs:19`. -/
def new (total viewport : Nat) : ScrollRegion := { offset := 0, selected := 0, total, viewport }

/-- `ensure_visible`, `scroll.rs:104`. -/
def ensureVisible (r : ScrollRegion) : ScrollRegion :=
  let offset :=
    if r.selected < r.offset then r.selected
    else if r.offset + r.viewport ≤ r.selected then r.selected + 1 - r.viewport
    else r.offset
  { r with offset := min offset (r.total - r.viewport) }

/-- `update`, `scroll.rs:30`. -/
def update (r : ScrollRegion) (total : Nat) (viewport : Option Nat) : ScrollRegion :=
  ensureVisible { r with
    total, viewport := viewport.getD r.viewport, selected := min r.selected (total - 1) }

/-- `scroll_up`, `scroll.rs:43`. -/
def scrollUp (r : ScrollRegion) : ScrollRegion :=
  if r.selected = 0 then r else ensureVisible { r with selected := r.selected - 1 }

/-- `scroll_down`, `scroll.rs:55`. -/
def scrollDown (r : ScrollRegion) : ScrollRegion :=
  if r.total ≤ r.selected + 1 then r else ensureVisible { r with selected := r.selected + 1 }

/-- `page_up`, `scroll.rs:67`. -/
def pageUp (r : ScrollRegion) : ScrollRegion :=
  ensureVisible { r with selected := r.selected - r.viewport }

/-- `page_down`, `scroll.rs:76`. -/
def pageDown (r : ScrollRegion) : ScrollRegion :=
  ensureVisible { r with selected := min (r.selected + r.viewport) (r.total - 1) }

/-- `to_top`, `scroll.rs:86`. -/
def toTop (r : ScrollRegion) : ScrollRegion := ensureVisible { r with selected := 0 }

/-- `to_bottom`, `scroll.rs:95`. -/
def toBottom (r : ScrollRegion) : ScrollRegion :=
  ensureVisible { r with selected := r.total - 1 }

/-- `visible_slice`, `scroll.rs:117`. -/
def visibleSlice {α : Type} (r : ScrollRegion) (items : List α) : List α :=
  window items r.offset r.viewport

/-- An operation on a region. -/
inductive Op
  | update (total : Nat) (viewport : Option Nat)
  | scrollUp
  | scrollDown
  | pageUp
  | pageDown
  | toTop
  | toBottom
  | ensureVisible
deriving DecidableEq, Repr

/-- A region after an operation. -/
def apply (r : ScrollRegion) : Op → ScrollRegion
  | .update total viewport => r.update total viewport
  | .scrollUp => r.scrollUp
  | .scrollDown => r.scrollDown
  | .pageUp => r.pageUp
  | .pageDown => r.pageDown
  | .toTop => r.toTop
  | .toBottom => r.toBottom
  | .ensureVisible => r.ensureVisible

/-- A region after operations. -/
def run (r : ScrollRegion) (ops : List Op) : ScrollRegion := ops.foldl apply r

/-- An operation that leaves the viewport at least one row. -/
def Op.HasRow : Op → Prop
  | .update _ (some viewport) => 1 ≤ viewport
  | _ => True

/-- The selection is an item, or zero where there is none. -/
def Selects (r : ScrollRegion) : Prop := r.selected < r.total ∨ (r.total = 0 ∧ r.selected = 0)

/-- The selection is in the viewport. -/
structure OnScreen (r : ScrollRegion) : Prop where
  row : 1 ≤ r.viewport
  selects : r.Selects
  above : r.offset ≤ r.selected
  below : r.selected < r.offset + r.viewport

theorem ensureVisible_onScreen {r : ScrollRegion} (hrow : 1 ≤ r.viewport) (h : r.Selects) :
    r.ensureVisible.OnScreen := by
  unfold ensureVisible Selects at *
  constructor
  · exact hrow
  · exact h
  all_goals
    dsimp only
    split
    · omega
    · split <;> omega

/-- Every operation keeps the selection in the viewport. -/
theorem OnScreen.apply {r : ScrollRegion} (h : r.OnScreen) {op : Op} (hop : op.HasRow) :
    (r.apply op).OnScreen := by
  have hrow := h.row
  have hsel := h.selects
  unfold Selects at hsel
  cases op with
  | update total viewport =>
    refine ensureVisible_onScreen ?_ ?_
    · cases viewport with
      | none => exact hrow
      | some viewport => exact hop
    · unfold Selects
      dsimp only
      omega
  | scrollUp =>
    change r.scrollUp.OnScreen
    unfold scrollUp
    split
    · exact h
    · exact ensureVisible_onScreen hrow (by unfold Selects; dsimp only; omega)
  | scrollDown =>
    change r.scrollDown.OnScreen
    unfold scrollDown
    split
    · exact h
    · exact ensureVisible_onScreen hrow (by unfold Selects; dsimp only; omega)
  | pageUp => exact ensureVisible_onScreen hrow (by unfold Selects; dsimp only; omega)
  | pageDown => exact ensureVisible_onScreen hrow (by unfold Selects; dsimp only; omega)
  | toTop => exact ensureVisible_onScreen hrow (by unfold Selects; dsimp only; omega)
  | toBottom => exact ensureVisible_onScreen hrow (by unfold Selects; dsimp only; omega)
  | ensureVisible => exact ensureVisible_onScreen hrow hsel

theorem onScreen_new {total viewport : Nat} (h : 1 ≤ viewport) : (new total viewport).OnScreen where
  row := h
  selects := by unfold Selects new; dsimp only; omega
  above := Nat.le_refl 0
  below := by unfold new; dsimp only; omega

theorem onScreen_run {total viewport : Nat} (h : 1 ≤ viewport) {ops : List Op}
    (hops : ∀ op ∈ ops, op.HasRow) : ((new total viewport).run ops).OnScreen := by
  unfold run
  have hgen (r : ScrollRegion) (hr : r.OnScreen) : (ops.foldl apply r).OnScreen := by
    induction ops generalizing r with
    | nil => exact hr
    | cons op ops ih =>
      obtain ⟨hop, hops⟩ := List.forall_mem_cons.mp hops
      exact ih hops _ (hr.apply hop)
  exact hgen _ (onScreen_new h)

end ScrollRegion

/-! ### `GroupedLayout` -/

/-- `Group`, `scroll.rs:126`. -/
structure Group (α : Type) where
  title : String
  items : List α

/-- `GroupedRow`, `scroll.rs:142`. -/
inductive GroupedRow
  | spacer
  | header (group : Nat)
  | item (group item index : Nat) (selected : Bool)
deriving DecidableEq, Repr

/-- The variables of the loop of `GroupedLayout::new`. -/
structure Build where
  rows : List GroupedRow
  index : Nat
  selectedVisualRow : Nat
deriving DecidableEq, Repr

namespace Build

/-- The body of the loop over the items of a group, `scroll.rs:182-193`. -/
def pushItem (region : ScrollRegion) (g : Nat) (b : Build) (item : Nat) : Build where
  rows := b.rows ++ [.item g item b.index (b.index == region.selected)]
  index := b.index + 1
  selectedVisualRow := if b.index = region.selected then b.rows.length else b.selectedVisualRow

/-- The rows before the items of a group, `scroll.rs:176-181`. -/
def pushHeader (showHeaders : Bool) (g : Nat) (b : Build) : Build :=
  if showHeaders then
    { b with rows := (if b.rows.isEmpty then b.rows else b.rows ++ [.spacer]) ++ [.header g] }
  else b

/-- The body of the loop over the groups, `scroll.rs:175-194`. -/
def pushGroup {α : Type} (region : ScrollRegion) (showHeaders : Bool) (b : Build)
    (group : Group α × Nat) : Build :=
  (List.range group.1.items.length).foldl (pushItem region group.2)
    (b.pushHeader showHeaders group.2)

end Build

/-- `GroupedLayout`, `scroll.rs:160`. -/
structure GroupedLayout where
  rows : List GroupedRow
  offset : Nat
  total : Nat
deriving DecidableEq, Repr

namespace GroupedLayout

/-- The rows of the groups, with their number of items and the row of the selected one. -/
def build {α : Type} (region : ScrollRegion) (groups : List (Group α)) (showHeaders : Bool) :
    Build :=
  groups.zipIdx.foldl (Build.pushGroup region showHeaders)
    { rows := [], index := 0, selectedVisualRow := 0 }

/-- `GroupedLayout::new`, `scroll.rs:170`. -/
def new {α : Type} (region : ScrollRegion) (groups : List (Group α)) (showHeaders : Bool) :
    GroupedLayout :=
  let b := build region groups showHeaders
  { rows := b.rows
    offset :=
      if region.viewport ≤ b.selectedVisualRow then b.selectedVisualRow + 2 - region.viewport
      else 0
    total := b.index }

/-- `visible`, `scroll.rs:207`. -/
def visible (layout : GroupedLayout) (viewport : Nat) : List GroupedRow :=
  window layout.rows layout.offset viewport

end GroupedLayout

/-- The items of groups: the group of each and its place there. -/
def entries {α : Type} (groups : List (Group α)) : List (Nat × Nat) :=
  groups.zipIdx.flatMap fun group ↦ (List.range group.1.items.length).map (group.2, ·)

/-- The row of an item. -/
def GroupedRow.entry : GroupedRow → Option ((Nat × Nat) × Nat)
  | .item group place index _ => some ((group, place), index)
  | _ => none

/-- The rows list every item once and in order. -/
def GroupedLayout.Lists {α : Type} (layout : GroupedLayout) (groups : List (Group α)) : Prop :=
  layout.rows.filterMap GroupedRow.entry = (entries groups).zipIdx ∧
    layout.total = (entries groups).length

/-- The visible rows contain the selected item. -/
def GroupedLayout.Contains (layout : GroupedLayout) (region : ScrollRegion) : Prop :=
  ∃ group place, GroupedRow.item group place region.selected true ∈
    layout.visible region.viewport

/-! ### The rows of a layout -/

theorem mem_window {α : Type} {items : List α} {offset viewport : Nat} {x : α} :
    x ∈ window items offset viewport ↔
      ∃ p, offset ≤ p ∧ p < offset + viewport ∧ items[p]? = some x := by
  unfold window
  dsimp only
  rw [List.mem_iff_getElem?]
  simp only [List.getElem?_take, List.getElem?_drop]
  constructor
  · rintro ⟨k, hk⟩
    split at hk
    · next hlt => exact ⟨min offset items.length + k, by omega, by omega, hk⟩
    · cases hk
  · rintro ⟨p, hle, hlt, hp⟩
    obtain ⟨hpl, -⟩ := List.getElem?_eq_some_iff.mp hp
    refine ⟨p - offset, ?_⟩
    rw [if_pos (by omega), Nat.min_eq_left (by omega), Nat.add_sub_cancel' hle]
    exact hp

/-- What holds of the loop once it has pushed some items. -/
structure Build.Sound (region : ScrollRegion) (showHeaders : Bool) (b : Build)
    (pushed : List (Nat × Nat)) : Prop where
  entries : b.rows.filterMap GroupedRow.entry = pushed.zipIdx
  index : b.index = pushed.length
  row : region.selected < b.index → ∃ g place,
    b.rows[b.selectedVisualRow]? = some (.item g place region.selected true)
  flat : showHeaders = false → b.rows.length = b.index ∧
    (region.selected < b.index → b.selectedVisualRow = region.selected)
  headed : showHeaders = true → region.selected < b.index → 1 ≤ b.selectedVisualRow

namespace Build.Sound

variable {region : ScrollRegion} {showHeaders : Bool} {b : Build} {pushed : List (Nat × Nat)}

theorem pushItem (h : b.Sound region showHeaders pushed) (hrows : showHeaders = true → b.rows ≠ [])
    (g place : Nat) :
    (b.pushItem region g place).Sound region showHeaders (pushed ++ [(g, place)]) where
  entries := by
    rw [Build.pushItem, List.filterMap_append, h.entries, h.index, List.zipIdx_append]
    simp [GroupedRow.entry]
  index := by
    rw [Build.pushItem, h.index, List.length_append]
    rfl
  row := by
    intro hlt
    dsimp only [Build.pushItem] at hlt ⊢
    split
    · next he => exact ⟨g, place, by simp [he]⟩
    · next hne =>
      obtain ⟨g', place', hrow⟩ := h.row (by omega)
      exact ⟨g', place', List.getElem?_append_left (List.getElem?_eq_some_iff.mp hrow).1 ▸ hrow⟩
  flat := by
    intro hf
    obtain ⟨hlen, hrow⟩ := h.flat hf
    dsimp only [Build.pushItem]
    rw [List.length_append, hlen]
    refine ⟨rfl, fun hlt ↦ ?_⟩
    split
    · next he => exact he
    · next hne => exact hrow (by omega)
  headed := by
    intro hs hlt
    dsimp only [Build.pushItem] at hlt ⊢
    split
    · exact List.length_pos_of_ne_nil (hrows hs)
    · next hne => exact h.headed hs (by omega)

/-- The rows between two groups are no items. -/
theorem pushHeader (h : b.Sound region showHeaders pushed) (g : Nat) :
    (b.pushHeader showHeaders g).Sound region showHeaders pushed := by
  cases showHeaders with
  | false => exact h
  | true =>
    obtain ⟨more, hmore, hrows⟩ : ∃ more, more.filterMap GroupedRow.entry = [] ∧
        (b.pushHeader true g).rows = b.rows ++ more := by
      by_cases he : b.rows.isEmpty = true
      · exact ⟨[.header g], rfl, by simp [Build.pushHeader, he]⟩
      · exact ⟨[.spacer, .header g], rfl, by simp [Build.pushHeader, he]⟩
    refine ⟨?_, h.index, fun hlt ↦ ?_, nofun, h.headed⟩
    · rw [hrows, List.filterMap_append, hmore, List.append_nil, h.entries]
    · obtain ⟨g', place', hrow⟩ := h.row hlt
      refine ⟨g', place', ?_⟩
      rw [hrows]
      exact List.getElem?_append_left (List.getElem?_eq_some_iff.mp hrow).1 ▸ hrow

theorem pushItems (h : b.Sound region showHeaders pushed)
    (hrows : showHeaders = true → b.rows ≠ []) (g : Nat) (places : List Nat) :
    (places.foldl (Build.pushItem region g) b).Sound region showHeaders
      (pushed ++ places.map (g, ·)) := by
  induction places generalizing b pushed with
  | nil => rwa [List.map_nil, List.append_nil]
  | cons place places ih =>
    rw [List.foldl_cons, List.map_cons, List.append_cons]
    exact ih (h.pushItem hrows g place) fun _ ↦ by simp [Build.pushItem]

theorem pushGroups {α : Type} (h : b.Sound region showHeaders pushed)
    (groups : List (Group α × Nat)) :
    (groups.foldl (Build.pushGroup region showHeaders) b).Sound region showHeaders
      (pushed ++ groups.flatMap fun group ↦
        (List.range group.1.items.length).map (group.2, ·)) := by
  induction groups generalizing b pushed with
  | nil => rwa [List.flatMap_nil, List.append_nil]
  | cons group groups ih =>
    rw [List.foldl_cons, List.flatMap_cons, ← List.append_assoc]
    refine ih ((h.pushHeader group.2).pushItems (fun hs ↦ ?_) group.2 _)
    subst hs
    simp [Build.pushHeader]

end Build.Sound

namespace GroupedLayout

variable {α : Type} (region : ScrollRegion) (groups : List (Group α)) (showHeaders : Bool)

theorem build_sound :
    (build region groups showHeaders).Sound region showHeaders (entries groups) := by
  have hstart : Build.Sound region showHeaders { rows := [], index := 0, selectedVisualRow := 0 }
      [] := ⟨rfl, rfl, nofun, fun _ ↦ ⟨rfl, nofun⟩, nofun⟩
  exact hstart.pushGroups groups.zipIdx

theorem new_lists : (new region groups showHeaders).Lists groups :=
  ⟨(build_sound region groups showHeaders).entries, (build_sound region groups showHeaders).index⟩

/-- An item stands in one row only. -/
private theorem row_unique {rows : List GroupedRow} {pushed : List (Nat × Nat)}
    (h : rows.filterMap GroupedRow.entry = pushed.zipIdx) {p q g g' place place' index : Nat}
    {s s' : Bool} (hp : rows[p]? = some (.item g place index s))
    (hq : rows[q]? = some (.item g' place' index s')) (hlt : p < q) : False := by
  have hnodup : ((rows.filterMap GroupedRow.entry).map Prod.snd).Nodup := by
    rw [h, List.zipIdx_map_snd]
    exact List.nodup_range'
  rw [← List.take_append_drop q rows, List.filterMap_append, List.map_append,
    List.nodup_append] at hnodup
  refine hnodup.2.2 index ?_ index ?_ rfl
  · have hmem : GroupedRow.item g place index s ∈ rows.take q :=
      List.mem_iff_getElem?.mpr ⟨p, by rw [List.getElem?_take, if_pos hlt, hp]⟩
    exact List.mem_map.mpr ⟨((g, place), index), List.mem_filterMap.mpr ⟨_, hmem, rfl⟩, rfl⟩
  · have hmem : GroupedRow.item g' place' index s' ∈ rows.drop q :=
      List.mem_iff_getElem?.mpr ⟨0, by rw [List.getElem?_drop, Nat.add_zero, hq]⟩
    exact List.mem_map.mpr ⟨((g', place'), index), List.mem_filterMap.mpr ⟨_, hmem, rfl⟩, rfl⟩

/-- The selected item is visible exactly if the viewport has two rows, or the item stands in
the first of all rows. -/
theorem new_contains_iff (hrow : 1 ≤ region.viewport)
    (hsel : region.selected < (entries groups).length) :
    (new region groups showHeaders).Contains region ↔
      2 ≤ region.viewport ∨ (showHeaders = false ∧ region.selected = 0) := by
  have hb := build_sound region groups showHeaders
  obtain ⟨g, place, hat⟩ := hb.row (hb.index.symm ▸ hsel)
  have hfirst : (build region groups showHeaders).selectedVisualRow = 0 ↔
      showHeaders = false ∧ region.selected = 0 := by
    cases showHeaders with
    | false => rw [(hb.flat rfl).2 (hb.index.symm ▸ hsel), and_iff_right rfl]
    | true =>
      have := hb.headed rfl (hb.index.symm ▸ hsel)
      exact iff_of_false (by omega) (fun h ↦ absurd h.1 (by decide))
  rw [← hfirst]
  unfold Contains visible new
  simp only [mem_window]
  constructor
  · rintro ⟨g', place', p, hle, hlt, hp⟩
    by_contra hno
    rw [if_pos (by omega)] at hle hlt
    exact row_unique hb.entries hat hp (by omega)
  · intro h
    refine ⟨g, place, _, ?_, ?_, hat⟩
    · split <;> omega
    · split <;> omega

end GroupedLayout

/-- The selection of a region stays on the screen, in a flat list and in a grouped one. -/
structure StaysOnScreen {α : Type} (region : ScrollRegion) (groups : List (Group α))
    (showHeaders : Bool) : Prop where
  selects : region.Selects
  slice : ∀ items : List α, items.length = region.total → region.selected < region.total →
    items[region.selected]? ∈ (region.visibleSlice items).map some ∧
      region.offset ≤ region.selected ∧ region.selected < region.offset + region.viewport
  lists : (GroupedLayout.new region groups showHeaders).Lists groups
  contains : region.selected < (entries groups).length →
    (GroupedLayout.new region groups showHeaders).Contains region

/-- The selection stays on the screen through all operations, except that the layout of a
grouped list scrolls it away in a viewport of one row. -/
theorem staysOnScreen_iff {α : Type} {total viewport : Nat} (h : 1 ≤ viewport)
    {ops : List ScrollRegion.Op} (hops : ∀ op ∈ ops, op.HasRow) (groups : List (Group α))
    (showHeaders : Bool) :
    let region := (ScrollRegion.new total viewport).run ops
    StaysOnScreen region groups showHeaders ↔
      ((entries groups).length ≤ region.selected ∨ 2 ≤ region.viewport ∨
        (showHeaders = false ∧ region.selected = 0)) := by
  intro region
  have hon : region.OnScreen := ScrollRegion.onScreen_run h hops
  constructor
  · intro hstay
    by_cases hsel : region.selected < (entries groups).length
    · exact .inr ((GroupedLayout.new_contains_iff region groups showHeaders hon.row hsel).mp
        (hstay.contains hsel))
    · exact .inl (Nat.not_lt.mp hsel)
  · intro hcond
    refine ⟨hon.selects, fun items hlen hsel ↦ ⟨?_, hon.above, hon.below⟩,
      GroupedLayout.new_lists region groups showHeaders, fun hsel ↦ ?_⟩
    · have hget := List.getElem?_eq_getElem (hlen.symm ▸ hsel)
      rw [hget]
      exact List.mem_map_of_mem (mem_window.mpr ⟨_, hon.above, hon.below, hget⟩)
    · exact (GroupedLayout.new_contains_iff region groups showHeaders hon.row hsel).mpr
        (hcond.resolve_left (Nat.not_le.mpr hsel))

/-- Two items, the second of which is chosen. -/
theorem staysOnScreen_two :
    StaysOnScreen ((ScrollRegion.new 2 2).run [.toBottom]) [(⟨"", [1, 2]⟩ : Group Nat)] true :=
  have hop : ScrollRegion.Op.toBottom.HasRow := trivial
  (staysOnScreen_iff (by decide) (List.forall_mem_singleton.mpr hop) _ true).mpr
    (.inr (.inl (by decide)))

/-- In one row, the second of two items is chosen and not seen. -/
theorem staysOnScreen_refuted :
    ¬StaysOnScreen ((ScrollRegion.new 2 1).run [.toBottom]) [(⟨"", [1, 2]⟩ : Group Nat)]
      false := by
  intro h
  have hrow := (GroupedLayout.new_contains_iff _ _ false (by decide) (by decide)).mp
    (h.contains (by decide))
  revert hrow
  decide

end PtySpec.Tui
