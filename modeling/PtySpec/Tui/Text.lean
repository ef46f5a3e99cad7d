import Mathlib

/-!
# Soft wrapping

Model of `char_width` and `wrap_text`, `crates/pty-tui/src/text.rs`. The loop over the lines ends
because every line takes at least one character; wrapping loses nothing and gives lines that
fit, or single characters that do not.
-/

namespace PtySpec.Tui

/-! ### Widths -/

/-- `char_width`, `text.rs:6`. -/
def charWidth (ch : Char) : Nat :=
  let code := ch.toNat
  if code < 0x20 then 0
  else if code < 0x2500 then 1
  else if 0x2500 ≤ code ∧ code ≤ 0x25ff then 1
  else if 0x2600 ≤ code ∧ code ≤ 0x26ff then
    if (0x2614 ≤ code ∧ code ≤ 0x2615) ∨ (0x2648 ≤ code ∧ code ≤ 0x2653) ∨ code = 0x267f ∨
        code = 0x2693 ∨ (0x26a0 ≤ code ∧ code ≤ 0x26a1) ∨ (0x26aa ≤ code ∧ code ≤ 0x26ab) ∨
        (0x26bd ≤ code ∧ code ≤ 0x26be) ∨ (0x26c4 ≤ code ∧ code ≤ 0x26c5) ∨ code = 0x26d4 ∨
        code = 0x26ea ∨ (0x26f2 ≤ code ∧ code ≤ 0x26f3) ∨ code = 0x26f5 ∨ code = 0x26fa ∨
        code = 0x26fd then 2
    else 1
  else if 0x2700 ≤ code ∧ code ≤ 0x27bf then 1
  else if (0x2e80 ≤ code ∧ code ≤ 0x9fff) ∨ (0xac00 ≤ code ∧ code ≤ 0xd7af) ∨
      (0xf900 ≤ code ∧ code ≤ 0xfaff) ∨ (0xfe10 ≤ code ∧ code ≤ 0xfe6f) ∨
      (0xff01 ≤ code ∧ code ≤ 0xff60) ∨ (0xffe0 ≤ code ∧ code ≤ 0xffe6) ∨
      (0x1f000 ≤ code ∧ code ≤ 0x1fbff) ∨ (0x20000 ≤ code ∧ code ≤ 0x3ffff) then 2
  else 1

/-- `text_width`, `text.rs:77`. -/
def textWidth (s : List Char) : Nat := (s.map charWidth).sum

@[simp] theorem textWidth_nil : textWidth [] = 0 := rfl

@[simp] theorem textWidth_cons (c : Char) (s : List Char) :
    textWidth (c :: s) = charWidth c + textWidth s := List.sum_cons

@[simp] theorem textWidth_append (s t : List Char) :
    textWidth (s ++ t) = textWidth s + textWidth t := by
  rw [textWidth, List.map_append, List.sum_append]
  rfl

theorem textWidth_le_of_sublist {s t : List Char} (h : s.Sublist t) :
    textWidth s ≤ textWidth t := by
  induction h with
  | slnil => exact Nat.le_refl 0
  | cons c _ ih =>
    rw [textWidth_cons]
    omega
  | cons_cons c _ ih =>
    rw [textWidth_cons, textWidth_cons]
    omega

/-! ### Wrapping -/

/-- The inner loop of `wrap_text`, `text.rs:131-145`, over the characters from `line_end` on: the
end of the line and the last break. -/
def scanLine (maxWidth pos : Nat) : List Char → Nat → Nat → Option Nat → Nat × Option Nat
  | [], _, lineEnd, lastBreak => (lineEnd, lastBreak)
  | ch :: rest, lineWidth, lineEnd, lastBreak =>
    let w := charWidth ch
    if maxWidth < lineWidth + w then (lineEnd, lastBreak)
    else
      let lastBreak := if ch = ' ' ∧ pos < lineEnd then some lineEnd else lastBreak
      let lastBreak := if 2 ≤ w then some (lineEnd + 1) else lastBreak
      scanLine maxWidth pos rest (lineWidth + w) (lineEnd + 1) lastBreak

/-- The end of the line that starts at `pos`, or none if it is the last one,
`text.rs:127-163`. -/
def nextLine (chars : List Char) (maxWidth pos : Nat) : Option Nat :=
  let (lineEnd, lastBreak) := scanLine maxWidth pos (chars.drop pos) 0 pos none
  let forced := if lineEnd = pos then lineEnd + 1 else lineEnd
  if chars.length ≤ lineEnd then none
  else
    match lastBreak with
    | some b => if pos < b then some b else some forced
    | none => some forced

/-- What the inner loop finds in what is left of the text: the line that ends there fits, and a
break is inside of it. -/
private theorem scanLine_spec {maxWidth : Nat} (pos : Nat) (pre rest : List Char)
    (lastBreak : Option Nat) (hpre : textWidth pre ≤ maxWidth)
    (hbreak : ∀ b ∈ lastBreak, pos < b ∧ b ≤ pos + pre.length) :
    ∃ more, more <+: rest ∧ textWidth (pre ++ more) ≤ maxWidth ∧
      (∀ c tail, rest = more ++ c :: tail → maxWidth < textWidth (pre ++ more) + charWidth c) ∧
      (scanLine maxWidth pos rest (textWidth pre) (pos + pre.length) lastBreak).1 =
        pos + (pre ++ more).length ∧
      ∀ b ∈ (scanLine maxWidth pos rest (textWidth pre) (pos + pre.length) lastBreak).2,
        pos < b ∧ b ≤ pos + (pre ++ more).length := by
  induction rest generalizing pre lastBreak with
  | nil => exact ⟨[], List.prefix_rfl, by simpa using hpre, by simp, by simp [scanLine],
      by simpa [scanLine] using hbreak⟩
  | cons ch rest ih =>
    unfold scanLine
    dsimp only
    split
    · next hlt =>
      refine ⟨[], List.nil_prefix, by simpa using hpre, ?_, by simp, by simpa using hbreak⟩
      intro c tail he
      obtain ⟨rfl, -⟩ := List.cons.inj he
      simpa using hlt
    · next hle =>
      obtain ⟨more, hmore, hfit, hnext, hend, hlast⟩ := ih (pre ++ [ch])
        (if 2 ≤ charWidth ch then some (pos + pre.length + 1)
          else if ch = ' ' ∧ pos < pos + pre.length then some (pos + pre.length) else lastBreak)
        (by simpa using hle) (by
          intro b hb
          rw [List.length_append, List.length_singleton]
          split at hb
          · cases hb
            omega
          · split at hb
            · next hsp =>
              cases hb
              omega
            · have := hbreak b hb
              omega)
      have hw : textWidth (pre ++ [ch]) = textWidth pre + charWidth ch := by simp
      have hl : pos + (pre ++ [ch]).length = pos + pre.length + 1 := by simp [Nat.add_assoc]
      rw [hw, hl] at hend hlast
      rw [List.append_assoc, List.singleton_append] at hfit hend hlast
      refine ⟨ch :: more, List.cons_prefix_cons.mpr ⟨rfl, hmore⟩, hfit, ?_, hend, hlast⟩
      intro c tail he
      have := hnext c tail (List.cons.inj he).2
      rwa [List.append_assoc, List.singleton_append] at this

/-- A line that fits, or that is one character which does not. -/
def Fits (maxWidth : Nat) (line : List Char) : Prop :=
  textWidth line ≤ maxWidth ∨ ∃ c, line = [c] ∧ maxWidth < charWidth c

private theorem nextLine_spec {chars : List Char} (maxWidth : Nat) {pos : Nat}
    (h : pos < chars.length) :
    match nextLine chars maxWidth pos with
    | some next => pos < next ∧ next ≤ chars.length ∧
        Fits maxWidth ((chars.drop pos).take (next - pos))
    | none => textWidth (chars.drop pos) ≤ maxWidth := by
  obtain ⟨more, ⟨tail, htail⟩, hfit, hnext, hend, hlast⟩ :=
    scanLine_spec pos [] (chars.drop pos) none (Nat.zero_le maxWidth) (by simp)
  rw [List.nil_append] at hfit hend hlast
  rw [textWidth_nil, List.length_nil, Nat.add_zero] at hend hlast
  have hlen := congrArg List.length htail
  rw [List.length_append, List.length_drop] at hlen
  unfold nextLine
  generalize scanLine maxWidth pos (chars.drop pos) 0 pos none = found at hend hlast ⊢
  obtain ⟨lineEnd, lastBreak⟩ := found
  dsimp only at hend hlast ⊢
  subst hend
  have htake {b : Nat} (hb : b ≤ pos + more.length) :
      Fits maxWidth ((chars.drop pos).take (b - pos)) := by
    rw [← htail, List.take_append_of_le_length (by omega)]
    exact .inl (Nat.le_trans (textWidth_le_of_sublist (List.take_sublist _ _)) hfit)
  by_cases hlong : chars.length ≤ pos + more.length
  · rw [if_pos hlong]
    dsimp only
    have hnil : tail = [] := List.eq_nil_of_length_eq_zero (by omega)
    rwa [← htail, hnil, List.append_nil]
  · rw [if_neg hlong]
    have hforced {forced : Nat}
        (hf : (if pos + more.length = pos then pos + more.length + 1 else pos + more.length) =
          forced) : pos < forced ∧ forced ≤ chars.length ∧
            Fits maxWidth ((chars.drop pos).take (forced - pos)) := by
      split at hf
      · next he =>
        -- not even the first character fits
        subst hf
        have hmore : more = [] := List.eq_nil_of_length_eq_zero (by omega)
        subst hmore
        rw [List.nil_append] at htail
        cases tail with
        | nil =>
          rw [List.length_nil] at hlen
          omega
        | cons c tail =>
          have hwide := hnext c tail htail.symm
          refine ⟨by omega, by omega, .inr ⟨c, ?_, by simpa using hwide⟩⟩
          rw [← htail, List.length_nil, Nat.add_zero, Nat.add_sub_cancel_left]
          rfl
      · next hne =>
        subst hf
        exact ⟨by omega, by omega, htake (Nat.le_refl _)⟩
    cases lastBreak with
    | none => exact hforced rfl
    | some b =>
      obtain ⟨hb, hle⟩ := hlast b rfl
      dsimp only
      rw [if_pos hb]
      exact ⟨hb, by omega, htake hle⟩

private theorem lt_of_nextLine {chars : List Char} {maxWidth pos next : Nat}
    (h : pos < chars.length) (hn : nextLine chars maxWidth pos = some next) : pos < next := by
  have := nextLine_spec maxWidth h
  rw [hn] at this
  exact this.1

/-- The outer loop of `wrap_text`, `text.rs:126`: the lines from `pos` on, with their offsets. -/
def wrapLoop (chars : List Char) (maxWidth pos : Nat) : List (List Char × Nat) :=
  if h : pos < chars.length then
    match hn : nextLine chars maxWidth pos with
    | some next => ((chars.drop pos).take (next - pos), pos) :: wrapLoop chars maxWidth next
    | none => [(chars.drop pos, pos)]
  else []
termination_by chars.length - pos
decreasing_by
  have := lt_of_nextLine h hn
  omega

/-- `wrap_text`, `text.rs:117`. -/
def wrapText (text : List Char) (maxWidth : Nat) : List (List Char) × List Nat :=
  if maxWidth = 0 then ([text], [0])
  else
    let lines := wrapLoop text maxWidth 0
    if lines.isEmpty then ([[]], [0]) else (lines.map Prod.fst, lines.map Prod.snd)

/-- Lines that are a text, wrapped: nothing is lost, an offset counts what is before its line,
only the empty text has an empty line, and every line fits. -/
structure Wraps (text : List Char) (maxWidth : Nat) (lines : List (List Char))
    (offsets : List Nat) : Prop where
  lossless : lines.flatten = text
  offsets : offsets = (List.range lines.length).map fun k ↦ (lines.take k).flatten.length
  nonempty : text ≠ [] → ∀ line ∈ lines, line ≠ []
  fits : ∀ line ∈ lines, Fits maxWidth line

private theorem wrapLoop_next {chars : List Char} {maxWidth pos next : Nat}
    (h : pos < chars.length) (hn : nextLine chars maxWidth pos = some next) :
    wrapLoop chars maxWidth pos =
      ((chars.drop pos).take (next - pos), pos) :: wrapLoop chars maxWidth next := by
  rw [wrapLoop, dif_pos h]
  split
  · next next' hn' => rw [Option.some.inj (hn.symm.trans hn')]
  · next hn' => cases hn.symm.trans hn'

private theorem wrapLoop_last {chars : List Char} {maxWidth pos : Nat} (h : pos < chars.length)
    (hn : nextLine chars maxWidth pos = none) :
    wrapLoop chars maxWidth pos = [(chars.drop pos, pos)] := by
  rw [wrapLoop, dif_pos h]
  split
  · next next' hn' => cases hn.symm.trans hn'
  · rfl

private theorem wrapLoop_done {chars : List Char} {maxWidth pos : Nat} (h : chars.length ≤ pos) :
    wrapLoop chars maxWidth pos = [] := by
  rw [wrapLoop, dif_neg (Nat.not_lt.mpr h)]

/-- The lines of a loop that starts at `pos`. -/
private theorem wrapLoop_spec (chars : List Char) (maxWidth pos : Nat) :
    ((wrapLoop chars maxWidth pos).map Prod.fst).flatten = chars.drop pos ∧
      (wrapLoop chars maxWidth pos).map Prod.snd =
        (List.range (wrapLoop chars maxWidth pos).length).map (fun k ↦
          pos + (((wrapLoop chars maxWidth pos).map Prod.fst).take k).flatten.length) ∧
      ∀ line ∈ (wrapLoop chars maxWidth pos).map Prod.fst, line ≠ [] ∧ Fits maxWidth line := by
  induction hm : chars.length - pos using Nat.strong_induction_on generalizing pos with
  | _ m ih =>
    by_cases h : pos < chars.length
    · have hspec := nextLine_spec maxWidth h
      cases hn : nextLine chars maxWidth pos with
      | none =>
        rw [hn] at hspec
        rw [wrapLoop_last h hn]
        refine ⟨List.append_nil _, rfl, ?_⟩
        rw [List.map_singleton, List.forall_mem_singleton]
        exact ⟨fun hnil ↦ Nat.not_le.mpr h (List.drop_eq_nil_iff.mp hnil), .inl hspec⟩
      | some next =>
        rw [hn] at hspec
        obtain ⟨hlt, hle, hfits⟩ := hspec
        obtain ⟨hflat, hoff, hlines⟩ := ih (chars.length - next) (by omega) next rfl
        have htake : ((chars.drop pos).take (next - pos)).length = next - pos := by
          rw [List.length_take, List.length_drop]
          omega
        rw [wrapLoop_next h hn]
        refine ⟨?_, ?_, ?_⟩
        · rw [List.map_cons, List.flatten_cons, hflat]
          conv_rhs => rw [← List.take_append_drop (next - pos) (chars.drop pos), List.drop_drop]
          rw [Nat.add_sub_cancel' (Nat.le_of_lt hlt)]
        · rw [List.map_cons, hoff, List.length_cons, List.range_succ_eq_map, List.map_cons,
            List.map_map]
          refine congrArg₂ _ rfl (List.map_congr_left fun k _ ↦ ?_)
          rw [Function.comp_apply, List.map_cons, List.take_succ_cons, List.flatten_cons,
            List.length_append, htake]
          omega
        · rw [List.map_cons, List.forall_mem_cons]
          refine ⟨⟨fun hnil : (chars.drop pos).take (next - pos) = [] ↦ ?_, hfits⟩, hlines⟩
          rw [hnil, List.length_nil] at htake
          omega
    · rw [wrapLoop_done (Nat.not_lt.mp h), List.drop_eq_nil_of_le (Nat.not_lt.mp h)]
      exact ⟨rfl, rfl, nofun⟩

/-- Wrapping a text gives the text, wrapped. -/
theorem wrapText_wraps (text : List Char) {maxWidth : Nat} (h : 1 ≤ maxWidth) :
    Wraps text maxWidth (wrapText text maxWidth).1 (wrapText text maxWidth).2 := by
  obtain ⟨hflat, hoff, hlines⟩ := wrapLoop_spec text maxWidth 0
  unfold wrapText
  rw [if_neg (by omega)]
  dsimp only
  split
  · next hempty =>
    rw [List.isEmpty_iff.mp hempty] at hflat
    rw [List.drop_zero] at hflat
    subst hflat
    refine ⟨rfl, rfl, fun hne ↦ absurd rfl hne, ?_⟩
    exact List.forall_mem_singleton.mpr (.inl (Nat.zero_le _))
  · refine ⟨hflat, ?_, fun _ line hm ↦ (hlines line hm).1, fun line hm ↦ (hlines line hm).2⟩
    rw [hoff, List.length_map]
    simp only [Nat.zero_add]

theorem wrapText_wraps_two :
    Wraps "a bc".toList 2 (wrapText "a bc".toList 2).1 (wrapText "a bc".toList 2).2 :=
  wrapText_wraps _ (by decide)

end PtySpec.Tui
