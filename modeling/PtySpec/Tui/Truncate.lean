import PtySpec.Tui.Text

/-!
# Truncating to a width

Model of `strip_ansi`, `visible_width` and `truncate`, `crates/pty-tui/src/text.rs`. A text is
judged without its escape sequences and cut with them. The cut is right exactly if it does not
fall into a sequence, and if the one character that is left in one cell fits there.
-/

namespace PtySpec.Tui

/-- The last character of a control sequence. -/
def isCsiFinal (c : Char) : Bool := '@' ≤ c && c ≤ '~'

/-- `strip_ansi`, `text.rs:54`. -/
def stripAnsi : List Char → List Char
  | [] => []
  | c :: rest =>
    if c = '\x1b' ∧ rest.head? = some '[' then
      stripAnsi (rest.tail.dropWhile (!isCsiFinal ·)).tail
    else c :: stripAnsi rest
termination_by s => s.length
decreasing_by
  · have h := (List.dropWhile_sublist (l := rest.tail) (!isCsiFinal ·)).length_le
    rw [List.length_tail] at h
    rw [List.length_tail, List.length_cons]
    omega
  · exact Nat.lt_succ_self _

/-- `visible_width`, `text.rs:72`. -/
def visibleWidth (s : List Char) : Nat := ((stripAnsi s).map charWidth).sum

/-- The loop of `truncate`, `text.rs:94-101`, over the characters that are left. -/
def fitting (maxWidth : Nat) : List Char → Nat → List Char
  | [], _ => []
  | ch :: rest, w =>
    if maxWidth < w + charWidth ch + 1 then [] else ch :: fitting maxWidth rest (w + charWidth ch)

/-- `truncate`, `text.rs:84`. -/
def truncate (text : List Char) (maxWidth : Nat) : List Char :=
  if visibleWidth text ≤ maxWidth then text
  else if maxWidth ≤ 1 then text.take maxWidth
  else fitting maxWidth text 0 ++ ['…']

/-! ### Escape sequences -/

/-- What the end of a text is inside of. -/
inductive Inside
  | text
  | escape
  | csi
deriving DecidableEq, Repr

/-- The end of a text after one more character. -/
def Inside.next : Inside → Char → Inside
  | .csi, c => if isCsiFinal c then .text else .csi
  | .escape, c => if c = '[' then .csi else if c = '\x1b' then .escape else .text
  | .text, c => if c = '\x1b' then .escape else .text

/-- A text ends inside an escape sequence. -/
def EndsInside (s : List Char) : Prop := s.foldl Inside.next .text ≠ .text

instance (s : List Char) : Decidable (EndsInside s) := inferInstanceAs (Decidable (_ ≠ _))

theorem stripAnsi_sublist (s : List Char) : (stripAnsi s).Sublist s := by
  fun_induction stripAnsi s with
  | case1 => exact .slnil
  | case2 c rest h ih =>
    have htail := (List.tail_sublist (rest.tail.dropWhile (!isCsiFinal ·))).trans
      ((List.dropWhile_sublist _).trans (List.tail_sublist rest))
    exact .cons c (ih.trans htail)
  | case3 c rest h ih => exact .cons_cons c ih

theorem visibleWidth_le (s : List Char) : visibleWidth s ≤ textWidth s :=
  textWidth_le_of_sublist (stripAnsi_sublist s)

/-! ### The cut -/

/-- The longest start of a text that leaves a cell free. -/
structure LeavesCell (text : List Char) (maxWidth : Nat) (kept : List Char) : Prop where
  start : kept <+: text
  fits : textWidth kept < maxWidth
  longest : ∀ c, kept ++ [c] <+: text → maxWidth ≤ textWidth (kept ++ [c])

private theorem fitting_leavesCell {maxWidth : Nat} (pre rest : List Char)
    (h : textWidth pre < maxWidth) :
    LeavesCell (pre ++ rest) maxWidth (pre ++ fitting maxWidth rest (textWidth pre)) := by
  induction rest generalizing pre with
  | nil =>
    refine ⟨List.prefix_rfl, by simpa [fitting] using h, fun c hc ↦ ?_⟩
    have := hc.length_le
    simp only [fitting, List.append_nil, List.length_append, List.length_singleton] at this
    omega
  | cons ch rest ih =>
    unfold fitting
    split
    · next hlt =>
      rw [List.append_nil]
      refine ⟨List.prefix_append _ _, h, fun c hc ↦ ?_⟩
      rw [List.prefix_append_right_inj, List.cons_prefix_cons] at hc
      rw [hc.1, textWidth_append, textWidth_cons, textWidth_nil]
      omega
    · next hle =>
      have hw : textWidth (pre ++ [ch]) = textWidth pre + charWidth ch := by simp
      have := ih (pre ++ [ch]) (by omega)
      rwa [hw, List.append_assoc, List.append_assoc] at this

private theorem LeavesCell.unique {text : List Char} {maxWidth : Nat} {kept kept' : List Char}
    (h : LeavesCell text maxWidth kept) (h' : LeavesCell text maxWidth kept') : kept = kept' := by
  have hgen {short long : List Char} (hs : LeavesCell text maxWidth short)
      (hl : LeavesCell text maxWidth long) (hp : short <+: long) : short = long := by
    obtain ⟨more, rfl⟩ := hp
    cases more with
    | nil => rw [List.append_nil]
    | cons c more =>
      exfalso
      have hstart : short ++ [c] <+: short ++ c :: more := ⟨more, by simp⟩
      have hwide := hs.longest c (hstart.trans hl.start)
      have hle := textWidth_le_of_sublist hstart.sublist
      have := hl.fits
      omega
  obtain hp | hp := List.prefix_or_prefix_of_prefix h.start h'.start
  · exact hgen h h' hp
  · exact (hgen h' h hp).symm

private theorem endsInside_concat {s : List Char} {c : Char} (h : ¬EndsInside s)
    (hc : c ≠ '\x1b') : ¬EndsInside (s ++ [c]) := by
  have hs : s.foldl Inside.next .text = .text := not_not.mp h
  have hnext : Inside.next .text c = .text := if_neg hc
  rw [EndsInside, List.foldl_append, hs, List.foldl_cons, hnext, List.foldl_nil]
  exact not_not_intro rfl

/-! ### The result -/

/-- The result fits, it is the text if that fits and else a start of it with an ellipsis where
there are two cells for them, and it does not end inside an escape sequence. -/
structure Truncates (text : List Char) (maxWidth : Nat) : Prop where
  fits : visibleWidth (truncate text maxWidth) ≤ maxWidth
  whole : visibleWidth text ≤ maxWidth → truncate text maxWidth = text
  start : maxWidth < visibleWidth text → ∃ kept, kept <+: text ∧
    truncate text maxWidth = kept ++ (if 2 ≤ maxWidth then ['…'] else []) ∧ ¬EndsInside kept
  outside : ¬EndsInside (truncate text maxWidth)

/-- A text that fits does not end inside an escape sequence; else, the longest start that leaves a
cell free does not, or, in one cell, the first character starts none and fits. -/
def CutsOutside (text : List Char) (maxWidth : Nat) : Prop :=
  if visibleWidth text ≤ maxWidth then ¬EndsInside text
  else if maxWidth = 1 then ∀ c ∈ text.head?, charWidth c ≤ 1 ∧ c ≠ '\x1b'
  else ∀ kept, LeavesCell text maxWidth kept → ¬EndsInside kept

theorem charWidth_ellipsis : charWidth '…' = 1 := by decide

/-- In one cell, the first character is all that is left. -/
private theorem truncates_one_iff {c : Char} {rest : List Char} (h : 1 < visibleWidth (c :: rest)) :
    Truncates (c :: rest) 1 ↔ charWidth c ≤ 1 ∧ c ≠ '\x1b' := by
  have heq : truncate (c :: rest) 1 = [c] := by
    rw [truncate, if_neg (Nat.not_le.mpr h), if_pos (Nat.le_refl 1)]
    rfl
  have hstrip : stripAnsi [c] = [c] := by simp [stripAnsi]
  have hwidth : visibleWidth [c] = charWidth c := by
    rw [visibleWidth, hstrip]
    simp
  have hends : EndsInside [c] ↔ c = '\x1b' := by
    unfold EndsInside
    rw [List.foldl_cons, List.foldl_nil, Inside.next]
    split <;> simp [*]
  constructor
  · intro ht
    have hfits := ht.fits
    have hout := ht.outside
    rw [heq] at hfits hout
    exact ⟨hwidth ▸ hfits, fun he ↦ hout (hends.mpr he)⟩
  · rintro ⟨hone, hesc⟩
    have hout : ¬EndsInside [c] := fun he ↦ hesc (hends.mp he)
    refine ⟨?_, fun hle ↦ absurd hle (Nat.not_le.mpr h), fun _ ↦ ?_, ?_⟩
    · rwa [heq, hwidth]
    · exact ⟨[c], ⟨rest, rfl⟩, heq, hout⟩
    · rwa [heq]

/-- With two cells and more, the longest start that leaves a cell free is kept. -/
private theorem truncates_more_iff {text kept : List Char} {maxWidth : Nat} (hw : 2 ≤ maxWidth)
    (h : maxWidth < visibleWidth text) (hk : LeavesCell text maxWidth kept) :
    Truncates text maxWidth ↔ ¬EndsInside kept := by
  have heq : truncate text maxWidth = kept ++ ['…'] := by
    have hnil : textWidth [] < maxWidth := Nat.lt_of_lt_of_le Nat.two_pos hw
    have hfit := fitting_leavesCell [] text hnil
    rw [List.nil_append, List.nil_append] at hfit
    rw [truncate, if_neg (Nat.not_le.mpr h), if_neg (by omega), hk.unique hfit]
    rfl
  constructor
  · intro ht
    obtain ⟨kept', -, hstart, hout⟩ := ht.start h
    rw [if_pos hw, heq] at hstart
    rwa [(List.append_left_inj _).mp hstart]
  · intro hout
    refine ⟨?_, fun hle ↦ absurd hle (Nat.not_le.mpr h), fun _ ↦ ?_, ?_⟩
    · have hle := visibleWidth_le (kept ++ ['…'])
      have hfits := hk.fits
      rw [textWidth_append, textWidth_cons, charWidth_ellipsis, textWidth_nil] at hle
      rw [heq]
      omega
    · exact ⟨kept, hk.start, by rw [heq, if_pos hw], hout⟩
    · rw [heq]
      exact endsInside_concat hout (by decide)

end PtySpec.Tui
