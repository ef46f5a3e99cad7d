import PtySpec.Tui.TextArea
import PtySpec.Lib.Words

/-!
# The multi-line composer as a plain text

A text with a cursor in it, and what inserting, deleting and moving do there. The composer's
lines are such a text, and every key of it is one of these edits, as long as no inserted text
has a newline in it: such a text goes into a line and not between two lines.
-/

namespace PtySpec.Tui

open Keys (KeyEvent)

variable (isAlphanumeric : Char → Bool)

/-! ### Plain text -/

/-- A text with a cursor between two of its characters. -/
structure FlatText where
  text : List Char
  cursor : Nat
deriving DecidableEq, Repr

namespace FlatText

/-- The part of the cursor's line before the cursor. -/
def lineBefore (f : FlatText) : List Char :=
  ((f.text.take f.cursor).reverse.takeWhile (· ≠ '\n')).reverse

/-- The part of the cursor's line after the cursor. -/
def lineAfter (f : FlatText) : List Char := (f.text.drop f.cursor).takeWhile (· ≠ '\n')

/-- An edit of a text, or a movement in it. -/
inductive Edit
  | newline
  | insert (x : List Char)
  | backspace
  | delete
  | left
  | right
  | wordLeft
  | wordRight
  | wordBack
  | wordForward
  | up
  | down
  | home
  | stop
deriving DecidableEq, Repr

/-- The text with its cursor elsewhere. -/
def moveTo (f : FlatText) (cursor : Nat) : FlatText := { f with cursor }

/-- The cursor at the start of the word before it, in its line. -/
def wordBack (f : FlatText) : FlatText :=
  f.moveTo (f.cursor - f.lineBefore.length +
    prevWordBoundary isAlphanumeric f.lineBefore f.lineBefore.length)

/-- The cursor past the end of the word after it, in its line. -/
def wordForward (f : FlatText) : FlatText :=
  f.moveTo (f.cursor + nextWordBoundary isAlphanumeric f.lineAfter 0)

/-- The cursor one character on, where there is one. -/
def right (f : FlatText) : FlatText := f.moveTo (min (f.cursor + 1) f.text.length)

/-- The cursor in the line above, in its column or at the end. -/
def up (f : FlatText) : FlatText :=
  let start := f.cursor - f.lineBefore.length
  if start = 0 then f
  else
    let above := (f.moveTo (start - 1)).lineBefore.length
    f.moveTo (start - 1 - above + min f.lineBefore.length above)

/-- The cursor in the line below, in its column or at the end. -/
def down (f : FlatText) : FlatText :=
  let stop := f.cursor + f.lineAfter.length
  if stop = f.text.length then f
  else f.moveTo (stop + 1 + min f.lineBefore.length (f.moveTo (stop + 1)).lineAfter.length)

/-- A text put in at the cursor. -/
def insert (f : FlatText) (x : List Char) : FlatText where
  text := f.text.take f.cursor ++ x ++ f.text.drop f.cursor
  cursor := f.cursor + x.length

/-- A text after an edit. -/
def apply (f : FlatText) : Edit → FlatText
  | .newline => f.insert ['\n']
  | .insert x => f.insert x
  | .backspace =>
    if f.cursor = 0 then f else { text := f.text.eraseIdx (f.cursor - 1), cursor := f.cursor - 1 }
  | .delete => { f with text := f.text.eraseIdx f.cursor }
  | .left => f.moveTo (f.cursor - 1)
  | .right => f.right
  | .wordLeft => if f.lineBefore = [] then f.moveTo (f.cursor - 1) else f.wordBack isAlphanumeric
  | .wordRight => if f.lineAfter = [] then f.right else f.wordForward isAlphanumeric
  | .wordBack => f.wordBack isAlphanumeric
  | .wordForward => f.wordForward isAlphanumeric
  | .up => f.up
  | .down => f.down
  | .home => f.moveTo (f.cursor - f.lineBefore.length)
  | .stop => f.moveTo (f.cursor + f.lineAfter.length)

end FlatText

open FlatText (Edit)

/-- The edit that a key asks for, or none where the key is the caller's. -/
def editOf (key : KeyEvent) : Option Edit :=
  let name := key.name
  let ch := key.char
  if name = "tab" ∨ name = "backtab" ∨ name = "escape" then none
  else if name = "return" ∧ key.ctrl then none
  else if name = "return" then some .newline
  else if name = "backspace" then some .backspace
  else if name = "delete" then some .delete
  else if name = "left" then some (if key.alt then .wordLeft else .left)
  else if name = "right" then some (if key.alt then .wordRight else .right)
  else if key.alt ∧ ch = some "b" then some .wordBack
  else if key.alt ∧ ch = some "f" then some .wordForward
  else if name = "up" then some .up
  else if name = "down" then some .down
  else if name = "home" ∨ (name = "a" ∧ key.ctrl) then some .home
  else if name = "end" ∨ (name = "e" ∧ key.ctrl) then some .stop
  else
    match ch with
    | some ch => if ch ≠ "" ∧ ¬key.ctrl ∧ ¬key.alt then some (.insert ch.toList) else none
    | none => none

namespace TextAreaState

/-- The composer's text, with its cursor. -/
def flat (s : TextAreaState) : FlatText where
  text := s.text
  cursor := ((s.lines.take s.row).map fun line ↦ line.length + 1).sum + s.column

/-- The cursor is in a line, and no line has a newline in it. -/
structure Sound (s : TextAreaState) : Prop where
  row : s.row < s.lines.length
  col : s.col ≤ s.cur.length
  plain : ∀ line ∈ s.lines, '\n' ∉ line

/-- Lines above, a line that the cursor splits, and lines below. -/
def split (above : List (List Char)) (p q : List Char) (below : List (List Char)) :
    TextAreaState where
  lines := above ++ (p ++ q) :: below
  row := above.length
  col := p.length

/-- Every sound state is split. -/
theorem Sound.exists_split {s : TextAreaState} (h : s.Sound) :
    ∃ above p q below, s = split above p q below := by
  obtain ⟨lines, row, col⟩ := s
  obtain ⟨hrow, hcol, -⟩ := h
  dsimp only at hrow
  have hcur : lines[row]?.getD [] = lines[row] := by rw [List.getElem?_eq_getElem hrow]; rfl
  have hcol' : col ≤ (lines[row]).length := hcur ▸ hcol
  refine ⟨lines.take row, lines[row].take col, lines[row].drop col, lines.drop (row + 1), ?_⟩
  rw [split, List.take_append_drop, List.length_take, List.length_take, Nat.min_eq_left hcol',
    Nat.min_eq_left (Nat.le_of_lt hrow)]
  congr 1
  rw [← List.drop_eq_getElem_cons hrow, List.take_append_drop]

section

variable (above : List (List Char)) (p q : List Char) (below : List (List Char))

@[simp] theorem lines_split : (split above p q below).lines = above ++ (p ++ q) :: below := rfl

@[simp] theorem row_split : (split above p q below).row = above.length := rfl

@[simp] theorem col_split : (split above p q below).col = p.length := rfl

@[simp] theorem cur_split : (split above p q below).cur = p ++ q := by
  simp [cur]

@[simp] theorem column_split : (split above p q below).column = p.length := by
  simp [column]

end

/-- The text of lines that others follow. -/
def ended (lines : List (List Char)) : List Char := lines.flatMap (· ++ ['\n'])

/-- The text of lines that follow others. -/
def begun (lines : List (List Char)) : List Char := lines.flatMap ('\n' :: ·)

/-- A text with its cursor between two parts of it. -/
def cursorAt (before after : List Char) : FlatText where
  text := before ++ after
  cursor := before.length

private theorem intercalate_split (above : List (List Char)) (line : List Char)
    (below : List (List Char)) :
    ['\n'].intercalate (above ++ line :: below) = ended above ++ (line ++ begun below) := by
  induction above with
  | nil =>
    rw [List.nil_append]
    induction below generalizing line with
    | nil => simp [ended, begun]
    | cons line' below ih =>
      rw [List.intercalate_cons_cons, ih]
      simp [ended, begun]
  | cons line' above ih =>
    obtain ⟨first, rest, hrest⟩ : ∃ first rest, above ++ line :: below = first :: rest := by
      cases above <;> exact ⟨_, _, rfl⟩
    rw [List.cons_append, hrest, List.intercalate_cons_cons, ← hrest, ih]
    simp [ended]

theorem flat_split (above : List (List Char)) (p q : List Char) (below : List (List Char)) :
    (split above p q below).flat = cursorAt (ended above ++ p) (q ++ begun below) := by
  have hsum : (above.map fun line ↦ line.length + 1).sum = (ended above).length := by
    simp [ended, List.length_flatMap]
  unfold flat cursorAt text
  rw [lines_split, row_split, column_split, intercalate_split, List.take_left, hsum,
    List.length_append]
  simp only [List.append_assoc]

/-- No line of a split state has a newline in it. -/
theorem sound_split {above : List (List Char)} {p q : List Char} {below : List (List Char)} :
    (split above p q below).Sound ↔
      (∀ line ∈ above, '\n' ∉ line) ∧ ('\n' ∉ p ∧ '\n' ∉ q) ∧ ∀ line ∈ below, '\n' ∉ line := by
  have hplain : (∀ line ∈ (split above p q below).lines, '\n' ∉ line) ↔
      (∀ line ∈ above, '\n' ∉ line) ∧ ('\n' ∉ p ∧ '\n' ∉ q) ∧
        ∀ line ∈ below, '\n' ∉ line := by
    rw [lines_split, List.forall_mem_append, List.forall_mem_cons, List.mem_append, not_or]
  refine ⟨fun h ↦ hplain.mp h.plain, fun h ↦ ⟨?_, ?_, hplain.mpr h⟩⟩
  · rw [lines_split, row_split, List.length_append, List.length_cons]
    omega
  · rw [cur_split, col_split, List.length_append]
    omega

/-! ### The cursor's line -/

private theorem lineAfter_cursorAt {a q : List Char} {below : List (List Char)} (hq : '\n' ∉ q) :
    (cursorAt a (q ++ begun below)).lineAfter = q := by
  have hall : ∀ c ∈ q, decide (c ≠ '\n') = true := fun c hc ↦
    decide_eq_true fun he ↦ hq (he ▸ hc)
  unfold FlatText.lineAfter cursorAt
  rw [List.drop_left, List.takeWhile_append_of_pos hall]
  cases below with
  | nil => rw [begun, List.flatMap_nil, List.takeWhile_nil, List.append_nil]
  | cons line below =>
    rw [begun, List.flatMap_cons, List.cons_append, List.takeWhile_cons_of_neg (by decide),
      List.append_nil]

private theorem lineBefore_cursorAt {above : List (List Char)} {p b : List Char} (hp : '\n' ∉ p) :
    (cursorAt (ended above ++ p) b).lineBefore = p := by
  have hall : ∀ c ∈ p.reverse, decide (c ≠ '\n') = true := fun c hc ↦
    decide_eq_true fun he ↦ hp (he ▸ List.mem_reverse.mp hc)
  unfold FlatText.lineBefore cursorAt
  rw [List.take_left, List.reverse_append, List.takeWhile_append_of_pos hall]
  obtain rfl | ⟨above, line, rfl⟩ := above.eq_nil_or_concat'
  · simp [ended]
  · simp [ended, List.takeWhile_cons_of_neg]

/-! ### Edits -/

private theorem moveTo_cursorAt {a b a' b' : List Char} {n : Nat} (h : a ++ b = a' ++ b')
    (hn : n = a'.length) : (cursorAt a b).moveTo n = cursorAt a' b' := by
  rw [FlatText.moveTo, cursorAt, cursorAt, h, hn]

/-- A state is sound, and its text is another one's after an edit. -/
structure Steps (s' : TextAreaState) (f : FlatText) (e : Edit) : Prop where
  sound : s'.Sound
  flat : s'.flat = f.apply isAlphanumeric e

variable {isAlphanumeric} {above below : List (List Char)} {p q : List Char}

/-! ### What a key does to a split state -/

private theorem newline_split :
    (split above p q below).newline = split (above ++ [p]) [] q below := by
  simp only [newline, cur_split, column_split, lines_split, row_split]
  simp [split]

private theorem insert_split (x : List Char) :
    (split above p q below).insert x = split above (p ++ x) q below := by
  simp only [insert, withLine, place, cur_split, column_split, lines_split, row_split]
  simp [split]

private theorem place_split {n : Nat} (h : n ≤ (p ++ q).length) :
    (split above p q below).place above.length n =
      split above ((p ++ q).take n) ((p ++ q).drop n) below := by
  rw [place, split, split, List.take_append_drop, List.length_take_of_le h]

private theorem place_above {line : List Char} {n : Nat} (h : n ≤ line.length) :
    (split (above ++ [line]) p q below).place above.length n =
      split above (line.take n) (line.drop n) ((p ++ q) :: below) := by
  rw [place, split, split, List.take_append_drop, List.length_take_of_le h, List.append_assoc]
  rfl

private theorem place_below {line : List Char} {n : Nat} (h : n ≤ line.length) :
    (split above p q (line :: below)).place (above.length + 1) n =
      split (above ++ [p ++ q]) (line.take n) (line.drop n) below := by
  rw [place, split, split, List.take_append_drop, List.length_take_of_le h, List.append_assoc,
    List.length_append]
  rfl

private theorem above_split (line : List Char) :
    (split (above ++ [line]) p q below).above = line := by
  simp [TextAreaState.above]

private theorem below_split (line : List Char) :
    (split above p q (line :: below)).below = line := by
  simp [TextAreaState.below]

private theorem backspace_first : (split [] [] q below).backspace = split [] [] q below := by
  simp [backspace]

private theorem backspace_join (line : List Char) :
    (split (above ++ [line]) [] q below).backspace = split above line q below := by
  have hdrop : (above ++ [line] ++ ([] ++ q) :: below).drop ((above ++ [line]).length + 1) =
      below := by
    rw [← List.drop_drop, List.drop_left, List.drop_one, List.tail_cons]
  simp only [backspace, cur_split, column_split, lines_split, row_split, above_split, hdrop]
  simp [split]

private theorem backspace_char (c : Char) :
    (split above (p ++ [c]) q below).backspace = split above p q below := by
  simp only [backspace, withLine, place, cur_split, column_split, lines_split, row_split]
  simp [split]

private theorem delete_last : (split above p [] []).delete = split above p [] [] := by
  simp [delete]

private theorem delete_join (line : List Char) :
    (split above p [] (line :: below)).delete = split above p line below := by
  simp only [delete, cur_split, column_split, lines_split, row_split, below_split]
  simp [split]

private theorem delete_char (c : Char) :
    (split above p (c :: q) below).delete = split above p q below := by
  simp only [delete, withLine, place, cur_split, column_split, lines_split, row_split]
  simp [split]

/-! ### What an edit does at the cursor -/

private theorem ended_concat (line : List Char) :
    ended (above ++ [line]) = ended above ++ line ++ ['\n'] := by
  simp [ended]

private theorem begun_cons (line : List Char) :
    begun (line :: below) = '\n' :: (line ++ begun below) := by
  simp [begun]

variable {a b : List Char}

private theorem insert_cursorAt (x : List Char) :
    (cursorAt a b).insert x = cursorAt (a ++ x) b := by
  simp [FlatText.insert, cursorAt]

private theorem apply_backspace_nil :
    (cursorAt [] b).apply isAlphanumeric .backspace = cursorAt [] b := by
  simp [FlatText.apply, cursorAt]

private theorem apply_backspace (c : Char) :
    (cursorAt (a ++ [c]) b).apply isAlphanumeric .backspace = cursorAt a b := by
  simp [FlatText.apply, cursorAt, List.eraseIdx_append_of_length_le]

private theorem apply_delete_nil :
    (cursorAt a []).apply isAlphanumeric .delete = cursorAt a [] := by
  simp [FlatText.apply, cursorAt]

private theorem apply_delete (c : Char) :
    (cursorAt a (c :: b)).apply isAlphanumeric .delete = cursorAt a b := by
  simp [FlatText.apply, cursorAt, List.eraseIdx_append_of_length_le]

private theorem right_nil : (cursorAt a []).right = cursorAt a [] :=
  moveTo_cursorAt rfl (by simp [cursorAt])

/-! ### Steps -/

/-- A split state after an edit is as the flat text there. -/
private theorem steps_of {s' : TextAreaState} {f : FlatText} {e : Edit}
    {above' below' : List (List Char)} {p' q' : List Char}
    (heq : s' = split above' p' q' below') (hs : (split above' p' q' below').Sound)
    (hf : cursorAt (ended above' ++ p') (q' ++ begun below') = f.apply isAlphanumeric e) :
    s'.Steps isAlphanumeric f e :=
  heq ▸ ⟨hs, (flat_split above' p' q' below').trans hf⟩

theorem newline_steps (h : (split above p q below).Sound) :
    (split above p q below).newline.Steps isAlphanumeric (split above p q below).flat
      .newline := by
  obtain ⟨ha, ⟨hp, hq⟩, hb⟩ := sound_split.mp h
  refine steps_of newline_split (sound_split.mpr ⟨?_, ⟨List.not_mem_nil, hq⟩, hb⟩) ?_
  · exact List.forall_mem_append.mpr ⟨ha, List.forall_mem_singleton.mpr hp⟩
  · rw [FlatText.apply, flat_split, insert_cursorAt, ended_concat, List.append_nil]

theorem insert_steps (h : (split above p q below).Sound) {x : List Char} (hx : '\n' ∉ x) :
    ((split above p q below).insert x).Steps isAlphanumeric (split above p q below).flat
      (.insert x) := by
  obtain ⟨ha, ⟨hp, hq⟩, hb⟩ := sound_split.mp h
  refine steps_of (insert_split x) (sound_split.mpr ⟨ha, ⟨?_, hq⟩, hb⟩) ?_
  · rw [List.mem_append]
    exact not_or_intro hp hx
  · rw [FlatText.apply, flat_split, insert_cursorAt, List.append_assoc]

theorem backspace_steps (h : (split above p q below).Sound) :
    (split above p q below).backspace.Steps isAlphanumeric (split above p q below).flat
      .backspace := by
  obtain ⟨ha, ⟨hp, hq⟩, hb⟩ := sound_split.mp h
  rw [flat_split]
  obtain rfl | ⟨p, c, rfl⟩ := p.eq_nil_or_concat'
  · obtain rfl | ⟨above, line, rfl⟩ := above.eq_nil_or_concat'
    · exact steps_of backspace_first h apply_backspace_nil.symm
    · -- the line is joined with the one above
      rw [List.forall_mem_append, List.forall_mem_singleton] at ha
      refine steps_of (backspace_join line)
        (sound_split.mpr ⟨ha.1, ⟨ha.2, hq⟩, hb⟩) ?_
      rw [List.append_nil, ended_concat, apply_backspace]
  · rw [List.mem_append, not_or] at hp
    refine steps_of (backspace_char c) (sound_split.mpr ⟨ha, ⟨hp.1, hq⟩, hb⟩) ?_
    rw [← List.append_assoc, apply_backspace]

theorem delete_steps (h : (split above p q below).Sound) :
    (split above p q below).delete.Steps isAlphanumeric (split above p q below).flat
      .delete := by
  obtain ⟨ha, ⟨hp, hq⟩, hb⟩ := sound_split.mp h
  rw [flat_split]
  cases q with
  | nil =>
    cases below with
    | nil => exact steps_of delete_last h apply_delete_nil.symm
    | cons line below =>
      rw [List.forall_mem_cons] at hb
      refine steps_of (delete_join line) (sound_split.mpr ⟨ha, ⟨hp, hb.1⟩, hb.2⟩) ?_
      rw [List.nil_append, begun_cons, apply_delete]
  | cons c q =>
    rw [List.mem_cons, not_or] at hq
    refine steps_of (delete_char c) (sound_split.mpr ⟨ha, ⟨hp, hq.2⟩, hb⟩) ?_
    rw [List.cons_append, apply_delete]

/-- A place in the cursor's line, at `n` characters of it. -/
private theorem steps_place (h : (split above p q below).Sound) {n m : Nat}
    (hn : n ≤ (p ++ q).length) {e : Edit}
    (he : (split above p q below).flat.apply isAlphanumeric e =
      (split above p q below).flat.moveTo m)
    (hm : m = (ended above).length + n) :
    ((split above p q below).place above.length n).Steps isAlphanumeric
      (split above p q below).flat e := by
  obtain ⟨ha, ⟨hp, hq⟩, hb⟩ := sound_split.mp h
  have hpq : '\n' ∉ p ++ q := by
    rw [List.mem_append]
    exact not_or_intro hp hq
  refine steps_of (place_split hn) (sound_split.mpr ⟨ha, ⟨?_, ?_⟩, hb⟩) ?_
  · exact fun hc ↦ hpq (List.mem_of_mem_take hc)
  · exact fun hc ↦ hpq (List.mem_of_mem_drop hc)
  · rw [he, flat_split]
    refine (moveTo_cursorAt ?_ ?_).symm
    · rw [List.append_assoc, List.append_assoc, ← List.append_assoc p,
        ← List.append_assoc ((p ++ q).take n), List.take_append_drop]
    · rw [hm, List.length_append, List.length_take_of_le hn]

/-- A place in the line above, at `n` characters of it. -/
private theorem steps_above {line : List Char} (h : (split (above ++ [line]) p q below).Sound)
    {n m : Nat} (hn : n ≤ line.length) {e : Edit}
    (he : (split (above ++ [line]) p q below).flat.apply isAlphanumeric e =
      (split (above ++ [line]) p q below).flat.moveTo m)
    (hm : m = (ended above).length + n) :
    ((split (above ++ [line]) p q below).place above.length n).Steps isAlphanumeric
      (split (above ++ [line]) p q below).flat e := by
  obtain ⟨ha, ⟨hp, hq⟩, hb⟩ := sound_split.mp h
  rw [List.forall_mem_append, List.forall_mem_singleton] at ha
  have hpq : '\n' ∉ p ++ q := by
    rw [List.mem_append]
    exact not_or_intro hp hq
  refine steps_of (place_above hn) (sound_split.mpr ⟨ha.1, ⟨?_, ?_⟩, ?_⟩) ?_
  · exact fun hc ↦ ha.2 (List.mem_of_mem_take hc)
  · exact fun hc ↦ ha.2 (List.mem_of_mem_drop hc)
  · exact List.forall_mem_cons.mpr ⟨hpq, hb⟩
  · rw [he, flat_split]
    refine (moveTo_cursorAt ?_ ?_).symm
    · rw [List.append_assoc _ (line.take n), ← List.append_assoc (line.take n),
        List.take_append_drop, ended_concat, begun_cons]
      simp only [List.append_assoc, List.cons_append, List.nil_append]
    · rw [hm, List.length_append, List.length_take_of_le hn]

/-- A place in the line below, at `n` characters of it. -/
private theorem steps_below {line : List Char} (h : (split above p q (line :: below)).Sound)
    {n m : Nat} (hn : n ≤ line.length) {e : Edit}
    (he : (split above p q (line :: below)).flat.apply isAlphanumeric e =
      (split above p q (line :: below)).flat.moveTo m)
    (hm : m = (ended above ++ p).length + q.length + 1 + n) :
    ((split above p q (line :: below)).place (above.length + 1) n).Steps isAlphanumeric
      (split above p q (line :: below)).flat e := by
  obtain ⟨ha, ⟨hp, hq⟩, hb⟩ := sound_split.mp h
  rw [List.forall_mem_cons] at hb
  have hpq : '\n' ∉ p ++ q := by
    rw [List.mem_append]
    exact not_or_intro hp hq
  refine steps_of (place_below hn) (sound_split.mpr ⟨?_, ⟨?_, ?_⟩, hb.2⟩) ?_
  · exact List.forall_mem_append.mpr ⟨ha, List.forall_mem_singleton.mpr hpq⟩
  · exact fun hc ↦ hb.1 (List.mem_of_mem_take hc)
  · exact fun hc ↦ hb.1 (List.mem_of_mem_drop hc)
  · rw [he, flat_split]
    refine (moveTo_cursorAt ?_ ?_).symm
    · rw [List.append_assoc _ (line.take n), ← List.append_assoc (line.take n),
        List.take_append_drop, ended_concat, begun_cons]
      simp only [List.append_assoc, List.cons_append, List.nil_append]
    · rw [hm, ended_concat]
      simp only [List.length_append, List.length_take_of_le hn, List.length_singleton]
      omega

/-! ### Movements -/

private theorem cursor_flat_split :
    (split above p q below).flat.cursor = (ended above).length + p.length := by
  rw [flat_split, cursorAt, List.length_append]

private theorem lineBefore_split (h : (split above p q below).Sound) :
    (split above p q below).flat.lineBefore = p := by
  rw [flat_split, lineBefore_cursorAt (sound_split.mp h).2.1.1]

private theorem lineAfter_split (h : (split above p q below).Sound) :
    (split above p q below).flat.lineAfter = q := by
  rw [flat_split, lineAfter_cursorAt (sound_split.mp h).2.1.2]

theorem home_steps (h : (split above p q below).Sound) :
    ((split above p q below).place above.length 0).Steps isAlphanumeric
      (split above p q below).flat .home := by
  refine steps_place h (Nat.zero_le _) rfl ?_
  rw [lineBefore_split h, cursor_flat_split]
  omega

theorem stop_steps (h : (split above p q below).Sound) :
    ((split above p q below).place above.length (p ++ q).length).Steps isAlphanumeric
      (split above p q below).flat .stop := by
  refine steps_place h le_rfl rfl ?_
  rw [lineAfter_split h, cursor_flat_split, List.length_append]
  omega

/-- Leftwards, from the start of a line, is to the end of the line above. -/
private theorem leftTo_steps (h : (split above p q below).Sound) {col : Nat} {e : Edit}
    (hchar : 0 < p.length → ((split above p q below).place above.length col).Steps isAlphanumeric
      (split above p q below).flat e)
    (hline : p = [] → (split above p q below).flat.apply isAlphanumeric e =
      (split above p q below).flat.moveTo ((split above p q below).flat.cursor - 1)) :
    ((split above p q below).leftTo col).Steps isAlphanumeric (split above p q below).flat e := by
  unfold leftTo
  rw [column_split, row_split]
  split
  · next hp => exact hchar hp
  · next hp =>
    obtain rfl := List.eq_nil_of_length_eq_zero (Nat.eq_zero_of_not_pos hp)
    obtain rfl | ⟨above, line, rfl⟩ := above.eq_nil_or_concat'
    · rw [if_neg (by simp)]
      refine ⟨h, ?_⟩
      rw [hline rfl, cursor_flat_split]
      rfl
    · rw [if_pos (by simp), above_split, List.length_append, List.length_singleton,
        Nat.add_sub_cancel]
      rw [cursor_flat_split, ended_concat] at hline
      refine steps_above h le_rfl (hline rfl) ?_
      simp

/-- Rightwards, from the end of a line, is to the start of the line below. -/
private theorem rightTo_steps (h : (split above p q below).Sound) {col : Nat} {e : Edit}
    (hchar : 0 < q.length → ((split above p q below).place above.length col).Steps isAlphanumeric
      (split above p q below).flat e)
    (hline : q = [] → (split above p q below).flat.apply isAlphanumeric e =
      (split above p q below).flat.right) :
    ((split above p q below).rightTo col).Steps isAlphanumeric (split above p q below).flat e := by
  unfold rightTo
  rw [column_split, row_split, cur_split, lines_split]
  split
  · next hq =>
    rw [List.length_append] at hq
    exact hchar (by omega)
  · next hq =>
    have hnil : q = [] := by
      rw [List.length_append] at hq
      exact List.eq_nil_of_length_eq_zero (by omega)
    subst hnil
    cases below with
    | nil =>
      rw [if_neg (by simp)]
      refine ⟨h, ?_⟩
      rw [hline rfl, flat_split, begun, List.flatMap_nil, List.append_nil, right_nil]
    | cons line below =>
      rw [if_pos (by simp)]
      refine steps_below h (Nat.zero_le _) (hline rfl) ?_
      simp [flat_split, cursorAt, begun_cons]

theorem left_steps (h : (split above p q below).Sound) :
    ((split above p q below).leftTo (p.length - 1)).Steps isAlphanumeric
      (split above p q below).flat .left := by
  refine leftTo_steps h (fun hp ↦ ?_) (fun _ ↦ rfl)
  refine steps_place h ?_ rfl ?_
  · rw [List.length_append]
    omega
  · rw [cursor_flat_split]
    omega

theorem right_steps (h : (split above p q below).Sound) :
    ((split above p q below).rightTo (p.length + 1)).Steps isAlphanumeric
      (split above p q below).flat .right := by
  refine rightTo_steps h (fun hq ↦ ?_) (fun _ ↦ rfl)
  refine steps_place h ?_ rfl ?_
  · rw [List.length_append]
    omega
  · rw [flat_split]
    simp only [cursorAt, List.length_append]
    omega

private theorem prevWordBoundary_le (text : List Char) (pos : Nat) :
    prevWordBoundary isAlphanumeric text pos ≤ min pos text.length := by
  have hle : ∀ l : List Char,
      ((l.dropWhile (!isWordChar isAlphanumeric ·)).dropWhile
        (isWordChar isAlphanumeric)).length ≤ l.length := fun l ↦
    ((List.dropWhile_suffix _).trans (List.dropWhile_suffix _)).length_le
  refine (hle _).trans_eq ?_
  rw [List.length_reverse, List.length_take]

private theorem nextWordBoundary_append :
    nextWordBoundary isAlphanumeric (p ++ q) p.length =
      p.length + nextWordBoundary isAlphanumeric q 0 := by
  have hle : ((q.dropWhile (!isWordChar isAlphanumeric ·)).dropWhile
      (isWordChar isAlphanumeric)).length ≤ q.length :=
    ((List.dropWhile_suffix _).trans (List.dropWhile_suffix _)).length_le
  unfold nextWordBoundary
  rw [List.drop_left, List.drop_zero, List.length_append]
  dsimp only
  omega

private theorem prevWordBoundary_append :
    prevWordBoundary isAlphanumeric (p ++ q) p.length =
      prevWordBoundary isAlphanumeric p p.length := by
  unfold prevWordBoundary
  rw [List.take_left, List.take_length]

theorem wordBack_steps (h : (split above p q below).Sound) {e : Edit}
    (he : (split above p q below).flat.apply isAlphanumeric e =
      (split above p q below).flat.wordBack isAlphanumeric) :
    ((split above p q below).place above.length
      (prevWordBoundary isAlphanumeric (p ++ q) p.length)).Steps isAlphanumeric
      (split above p q below).flat e := by
  have hle : prevWordBoundary isAlphanumeric p p.length ≤ min p.length p.length :=
    prevWordBoundary_le p p.length
  rw [prevWordBoundary_append]
  refine steps_place h ?_ he ?_
  · rw [List.length_append]
    omega
  · rw [lineBefore_split h, cursor_flat_split, Nat.add_sub_cancel]

theorem wordForward_steps (h : (split above p q below).Sound) {e : Edit}
    (he : (split above p q below).flat.apply isAlphanumeric e =
      (split above p q below).flat.wordForward isAlphanumeric) :
    ((split above p q below).place above.length
      (nextWordBoundary isAlphanumeric (p ++ q) p.length)).Steps isAlphanumeric
      (split above p q below).flat e := by
  have hle : nextWordBoundary isAlphanumeric q 0 ≤ q.length := Nat.sub_le _ _
  rw [nextWordBoundary_append]
  refine steps_place h ?_ he ?_
  · rw [List.length_append]
    omega
  · rw [lineAfter_split h, cursor_flat_split, Nat.add_assoc]

theorem wordLeft_steps (h : (split above p q below).Sound) :
    ((split above p q below).leftTo (prevWordBoundary isAlphanumeric (p ++ q) p.length)).Steps
      isAlphanumeric (split above p q below).flat .wordLeft := by
  refine leftTo_steps h (fun hp ↦ wordBack_steps h ?_) (fun hp ↦ ?_)
  · exact if_neg (by rw [lineBefore_split h]; exact List.ne_nil_of_length_pos hp)
  · exact if_pos ((lineBefore_split h).trans hp)

theorem wordRight_steps (h : (split above p q below).Sound) :
    ((split above p q below).rightTo (nextWordBoundary isAlphanumeric (p ++ q) p.length)).Steps
      isAlphanumeric (split above p q below).flat .wordRight := by
  refine rightTo_steps h (fun hq ↦ wordForward_steps h ?_) (fun hq ↦ ?_)
  · exact if_neg (by rw [lineAfter_split h]; exact List.ne_nil_of_length_pos hq)
  · exact if_pos ((lineAfter_split h).trans hq)

theorem up_steps (h : (split above p q below).Sound) :
    (split above p q below).up.Steps isAlphanumeric (split above p q below).flat .up := by
  unfold up
  rw [row_split, column_split]
  obtain rfl | ⟨above, line, rfl⟩ := above.eq_nil_or_concat'
  · rw [if_pos List.length_nil]
    refine ⟨h, ?_⟩
    have hstart : (split [] p q below).flat.cursor -
        (split [] p q below).flat.lineBefore.length = 0 := by
      rw [lineBefore_split h, cursor_flat_split, ended, List.flatMap_nil, List.length_nil]
      omega
    exact (if_pos hstart).symm
  · -- the line above ends one character before the cursor's line starts
    have hline : '\n' ∉ line := (sound_split.mp h).1 line (by simp)
    have hstart : (split (above ++ [line]) p q below).flat.cursor -
        (split (above ++ [line]) p q below).flat.lineBefore.length =
          (ended above).length + line.length + 1 := by
      rw [lineBefore_split h, cursor_flat_split, Nat.add_sub_cancel, ended_concat,
        List.length_append, List.length_append, List.length_singleton]
    have habove : ((split (above ++ [line]) p q below).flat.moveTo
        ((ended above).length + line.length)).lineBefore = line := by
      have hmove : (split (above ++ [line]) p q below).flat.moveTo
          ((ended above).length + line.length) =
            cursorAt (ended above ++ line) ('\n' :: (p ++ (q ++ begun below))) := by
        rw [flat_split, ended_concat]
        exact moveTo_cursorAt (by simp) (by simp)
      rw [hmove, lineBefore_cursorAt hline]
    rw [if_neg (by simp), above_split, List.length_append, List.length_singleton,
      Nat.add_sub_cancel]
    refine steps_above h (Nat.min_le_right _ _) ?_ rfl
    show (split (above ++ [line]) p q below).flat.up = _
    unfold FlatText.up
    rw [hstart, if_neg (Nat.succ_ne_zero _), Nat.add_sub_cancel, habove, lineBefore_split h]
    dsimp only
    rw [Nat.add_sub_cancel]

theorem down_steps (h : (split above p q below).Sound) :
    (split above p q below).down.Steps isAlphanumeric (split above p q below).flat .down := by
  have hstop : (split above p q below).flat.cursor +
      (split above p q below).flat.lineAfter.length = (ended above ++ p).length + q.length := by
    rw [lineAfter_split h, cursor_flat_split, List.length_append]
  have htext : (split above p q below).flat.text.length =
      (ended above ++ p).length + q.length + (begun below).length := by
    rw [flat_split, cursorAt]
    simp only [List.length_append, Nat.add_assoc]
  unfold down
  rw [row_split, column_split, lines_split]
  cases below with
  | nil =>
    rw [if_pos (by simp)]
    refine ⟨h, (if_pos ?_).symm⟩
    rw [hstop, htext]
    rfl
  | cons line below =>
    -- the line below starts one character after the cursor's line ends
    have hline : '\n' ∉ line := (sound_split.mp h).2.2 line List.mem_cons_self
    have hbelow : ((split above p q (line :: below)).flat.moveTo
        ((ended above ++ p).length + q.length + 1)).lineAfter = line := by
      have hmove : (split above p q (line :: below)).flat.moveTo
          ((ended above ++ p).length + q.length + 1) =
            cursorAt (ended above ++ (p ++ (q ++ ['\n']))) (line ++ begun below) := by
        rw [flat_split, begun_cons]
        exact moveTo_cursorAt (by simp) (by simp; omega)
      rw [hmove, lineAfter_cursorAt hline]
    have hne : ¬(ended above ++ p).length + q.length =
        (split above p q (line :: below)).flat.text.length := by
      rw [htext, begun_cons, List.length_cons]
      omega
    rw [if_neg (by simp), below_split]
    refine steps_below h (Nat.min_le_right _ _) ?_ rfl
    show (split above p q (line :: below)).flat.down = _
    unfold FlatText.down
    rw [hstop, if_neg hne, hbelow, lineBefore_split h]

variable (isAlphanumeric) in
/-- A state after an edit. -/
def edited (s : TextAreaState) : Edit → TextAreaState
  | .newline => s.newline
  | .insert x => s.insert x
  | .backspace => s.backspace
  | .delete => s.delete
  | .left => s.leftTo (s.column - 1)
  | .right => s.rightTo (s.column + 1)
  | .wordLeft => s.leftTo (prevWordBoundary isAlphanumeric s.cur s.column)
  | .wordRight => s.rightTo (nextWordBoundary isAlphanumeric s.cur s.column)
  | .wordBack => s.place s.row (prevWordBoundary isAlphanumeric s.cur s.column)
  | .wordForward => s.place s.row (nextWordBoundary isAlphanumeric s.cur s.column)
  | .up => s.up
  | .down => s.down
  | .home => s.place s.row 0
  | .stop => s.place s.row s.cur.length

end TextAreaState

/-! ### Keys -/

/-- A key does the edit that it asks for. -/
theorem applyTextAreaKey_eq (s : TextAreaState) (key : KeyEvent) :
    applyTextAreaKey isAlphanumeric s key = (editOf key).map (s.edited isAlphanumeric) := by
  unfold applyTextAreaKey editOf
  dsimp only
  simp only [apply_ite (Option.map (s.edited isAlphanumeric)), Option.map_some,
    Option.map_none, TextAreaState.edited]
  cases key.alt <;> cases key.char <;> simp [TextAreaState.edited]

/-- A key that types a text with a newline in it into a line. -/
def TypesNewline (key : KeyEvent) : Prop := ∃ x, editOf key = some (.insert x) ∧ '\n' ∈ x

/-- A key is left to the caller, or it is an edit of the plain text. -/
def ActsFlat (s : TextAreaState) (key : KeyEvent) : Prop :=
  (applyTextAreaKey isAlphanumeric s key).map TextAreaState.flat =
    (editOf key).map (s.flat.apply isAlphanumeric)

/-- What a state promises: it is sound, its text gives its lines again, and every key is an edit
of that text. -/
structure RefinesFlat (s : TextAreaState) : Prop where
  sound : s.Sound
  rebuilt : (TextAreaState.new s.text).lines = s.lines
  keys : ∀ key, ActsFlat isAlphanumeric s key

namespace TextAreaState

variable {isAlphanumeric} {s : TextAreaState}

theorem insert_flat (h : s.Sound) (x : List Char) :
    (s.insert x).flat = s.flat.apply isAlphanumeric (.insert x) := by
  obtain ⟨above, p, q, below, rfl⟩ := h.exists_split
  rw [insert_split, flat_split, flat_split, FlatText.apply, insert_cursorAt, List.append_assoc]

theorem insert_sound_iff (h : s.Sound) (x : List Char) : (s.insert x).Sound ↔ '\n' ∉ x := by
  obtain ⟨above, p, q, below, rfl⟩ := h.exists_split
  obtain ⟨ha, ⟨hp, hq⟩, hb⟩ := sound_split.mp h
  rw [insert_split, sound_split, List.mem_append, not_or]
  exact ⟨fun hs ↦ hs.2.1.1.2, fun hx ↦ ⟨ha, ⟨⟨hp, hx⟩, hq⟩, hb⟩⟩

/-- An edit that types no newline into a line keeps a state sound, and is an edit of its text. -/
theorem edited_steps (h : s.Sound) {e : Edit} (hx : ∀ x, e = .insert x → '\n' ∉ x) :
    (s.edited isAlphanumeric e).Steps isAlphanumeric s.flat e := by
  obtain ⟨above, p, q, below, rfl⟩ := h.exists_split
  unfold edited
  rw [cur_split, column_split]
  cases e with
  | newline => exact newline_steps h
  | insert x => exact insert_steps h (hx x rfl)
  | backspace => exact backspace_steps h
  | delete => exact delete_steps h
  | left => exact left_steps h
  | right => exact right_steps h
  | wordLeft => exact wordLeft_steps h
  | wordRight => exact wordRight_steps h
  | wordBack => exact wordBack_steps h rfl
  | wordForward => exact wordForward_steps h rfl
  | up => exact up_steps h
  | down => exact down_steps h
  | home => exact home_steps h
  | stop => exact stop_steps h

theorem edited_flat (h : s.Sound) (e : Edit) :
    (s.edited isAlphanumeric e).flat = s.flat.apply isAlphanumeric e := by
  by_cases hx : ∀ x, e = .insert x → '\n' ∉ x
  · exact (edited_steps h hx).flat
  · obtain ⟨x, rfl⟩ : ∃ x, e = .insert x := by
      by_contra hne
      exact hx fun x he ↦ absurd ⟨x, he⟩ hne
    exact insert_flat h x

theorem edited_sound_iff (h : s.Sound) (e : Edit) :
    (s.edited isAlphanumeric e).Sound ↔ ∀ x, e = .insert x → '\n' ∉ x := by
  refine ⟨fun hs x he ↦ ?_, fun hx ↦ (edited_steps h hx).sound⟩
  subst he
  exact (insert_sound_iff h x).mp hs

/-- A sound state promises what a state promises. -/
theorem Sound.refinesFlat (h : s.Sound) : RefinesFlat isAlphanumeric s := by
  have hne : s.lines ≠ [] := List.ne_nil_of_length_pos (Nat.zero_lt_of_lt h.row)
  refine ⟨h, ?_, fun key ↦ ?_⟩
  · have hsplit : s.text.splitOn '\n' = s.lines := List.splitOn_intercalate '\n' h.plain hne
    unfold new
    dsimp only
    split
    · next hempty =>
      rw [← hsplit, List.isEmpty_iff.mp hempty]
      rfl
    · exact hsplit
  · unfold ActsFlat
    rw [applyTextAreaKey_eq, Option.map_map]
    congr 1
    exact funext (edited_flat h)

variable (isAlphanumeric) in
/-- After a key a sound state is sound, unless the key types a newline into a line. -/
theorem Sound.key_iff (h : s.Sound) (key : KeyEvent) :
    ((applyTextAreaKey isAlphanumeric s key).getD s).Sound ↔ ¬TypesNewline key := by
  rw [applyTextAreaKey_eq]
  unfold TypesNewline
  cases editOf key with
  | none => exact iff_of_true h (by rintro ⟨x, hx, -⟩; nomatch hx)
  | some e =>
    refine (edited_sound_iff h e).trans ?_
    simp only [Option.some.injEq, not_exists, not_and]

theorem new_sound (initial : List Char) : (new initial).Sound := by
  unfold new
  split
  · exact ⟨Nat.one_pos, Nat.zero_le _, by simp⟩
  · refine ⟨?_, Nat.zero_le _, fun line hline ↦ Lib.not_mem_of_mem_splitOn line hline⟩
    exact List.length_pos_iff.mpr (List.splitOn_ne_nil '\n' initial)

variable (isAlphanumeric) in
/-- A run from a sound state is sound throughout, unless a key types a newline into a line. -/
theorem Sound.run_iff (h : s.Sound) (keys : List KeyEvent) :
    (∀ before, before <+: keys → (applyTextAreaKeys isAlphanumeric s before).Sound) ↔
      ∀ key ∈ keys, ¬TypesNewline key := by
  induction keys generalizing s with
  | nil =>
    refine iff_of_true (fun before hbefore ↦ ?_) (by simp)
    rwa [List.prefix_nil.mp hbefore]
  | cons key keys ih =>
    rw [List.forall_mem_cons, ← h.key_iff isAlphanumeric key]
    constructor
    · intro hall
      have hkey := hall [key] (by simp)
      exact ⟨hkey, (ih hkey).mp fun before hbefore ↦
        hall (key :: before) (List.cons_prefix_cons.mpr ⟨rfl, hbefore⟩)⟩
    · intro hkeys before hbefore
      cases before with
      | nil => exact h
      | cons key' before =>
        obtain ⟨rfl, hrest⟩ := List.cons_prefix_cons.mp hbefore
        exact (ih hkeys.1).mpr hkeys.2 before hrest

end TextAreaState

/-- Throughout a run the composer refines the plain text, unless a key of the run types a text
with a newline in it. -/
theorem refinesFlat_iff (initial : List Char) (keys : List KeyEvent) :
    (∀ before, before <+: keys → RefinesFlat isAlphanumeric
      (applyTextAreaKeys isAlphanumeric (TextAreaState.new initial) before)) ↔
        ∀ key ∈ keys, ¬TypesNewline key := by
  rw [← (TextAreaState.new_sound initial).run_iff isAlphanumeric keys]
  exact forall₂_congr fun before _ ↦ ⟨fun h ↦ h.sound, fun h ↦ h.refinesFlat⟩

/-- The kitty key of a line feed goes into the line. -/
theorem refinesFlat_refuted :
    applyTextAreaKeys (fun c ↦ c.isAlphanum) (TextAreaState.new [])
      [Keys.PtyTui.kittyKey 10 false false false] = { lines := [['\n']], row := 0, col := 1 } ∧
    (TextAreaState.new ['\n']).lines = [[], []] ∧
    ¬∀ initial keys, RefinesFlat (fun c ↦ c.isAlphanum)
      (applyTextAreaKeys (fun c ↦ c.isAlphanum) (TextAreaState.new initial) keys) := by
  have hrun : applyTextAreaKeys (fun c ↦ c.isAlphanum) (TextAreaState.new [])
      [Keys.PtyTui.kittyKey 10 false false false] = { lines := [['\n']], row := 0, col := 1 } := by
    decide
  refine ⟨hrun, by decide, fun h ↦ ?_⟩
  have hplain := (h [] [Keys.PtyTui.kittyKey 10 false false false]).sound.plain
  rw [hrun] at hplain
  exact hplain ['\n'] (by simp) (by simp)

end PtySpec.Tui
