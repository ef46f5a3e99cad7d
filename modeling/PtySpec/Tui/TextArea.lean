import Mathlib.Data.List.Basic
import PtySpec.Keys.Tui

/-!
# The multi-line composer

Model of `TextAreaState` and `apply_text_area_key`, `crates/pty-tui/src/widgets/text_area.rs`, and
of the word boundaries of `crates/pty-tui/src/line_edit.rs`. What is alphanumeric is a parameter.
The rows that the source indexes exist in every reachable state.
-/

namespace PtySpec.Tui

open Keys (KeyEvent)

/-! ### Word boundaries -/

section

variable (isAlphanumeric : Char → Bool)

/-- `is_word_char`, `line_edit.rs:57`. -/
def isWordChar (c : Char) : Bool := isAlphanumeric c || c == '_'

/-- `prev_word_boundary`, `line_edit.rs:63`, over the characters before `pos`, the last one
first. -/
def prevWordBoundary (text : List Char) (pos : Nat) : Nat :=
  let before := (text.take pos).reverse
  ((before.dropWhile (!isWordChar isAlphanumeric ·)).dropWhile (isWordChar isAlphanumeric)).length

/-- `next_word_boundary`, `line_edit.rs:77`, over the characters from `pos` on. -/
def nextWordBoundary (text : List Char) (pos : Nat) : Nat :=
  let after := text.drop pos
  text.length -
    ((after.dropWhile (!isWordChar isAlphanumeric ·)).dropWhile (isWordChar isAlphanumeric)).length

end

/-! ### `TextAreaState` -/

/-- `TextAreaState`, `text_area.rs:17`. -/
structure TextAreaState where
  lines : List (List Char)
  row : Nat
  col : Nat
deriving DecidableEq, Repr

namespace TextAreaState

/-- `TextAreaState::new`, `text_area.rs:36`. -/
def new (initial : List Char) : TextAreaState where
  lines := if initial.isEmpty then [[]] else initial.splitOn '\n'
  row := 0
  col := 0

/-- `text`, `text_area.rs:50`. -/
def text (s : TextAreaState) : List Char := ['\n'].intercalate s.lines

/-- `with_line`, `text_area.rs:54`. -/
def withLine (s : TextAreaState) (line : List Char) : TextAreaState :=
  { s with lines := s.lines.set s.row line }

/-- `at`, `text_area.rs:63`. -/
def place (s : TextAreaState) (row col : Nat) : TextAreaState := { s with row, col }

/-- The line of the cursor, `text_area.rs:88`. -/
def cur (s : TextAreaState) : List Char := s.lines[s.row]?.getD []

/-- The column of the cursor in its line, `text_area.rs:90`. -/
def column (s : TextAreaState) : Nat := min s.col s.cur.length

/-- The line above, where there is one. -/
def above (s : TextAreaState) : List Char := s.lines[s.row - 1]?.getD []

/-- The line below, where there is one. -/
def below (s : TextAreaState) : List Char := s.lines[s.row + 1]?.getD []

/-- `return`, `text_area.rs:91-103`. -/
def newline (s : TextAreaState) : TextAreaState where
  lines := s.lines.take s.row ++ [s.cur.take s.column] ++ [s.cur.drop s.column] ++
    s.lines.drop (s.row + 1)
  row := s.row + 1
  col := 0

/-- `backspace`, `text_area.rs:104-122`. -/
def backspace (s : TextAreaState) : TextAreaState :=
  if s.column = 0 then
    if s.row = 0 then s
    else
      { lines := s.lines.take (s.row - 1) ++ [s.above ++ s.cur] ++ s.lines.drop (s.row + 1)
        row := s.row - 1
        col := s.above.length }
  else
    (s.withLine (s.cur.take (s.column - 1) ++ s.cur.drop s.column)).place s.row (s.column - 1)

/-- `delete`, `text_area.rs:123-139`. -/
def delete (s : TextAreaState) : TextAreaState :=
  if s.cur.length ≤ s.column then
    if s.lines.length ≤ s.row + 1 then s
    else
      { lines := s.lines.take s.row ++ [s.cur ++ s.below] ++ s.lines.drop (s.row + 2)
        row := s.row
        col := s.column }
  else
    (s.withLine (s.cur.take s.column ++ s.cur.drop (s.column + 1))).place s.row s.column

/-- `left`, to `col` where there is a character before the cursor, `text_area.rs:140-157`. -/
def leftTo (s : TextAreaState) (col : Nat) : TextAreaState :=
  if 0 < s.column then s.place s.row col
  else if 0 < s.row then s.place (s.row - 1) s.above.length
  else s

/-- `right`, to `col` where there is a character after the cursor, `text_area.rs:158-175`. -/
def rightTo (s : TextAreaState) (col : Nat) : TextAreaState :=
  if s.column < s.cur.length then s.place s.row col
  else if s.row + 1 < s.lines.length then s.place (s.row + 1) 0
  else s

/-- `up`, `text_area.rs:183-189`. -/
def up (s : TextAreaState) : TextAreaState :=
  if s.row = 0 then s else s.place (s.row - 1) (min s.column s.above.length)

/-- `down`, `text_area.rs:190-196`. -/
def down (s : TextAreaState) : TextAreaState :=
  if s.lines.length ≤ s.row + 1 then s else s.place (s.row + 1) (min s.column s.below.length)

/-- The text of a key, `text_area.rs:203-210`. -/
def insert (s : TextAreaState) (ch : List Char) : TextAreaState :=
  (s.withLine (s.cur.take s.column ++ ch ++ s.cur.drop s.column)).place s.row
    (s.column + ch.length)

end TextAreaState

variable (isAlphanumeric : Char → Bool)

/-- `apply_text_area_key`, `text_area.rs:80`. -/
def applyTextAreaKey (s : TextAreaState) (key : KeyEvent) : Option TextAreaState :=
  let name := key.name
  let ch := key.char
  if name = "tab" ∨ name = "backtab" ∨ name = "escape" then none
  else if name = "return" ∧ key.ctrl then none
  else if name = "return" then some s.newline
  else if name = "backspace" then some s.backspace
  else if name = "delete" then some s.delete
  else if name = "left" then
    some (s.leftTo (if key.alt then prevWordBoundary isAlphanumeric s.cur s.column
      else s.column - 1))
  else if name = "right" then
    some (s.rightTo (if key.alt then nextWordBoundary isAlphanumeric s.cur s.column
      else s.column + 1))
  else if key.alt ∧ ch = some "b" then
    some (s.place s.row (prevWordBoundary isAlphanumeric s.cur s.column))
  else if key.alt ∧ ch = some "f" then
    some (s.place s.row (nextWordBoundary isAlphanumeric s.cur s.column))
  else if name = "up" then some s.up
  else if name = "down" then some s.down
  else if name = "home" ∨ (name = "a" ∧ key.ctrl) then some (s.place s.row 0)
  else if name = "end" ∨ (name = "e" ∧ key.ctrl) then some (s.place s.row s.cur.length)
  else
    match ch with
    | some ch => if ch ≠ "" ∧ ¬key.ctrl ∧ ¬key.alt then some (s.insert ch.toList) else none
    | none => none

/-- The state after keys; a key that is left to the caller changes nothing. -/
def applyTextAreaKeys (s : TextAreaState) (keys : List KeyEvent) : TextAreaState :=
  keys.foldl (fun s key ↦ (applyTextAreaKey isAlphanumeric s key).getD s) s

end PtySpec.Tui
