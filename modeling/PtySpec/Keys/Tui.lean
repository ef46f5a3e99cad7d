import PtySpec.Keys.Text

/-!
# The decoder of pty-tui

Model of `parse_input`, `crates/pty-tui/src/input.rs:225`. A branch of the loop tells its events
and the next index, or it falls through to the branch after it.
-/

namespace PtySpec.Keys.PtyTui

/-- `InputEvent` with its coordinates in a `u16`. -/
abbrev Event := InputEvent Nat

/-- The events of a step and the index of the next one. -/
abbrev Taken := List Event × Nat

/-- `KeyEvent::named`, `input.rs:32`. -/
def namedKey (name : String) : KeyEvent :=
  { name, char := none, ctrl := false, alt := false, shift := false }

/-- `KeyEvent::printable`, `input.rs:40`. -/
def printableKey (ch : String) : KeyEvent :=
  { name := ch, char := some ch, ctrl := false, alt := false, shift := false }

/-- `KeyEvent::ctrl`, `input.rs:49`. -/
def ctrlKey (letter : String) : KeyEvent :=
  { name := letter, char := none, ctrl := true, alt := false, shift := false }

/-- `KeyEvent::alt`, `input.rs:58`. -/
def altKey (ch : String) : KeyEvent :=
  { name := ch, char := some ch, ctrl := false, alt := true, shift := false }

/-- `KeyEvent::with_shift`, `input.rs:77`. -/
def withShift (key : KeyEvent) : KeyEvent := { key with shift := true }

/-- `decode_mouse`, `input.rs:149`. -/
def decodeMouse (code x y : Nat) (release : Bool) : MouseEvent Nat :=
  let shift := (code &&& 0x04) != 0
  let alt := (code &&& 0x08) != 0
  let ctrl := (code &&& 0x10) != 0
  let motion := (code &&& 0x20) != 0
  let wheel := (code &&& 0x40) != 0
  let low := code &&& 0x03
  let x := min (x - 1) 65535
  let y := min (y - 1) 65535
  let mods (action : MouseAction) (button : MouseButton) : MouseEvent Nat :=
    { action, button, x, y, ctrl, alt, shift }
  if wheel then mods (if low = 0 then .scrollUp else .scrollDown) .none
  else
    let button : MouseButton :=
      match low with
      | 0 => .left
      | 1 => .middle
      | 2 => .right
      | _ => .none
    if release then mods .release button
    else if motion then mods (if button = .none then .move else .drag) button
    else mods .press button

/-- `kitty_mods`, `input.rs:195`. -/
def kittyMods (wire : Option Nat) : Bool × Bool × Bool := modifierBits (wire.getD 1 - 1)

/-- `a - b` of `u32`. -/
def subU32 (a b : Nat) : Except Fault Nat := if b ≤ a then .ok (a - b) else .error .overflow

/-- The loop of `digits` over the rest of the text, with its value and its index. -/
def digitsLoop : List Char → Nat → Nat → Except Fault (Nat × Nat)
  | c :: rest, v, i =>
    if c.isDigit then do
      let d ← subU32 c.toNat '0'.toNat
      let max := 2 ^ 32 - 1
      digitsLoop rest (min (min (v * 10) max + d) max) (← add i 1)
    else return (v, i)
  | [], v, i => return (v, i)

/-- `digits`, `input.rs:201`. -/
def digits (s : List Char) (i : Nat) : Except Fault (Option (Nat × Nat)) := do
  let (v, next) ← digitsLoop (s.drop i) 0 i
  return if i < next then some (v, next) else none

/-- `letter_to_name`, `input.rs:211`. -/
def letterToName (c : Char) : Option String :=
  match c with
  | 'A' => some "up"
  | 'B' => some "down"
  | 'C' => some "right"
  | 'D' => some "left"
  | 'H' => some "home"
  | 'F' => some "end"
  | _ => none

/-- A part of a mouse report: its mark and its number, `input.rs:236-241`. -/
def field (s : List Char) (j : Nat) (mark : Char) : Except Fault (Option (Nat × Nat)) := do
  if s[j]? ≠ some mark then return none
  digits s (← add j 1)

/-- An SGR mouse report, `input.rs:235`. -/
def mouse (s : List Char) (r : Nat) : Except Fault (Option Taken) := do
  let some (b, j) ← field s r '<' | return none
  let some (x, j) ← field s j ';' | return none
  let some (y, j) ← field s j ';' | return none
  let some fin := s[j]? | return none
  if fin ≠ 'M' ∧ fin ≠ 'm' then return none
  return some ([.mouse (decodeMouse b x y (fin = 'm'))], ← add j 1)

/-- A plain arrow key, `input.rs:249`. -/
def arrow (s : List Char) (r : Nat) : Except Fault (Option Taken) := do
  let some c := s[r]? | return none
  let some name := letterToName c | return none
  return some ([.key (namedKey name)], ← add r 1)

/-- A modified arrow key, `input.rs:257`. -/
def modifiedArrow (s : List Char) (r : Nat) : Except Fault (Option Taken) := do
  if s[r]? ≠ some '1' then return none
  if s[← add r 1]? ≠ some ';' then return none
  let some (mods, j) ← digits s (← add r 2) | return none
  let some c := s[j]? | return none
  let some name := letterToName c | return none
  let (shift, alt, ctrl) := kittyMods (some mods)
  return some ([.key { name, char := none, ctrl, alt, shift }], ← add j 1)

/-- Shift and tab, `input.rs:278`. -/
def backtab (s : List Char) (r : Nat) : Except Fault (Option Taken) := do
  if s[r]? ≠ some 'Z' then return none
  return some ([.key (withShift (namedKey "backtab"))], ← add r 1)

/-- The keys whose sequence ends in a tilde, `input.rs:286`. -/
def tildeName (c : Option Char) : Option String :=
  match c with
  | some '3' => some "delete"
  | some '5' => some "pageup"
  | some '6' => some "pagedown"
  | _ => none

/-- Delete and the page keys, `input.rs:284`. -/
def tilde (s : List Char) (r : Nat) : Except Fault (Option Taken) := do
  if s[← add r 1]? ≠ some '~' then return none
  let some name := tildeName s[r]? | return none
  return some ([.key (namedKey name)], ← add r 2)

/-- The key of the kitty protocol, `input.rs:310-342`. -/
def kittyKey (code : Nat) (ctrl alt shift : Bool) : KeyEvent :=
  if code = 9 ∧ shift = true then { name := "backtab", char := none, ctrl, alt, shift }
  else
    let name :=
      match code with
      | 27 => some "escape"
      | 13 => some "return"
      | 9 => some "tab"
      | 127 => some "backspace"
      | _ => none
    match name with
    | some name => { name, char := none, ctrl, alt, shift }
    | none =>
      let ch := ((fromU32 code).map String.singleton).getD ""
      { name := ch, char := some ch, ctrl, alt, shift }

/-- A key of the kitty protocol, `input.rs:298`. -/
def kitty (s : List Char) (r : Nat) : Except Fault (Option Taken) := do
  let some (code, j) ← digits s r | return none
  let (mods, j) ←
    if s[j]? = some ';' then
      match ← digits s (← add j 1) with
      | some (m, j₂) => pure (some m, j₂)
      | none => pure (none, j)
    else pure (none, j)
  if s[j]? ≠ some 'u' then return none
  let (shift, alt, ctrl) := kittyMods mods
  return some ([.key (kittyKey code ctrl alt shift)], ← add j 1)

/-- The end of a control sequence. -/
def isFinal (c : Char) : Bool := '@' ≤ c && c ≤ '~'

/-- The loop to the end of a control sequence, over the rest of the text. -/
def skipCsi : List Char → Nat → Except Fault Nat
  | c :: rest, j => if isFinal c then .ok j else add j 1 >>= skipCsi rest
  | [], j => .ok j

/-- What follows `ESC [`, `input.rs:233-356`. -/
def csi (s : List Char) (r : Nat) : Except Fault Taken :=
  firstOf [mouse s r, arrow s r, modifiedArrow s r, backtab s r, tilde s r, kitty s r] do
    let j ← skipCsi (s.drop r) r
    return ([], ← add j 1)

/-- A character that starts no sequence, `input.rs:367-379`. -/
def plain (c : Char) : Except Fault (List Event) :=
  match c.toNat with
  | 0x0d => return [.key (namedKey "return")]
  | 0x09 => return [.key (namedKey "tab")]
  | 0x7f => return [.key (namedKey "backspace")]
  | 0x1c => return [.key (ctrlKey "\\")]
  | code =>
    if 0x01 ≤ code ∧ code ≤ 0x1a then
      match fromU32 (code + 0x60) with
      | some letter => return [.key (ctrlKey (String.singleton letter))]
      | none => throw .unwrap
    else if 0x20 ≤ code then return [.key (printableKey (String.singleton c))]
    else return []

/-- One step of the loop, `input.rs:231`. -/
def step (s : List Char) (i : Nat) : Except Fault Taken := do
  let c ← index s i
  if c ≠ '\x1b' then
    return (← plain c, ← add i 1)
  if (← peek s (← add i 1)) = some '[' then
    csi s (← add i 2)
  else match (← peek s (← add i 1)).filter (' ' ≤ ·) with
    | some ch => return ([.key (altKey (String.singleton ch))], ← add i 2)
    | none => return ([.key (namedKey "escape")], ← add i 1)

/-- `parse_input`, `input.rs:225`. -/
def parseInput (data : Bytes) : Except Fault (List Event) :=
  scan (step data.chars) data.chars.length 0

end PtySpec.Keys.PtyTui
