import PtySpec.Keys.Text

/-!
# The decoder of pty-core

Model of `parse_input`, `crates/pty-core/src/input.rs:184`. A branch of the loop tells its events
and the next index, or it falls through to the branch after it.
-/

namespace PtySpec.Keys.PtyCore

/-- `InputEvent` with its coordinates in an `i32`. -/
abbrev Event := InputEvent Int

/-- The events of a step and the index of the next one. -/
abbrev Taken := List Event × Nat

/-- `named`, `input.rs:80`. -/
def named (name : String) (ctrl alt shift : Bool) : Event :=
  .key { name, char := none, ctrl, alt, shift }

/-- `printable`, `input.rs:90`. -/
def printable (ch : String) (ctrl alt shift : Bool) : Event :=
  .key { name := ch, char := some ch, ctrl, alt, shift }

/-- `kitty_codepoint_name`, `input.rs:70`. -/
def kittyCodepointName (cp : Nat) : Option String :=
  match cp with
  | 27 => some "escape"
  | 13 => some "return"
  | 9 => some "tab"
  | 127 => some "backspace"
  | _ => none

/-- `x as i32` of a `u32`. -/
def asI32 (x : Nat) : Int := if x < 2 ^ 31 then x else x - 2 ^ 32

/-- `x - 1` of `i32`. -/
def predI32 (x : Int) : Except Fault Int :=
  if x = -2 ^ 31 then .error .overflow else .ok (x - 1)

/-- `decode_mouse`, `input.rs:100`. -/
def decodeMouse (buttonCode : Nat) (x y : Int) (isRelease : Bool) :
    Except Fault (MouseEvent Int) := do
  let shift := (buttonCode &&& 0x04) != 0
  let alt := (buttonCode &&& 0x08) != 0
  let ctrl := (buttonCode &&& 0x10) != 0
  let motion := (buttonCode &&& 0x20) != 0
  let wheel := (buttonCode &&& 0x40) != 0
  let low := buttonCode &&& 0x03
  let cx := max (← predI32 x) 0
  let cy := max (← predI32 y) 0
  if wheel then
    return {
      action := if low = 0 then .scrollUp else .scrollDown, button := .none
      x := cx, y := cy, ctrl, alt, shift }
  let button : MouseButton :=
    match low with
    | 0 => .left
    | 1 => .middle
    | 2 => .right
    | _ => .none
  let action : MouseAction :=
    if isRelease then .release
    else if motion then if button = .none then .move else .drag
    else .press
  return { action, button, x := cx, y := cy, ctrl, alt, shift }

/-- The loop over a run of characters, of the rest of the text. -/
def skip (test : Char → Bool) : List Char → Nat → Except Fault Nat
  | c :: rest, k => if test c then add k 1 >>= skip test rest else .ok k
  | [], k => .ok k

/-- `take_digits`, `input.rs:170`. -/
def takeDigits (s : List Char) (j : Nat) : Except Fault (Option Nat × Nat) := do
  let k ← skip Char.isDigit (s.drop j) j
  if k = j then return (none, j)
  let n := value (← slice s j k)
  return (if n < 2 ^ 32 then some n else none, k)

/-- The names of the arrow keys, `input.rs:234` and `input.rs:253`. -/
def arrowName (c : Char) : Option String :=
  match c with
  | 'A' => some "up"
  | 'B' => some "down"
  | 'C' => some "right"
  | 'D' => some "left"
  | 'H' => some "home"
  | 'F' => some "end"
  | _ => none

/-- The keys whose sequence ends in a tilde, `input.rs:281`. -/
def tildeName (c : Char) : Option String :=
  match c with
  | '3' => some "delete"
  | '5' => some "pageup"
  | '6' => some "pagedown"
  | _ => none

/-- A part of a mouse report: its mark and its number, `input.rs:199-210`. -/
def field (s : List Char) (q : Nat) (mark : Char) : Except Fault (Option (Nat × Nat)) := do
  if (← peek s q) ≠ some mark then return none
  let (n, q) ← takeDigits s (← add q 1)
  return n.map (·, q)

/-- An SGR mouse report, `input.rs:198`. -/
def mouse (s : List Char) (p : Nat) : Except Fault (Option Taken) := do
  let some (b, q) ← field s p '<' | return none
  let some (x, q) ← field s q ';' | return none
  let some (y, q) ← field s q ';' | return none
  let final ← peek s q
  if final ≠ some 'M' ∧ final ≠ some 'm' then return none
  let event ← decodeMouse b (asI32 x) (asI32 y) (final = some 'm')
  return some ([.mouse event], ← add q 1)

/-- A bare arrow key, `input.rs:232`. -/
def arrow (s : List Char) (p : Nat) : Except Fault (Option Taken) := do
  let some name := (← peek s p).bind arrowName | return none
  return some ([named name false false false], ← add p 1)

/-- A modified arrow key, `input.rs:248`. -/
def modifiedArrow (s : List Char) (p : Nat) : Except Fault (Option Taken) := do
  if (← peek s p) ≠ some '1' ∨ (← peek s (← add p 1)) ≠ some ';' then return none
  let (some modsRaw, q) ← takeDigits s (← add p 2) | return none
  let some name := (← peek s q).bind arrowName | return none
  let (shift, alt, ctrl) := modifierBits (modsRaw - 1)
  return some ([named name ctrl alt shift], ← add q 1)

/-- Shift and tab, `input.rs:272`. -/
def backtab (s : List Char) (p : Nat) : Except Fault (Option Taken) := do
  if (← peek s p) ≠ some 'Z' then return none
  return some ([named "backtab" false false true], ← add p 1)

/-- Delete and the page keys, `input.rs:279`. -/
def tilde (s : List Char) (p : Nat) : Except Fault (Option Taken) := do
  if (← peek s (← add p 1)) ≠ some '~' then return none
  let some name := tildeName (← index s p) | return none
  return some ([named name false false false], ← add p 2)

/-- The events of a kitty key, `input.rs:309-315`. -/
def kittyEvents (code : Nat) (ctrl alt shift : Bool) : List Event :=
  if code = 0x09 ∧ shift = true then [named "backtab" ctrl alt shift]
  else match kittyCodepointName code with
    | some name => [named name ctrl alt shift]
    | none =>
      match fromU32 code with
      | some ch => [printable (String.singleton ch) ctrl alt shift]
      | none => []

/-- A key of the kitty protocol, `input.rs:292`. -/
def kitty (s : List Char) (p : Nat) : Except Fault (Option Taken) := do
  if ¬(← peek s p).any Char.isDigit then return none
  let (some code, q) ← takeDigits s p | return none
  let (modsWire, q) ← if (← peek s q) = some ';' then takeDigits s (← add q 1) else pure (some 1, q)
  let some modsWire := modsWire | return none
  if (← peek s q) ≠ some 'u' then return none
  let (shift, alt, ctrl) := modifierBits (modsWire - 1)
  return some (kittyEvents code ctrl alt shift, ← add q 1)

/-- The end of a control sequence. -/
def isFinal (c : Char) : Bool := '@' ≤ c && c ≤ '~'

/-- What follows `ESC [`, `input.rs:196-328`. -/
def csi (s : List Char) (p : Nat) : Except Fault Taken :=
  firstOf [mouse s p, arrow s p, modifiedArrow s p, backtab s p, tilde s p, kitty s p] do
    let k ← skip (!isFinal ·) (s.drop p) p
    return ([], ← add k 1)

/-- A character that starts no sequence, `input.rs:345-386`. -/
def plain (c : Char) : Except Fault (List Event) :=
  let code := c.toNat
  if code = 0x0d then return [named "return" false false false]
  else if code = 0x09 then return [named "tab" false false false]
  else if code = 0x7f then return [named "backspace" false false false]
  else if code = 0x1c then return [named "\\" true false false]
  else if 0x01 ≤ code ∧ code ≤ 0x1a then
    match fromU32 (code + 0x60) with
    | some letter => return [named (String.singleton letter) true false false]
    | none => throw .unwrap
  else if 0x20 ≤ code then return [printable (String.singleton c) false false false]
  else return []

/-- One step of the loop, `input.rs:191`. -/
def step (s : List Char) (i : Nat) : Except Fault Taken := do
  let c ← index s i
  if c ≠ '\x1b' then
    return (← plain c, ← add i 1)
  if (← peek s (← add i 1)) = some '[' then
    csi s (← add i 2)
  else match (← peek s (← add i 1)).filter (' ' ≤ ·) with
    | some ch => return ([printable (String.singleton ch) false true false], ← add i 2)
    | none => return ([named "escape" false false false], ← add i 1)

/-- `parse_input`, `input.rs:184`. -/
def parseInput (data : Bytes) : Except Fault (List Event) :=
  scan (step data.chars) data.chars.length 0

end PtySpec.Keys.PtyCore
