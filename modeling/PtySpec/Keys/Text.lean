import PtySpec.Serving.Screen

/-!
# The text and the events of a terminal's input

What the two decoders of a terminal's input share, `crates/pty-core/src/input.rs:1` and
`crates/pty-tui/src/input.rs:1`: the characters they read, the events they tell, and the loop
over the characters. An index, a sum, or a step of the loop that Rust would not let pass is a
fault.
-/

namespace PtySpec.Keys

open Serving (utf8Width utf8Tail)

/-- A `&[u8]`, which holds `isize::MAX` bytes at most. -/
structure Bytes where
  bytes : List UInt8
  length_lt : bytes.length < 2 ^ 63

/-! ### The characters -/

/-- The scalar value of the bytes of a character. -/
def scalar (first : UInt8) (more : List UInt8) : Nat :=
  more.foldl (fun n b ↦ n * 64 + b.toNat % 64)
    (first.toNat % match more.length with | 0 => 128 | 1 => 32 | 2 => 16 | _ => 8)

/-- `String::from_utf8_lossy(data).chars()`. -/
def lossyChars : List UInt8 → List Char
  | [] => []
  | first :: rest =>
    let n := utf8Tail first rest
    (if n + 1 = utf8Width first then Char.ofNat (scalar first (rest.take n)) else '\uFFFD') ::
      lossyChars (rest.drop n)
termination_by bytes => bytes.length
decreasing_by simp

theorem length_lossyChars_le (bytes : List UInt8) : (lossyChars bytes).length ≤ bytes.length := by
  induction hn : bytes.length using Nat.strong_induction_on generalizing bytes with
  | _ n ih =>
    cases bytes with
    | nil => simp [lossyChars]
    | cons first rest =>
      have hd := List.length_drop (i := utf8Tail first rest) (l := rest)
      rw [List.length_cons] at hn
      have := ih (rest.drop (utf8Tail first rest)).length (by omega) _ rfl
      rw [lossyChars, List.length_cons]
      omega

private theorem utf8Tail_ascii {first : UInt8} (h : first < 0x80) (rest : List UInt8) :
    utf8Tail first rest = 0 := by
  rw [utf8Tail, utf8Width, if_pos h]
  rfl

/-- ASCII text is what it is. -/
theorem lossyChars_ascii {bytes : List UInt8} (h : ∀ b ∈ bytes, b < 0x80) :
    lossyChars bytes = bytes.map fun b ↦ Char.ofNat b.toNat := by
  induction bytes with
  | nil => rw [lossyChars, List.map_nil]
  | cons first rest ih =>
    obtain ⟨hf, hrest⟩ := List.forall_mem_cons.mp h
    have hlt : first.toNat < 128 := hf
    rw [lossyChars, utf8Tail_ascii hf, utf8Width, if_pos hf, if_pos rfl, List.drop_zero, ih hrest,
      List.map_cons]
    have hs : scalar first (rest.take 0) = first.toNat % 128 := rfl
    rw [hs, Nat.mod_eq_of_lt hlt]

/-- The characters that a decoder reads. -/
def Bytes.chars (data : Bytes) : List Char := lossyChars data.bytes

theorem Bytes.length_chars_lt (data : Bytes) : data.chars.length < 2 ^ 63 :=
  Nat.lt_of_le_of_lt (length_lossyChars_le data.bytes) data.length_lt

/-! ### The events -/

/-- `KeyEvent`. -/
structure KeyEvent where
  name : String
  char : Option String
  ctrl : Bool
  alt : Bool
  shift : Bool
deriving DecidableEq, Repr

/-- `MouseButton`. -/
inductive MouseButton
  | left
  | middle
  | right
  | none
deriving DecidableEq, Repr

/-- `MouseAction`. -/
inductive MouseAction
  | press
  | release
  | drag
  | move
  | scrollUp
  | scrollDown
deriving DecidableEq, Repr

/-- `MouseEvent`, over the type of a coordinate. -/
structure MouseEvent (κ : Type) where
  action : MouseAction
  button : MouseButton
  x : κ
  y : κ
  ctrl : Bool
  alt : Bool
  shift : Bool
deriving DecidableEq, Repr

/-- `InputEvent`. -/
inductive InputEvent (κ : Type)
  | key (event : KeyEvent)
  | mouse (event : MouseEvent κ)
deriving DecidableEq, Repr

/-- An event with its coordinates converted. -/
def InputEvent.convert {κ κ' : Type} (f : κ → κ') : InputEvent κ → InputEvent κ'
  | .key event => .key event
  | .mouse event => .mouse { event with x := f event.x, y := f event.y }

/-! ### The machine -/

/-- Where Rust would stop a decoder, or its loop would not end. -/
inductive Fault
  | range
  | overflow
  | unwrap
  | stuck
deriving DecidableEq, Repr

/-- `i + n` of `usize`. -/
def add (i n : Nat) : Except Fault Nat := if i + n < 2 ^ 64 then .ok (i + n) else .error .overflow

/-- `chars[i]`. -/
def index (s : List Char) (i : Nat) : Except Fault Char :=
  match s[i]? with
  | some c => .ok c
  | none => .error .range

/-- `chars[i]` where `i < len` goes before it. -/
def peek (s : List Char) (i : Nat) : Except Fault (Option Char) :=
  if i < s.length then some <$> index s i else .ok none

/-- `chars[start..stop]`. -/
def slice (s : List Char) (start stop : Nat) : Except Fault (List Char) :=
  if start ≤ stop ∧ stop ≤ s.length then .ok ((s.drop start).take (stop - start))
  else .error .range

/-- `char::from_u32`. -/
def fromU32 (code : Nat) : Option Char :=
  if code.isValidChar then some (Char.ofNat code) else none

/-- The value of a run of decimal digits. -/
def value (digits : List Char) : Nat := digits.foldl (fun n c ↦ n * 10 + (c.toNat - 48)) 0

/-- The bits of the modifiers of a key: shift, alt and ctrl. -/
def modifierBits (mods : Nat) : Bool × Bool × Bool :=
  ((mods &&& 0x01) != 0, (mods &&& 0x02) != 0, (mods &&& 0x04) != 0)

/-- Branches in order, each of which ends the step if it is taken. -/
def firstOf {α : Type} : List (Except Fault (Option α)) → Except Fault α → Except Fault α
  | [], last => last
  | branch :: rest, last => do
    match ← branch with
    | some taken => return taken
    | none => firstOf rest last

/-- `while i < len { … }`: a step tells events and names the next index. -/
def scan {ε : Type} (step : Nat → Except Fault (List ε × Nat)) (len i : Nat) :
    Except Fault (List ε) :=
  if i < len then
    match step i with
    | .error fault => .error fault
    | .ok (events, next) =>
      if i < next then (scan step len next).map (events ++ ·) else .error .stuck
  else .ok []
termination_by len - i

theorem add_eq {i n : Nat} (h : i + n < 2 ^ 64) : add i n = .ok (i + n) := if_pos h

theorem index_eq {s : List Char} {i : Nat} {c : Char} (h : s[i]? = some c) :
    index s i = .ok c := by
  rw [index, h]

theorem peek_eq (s : List Char) (i : Nat) : peek s i = .ok s[i]? := by
  unfold peek
  split
  · next h =>
    rw [List.getElem?_eq_getElem h, index_eq (List.getElem?_eq_getElem h)]
    rfl
  · next h => rw [List.getElem?_eq_none (Nat.not_lt.mp h)]

@[simp] theorem ok_bind {α β : Type} (a : α) (f : α → Except Fault β) :
    (Except.ok a >>= f) = f a := rfl

@[simp] theorem ok_map {α β : Type} (a : α) (f : α → β) :
    f <$> (Except.ok a : Except Fault α) = .ok (f a) := rfl

/-- A step that moves on tells its events before those of the rest. -/
theorem scan_of_lt {ε : Type} {step : Nat → Except Fault (List ε × Nat)} {len i next : Nat}
    {told : Except Fault (List ε)} (hi : i < len) (hn : i < next)
    (h : step i = told.map (·, next)) :
    scan step len i = told >>= fun events ↦ (scan step len next).map (events ++ ·) := by
  rw [scan, if_pos hi, h]
  cases told with
  | error fault => rfl
  | ok events => exact if_pos hn

theorem scan_of_le {ε : Type} (step : Nat → Except Fault (List ε × Nat)) {len i : Nat}
    (h : len ≤ i) : scan step len i = .ok [] := by
  rw [scan, if_neg (Nat.not_lt.mpr h)]

end PtySpec.Keys
