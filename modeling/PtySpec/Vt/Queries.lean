import PtySpec.Vt.Strip

/-!
# Queries and modes

What the actor reads off a complete sequence: the queries that are answered, the keyboard
stack, the private modes, `strip.rs:57-245`, and the answers to colour queries,
`queries.rs:80`.
-/

namespace PtySpec.Vt

/-- The bytes of an ASCII text. -/
def ascii (s : String) : List UInt8 := s.toList.map fun c ↦ UInt8.ofNat c.toNat

/-- A number in decimal. -/
def decimal (n : Nat) : List UInt8 := (Nat.toDigits 10 n).map fun c ↦ UInt8.ofNat c.toNat

namespace Csi

/-- `Csi::param`, `strip.rs:57`. -/
def param (c : Csi) (i : Nat) (default : UInt16) : UInt16 := c.params[i]?.getD default

/-- `Csi::is_da1_query`, `strip.rs:63`. -/
def isDa1Query (c : Csi) : Bool :=
  c.finalByte = 0x63 && c.marker = none && c.intermediates = [] &&
    (c.params.head?.all (· = 0))

/-- `Csi::is_da2_query`, `strip.rs:72`. -/
def isDa2Query (c : Csi) : Bool :=
  c.finalByte = 0x63 && c.marker = some 0x3e && c.intermediates = []

/-- `Csi::is_dsr_query`, `strip.rs:78`. -/
def isDsrQuery (c : Csi) : Bool :=
  c.finalByte = 0x6e && c.marker = none && c.intermediates = [] && c.params = [6]

/-- `Csi::is_xtversion_query`, `strip.rs:88`. -/
def isXtversionQuery (c : Csi) : Bool :=
  c.finalByte = 0x71 && c.marker = some 0x3e && c.intermediates = []

/-- The queries of `Csi::size_query`, `strip.rs:95`. -/
inductive SizeQuery where
  | window
  | cell
  | grid
  | screen
  deriving DecidableEq, Repr

/-- `Csi::size_query`, `strip.rs:93`. -/
def sizeQuery (c : Csi) : Option SizeQuery :=
  if c.finalByte = 0x74 ∧ c.marker = none ∧ c.intermediates = [] then
    if c.params = [14] then some .window
    else if c.params = [16] then some .cell
    else if c.params = [18] then some .grid
    else if c.params = [19] then some .screen
    else none
  else
    none

/-- XTQMODKEYS, `CSI ? 4 m`, `actor.rs:606`, `strip.rs:115`. -/
def isModifyKeysQuery (c : Csi) : Bool :=
  c.marker = some 0x3f && c.finalByte = 0x6d && c.intermediates = [] && c.params = [4]

/-- `Csi::is_stripped_query`, `strip.rs:114`. -/
def isStrippedQuery (c : Csi) : Bool :=
  c.isModifyKeysQuery || c.isDa1Query || c.isDa2Query || c.isDsrQuery || c.isXtversionQuery ||
    (c.finalByte = 0x6e && c.marker = none && c.intermediates = [] && c.params = [5]) ||
    (c.finalByte = 0x70 && c.marker = some 0x3f && c.intermediates = [0x24] &&
      c.params ≠ []) ||
    (c.finalByte = 0x75 && c.marker = some 0x3f && c.intermediates = [] && c.params = []) ||
    c.sizeQuery.isSome

/-- `Csi::is_mode_query`, `strip.rs:139`. -/
def isModeQuery (c : Csi) (mode : UInt16) : Bool :=
  c.finalByte = 0x70 && c.marker = some 0x3f && c.intermediates = [0x24] && c.params = [mode]

/-- `Csi::kitty_push`, `strip.rs:148`. -/
def kittyPush (c : Csi) : Option UInt8 :=
  if c.finalByte = 0x75 ∧ c.marker = some 0x3e ∧ c.intermediates = [] then
    some (UInt8.ofNat (min (c.param 0 0).toNat 255))
  else
    none

/-- `Csi::is_kitty_pop`, `strip.rs:158`. -/
def isKittyPop (c : Csi) : Bool :=
  c.finalByte = 0x75 && c.marker = some 0x3c && c.intermediates = []

/-- `Csi::dec_modes`, `strip.rs:164`. -/
def decModes (c : Csi) : Option (List UInt16 × Bool) :=
  if c.marker = some 0x3f ∧ c.intermediates = [] then
    if c.finalByte = 0x68 then some (c.params, true)
    else if c.finalByte = 0x6c then some (c.params, false)
    else none
  else
    none

end Csi

/-- The value of decimal digits, unless one of them is no digit. -/
def digits (bytes : List UInt8) : Option Nat :=
  bytes.foldlM (fun n b ↦ if within 0x30 0x39 b then some (n * 10 + (b - 0x30).toNat) else none) 0

/-- `str::parse::<u32>` of bytes that may not be UTF-8: digits after at most one plus. -/
def parseU32 (bytes : List UInt8) : Option Nat :=
  let body := if bytes.head? = some 0x2b then bytes.drop 1 else bytes
  if body = [] then none else (digits body).filter (· < 2 ^ 32)

/-- `chunks_exact(2)`. -/
def pairs {α : Type} : List α → List (α × α)
  | a :: b :: rest => (a, b) :: pairs rest
  | _ => []

namespace Osc

/-- `Osc::split`, `strip.rs:192`. -/
def split (o : Osc) : Option Nat × List UInt8 :=
  (parseU32 (o.payload.takeWhile (· ≠ 0x3b)), (o.payload.dropWhile (· ≠ 0x3b)).drop 1)

/-- `u8::is_ascii_alphanumeric`. -/
def alphanumeric (b : UInt8) : Bool :=
  within 0x30 0x39 b || within 0x41 0x5a b || within 0x61 0x7a b

/-- `Osc::clipboard_read_selection`, `strip.rs:203`. -/
def clipboardReadSelection (o : Osc) : Option (List UInt8) :=
  let (id, data) := o.split
  if [0x3b, 0x3f].isSuffixOf data then
    let selection := data.take (data.length - 2)
    if id = some 52 ∧ selection ≠ [] ∧ selection.length ≤ 16 ∧ selection.all alphanumeric then
      some selection
    else none
  else none

/-- `Osc::color_query`, `strip.rs:221`: the colours asked for, by OSC number and index. -/
def colorQuery (o : Osc) : Option (List (Nat × Option Nat)) :=
  let (id, data) := o.split
  if (id = some 10 ∨ id = some 11) ∧ data = [0x3f] then some [(id.getD 0, none)]
  else if id = some 4 ∧ data.contains 0x3f then
    some <| (pairs (data.splitOn 0x3b)).filterMap fun pair ↦
      if pair.2 ≠ [0x3f] then none else (parseU32 pair.1).map fun index ↦ (4, some index)
  else none

end Osc

/-- `color_query_reply`, `queries.rs:80`. -/
def colorQueryReply : Nat × Option Nat → Option (List UInt8)
  | (10, _) => some (ascii "\x1b]10;rgb:c0c0/c0c0/c0c0\x1b\\")
  | (11, _) => some (ascii "\x1b]11;rgb:0000/0000/0000\x1b\\")
  | (4, some i) =>
    some (ascii "\x1b]4;" ++ decimal i ++ ascii ";rgb:0000/0000/0000\x1b\\")
  | _ => none

/-! ### Modes -/

/-- `Modes`, `actor.rs:111`. -/
structure Modes where
  sgrMouse : Bool := false
  mouse1000 : Bool := false
  mouse1002 : Bool := false
  mouse1003 : Bool := false
  mouse9 : Bool := false
  appCursor : Bool := false
  altScreen : Bool := false
  cursorHidden : Bool := false
  bracketedPaste : Bool := false
  focusEvents : Bool := false
  enhancedPaste : Bool := false
  kittyStack : List UInt8 := []
  deriving DecidableEq, Repr

/-- `TerminalEvent`, `actor.rs:88`; what the actor reports of an OSC is a parameter. -/
inductive TerminalEvent (ε : Type) where
  | bell
  | titleChange (title : String)
  | notification (n : ε)
  | focusRequest
  | cursorVisible
  | enhancedPasteMode (on : Bool)
  | enhancedPasteRead (request : ε)
  deriving DecidableEq, Repr

/-- `Modes::apply_dec`, `actor.rs:156`: the modes and the events. -/
def Modes.applyDec (ε : Type) (m : Modes) (mode : UInt16) (set : Bool) :
    Modes × List (TerminalEvent ε) :=
  if mode = 1006 then ({ m with sgrMouse := set }, [])
  else if mode = 1000 then ({ m with mouse1000 := set }, [])
  else if mode = 1002 then ({ m with mouse1002 := set }, [])
  else if mode = 1003 then ({ m with mouse1003 := set }, [])
  else if mode = 9 then ({ m with mouse9 := set }, [])
  else if mode = 1 then ({ m with appCursor := set }, [])
  else if mode = 1049 ∨ mode = 1047 ∨ mode = 47 then ({ m with altScreen := set }, [])
  else if mode = 25 then
    ({ m with cursorHidden := !set }, if set && m.cursorHidden then [.cursorVisible] else [])
  else if mode = 1004 then
    ({ m with focusEvents := set }, if set then [.focusRequest] else [])
  else if mode = 2004 then ({ m with bracketedPaste := set }, [])
  else if mode = 5522 then
    ({ m with enhancedPaste := set },
      if m.enhancedPaste = set then [] else [.enhancedPasteMode set])
  else (m, [])

/-- `apply_dec` for every parameter of a sequence, `actor.rs:666`. -/
def Modes.applyAll (ε : Type) (m : Modes) (params : List UInt16) (set : Bool) :
    Modes × List (TerminalEvent ε) :=
  params.foldl (fun r p ↦
    let next := Modes.applyDec ε r.1 p set
    (next.1, r.2 ++ next.2)) (m, [])

/-- The modes do not depend on what else is reported. -/
theorem Modes.applyAll_fst (ε δ : Type) (m : Modes) (params : List UInt16) (set : Bool) :
    (Modes.applyAll ε m params set).1 = (Modes.applyAll δ m params set).1 := by
  have hone : ∀ (m : Modes) (p : UInt16),
      (Modes.applyDec ε m p set).1 = (Modes.applyDec δ m p set).1 := by
    intro m p
    simp only [applyDec, apply_ite Prod.fst]
  suffices h : ∀ (r : Modes × List (TerminalEvent ε)) (q : Modes × List (TerminalEvent δ)),
      r.1 = q.1 →
      (params.foldl (fun r p ↦ ((Modes.applyDec ε r.1 p set).1,
        r.2 ++ (Modes.applyDec ε r.1 p set).2)) r).1 =
      (params.foldl (fun r p ↦ ((Modes.applyDec δ r.1 p set).1,
        r.2 ++ (Modes.applyDec δ r.1 p set).2)) q).1 from h _ _ rfl
  induction params with
  | nil => exact fun _ _ h ↦ h
  | cons p params ih =>
    intro r q h
    apply ih
    show (Modes.applyDec ε r.1 p set).1 = (Modes.applyDec δ q.1 p set).1
    rw [h, hone]

end PtySpec.Vt
