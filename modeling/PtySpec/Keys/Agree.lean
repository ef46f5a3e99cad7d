import PtySpec.Keys.CoreReads
import PtySpec.Keys.TuiReads

/-!
# The two decoders of a terminal's input

The decoders of pty-core and pty-tui are ports of one function. They tell the same events, and
neither of them faults, exactly on the texts whose sequences have numbers in range: a kitty key
that is no character is an event without a name in one of them only, a number too long for a
`u32` is taken by one of them only, and a coordinate too long for an `i32` overflows in the
other.
-/

namespace PtySpec.Keys

/-- The numbers of a sequence are in the range of both decoders. -/
def Token.InRange : Token → Prop
  | .mouse b x y _ => b < 2 ^ 32 ∧ x < 2 ^ 31 ∧ y < 2 ^ 31
  | .modified _ mods => mods < 2 ^ 32
  | .kitty code mods => code.isValidChar ∧ mods < 2 ^ 32
  | _ => True

/-- A coordinate of pty-core as one of pty-tui, which is a `u16`. -/
def clip (x : Int) : Nat := (min x 65535).toNat

/-- Both decoders pass the bytes, and they tell the same events. -/
def DecodersAgree (data : Bytes) : Prop :=
  Same (InputEvent.convert clip) (PtyCore.parseInput data) (PtyTui.parseInput data)

/-! ### Mouse reports -/

/-- The button of a report. -/
private def buttonOf (code : Nat) : MouseButton :=
  match code &&& 0x03 with
  | 0 => .left
  | 1 => .middle
  | 2 => .right
  | _ => .none

/-- The action of a report. -/
private def actionOf (code : Nat) (release : Bool) : MouseAction :=
  if (code &&& 0x40) != 0 then if code &&& 0x03 = 0 then .scrollUp else .scrollDown
  else if release then .release
  else if (code &&& 0x20) != 0 then if buttonOf code = .none then .move else .drag
  else .press

/-- A mouse event with its coordinates decoded. -/
private def mouseOf {κ : Type} (code : Nat) (x y : κ) (release : Bool) : MouseEvent κ where
  action := actionOf code release
  button := if (code &&& 0x40) != 0 then .none else buttonOf code
  x := x
  y := y
  ctrl := (code &&& 0x10) != 0
  alt := (code &&& 0x08) != 0
  shift := (code &&& 0x04) != 0

private theorem core_decodeMouse (b : Nat) {x y : Int} (hx : x ≠ -2 ^ 31) (hy : y ≠ -2 ^ 31)
    (release : Bool) :
    PtyCore.decodeMouse b x y release =
      .ok (mouseOf b (max (x - 1) 0) (max (y - 1) 0) release) := by
  have hpx : PtyCore.predI32 x = .ok (x - 1) := if_neg hx
  have hpy : PtyCore.predI32 y = .ok (y - 1) := if_neg hy
  unfold PtyCore.decodeMouse mouseOf actionOf
  rw [hpx, hpy]
  simp only [ok_bind]
  by_cases hw : ((b &&& 0x40) != 0) = true
  · rw [if_pos hw, if_pos hw, if_pos hw]
    rfl
  · rw [if_neg hw, if_neg hw, if_neg hw]
    rfl

private theorem core_decodeMouse_overflow (b : Nat) {x y : Int} (h : x = -2 ^ 31 ∨ y = -2 ^ 31)
    (release : Bool) : PtyCore.decodeMouse b x y release = .error .overflow := by
  unfold PtyCore.decodeMouse PtyCore.predI32
  by_cases hx : x = -2 ^ 31
  · rw [if_pos hx]
    rfl
  · rw [if_neg hx, if_pos (h.resolve_left hx)]
    rfl

private theorem tui_decodeMouse (b x y : Nat) (release : Bool) :
    PtyTui.decodeMouse b x y release =
      mouseOf b (min (x - 1) 65535) (min (y - 1) 65535) release := by
  unfold PtyTui.decodeMouse mouseOf actionOf
  dsimp only
  by_cases hw : ((b &&& 0x40) != 0) = true
  · rw [if_pos hw, if_pos hw, if_pos hw]
  · rw [if_neg hw, if_neg hw, if_neg hw]
    split
    · rfl
    · split <;> rfl

private theorem clip_eq_iff {x : Nat} (h : x < 2 ^ 32) :
    clip (max (PtyCore.asI32 x - 1) 0) = min (x - 1) 65535 ↔ x < 2 ^ 31 := by
  unfold clip PtyCore.asI32
  split <;> omega

private theorem not_lt_of_asI32 {x : Nat} (h : x < 2 ^ 32) (hx : PtyCore.asI32 x = -2 ^ 31) :
    ¬x < 2 ^ 31 := by
  unfold PtyCore.asI32 at hx
  split at hx <;> omega

private theorem saturated_of_lt {n : Nat} (h : n < 2 ^ 32) : PtyTui.saturated n = n := by
  unfold PtyTui.saturated
  omega

/-! ### One sequence -/

private theorem core_tells_mouse {b x y : Nat} (h : b < 2 ^ 32 ∧ x < 2 ^ 32 ∧ y < 2 ^ 32)
    (release : Bool) : PtyCore.tells.of (.mouse b x y release) =
      (PtyCore.decodeMouse b (PtyCore.asI32 x) (PtyCore.asI32 y) release).map
        fun event ↦ [.mouse event] := by
  rw [Tells.of, PtyCore.tells, if_pos h, Option.getD_some]

private theorem tui_tells_mouse (b x y : Nat) (release : Bool) :
    PtyTui.tells.of (.mouse b x y release) = .ok [.mouse (PtyTui.decodeMouse (PtyTui.saturated b)
      (PtyTui.saturated x) (PtyTui.saturated y) release)] := rfl

/-- Nothing is not what pty-tui tells of a sequence that it knows. -/
private theorem not_same_nil {event : PtyTui.Event} :
    ¬Same (InputEvent.convert clip) (.ok []) (.ok [event]) := by
  rintro ⟨_, _, ⟨⟩, ⟨⟩, h⟩
  cases h

private theorem same_singleton {event : PtyCore.Event} {event' : PtyTui.Event} :
    Same (InputEvent.convert clip) (.ok [event]) (.ok [event']) ↔ event.convert clip = event' := by
  constructor
  · rintro ⟨_, _, ⟨⟩, ⟨⟩, h⟩
    exact (List.cons.inj h).1
  · rintro rfl
    exact ⟨_, _, rfl, rfl, rfl⟩

private theorem same_mouse_iff (b x y : Nat) (release : Bool) :
    Same (InputEvent.convert clip) (PtyCore.tells.of (.mouse b x y release))
        (PtyTui.tells.of (.mouse b x y release)) ↔ Token.InRange (.mouse b x y release) := by
  rw [tui_tells_mouse, Token.InRange]
  by_cases hfit : b < 2 ^ 32 ∧ x < 2 ^ 32 ∧ y < 2 ^ 32
  · obtain ⟨hb, hx, hy⟩ := hfit
    rw [core_tells_mouse ⟨hb, hx, hy⟩, saturated_of_lt hb, saturated_of_lt hx, saturated_of_lt hy,
      tui_decodeMouse]
    by_cases hmin : PtyCore.asI32 x = -2 ^ 31 ∨ PtyCore.asI32 y = -2 ^ 31
    · rw [core_decodeMouse_overflow b hmin]
      refine iff_of_false ?_ fun hin ↦ ?_
      · rintro ⟨_, _, he, -⟩
        cases he
      exact hmin.elim (fun h ↦ not_lt_of_asI32 hx h hin.2.1) fun h ↦ not_lt_of_asI32 hy h hin.2.2
    · obtain ⟨hx', hy'⟩ := not_or.mp hmin
      rw [core_decodeMouse b hx' hy', Except.map, same_singleton, InputEvent.convert,
        InputEvent.mouse.injEq, and_iff_right hb, ← clip_eq_iff hx, ← clip_eq_iff hy]
      simp only [mouseOf, MouseEvent.mk.injEq, true_and, and_true]
  · have hnone : PtyCore.tells.of (.mouse b x y release) = .ok [] := by
      rw [Tells.of, PtyCore.tells, if_neg hfit, Option.getD_none]
    rw [hnone]
    exact iff_of_false not_same_nil fun hin ↦ hfit ⟨hin.1, by omega, by omega⟩

private theorem same_modified_iff (name : String) (mods : Nat) :
    Same (InputEvent.convert clip) (PtyCore.tells.of (.modified name mods))
        (PtyTui.tells.of (.modified name mods)) ↔ Token.InRange (.modified name mods) := by
  rw [Token.InRange]
  by_cases hfit : mods < 2 ^ 32
  · have hcore : PtyCore.tells.of (.modified name mods) = .ok [PtyCore.named name
        (modifierBits (mods - 1)).2.2 (modifierBits (mods - 1)).2.1
        (modifierBits (mods - 1)).1] := by
      rw [Tells.of, PtyCore.tells, if_pos hfit, Option.getD_some]
    refine iff_of_true ?_ hfit
    rw [hcore, Tells.of, PtyTui.tells, saturated_of_lt hfit, Option.getD_some, same_singleton]
    rfl
  · have hcore : PtyCore.tells.of (.modified name mods) = .ok [] := by
      rw [Tells.of, PtyCore.tells, if_neg hfit, Option.getD_none]
    rw [hcore]
    exact iff_of_false not_same_nil hfit

private theorem fromU32_of_valid {code : Nat} (h : code.isValidChar) :
    fromU32 code = some (Char.ofNat code) := if_pos h

/-- A key whose code is a character. -/
private theorem kittyEvents_of_valid {code : Nat} (h : code.isValidChar) (ctrl alt shift : Bool) :
    PtyCore.kittyEvents code ctrl alt shift = [.key (PtyTui.kittyKey code ctrl alt shift)] := by
  unfold PtyCore.kittyEvents PtyTui.kittyKey
  rw [fromU32_of_valid h]
  split
  · rfl
  · dsimp only
    fun_cases PtyCore.kittyCodepointName code with
    | case1 => rfl
    | case2 => rfl
    | case3 => rfl
    | case4 => rfl
    | case5 =>
      simp only
      rfl

/-- A key whose code is no character. -/
private theorem kittyEvents_of_not_valid {code : Nat} (h : ¬code.isValidChar)
    (ctrl alt shift : Bool) : PtyCore.kittyEvents code ctrl alt shift = [] := by
  have hnot (n : Nat) (hn : n.isValidChar) : code ≠ n := fun he ↦ h (he ▸ hn)
  have hname : PtyCore.kittyCodepointName code = none := by
    unfold PtyCore.kittyCodepointName
    split
    · exact absurd rfl (hnot 27 (.inl (by decide)))
    · exact absurd rfl (hnot 13 (.inl (by decide)))
    · exact absurd rfl (hnot 9 (.inl (by decide)))
    · exact absurd rfl (hnot 127 (.inl (by decide)))
    · rfl
  have hchar : fromU32 code = none := if_neg h
  unfold PtyCore.kittyEvents
  rw [if_neg fun h9 ↦ hnot 9 (.inl (by decide)) h9.1, hname, hchar]

private theorem lt_of_isValidChar {code : Nat} (h : code.isValidChar) : code < 2 ^ 32 :=
  h.elim (fun h ↦ Nat.lt_of_lt_of_le h (by decide)) fun h ↦ Nat.lt_of_lt_of_le h.2 (by decide)

private theorem same_kitty_iff (code mods : Nat) :
    Same (InputEvent.convert clip) (PtyCore.tells.of (.kitty code mods))
        (PtyTui.tells.of (.kitty code mods)) ↔ Token.InRange (.kitty code mods) := by
  rw [Token.InRange]
  by_cases hfit : code < 2 ^ 32 ∧ mods < 2 ^ 32
  · have hcore : PtyCore.tells.of (.kitty code mods) = .ok (PtyCore.kittyEvents code
        (modifierBits (mods - 1)).2.2 (modifierBits (mods - 1)).2.1
        (modifierBits (mods - 1)).1) := by
      rw [Tells.of, PtyCore.tells, if_pos hfit, Option.getD_some]
    have htui : PtyTui.tells.of (.kitty code mods) = .ok [.key (PtyTui.kittyKey
        (PtyTui.saturated code) (modifierBits (PtyTui.saturated mods - 1)).2.2
        (modifierBits (PtyTui.saturated mods - 1)).2.1
        (modifierBits (PtyTui.saturated mods - 1)).1)] := rfl
    rw [hcore, htui, saturated_of_lt hfit.1, saturated_of_lt hfit.2]
    by_cases hv : code.isValidChar
    · rw [kittyEvents_of_valid hv, same_singleton]
      exact iff_of_true rfl ⟨hv, hfit.2⟩
    · rw [kittyEvents_of_not_valid hv]
      exact iff_of_false not_same_nil fun hin ↦ hv hin.1
  · have hcore : PtyCore.tells.of (.kitty code mods) = .ok [] := by
      rw [Tells.of, PtyCore.tells, if_neg hfit, Option.getD_none]
    rw [hcore]
    exact iff_of_false not_same_nil fun hin ↦ hfit ⟨lt_of_isValidChar hin.1, hin.2⟩

/-- The decoders tell the same of a character that starts no sequence. -/
private theorem same_plain (c : Char) :
    Same (InputEvent.convert clip) (PtyCore.plain c) (PtyTui.plain c) := by
  have hcore {code : Nat} {event : PtyCore.Event} {event' : PtyTui.Event} (hc : c.toNat = code)
      (h : PtyCore.plain c = .ok [event]) (he : event.convert clip = event') :
      Same (InputEvent.convert clip) (PtyCore.plain c) (.ok [event']) :=
    h ▸ same_singleton.mpr he
  unfold PtyTui.plain
  split
  · next h => exact hcore h (by rw [PtyCore.plain, h]; rfl) rfl
  · next h => exact hcore h (by rw [PtyCore.plain, h]; rfl) rfl
  · next h => exact hcore h (by rw [PtyCore.plain, h]; rfl) rfl
  · next h => exact hcore h (by rw [PtyCore.plain, h]; rfl) rfl
  · next h₁ h₂ h₃ h₄ =>
    unfold PtyCore.plain
    dsimp only
    rw [if_neg h₁, if_neg h₂, if_neg h₃, if_neg h₄]
    split
    · rw [fromU32_of_valid (.inl (by omega))]
      exact same_singleton.mpr rfl
    · split
      · exact same_singleton.mpr rfl
      · exact ⟨[], [], rfl, rfl, rfl⟩

private theorem same_iff (t : Token) :
    Same (InputEvent.convert clip) (PtyCore.tells.of t) (PtyTui.tells.of t) ↔ t.InRange := by
  cases t with
  | mouse b x y release => exact same_mouse_iff b x y release
  | modified name mods => exact same_modified_iff name mods
  | kitty code mods => exact same_kitty_iff code mods
  | plain c => exact iff_of_true (same_plain c) trivial
  | unknown => exact iff_of_true ⟨[], [], rfl, rfl, rfl⟩ trivial
  | _ => exact iff_of_true (same_singleton.mpr rfl) trivial

/-- What pty-core does not tell, pty-tui tells. -/
private theorem noMore (t : Token) : NoMore (PtyCore.tells.of t) (PtyTui.tells.of t) := by
  have hone (told : Except Fault (List PtyCore.Event)) (event : PtyTui.Event)
      (h : ∀ events, told = .ok events → events.length ≤ 1) : NoMore told (.ok [event]) := by
    rintro events _ he ⟨⟩
    exact h events he
  by_cases h : t.InRange
  · obtain ⟨events, shown, he, hs, hmap⟩ := (same_iff t).mpr h
    rw [he, hs]
    rintro _ _ ⟨⟩ ⟨⟩
    rw [← hmap, List.length_map]
  · cases t with
    | mouse b x y release =>
      refine hone _ _ fun events he ↦ ?_
      rw [Tells.of, PtyCore.tells] at he
      split at he
      · cases hd : PtyCore.decodeMouse b (PtyCore.asI32 x) (PtyCore.asI32 y) release with
        | error fault =>
          rw [hd] at he
          cases he
        | ok event =>
          rw [hd] at he
          cases he
          exact Nat.le_refl 1
      · cases he
        exact Nat.zero_le 1
    | modified name mods =>
      refine hone _ _ fun events he ↦ ?_
      rw [Tells.of, PtyCore.tells] at he
      split at he
      · cases he
        exact Nat.le_refl 1
      · cases he
        exact Nat.zero_le 1
    | kitty code mods =>
      refine hone _ _ fun events he ↦ ?_
      rw [Tells.of, PtyCore.tells] at he
      split at he
      · cases he
        by_cases hv : code.isValidChar
        · exact Nat.le_of_eq (congrArg List.length (kittyEvents_of_valid hv _ _ _))
        · rw [kittyEvents_of_not_valid hv]
          exact Nat.zero_le 1
      · cases he
        exact Nat.zero_le 1
    | _ => exact absurd trivial h

/-! ### Whole texts -/

theorem PtyCore.parseInput_eq (data : Bytes) :
    parseInput data = tells.all (tokens data.chars) :=
  (step_reads data.length_chars_lt).scan_eq 0

theorem PtyTui.parseInput_eq (data : Bytes) :
    parseInput data = tells.all (tokens data.chars) :=
  (step_reads data.length_chars_lt).scan_eq 0

/-- The decoders agree on the bytes whose sequences have their numbers in range. -/
theorem decodersAgree_iff (data : Bytes) :
    DecodersAgree data ↔ ∀ t ∈ tokens data.chars, t.InRange := by
  rw [DecodersAgree, PtyCore.parseInput_eq, PtyTui.parseInput_eq, same_all_iff noMore]
  exact forall₂_congr fun t _ ↦ same_iff t

/-- `ESC [ < 0 ; 2147483648 ; 1 M`. -/
def farClick : Bytes where
  bytes := [0x1b, 0x5b, 0x3c, 0x30, 0x3b, 0x32, 0x31, 0x34, 0x37, 0x34, 0x38, 0x33, 0x36, 0x34,
    0x38, 0x3b, 0x31, 0x4d]
  length_lt := by decide

/-- A click in a column past the `i32` stops pty-core and not pty-tui. -/
theorem decodersAgree_refuted : ¬DecodersAgree farClick := by
  have hascii : ∀ b ∈ farClick.bytes, b < 0x80 := by simp [farClick]
  have hchars : farClick.chars = "\x1b[<0;2147483648;1M".toList := by
    rw [Bytes.chars, lossyChars_ascii hascii]
    decide
  have hstep : PtyCore.step "\x1b[<0;2147483648;1M".toList 0 = .error .overflow := by rfl
  have herror : PtyCore.parseInput farClick = .error .overflow := by
    rw [PtyCore.parseInput, hchars, scan, if_pos (by decide), hstep]
  rintro ⟨_, _, he, -⟩
  rw [herror] at he
  cases he

end PtySpec.Keys
