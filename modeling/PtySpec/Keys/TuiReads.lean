import PtySpec.Keys.Reads

/-!
# The decoder of pty-tui reads sequences

The steps of `parse_input`, `crates/pty-tui/src/input.rs:225`, follow the grammar. A number that
is too long for a `u32` is read as the greatest of them.
-/

namespace PtySpec.Keys.PtyTui

open Token (expect number mouse? arrow? modified? backtab? tilde? kitty? expect_eq_some
  number_eq_some)

variable {s r r' : List Char} {p n : Nat}

/-- A number as the greatest `u32` at most. -/
def saturated (n : Nat) : Nat := min n (2 ^ 32 - 1)

/-- What the decoder tells of the sequences, all of which it takes. -/
def tells : Tells Event
  | .mouse b x y release =>
    some (.ok [.mouse (decodeMouse (saturated b) (saturated x) (saturated y) release)])
  | .arrow name => some (.ok [.key (namedKey name)])
  | .modified name mods =>
    let bits := kittyMods (some (saturated mods))
    some (.ok [.key { name, char := none, ctrl := bits.2.2, alt := bits.2.1, shift := bits.1 }])
  | .backtab => some (.ok [.key (withShift (namedKey "backtab"))])
  | .tilde name => some (.ok [.key (namedKey name)])
  | .kitty code mods =>
    let bits := kittyMods (some (saturated mods))
    some (.ok [.key (kittyKey (saturated code) bits.2.2 bits.2.1 bits.1)])
  | .unknown => some (.ok [])
  | .alt c => some (.ok [.key (altKey (String.singleton c))])
  | .escape => some (.ok [.key (namedKey "escape")])
  | .plain c => some (plain c)

/-! ### Numbers -/

/-- The value read so far, of the digits before and of those that follow. -/
private theorem digitsLoop_eq {rest : List Char} (v : Nat) {k : Nat}
    (h : k + rest.length < 2 ^ 64) :
    digitsLoop rest (saturated v) k =
      .ok (saturated ((rest.takeWhile Char.isDigit).foldl (fun n c ↦ n * 10 + (c.toNat - 48)) v),
        k + (rest.takeWhile Char.isDigit).length) := by
  induction rest generalizing v k with
  | nil => rfl
  | cons c rest ih =>
    rw [List.length_cons] at h
    unfold digitsLoop
    split
    · next hc =>
      have hd : 48 ≤ c.toNat := by
        simp only [Char.isDigit, Bool.and_eq_true, decide_eq_true_eq] at hc
        exact hc.1
      have hsat : min (min (saturated v * 10) (2 ^ 32 - 1) + (c.toNat - 48)) (2 ^ 32 - 1) =
          saturated (v * 10 + (c.toNat - 48)) := by
        unfold saturated
        omega
      have hsub : subU32 c.toNat '0'.toNat = .ok (c.toNat - 48) := if_pos hd
      rw [hsub, add_eq (by omega)]
      simp only [ok_bind]
      rw [hsat, ih _ (by omega), List.takeWhile_cons_of_pos hc, List.length_cons, List.foldl_cons,
        Nat.add_assoc, Nat.add_comm 1]
    · next hc =>
      rw [List.takeWhile_cons_of_neg hc, List.foldl_nil, List.length_nil, Nat.add_zero]
      rfl

private theorem skipCsi_eq {rest : List Char} {k : Nat} (h : k + rest.length < 2 ^ 64) :
    skipCsi rest k = .ok (k + (rest.takeWhile (!PtyCore.isFinal ·)).length) := by
  induction rest generalizing k with
  | nil => rfl
  | cons c rest ih =>
    rw [List.length_cons] at h
    unfold skipCsi
    split
    · next hc =>
      have hcore : ¬(!PtyCore.isFinal c) = true := by
        rw [Bool.not_eq_true']
        exact Bool.not_eq_false _ ▸ hc
      rw [List.takeWhile_cons, if_neg hcore, List.length_nil, Nat.add_zero]
    · next hc =>
      have hcore : (!PtyCore.isFinal c) = true := by
        rw [Bool.not_eq_true']
        exact Bool.eq_false_iff.mpr hc
      rw [add_eq (by omega), ok_bind, ih (by omega), List.takeWhile_cons, if_pos hcore,
        List.length_cons, Nat.add_assoc, Nat.add_comm 1]

variable (hs : s.length < 2 ^ 63)

include hs

theorem digits_none (h : At s p r) (hn : number r = none) : digits s p = .ok none := by
  have hrun : r.takeWhile Char.isDigit = [] := by
    by_contra hne
    rw [number, if_neg hne] at hn
    cases hn
  have hl := h.len
  have hin : p + r.length < 2 ^ 64 := by omega
  have hloop := digitsLoop_eq 0 hin
  have hzero : saturated 0 = 0 := rfl
  rw [hzero, hrun] at hloop
  rw [digits, h.rest, hloop]
  simp

theorem digits_some (h : At s p r) (hn : number r = some (n, r')) :
    ∃ q, At s q r' ∧ digits s p = .ok (some (saturated n, q)) := by
  obtain ⟨hrun, rfl, rfl⟩ := number_eq_some hn
  refine ⟨_, h.run Char.isDigit, ?_⟩
  have hl := h.len
  have hpos := List.length_pos_of_ne_nil hrun
  have hin : p + r.length < 2 ^ 64 := by omega
  have hloop := digitsLoop_eq 0 hin
  have hzero : saturated 0 = 0 := rfl
  rw [hzero] at hloop
  rw [digits, h.rest, hloop, ok_bind]
  dsimp only
  rw [if_pos (by omega)]
  rfl

theorem field_none {c : Char} (h : At s p r) (hf : Token.field c r = none) :
    field s p c = .ok none := by
  rw [field, h.get]
  cases he : expect c r with
  | none => exact if_pos (Token.head?_ne he)
  | some r₁ =>
    obtain rfl := expect_eq_some.mp he
    have hl := h.len
    rw [List.length_cons] at hl
    rw [Token.field, he, Option.bind_some] at hf
    rw [List.head?_cons, if_neg (not_not_intro rfl), add_eq (by omega), ok_bind,
      digits_none hs h.next hf]

theorem field_some {c : Char} (h : At s p r) (hf : Token.field c r = some (n, r')) :
    ∃ q, At s q r' ∧ field s p c = .ok (some (saturated n, q)) := by
  obtain ⟨r₁, rfl, hn⟩ := Token.field_eq_some.mp hf
  have hl := h.len
  rw [List.length_cons] at hl
  obtain ⟨q, hat, hq⟩ := digits_some hs h.next hn
  refine ⟨q, hat, ?_⟩
  rw [field, h.get, List.head?_cons, if_neg (not_not_intro rfl), add_eq (by omega), ok_bind, hq]

/-! ### The branches -/

theorem mouse_answers (h : At s p r) : Answers tells s (mouse s p) (mouse? r) := by
  unfold mouse mouse?
  cases hb : Token.field '<' r with
  | none =>
    rw [field_none hs h hb]
    exact .none
  | some found =>
    obtain ⟨b, r₁⟩ := found
    obtain ⟨q₁, hat₁, hq₁⟩ := field_some hs h hb
    simp only [hq₁, ok_bind, Option.bind_eq_bind, Option.bind_some]
    cases hx : Token.field ';' r₁ with
    | none =>
      rw [field_none hs hat₁ hx]
      exact .none
    | some found =>
      obtain ⟨x, r₂⟩ := found
      obtain ⟨q₂, hat₂, hq₂⟩ := field_some hs hat₁ hx
      simp only [hq₂, ok_bind, Option.bind_some]
      cases hy : Token.field ';' r₂ with
      | none =>
        rw [field_none hs hat₂ hy]
        exact .none
      | some found =>
        obtain ⟨y, r₃⟩ := found
        obtain ⟨q₃, hat₃, hq₃⟩ := field_some hs hat₂ hy
        simp only [hq₃, ok_bind, Option.bind_some, hat₃.get]
        cases r₃ with
        | nil => exact .none
        | cons final r₃ =>
          have hl := hat₃.len
          rw [List.length_cons] at hl
          dsimp only [List.head?_cons]
          by_cases hf : final = 'M' ∨ final = 'm'
          · have ht : tells (.mouse b x y (final = 'm')) = some (.ok [.mouse
                (decodeMouse (saturated b) (saturated x) (saturated y) (final = 'm'))]) := rfl
            rw [if_pos hf, if_neg (not_and_or.mpr (hf.imp not_not_intro not_not_intro)),
              add_eq (by omega)]
            exact .takes ht hat₃.next
          · rw [if_neg hf, if_pos (not_or.mp hf)]
            exact .none

theorem arrow_answers (h : At s p r) : Answers tells s (arrow s p) (arrow? r) := by
  unfold arrow arrow?
  rw [h.get]
  cases r with
  | nil => exact .none
  | cons c r =>
    have hl := h.len
    rw [List.length_cons] at hl
    have hname : letterToName c = PtyCore.arrowName c := rfl
    simp only [List.head?_cons, Option.bind_eq_bind, hname]
    cases PtyCore.arrowName c with
    | none => exact .none
    | some name =>
      have ht : tells (.arrow name) = some (.ok [.key (namedKey name)]) := rfl
      rw [add_eq (by omega)]
      exact .takes ht h.next

theorem backtab_answers (h : At s p r) : Answers tells s (backtab s p) (backtab? r) := by
  unfold backtab backtab?
  rw [h.get]
  cases he : expect 'Z' r with
  | none =>
    rw [if_pos (Token.head?_ne he)]
    exact .none
  | some r₁ =>
    obtain rfl := expect_eq_some.mp he
    have hl := h.len
    rw [List.length_cons] at hl
    have ht : tells .backtab = some (.ok [.key (withShift (namedKey "backtab"))]) := rfl
    rw [List.head?_cons, if_neg (not_not_intro rfl), add_eq (by omega)]
    exact .takes ht h.next

omit hs in
private theorem tildeName_some (c : Char) : tildeName (some c) = PtyCore.tildeName c := by
  unfold tildeName PtyCore.tildeName
  grind

theorem tilde_answers (h : At s p r) : Answers tells s (tilde s p) (tilde? r) := by
  have hl := h.len
  unfold tilde tilde?
  rw [add_eq (by omega), ok_bind]
  cases r with
  | nil =>
    rw [List.length_nil] at hl
    rw [List.getElem?_eq_none (by omega)]
    exact .none
  | cons c r =>
    rw [List.length_cons] at hl
    rw [h.next.get, h.get]
    cases he : expect '~' r with
    | none =>
      rw [if_pos (Token.head?_ne he)]
      simp only [he]
      cases PtyCore.tildeName c <;> exact .none
    | some r₁ =>
      obtain rfl := expect_eq_some.mp he
      rw [List.length_cons] at hl
      rw [List.head?_cons, if_neg (not_not_intro rfl), List.head?_cons]
      rw [tildeName_some]
      dsimp only
      cases PtyCore.tildeName c with
      | none => exact .none
      | some name =>
        have ht : tells (.tilde name) = some (.ok [.key (namedKey name)]) := rfl
        rw [add_eq (by omega)]
        exact .takes ht h.next.next

theorem modifiedArrow_answers (h : At s p r) :
    Answers tells s (modifiedArrow s p) (modified? r) := by
  have hl := h.len
  unfold modifiedArrow modified?
  rw [h.get]
  cases he : expect '1' r with
  | none =>
    rw [if_pos (Token.head?_ne he)]
    exact .none
  | some r₁ =>
    obtain rfl := expect_eq_some.mp he
    rw [List.length_cons] at hl
    rw [List.head?_cons, if_neg (not_not_intro rfl), add_eq (show p + 1 < 2 ^ 64 by omega), ok_bind,
      h.next.get]
    cases he₁ : expect ';' r₁ with
    | none =>
      rw [if_pos (Token.head?_ne he₁)]
      simp only [Token.field, he₁, Option.bind_eq_bind, Option.bind_some]
      exact .none
    | some r₂ =>
      obtain rfl := expect_eq_some.mp he₁
      rw [List.length_cons] at hl
      rw [List.head?_cons, if_neg (not_not_intro rfl), add_eq (show p + 2 < 2 ^ 64 by omega),
        ok_bind]
      simp only [Token.field, he₁, Option.bind_eq_bind, Option.bind_some]
      cases hn : number r₂ with
      | none =>
        rw [digits_none hs h.next.next hn]
        exact .none
      | some found =>
        obtain ⟨mods, r₃⟩ := found
        obtain ⟨q, hat, hq⟩ := digits_some hs h.next.next hn
        rw [hq, ok_bind]
        simp only [hat.get, Option.bind_some]
        cases r₃ with
        | nil => exact .none
        | cons c r₃ =>
          have hl := hat.len
          rw [List.length_cons] at hl
          have hname : letterToName c = PtyCore.arrowName c := rfl
          simp only [List.head?_cons, hname]
          cases PtyCore.arrowName c with
          | none => exact .none
          | some name =>
            have ht : tells (.modified name mods) = some (.ok [.key {
                name, char := none, ctrl := (kittyMods (some (saturated mods))).2.2
                alt := (kittyMods (some (saturated mods))).2.1
                shift := (kittyMods (some (saturated mods))).1 }]) := rfl
            rw [add_eq (by omega)]
            exact .takes ht hat.next

theorem kitty_answers (h : At s p r) : Answers tells s (kitty s p) (kitty? r) := by
  have htake (code mods : Nat) : tells (.kitty code mods) = some (.ok [.key
      (kittyKey (saturated code) (kittyMods (some (saturated mods))).2.2
        (kittyMods (some (saturated mods))).2.1 (kittyMods (some (saturated mods))).1)]) := rfl
  unfold kitty kitty?
  cases hn : number r with
  | none =>
    rw [digits_none hs h hn]
    exact .none
  | some found =>
    obtain ⟨code, r₁⟩ := found
    obtain ⟨q, hat, hq⟩ := digits_some hs h hn
    have hl := hat.len
    rw [hq, ok_bind]
    simp only [hat.get, Option.bind_eq_bind, Option.bind_some]
    cases he : expect ';' r₁ with
    | none =>
      rw [if_neg (Token.head?_ne he)]
      simp only [pure_bind, hat.get]
      cases hu : expect 'u' r₁ with
      | none =>
        rw [if_pos (Token.head?_ne hu)]
        exact .none
      | some r₂ =>
        obtain rfl := expect_eq_some.mp hu
        rw [List.length_cons] at hl
        rw [List.head?_cons, if_neg (not_not_intro rfl), add_eq (by omega)]
        exact .takes (htake code 1) hat.next
    | some r₂ =>
      obtain rfl := expect_eq_some.mp he
      rw [List.length_cons] at hl
      rw [List.head?_cons, if_pos rfl, add_eq (by omega), ok_bind]
      dsimp only
      cases hm : number r₂ with
      | none =>
        rw [digits_none hs hat.next hm]
        simp only [ok_bind, pure_bind, hat.get, List.head?_cons]
        exact .none
      | some found =>
        obtain ⟨mods, r₃⟩ := found
        obtain ⟨q₃, hat₃, hq₃⟩ := digits_some hs hat.next hm
        rw [hq₃]
        simp only [ok_bind, pure_bind, hat₃.get, Option.bind_some]
        cases hu : expect 'u' r₃ with
        | none =>
          rw [if_pos (Token.head?_ne hu)]
          exact .none
        | some r₄ =>
          obtain rfl := expect_eq_some.mp hu
          have hl₃ := hat₃.len
          rw [List.length_cons] at hl₃
          rw [List.head?_cons, if_neg (not_not_intro rfl), add_eq (by omega)]
          exact .takes (htake code mods) hat₃.next

/-! ### The steps -/

theorem csi_reads (h : At s p r) :
    ∃ next, p ≤ next ∧ s.drop next = (Token.csi r).2 ∧
      csi s p = (tells.of (Token.csi r).1).map (·, next) := by
  have hl := h.len
  have hl' := (h.run (!PtyCore.isFinal ·)).len
  rw [csi, h.rest, skipCsi_eq (by omega), ok_bind, add_eq (by omega)]
  exact firstOf_known rfl h <| .cons (mouse_answers hs h) <| .cons (arrow_answers hs h) <|
    .cons (modifiedArrow_answers hs h) <| .cons (backtab_answers hs h) <|
    .cons (tilde_answers hs h) <| .cons (kitty_answers hs h) .nil

/-- A step of the decoder reads the sequence that starts there. -/
theorem step_reads : Reads tells s (step s) :=
  reads_stepWith hs (fun _ ↦ rfl) (fun _ ↦ rfl) rfl fun _ _ h ↦ csi_reads hs h

end PtySpec.Keys.PtyTui
