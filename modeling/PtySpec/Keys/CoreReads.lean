import PtySpec.Keys.Reads

/-!
# The decoder of pty-core reads sequences

The steps of `parse_input`, `crates/pty-core/src/input.rs:184`, follow the grammar. A sequence
with a number that is too long for a `u32` is not taken.
-/

namespace PtySpec.Keys.PtyCore

open Token (expect number mouse? arrow? modified? backtab? tilde? kitty? expect_eq_some
  number_eq_some number_of_isDigit number_of_not_isDigit field_eq_some mouse?_eq_some
  modified?_eq_some kitty?_eq_some)

variable {s r r' : List Char} {p n : Nat}

/-- What the decoder tells of the sequences that it takes. -/
def tells : Tells Event
  | .mouse b x y release =>
    if b < 2 ^ 32 ∧ x < 2 ^ 32 ∧ y < 2 ^ 32 then
      some ((decodeMouse b (asI32 x) (asI32 y) release).map fun event ↦ [.mouse event])
    else none
  | .arrow name => some (.ok [named name false false false])
  | .modified name mods =>
    if mods < 2 ^ 32 then
      let bits := modifierBits (mods - 1)
      some (.ok [named name bits.2.2 bits.2.1 bits.1])
    else none
  | .backtab => some (.ok [named "backtab" false false true])
  | .tilde name => some (.ok [named name false false false])
  | .kitty code mods =>
    if code < 2 ^ 32 ∧ mods < 2 ^ 32 then
      let bits := modifierBits (mods - 1)
      some (.ok (kittyEvents code bits.2.2 bits.2.1 bits.1))
    else none
  | .unknown => some (.ok [])
  | .alt c => some (.ok [printable (String.singleton c) false true false])
  | .escape => some (.ok [named "escape" false false false])
  | .plain c => some (plain c)

/-! ### Numbers -/

theorem skip_eq (test : Char → Bool) {rest : List Char} {k : Nat}
    (h : k + rest.length < 2 ^ 64) :
    skip test rest k = .ok (k + (rest.takeWhile test).length) := by
  induction rest generalizing k with
  | nil => rfl
  | cons c rest ih =>
    rw [List.length_cons] at h
    unfold skip
    split
    · next hc =>
      rw [add_eq (by omega), ok_bind, ih (by omega), List.takeWhile_cons_of_pos hc,
        List.length_cons, Nat.add_assoc, Nat.add_comm 1]
    · next hc => rw [List.takeWhile_cons_of_neg hc, List.length_nil, Nat.add_zero]

variable (hs : s.length < 2 ^ 63)

include hs

private theorem skip_at (h : At s p r) (test : Char → Bool) :
    skip test (s.drop p) p = .ok (p + (r.takeWhile test).length) := by
  have hl := h.len
  rw [h.rest, skip_eq test (by omega)]

theorem takeDigits_none (h : At s p r) (hn : number r = none) :
    takeDigits s p = .ok (none, p) := by
  have hrun : r.takeWhile Char.isDigit = [] := by
    by_contra hne
    rw [number, if_neg hne] at hn
    cases hn
  rw [takeDigits, skip_at hs h, hrun, ok_bind]
  exact if_pos rfl

theorem takeDigits_some (h : At s p r) (hn : number r = some (n, r')) :
    ∃ q, At s q r' ∧ takeDigits s p = .ok (if n < 2 ^ 32 then some n else none, q) := by
  obtain ⟨hrun, rfl, rfl⟩ := number_eq_some hn
  refine ⟨_, h.run Char.isDigit, ?_⟩
  have hat := (h.run Char.isDigit).len
  have hpos := List.length_pos_of_ne_nil hrun
  have hslice : slice s p (p + (r.takeWhile Char.isDigit).length) =
      .ok (r.takeWhile Char.isDigit) := by
    rw [slice, if_pos ⟨by omega, by omega⟩, h.rest, Nat.add_sub_cancel_left]
    congr 1
    exact List.prefix_iff_eq_take.mp (List.takeWhile_prefix _) |>.symm
  rw [takeDigits, skip_at hs h, ok_bind, if_neg (by omega), hslice]
  rfl

/-! ### The branches -/

theorem field_none {c : Char} (h : At s p r) (hf : Token.field c r = none) :
    field s p c = .ok none := by
  rw [field, peek_eq, h.get, ok_bind]
  cases he : expect c r with
  | none => exact if_pos (Token.head?_ne he)
  | some r₁ =>
    obtain rfl := expect_eq_some.mp he
    have hl := h.len
    rw [List.length_cons] at hl
    rw [Token.field, he, Option.bind_some] at hf
    rw [List.head?_cons, if_neg (not_not_intro rfl), add_eq (by omega), ok_bind,
      takeDigits_none hs h.next hf]
    rfl

theorem field_some {c : Char} (h : At s p r) (hf : Token.field c r = some (n, r')) :
    ∃ q, At s q r' ∧ field s p c = .ok (if n < 2 ^ 32 then some (n, q) else none) := by
  obtain ⟨r₁, rfl, hn⟩ := field_eq_some.mp hf
  have hl := h.len
  rw [List.length_cons] at hl
  obtain ⟨q, hat, htake⟩ := takeDigits_some hs h.next hn
  refine ⟨q, hat, ?_⟩
  rw [field, peek_eq, h.get, ok_bind, List.head?_cons, if_neg (not_not_intro rfl),
    add_eq (by omega), ok_bind, htake]
  by_cases hlt : n < 2 ^ 32
  · rw [if_pos hlt, if_pos hlt]
    rfl
  · rw [if_neg hlt, if_neg hlt]
    rfl

/-! ### The branches -/

omit hs in
/-- A mouse report is not taken for one of its numbers. -/
private theorem mouse?_falls
    (hbig : ∀ b r₁ x r₂ y r₃, Token.field '<' r = some (b, r₁) → Token.field ';' r₁ = some (x, r₂) →
      Token.field ';' r₂ = some (y, r₃) → ¬(b < 2 ^ 32 ∧ x < 2 ^ 32 ∧ y < 2 ^ 32)) :
    Answers tells s (.ok none) (mouse? r) := by
  refine .falls fun t r' hm ↦ ?_
  obtain ⟨b, r₁, x, r₂, y, final, hb, hx, hy, -, rfl⟩ := mouse?_eq_some hm
  exact if_neg (hbig b r₁ x r₂ y _ hb hx hy)

/-- The end of a mouse report, once its numbers are taken. -/
private theorem final_answers {b x y q : Nat} {r₁ r₂ r₃ : List Char}
    (hb : Token.field '<' r = some (b, r₁)) (hx : Token.field ';' r₁ = some (x, r₂))
    (hy : Token.field ';' r₂ = some (y, r₃)) (hfit : b < 2 ^ 32 ∧ x < 2 ^ 32 ∧ y < 2 ^ 32)
    (hat : At s q r₃) :
    Answers tells s
      (do
        let final ← peek s q
        if final ≠ some 'M' ∧ final ≠ some 'm' then return none
        let event ← decodeMouse b (asI32 x) (asI32 y) (final = some 'm')
        return some ([.mouse event], ← add q 1))
      (mouse? r) := by
  rw [peek_eq, hat.get, ok_bind, mouse?, hb]
  simp only [hx, hy, Option.bind_eq_bind, Option.bind_some]
  cases r₃ with
  | nil => exact .none
  | cons final r₃ =>
    have hl := hat.len
    rw [List.length_cons] at hl
    simp only [List.head?_cons, ne_eq, Option.some.injEq]
    by_cases hf : final = 'M' ∨ final = 'm'
    · rw [if_pos hf, if_neg (not_and_or.mpr (hf.imp not_not_intro not_not_intro)),
        add_eq (by omega)]
      have htells : tells (.mouse b x y (final = 'm')) =
          some ((decodeMouse b (asI32 x) (asI32 y) (final = 'm')).map
            fun event ↦ [.mouse event]) := if_pos hfit
      convert Answers.takes htells hat.next using 1
      cases decodeMouse b (asI32 x) (asI32 y) (final = 'm') <;> rfl
    · rw [if_neg hf, if_pos (not_or.mp hf)]
      exact .none

theorem mouse_answers (h : At s p r) : Answers tells s (mouse s p) (mouse? r) := by
  unfold mouse
  cases hb : Token.field '<' r with
  | none =>
    rw [field_none hs h hb, mouse?, hb]
    exact .none
  | some found =>
    obtain ⟨b, r₁⟩ := found
    obtain ⟨q₁, hat₁, hq₁⟩ := field_some hs h hb
    rw [hq₁, ok_bind]
    by_cases hb32 : b < 2 ^ 32
    · rw [if_pos hb32]
      cases hx : Token.field ';' r₁ with
      | none =>
        rw [mouse?, hb]
        simp only [field_none hs hat₁ hx, hx, ok_bind, Option.bind_eq_bind, Option.bind_some]
        exact .none
      | some found =>
        obtain ⟨x, r₂⟩ := found
        obtain ⟨q₂, hat₂, hq₂⟩ := field_some hs hat₁ hx
        simp only [hq₂, ok_bind]
        by_cases hx32 : x < 2 ^ 32
        · rw [if_pos hx32]
          cases hy : Token.field ';' r₂ with
          | none =>
            rw [mouse?, hb]
            simp only [field_none hs hat₂ hy, hx, hy, ok_bind, Option.bind_eq_bind,
              Option.bind_some]
            exact .none
          | some found =>
            obtain ⟨y, r₃⟩ := found
            obtain ⟨q₃, hat₃, hq₃⟩ := field_some hs hat₂ hy
            simp only [hq₃, ok_bind]
            by_cases hy32 : y < 2 ^ 32
            · rw [if_pos hy32]
              exact final_answers hs hb hx hy ⟨hb32, hx32, hy32⟩ hat₃
            · rw [if_neg hy32]
              refine mouse?_falls fun _ _ _ _ _ _ hb' hx' hy' hfit ↦ hy32 ?_
              cases hb.symm.trans hb'
              cases hx.symm.trans hx'
              cases hy.symm.trans hy'
              exact hfit.2.2
        · rw [if_neg hx32]
          refine mouse?_falls fun _ _ _ _ _ _ hb' hx' _ hfit ↦ hx32 ?_
          cases hb.symm.trans hb'
          cases hx.symm.trans hx'
          exact hfit.2.1
    · rw [if_neg hb32]
      refine mouse?_falls fun _ _ _ _ _ _ hb' _ _ hfit ↦ hb32 ?_
      cases hb.symm.trans hb'
      exact hfit.1

theorem arrow_answers (h : At s p r) : Answers tells s (arrow s p) (arrow? r) := by
  unfold arrow arrow?
  rw [peek_eq, h.get, ok_bind]
  cases r with
  | nil => exact .none
  | cons c r =>
    have hl := h.len
    rw [List.length_cons] at hl
    simp only [List.head?_cons, Option.bind_some, Option.bind_eq_bind]
    cases arrowName c with
    | none => exact .none
    | some name =>
      have ht : tells (.arrow name) = some (.ok [named name false false false]) := rfl
      rw [add_eq (by omega)]
      exact .takes ht h.next

theorem backtab_answers (h : At s p r) : Answers tells s (backtab s p) (backtab? r) := by
  unfold backtab backtab?
  rw [peek_eq, h.get, ok_bind]
  cases he : expect 'Z' r with
  | none =>
    rw [if_pos (Token.head?_ne he)]
    exact .none
  | some r₁ =>
    obtain rfl := expect_eq_some.mp he
    have hl := h.len
    rw [List.length_cons] at hl
    have ht : tells .backtab = some (.ok [named "backtab" false false true]) := rfl
    rw [List.head?_cons, if_neg (not_not_intro rfl), add_eq (by omega)]
    exact .takes ht h.next

theorem tilde_answers (h : At s p r) : Answers tells s (tilde s p) (tilde? r) := by
  have hl := h.len
  unfold tilde tilde?
  rw [add_eq (by omega), ok_bind, peek_eq, ok_bind]
  cases r with
  | nil =>
    rw [List.length_nil] at hl
    rw [List.getElem?_eq_none (by omega)]
    exact .none
  | cons c r =>
    rw [List.length_cons] at hl
    rw [h.next.get]
    cases he : expect '~' r with
    | none =>
      rw [if_pos (Token.head?_ne he)]
      simp only [he]
      cases tildeName c <;> exact .none
    | some r₁ =>
      obtain rfl := expect_eq_some.mp he
      rw [List.head?_cons, if_neg (not_not_intro rfl), index_eq h.get, ok_bind]
      dsimp only
      cases tildeName c with
      | none => exact .none
      | some name =>
        rw [List.length_cons] at hl
        have ht : tells (.tilde name) = some (.ok [named name false false false]) := rfl
        rw [add_eq (by omega)]
        exact .takes ht h.next.next

theorem modifiedArrow_answers (h : At s p r) :
    Answers tells s (modifiedArrow s p) (modified? r) := by
  have hl := h.len
  unfold modifiedArrow
  simp only [add_eq (show p + 1 < 2 ^ 64 by omega), add_eq (show p + 2 < 2 ^ 64 by omega),
    peek_eq, h.get, ok_bind]
  cases he : expect '1' r with
  | none =>
    rw [if_pos (.inl (Token.head?_ne he)), modified?, he]
    exact .none
  | some r₁ =>
    obtain rfl := expect_eq_some.mp he
    rw [h.next.get, List.head?_cons]
    cases he₁ : expect ';' r₁ with
    | none =>
      rw [if_pos (.inr (Token.head?_ne he₁)), modified?, he]
      simp only [Token.field, he₁, Option.bind_eq_bind, Option.bind_some]
      exact .none
    | some r₂ =>
      obtain rfl := expect_eq_some.mp he₁
      rw [List.head?_cons, if_neg (by simp)]
      cases hn : number r₂ with
      | none =>
        rw [takeDigits_none hs h.next.next hn, modified?, he]
        simp only [Token.field, he₁, hn, Option.bind_eq_bind, Option.bind_some]
        exact .none
      | some found =>
        obtain ⟨mods, r₃⟩ := found
        obtain ⟨q, hat, htake⟩ := takeDigits_some hs h.next.next hn
        rw [htake]
        by_cases hlt : mods < 2 ^ 32
        · rw [if_pos hlt, modified?, he]
          simp only [Token.field, he₁, hn, ok_bind, Option.bind_eq_bind, Option.bind_some]
          rw [hat.get]
          cases r₃ with
          | nil => exact .none
          | cons c r₃ =>
            have hl := hat.len
            rw [List.length_cons] at hl
            simp only [List.head?_cons, Option.bind_some]
            cases arrowName c with
            | none => exact .none
            | some name =>
              have ht : tells (.modified name mods) = some (.ok [named name
                  (modifierBits (mods - 1)).2.2 (modifierBits (mods - 1)).2.1
                  (modifierBits (mods - 1)).1]) := if_pos hlt
              rw [add_eq (by omega)]
              exact .takes ht hat.next
        · rw [if_neg hlt]
          refine .falls fun t r' hm ↦ ?_
          obtain ⟨_, _, c, name, hr, hn', -, rfl⟩ := modified?_eq_some hm
          cases hr
          cases hn.symm.trans hn'
          exact if_neg hlt

/-- The modifiers of a kitty key. -/
private theorem kittyMods_answers {code q : Nat} {r₁ : List Char} (hn : number r = some (code, r₁))
    (hcode : code < 2 ^ 32) (hat : At s q r₁) :
    Answers tells s
      (do
        let (modsWire, q) ←
          if (← peek s q) = some ';' then takeDigits s (← add q 1) else pure (some 1, q)
        let some modsWire := modsWire | return none
        if (← peek s q) ≠ some 'u' then return none
        let (shift, alt, ctrl) := modifierBits (modsWire - 1)
        return some (kittyEvents code ctrl alt shift, ← add q 1))
      (kitty? r) := by
  have htake (mods : Nat) (hlt : mods < 2 ^ 32) :
      tells (.kitty code mods) = some (.ok (kittyEvents code (modifierBits (mods - 1)).2.2
        (modifierBits (mods - 1)).2.1 (modifierBits (mods - 1)).1)) := if_pos ⟨hcode, hlt⟩
  rw [peek_eq, hat.get, ok_bind, kitty?, hn]
  simp only [Option.bind_eq_bind, Option.bind_some]
  cases he : expect ';' r₁ with
  | none =>
    rw [if_neg (Token.head?_ne he)]
    simp only [pure_bind, peek_eq, hat.get, ok_bind]
    cases hu : expect 'u' r₁ with
    | none =>
      rw [if_pos (Token.head?_ne hu)]
      exact .none
    | some r₂ =>
      obtain rfl := expect_eq_some.mp hu
      have hl := hat.len
      rw [List.length_cons] at hl
      rw [List.head?_cons, if_neg (not_not_intro rfl), add_eq (by omega)]
      exact .takes (htake 1 (by decide)) hat.next
  | some r₂ =>
    obtain rfl := expect_eq_some.mp he
    have hl := hat.len
    rw [List.length_cons] at hl
    rw [List.head?_cons, if_pos rfl, add_eq (by omega), ok_bind]
    dsimp only
    cases hm : number r₂ with
    | none =>
      rw [takeDigits_none hs hat.next hm]
      exact .none
    | some found =>
      obtain ⟨mods, r₃⟩ := found
      obtain ⟨q₃, hat₃, htake₃⟩ := takeDigits_some hs hat.next hm
      rw [htake₃]
      by_cases hlt : mods < 2 ^ 32
      · rw [if_pos hlt]
        simp only [ok_bind, peek_eq, hat₃.get, Option.bind_some]
        cases hu : expect 'u' r₃ with
        | none =>
          rw [if_pos (Token.head?_ne hu)]
          exact .none
        | some r₄ =>
          obtain rfl := expect_eq_some.mp hu
          have hl₃ := hat₃.len
          rw [List.length_cons] at hl₃
          rw [List.head?_cons, if_neg (not_not_intro rfl), add_eq (by omega)]
          exact .takes (htake mods hlt) hat₃.next
      · rw [if_neg hlt]
        refine .falls fun t r' hsome ↦ ?_
        simp only [Option.bind_some, Option.bind_eq_some_iff, Option.pure_def, Option.some.injEq,
          Prod.mk.injEq] at hsome
        obtain ⟨_, -, rfl, -⟩ := hsome
        exact if_neg fun hfit ↦ hlt hfit.2

theorem kitty_answers (h : At s p r) : Answers tells s (kitty s p) (kitty? r) := by
  unfold kitty
  rw [peek_eq, h.get, ok_bind]
  cases r with
  | nil => exact .none
  | cons c r =>
    by_cases hc : c.isDigit = true
    · rw [if_neg (by simpa using hc)]
      obtain ⟨code, hn⟩ := number_of_isDigit hc r
      obtain ⟨q, hat, htake⟩ := takeDigits_some hs h hn
      rw [htake]
      by_cases hlt : code < 2 ^ 32
      · rw [if_pos hlt]
        exact kittyMods_answers hs hn hlt hat
      · rw [if_neg hlt]
        refine .falls fun t r' hm ↦ ?_
        obtain ⟨code', mods, r₁, hn', rfl, -⟩ := kitty?_eq_some hm
        cases hn.symm.trans hn'
        exact if_neg fun hfit ↦ hlt hfit.1
    · rw [if_pos (by simpa using hc), kitty?, number_of_not_isDigit (Bool.eq_false_iff.mpr hc)]
      exact .none

/-! ### The steps -/

theorem csi_reads (h : At s p r) :
    ∃ next, p ≤ next ∧ s.drop next = (Token.csi r).2 ∧
      csi s p = (tells.of (Token.csi r).1).map (·, next) := by
  have hl := (h.run (!isFinal ·)).len
  rw [csi, skip_at hs h, ok_bind, add_eq (by omega)]
  exact firstOf_known rfl h <| .cons (mouse_answers hs h) <| .cons (arrow_answers hs h) <|
    .cons (modifiedArrow_answers hs h) <| .cons (backtab_answers hs h) <|
    .cons (tilde_answers hs h) <| .cons (kitty_answers hs h) .nil

/-- A step of the decoder reads the sequence that starts there. -/
theorem step_reads : Reads tells s (step s) :=
  reads_stepWith hs (fun _ ↦ rfl) (fun _ ↦ rfl) rfl fun _ _ h ↦ csi_reads hs h

end PtySpec.Keys.PtyCore
