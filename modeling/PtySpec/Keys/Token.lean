import PtySpec.Keys.Core
import PtySpec.Keys.Tui

/-!
# The sequences of a terminal's input

What a terminal sends is read as sequences, with numbers of any length. This is the grammar
that both decoders are meant to read; what each of them tells of a sequence depends on its
numbers alone.
-/

namespace PtySpec.Keys

open PtyCore (arrowName tildeName isFinal)

/-- A sequence of a terminal's input. -/
inductive Token
  | mouse (b x y : Nat) (release : Bool)
  | arrow (name : String)
  | modified (name : String) (mods : Nat)
  | backtab
  | tilde (name : String)
  | kitty (code mods : Nat)
  | unknown
  | alt (c : Char)
  | escape
  | plain (c : Char)
deriving DecidableEq, Repr

namespace Token

/-- A text that starts with the character, without it. -/
def expect (c : Char) : List Char → Option (List Char)
  | d :: rest => if d = c then some rest else none
  | [] => none

/-- A number at the start of a text, and the rest of the text. -/
def number (r : List Char) : Option (Nat × List Char) :=
  if r.takeWhile Char.isDigit = [] then none
  else some (value (r.takeWhile Char.isDigit), r.dropWhile Char.isDigit)

/-- A mark and a number after it. -/
def field (mark : Char) (r : List Char) : Option (Nat × List Char) := (expect mark r).bind number

/-- `< b ; x ; y` and then `M` or `m`. -/
def mouse? (r : List Char) : Option (Token × List Char) := do
  let (b, r) ← field '<' r
  let (x, r) ← field ';' r
  let (y, r) ← field ';' r
  let final :: r := r | none
  if final = 'M' ∨ final = 'm' then some (.mouse b x y (final = 'm'), r) else none

/-- A letter. -/
def arrow? (r : List Char) : Option (Token × List Char) := do
  let c :: r := r | none
  let name ← arrowName c
  return (.arrow name, r)

/-- `1 ; mods` and a letter. -/
def modified? (r : List Char) : Option (Token × List Char) := do
  let (mods, r) ← field ';' (← expect '1' r)
  let c :: r := r | none
  let name ← arrowName c
  return (.modified name mods, r)

/-- `Z`. -/
def backtab? (r : List Char) : Option (Token × List Char) := do
  return (.backtab, ← expect 'Z' r)

/-- A digit and a tilde. -/
def tilde? (r : List Char) : Option (Token × List Char) := do
  let c :: r := r | none
  let name ← tildeName c
  return (.tilde name, ← expect '~' r)

/-- `code u` or `code ; mods u`. -/
def kitty? (r : List Char) : Option (Token × List Char) := do
  let (code, r) ← number r
  match expect ';' r with
  | some r =>
    let (mods, r) ← number r
    return (.kitty code mods, ← expect 'u' r)
  | none => return (.kitty code 1, ← expect 'u' r)

/-- Past the end of a control sequence. -/
def pastFinal (r : List Char) : List Char := (r.dropWhile (!isFinal ·)).tail

/-- The sequences that both decoders know, of which no two start one text. -/
def known (r : List Char) : List (Option (Token × List Char)) :=
  [mouse? r, arrow? r, modified? r, backtab? r, tilde? r, kitty? r]

/-- The sequence after `ESC [`. -/
def csi (r : List Char) : Token × List Char :=
  ((known r).findSome? id).getD (.unknown, pastFinal r)

/-- The sequence at the start of a text. -/
def read (c : Char) (rest : List Char) : Token × List Char :=
  if c ≠ '\x1b' then (.plain c, rest)
  else match rest with
    | ch :: rest =>
      if ch = '[' then csi rest else if ' ' ≤ ch then (.alt ch, rest) else (.escape, ch :: rest)
    | [] => (.escape, [])

/-! ### Numbers -/

theorem expect_eq_some {c : Char} {r r' : List Char} : expect c r = some r' ↔ r = c :: r' := by
  cases r with
  | nil => simp [expect]
  | cons d r =>
    rw [expect, List.cons.injEq]
    split
    · next h => rw [Option.some.injEq, and_iff_right h]
    · next h => simp [h]

theorem head?_ne {c : Char} {r : List Char} (h : expect c r = none) : r.head? ≠ some c := by
  intro hr
  obtain ⟨rest, rfl⟩ := List.head?_eq_some_iff.mp hr
  rw [expect_eq_some.mpr rfl] at h
  cases h

theorem number_of_not_isDigit {c : Char} (h : c.isDigit = false) (r : List Char) :
    number (c :: r) = none := by
  rw [number, List.takeWhile_cons_of_neg (by rw [h]; decide), if_pos rfl]

theorem number_of_isDigit {c : Char} (h : c.isDigit = true) (r : List Char) :
    ∃ n, number (c :: r) = some (n, r.dropWhile Char.isDigit) := by
  refine ⟨value (c :: r.takeWhile Char.isDigit), ?_⟩
  rw [number, List.takeWhile_cons_of_pos h, List.dropWhile_cons_of_pos h,
    if_neg (List.cons_ne_nil _ _)]

theorem number_eq_some {r r' : List Char} {n : Nat} (h : number r = some (n, r')) :
    r.takeWhile Char.isDigit ≠ [] ∧ n = value (r.takeWhile Char.isDigit) ∧
      r' = r.dropWhile Char.isDigit := by
  unfold number at h
  split at h
  · cases h
  · next hd =>
    cases h
    exact ⟨hd, rfl, rfl⟩

/-! ### The ends of the sequences -/

theorem pastFinal_of_final {c : Char} (h : isFinal c = true) (r : List Char) :
    pastFinal (c :: r) = r := by
  rw [pastFinal, List.dropWhile_cons_of_neg (by rw [h]; decide), List.tail_cons]

theorem pastFinal_of_not_final {c : Char} (h : isFinal c = false) (r : List Char) :
    pastFinal (c :: r) = pastFinal r := by
  rw [pastFinal, List.dropWhile_cons_of_pos (by rw [h]; rfl), pastFinal]

private theorem isFinal_of_isDigit {c : Char} (h : c.isDigit = true) : isFinal c = false := by
  simp only [Char.isDigit, Bool.and_eq_true, decide_eq_true_eq] at h
  simp only [isFinal, Bool.and_eq_false_imp, decide_eq_true_eq, decide_eq_false_iff_not]
  intro h'
  have h₁ : c.val.toNat ≤ 57 := h.2
  have h₂ : 64 ≤ c.val.toNat := h'
  omega

theorem field_eq_some {c : Char} {r r' : List Char} {n : Nat} :
    field c r = some (n, r') ↔ ∃ r₁, r = c :: r₁ ∧ number r₁ = some (n, r') := by
  simp only [field, Option.bind_eq_some_iff, expect_eq_some]

theorem pastFinal_number {r r' : List Char} {n : Nat} (h : number r = some (n, r')) :
    pastFinal r' = pastFinal r := by
  obtain ⟨-, -, rfl⟩ := number_eq_some h
  clear h
  induction r with
  | nil => rfl
  | cons c r ih =>
    by_cases hc : c.isDigit = true
    · rw [List.dropWhile_cons_of_pos hc, ih, pastFinal_of_not_final (isFinal_of_isDigit hc)]
    · rw [List.dropWhile_cons_of_neg hc]

theorem pastFinal_field {c : Char} (hc : isFinal c = false) {r r' : List Char} {n : Nat}
    (h : field c r = some (n, r')) : pastFinal r' = pastFinal r := by
  obtain ⟨r₁, rfl, hn⟩ := field_eq_some.mp h
  rw [pastFinal_number hn, pastFinal_of_not_final hc]

theorem length_pastFinal_le (r : List Char) : (pastFinal r).length ≤ r.length := by
  rw [pastFinal, List.length_tail]
  exact Nat.le_trans (Nat.sub_le _ _) (List.length_dropWhile_le _ _)

theorem isFinal_of_arrowName {c : Char} {name : String} (h : arrowName c = some name) :
    isFinal c = true ∧ c.isDigit = false ∧ c ≠ 'u' ∧ c ≠ 'Z' ∧ c ≠ '<' ∧ c ≠ ';' := by
  unfold arrowName at h
  split at h
  all_goals first | decide | cases h

theorem isDigit_of_tildeName {c : Char} {name : String} (h : tildeName c = some name) :
    c.isDigit = true ∧ c ≠ '1' := by
  unfold tildeName at h
  split at h
  all_goals first | decide | cases h

theorem mouse?_eq_some {r r' : List Char} {t : Token} (h : mouse? r = some (t, r')) :
    ∃ b r₁ x r₂ y final, field '<' r = some (b, r₁) ∧ field ';' r₁ = some (x, r₂) ∧
      field ';' r₂ = some (y, final :: r') ∧ (final = 'M' ∨ final = 'm') ∧
      t = .mouse b x y (final = 'm') := by
  simp only [mouse?, Option.bind_eq_bind, Option.bind_eq_some_iff, Prod.exists] at h
  obtain ⟨b, r₁, hb, x, r₂, hx, y, r₃, hy, h⟩ := h
  cases r₃ with
  | nil => cases h
  | cons final r₃ =>
    dsimp only at h
    split at h
    · next hf =>
      cases h
      exact ⟨b, r₁, x, r₂, y, final, hb, hx, hy, hf, rfl⟩
    · cases h

theorem arrow?_eq_some {r r' : List Char} {t : Token} (h : arrow? r = some (t, r')) :
    ∃ c name, r = c :: r' ∧ arrowName c = some name ∧ t = .arrow name := by
  cases r with
  | nil => cases h
  | cons c r =>
    simp only [arrow?, Option.bind_eq_bind, Option.bind_eq_some_iff, Option.pure_def,
      Option.some.injEq, Prod.mk.injEq] at h
    obtain ⟨name, hc, rfl, rfl⟩ := h
    exact ⟨c, name, rfl, hc, rfl⟩

theorem modified?_eq_some {r r' : List Char} {t : Token} (h : modified? r = some (t, r')) :
    ∃ r₁ mods c name, r = '1' :: ';' :: r₁ ∧ number r₁ = some (mods, c :: r') ∧
      arrowName c = some name ∧ t = .modified name mods := by
  simp only [modified?, Option.bind_eq_bind, Option.bind_eq_some_iff, expect_eq_some,
    field_eq_some, Prod.exists] at h
  obtain ⟨_, rfl, mods, r₂, ⟨r₁, rfl, hn⟩, h⟩ := h
  cases r₂ with
  | nil => cases h
  | cons c r₂ =>
    simp only [Option.bind_eq_some_iff, Option.pure_def, Option.some.injEq, Prod.mk.injEq] at h
    obtain ⟨name, hc, rfl, rfl⟩ := h
    exact ⟨r₁, mods, c, name, rfl, hn, hc, rfl⟩

theorem backtab?_eq_some {r r' : List Char} {t : Token} (h : backtab? r = some (t, r')) :
    r = 'Z' :: r' ∧ t = .backtab := by
  simp only [backtab?, Option.bind_eq_bind, Option.bind_eq_some_iff, expect_eq_some,
    Option.pure_def, Option.some.injEq, Prod.mk.injEq] at h
  obtain ⟨r, rfl, rfl, rfl⟩ := h
  exact ⟨rfl, rfl⟩

theorem tilde?_eq_some {r r' : List Char} {t : Token} (h : tilde? r = some (t, r')) :
    ∃ c name, r = c :: '~' :: r' ∧ tildeName c = some name ∧ t = .tilde name := by
  cases r with
  | nil => cases h
  | cons c r =>
    simp only [tilde?, Option.bind_eq_bind, Option.bind_eq_some_iff, expect_eq_some,
      Option.pure_def, Option.some.injEq, Prod.mk.injEq] at h
    obtain ⟨name, hc, _, rfl, rfl, rfl⟩ := h
    exact ⟨c, name, rfl, hc, rfl⟩

theorem kitty?_eq_some {r r' : List Char} {t : Token} (h : kitty? r = some (t, r')) :
    ∃ code mods r₁, number r = some (code, r₁) ∧ t = .kitty code mods ∧
      ((r₁ = 'u' :: r' ∧ mods = 1) ∨
        ∃ r₂, r₁ = ';' :: r₂ ∧ number r₂ = some (mods, 'u' :: r')) := by
  simp only [kitty?, Option.bind_eq_bind, Option.bind_eq_some_iff, Prod.exists] at h
  obtain ⟨code, r₁, hn, h⟩ := h
  cases he : expect ';' r₁ with
  | some r₂ =>
    obtain rfl := expect_eq_some.mp he
    rw [he] at h
    simp only [Option.bind_eq_some_iff, Prod.exists, expect_eq_some, Option.pure_def,
      Option.some.injEq, Prod.mk.injEq] at h
    obtain ⟨mods, _, hm, _, rfl, rfl, rfl⟩ := h
    exact ⟨code, mods, _, hn, rfl, .inr ⟨r₂, rfl, hm⟩⟩
  | none =>
    rw [he] at h
    simp only [Option.bind_eq_some_iff, expect_eq_some, Option.pure_def, Option.some.injEq,
      Prod.mk.injEq] at h
    obtain ⟨_, rfl, rfl, rfl⟩ := h
    exact ⟨code, 1, _, hn, rfl, .inl ⟨rfl, rfl⟩⟩

/-- Every sequence ends where the control sequence does. -/
theorem pastFinal_of_mem_known {r r' : List Char} {t : Token} (h : some (t, r') ∈ known r) :
    pastFinal r = r' := by
  simp only [known, List.mem_cons, List.not_mem_nil, or_false] at h
  obtain h | h | h | h | h | h := h
  · obtain ⟨b, r₁, x, r₂, y, final, hb, hx, hy, hf, -⟩ := mouse?_eq_some h.symm
    have hfin : isFinal final = true := by obtain rfl | rfl := hf <;> rfl
    rw [← pastFinal_field rfl hb, ← pastFinal_field rfl hx, ← pastFinal_field rfl hy,
      pastFinal_of_final hfin]
  · obtain ⟨c, name, rfl, hc, -⟩ := arrow?_eq_some h.symm
    exact pastFinal_of_final (isFinal_of_arrowName hc).1 r'
  · obtain ⟨r₁, mods, c, name, rfl, hn, hc, -⟩ := modified?_eq_some h.symm
    rw [pastFinal_of_not_final rfl, pastFinal_of_not_final rfl, ← pastFinal_number hn,
      pastFinal_of_final (isFinal_of_arrowName hc).1]
  · obtain ⟨rfl, -⟩ := backtab?_eq_some h.symm
    exact pastFinal_of_final rfl r'
  · obtain ⟨c, name, rfl, hc, -⟩ := tilde?_eq_some h.symm
    rw [pastFinal_of_not_final (isFinal_of_isDigit (isDigit_of_tildeName hc).1),
      pastFinal_of_final rfl]
  · obtain ⟨code, mods, r₁, hn, -, ⟨rfl, -⟩ | ⟨r₂, rfl, hm⟩⟩ := kitty?_eq_some h.symm
    · rw [← pastFinal_number hn, pastFinal_of_final rfl]
    · rw [← pastFinal_number hn, pastFinal_of_not_final rfl, ← pastFinal_number hm,
        pastFinal_of_final rfl]

private theorem mouse?_alone {r : List Char} {p : Token × List Char} (h : mouse? r = some p) :
    ∀ other ∈ [arrow? r, modified? r, backtab? r, tilde? r, kitty? r], other = none := by
  obtain ⟨b, r₁, x, r₂, y, final, hb, -⟩ := mouse?_eq_some h
  obtain ⟨r, rfl, -⟩ := field_eq_some.mp hb
  simp only [List.mem_cons, List.not_mem_nil, or_false]
  rintro _ (rfl | rfl | rfl | rfl | rfl) <;> rfl

private theorem arrow?_alone {r : List Char} {p : Token × List Char} (h : arrow? r = some p) :
    ∀ other ∈ [modified? r, backtab? r, tilde? r, kitty? r], other = none := by
  obtain ⟨c, name, rfl, hc, -⟩ := arrow?_eq_some h
  simp only [List.mem_cons, List.not_mem_nil, or_false]
  unfold arrowName at hc
  split at hc
  all_goals first | (rintro _ (rfl | rfl | rfl | rfl) <;> rfl) | cases hc

private theorem modified?_alone {r : List Char} {p : Token × List Char}
    (h : modified? r = some p) : ∀ other ∈ [backtab? r, tilde? r, kitty? r], other = none := by
  obtain ⟨r₁, mods, c, name, rfl, hn, hc, -⟩ := modified?_eq_some h
  simp only [List.mem_cons, List.not_mem_nil, or_false]
  rintro _ (rfl | rfl | rfl)
  · rfl
  · rfl
  · have hu : expect 'u' (c :: p.2) = none := if_neg (isFinal_of_arrowName hc).2.2.1
    have hone : number ('1' :: ';' :: r₁) = some (1, ';' :: r₁) := rfl
    have hmods : expect ';' (';' :: r₁) = some r₁ := rfl
    simp only [kitty?, hone, hmods, hn, hu, Option.bind_eq_bind, Option.bind_some,
      Option.bind_none]

private theorem tilde?_alone {r : List Char} {p : Token × List Char} (h : tilde? r = some p) :
    kitty? r = none := by
  obtain ⟨c, name, rfl, hc, -⟩ := tilde?_eq_some h
  unfold tildeName at hc
  split at hc
  all_goals first | rfl | cases hc

/-- No text starts with two sequences. -/
theorem pairwise_known (r : List Char) :
    (known r).Pairwise fun one other ↦ one ≠ none → other = none := by
  have hsome {one : Option (Token × List Char)} (h : one ≠ none) : ∃ p, one = some p :=
    Option.ne_none_iff_exists'.mp h
  refine .cons (fun other ho h ↦ ?_) <| .cons (fun other ho h ↦ ?_) <|
    .cons (fun other ho h ↦ ?_) <| .cons (fun other ho h ↦ ?_) <|
    .cons (fun other ho h ↦ ?_) <| List.pairwise_singleton _ _
  · obtain ⟨p, hp⟩ := hsome h
    exact mouse?_alone hp other ho
  · obtain ⟨p, hp⟩ := hsome h
    exact arrow?_alone hp other ho
  · obtain ⟨p, hp⟩ := hsome h
    exact modified?_alone hp other ho
  · obtain ⟨p, hp⟩ := hsome h
    obtain ⟨rfl, -⟩ := backtab?_eq_some hp
    rw [List.mem_cons, List.mem_singleton] at ho
    obtain rfl | rfl := ho <;> rfl
  · obtain ⟨p, hp⟩ := hsome h
    rw [List.mem_singleton] at ho
    exact ho ▸ tilde?_alone hp

/-! ### The sequences of a text -/

/-- What follows `ESC [` ends at the end of the control sequence. -/
theorem csi_snd (r : List Char) : (csi r).2 = pastFinal r := by
  unfold csi
  cases hf : (known r).findSome? id with
  | none => rfl
  | some p =>
    obtain ⟨_, hm, rfl⟩ := List.exists_of_findSome?_eq_some hf
    exact (pastFinal_of_mem_known hm).symm

theorem length_read_le (c : Char) (rest : List Char) :
    (read c rest).2.length ≤ rest.length := by
  unfold read
  split
  · exact Nat.le_refl _
  · split
    · next ch rest =>
      split
      · rw [csi_snd]
        exact Nat.le_succ_of_le (length_pastFinal_le rest)
      · split
        · exact Nat.le_succ _
        · exact Nat.le_refl _
    · exact Nat.le_refl _

end Token

/-- The sequences of a text. -/
def tokens : List Char → List Token
  | [] => []
  | c :: rest => (Token.read c rest).1 :: tokens (Token.read c rest).2
termination_by text => text.length
decreasing_by exact Nat.lt_succ_of_le (Token.length_read_le c rest)

end PtySpec.Keys
