import PtySpec.Vt.EnhancedPaste

/-!
# Base64 there and back

The decoder of `crates/pty-terminal/src/enhanced_paste.rs:354-395` against the encoder of
`crates/pty-terminal/src/graphics.rs:962-989`. The decoder accepts the texts that the encoder
makes, and no other.
-/

namespace PtySpec.Vt

open Lib

/-! ### Digits -/

private theorem alphabet_eq : alphabet =
    [65, 66, 67, 68, 69, 70, 71, 72, 73, 74, 75, 76, 77, 78, 79, 80, 81, 82, 83, 84, 85, 86, 87,
      88, 89, 90, 97, 98, 99, 100, 101, 102, 103, 104, 105, 106, 107, 108, 109, 110, 111, 112,
      113, 114, 115, 116, 117, 118, 119, 120, 121, 122, 48, 49, 50, 51, 52, 53, 54, 55, 56, 57,
      43, 47] := by
  decide

private theorem digit_alphabet : ∀ n < 64,
    digit (alphabet.getD n 0) = some (UInt32.ofNat n) := by
  rw [alphabet_eq]
  decide

/-- A byte that is a digit is in the table at its value. -/
private def listed (table : List UInt8) (b : UInt8) : Bool :=
  match digit b with
  | none => true
  | some v => v.toNat < 64 && table.getD v.toNat 0 = b

set_option maxRecDepth 4000 in
private theorem listed_alphabet : ∀ n < 256, listed alphabet (UInt8.ofNat n) = true := by
  rw [alphabet_eq]
  decide

theorem digit_sextet (n : UInt32) : digit (sextet n) = some (UInt32.ofNat (n.toNat % 64)) :=
  digit_alphabet _ (Nat.mod_lt _ (by decide))

/-- A digit has six bits, and is the digit of its value. -/
theorem digit_eq_some {b : UInt8} {v : UInt32} (h : digit b = some v) :
    v.toNat < 64 ∧ sextet v = b := by
  have hl := listed_alphabet b.toNat b.toNat_lt
  rw [UInt8.ofNat_toNat, listed, h, Bool.and_eq_true, decide_eq_true_iff,
    decide_eq_true_iff] at hl
  obtain ⟨hv, ha⟩ := hl
  exact ⟨hv, by rw [sextet, Nat.mod_eq_of_lt hv, ha]⟩

theorem digit_pad : digit 0x3d = none := by decide

/-! ### Words -/

/-- A digit more. -/
theorem toNat_shift_or {word v : UInt32} (hw : word.toNat < 2 ^ 26) (hv : v.toNat < 64) :
    (word <<< 6 ||| v).toNat = word.toNat * 64 + v.toNat := by
  rw [UInt32.toNat_or, UInt32.toNat_shiftLeft]
  have hs : word.toNat <<< ((6 : UInt32).toNat % 32) % 2 ^ 32 = word.toNat <<< 6 := by
    rw [show (6 : UInt32).toNat % 32 = 6 from rfl, Nat.shiftLeft_eq]
    exact Nat.mod_eq_of_lt (by omega)
  rw [hs, ← Nat.shiftLeft_add_eq_or_of_lt (by omega), Nat.shiftLeft_eq]

/-- The digits of a word, the first the highest. -/
def word (values : List UInt32) : UInt32 :=
  values.foldl (fun word value ↦ word <<< 6 ||| value) 0

private theorem toNat_foldl {values : List UInt32} (hv : ∀ v ∈ values, v.toNat < 64)
    {start : UInt32} (hs : (start.toNat + 1) * 64 ^ values.length ≤ 2 ^ 32) :
    (values.foldl (fun (word value : UInt32) ↦ word <<< 6 ||| value) start).toNat =
      values.foldl (fun n v ↦ n * 64 + v.toNat) start.toNat := by
  induction values generalizing start with
  | nil => rfl
  | cons v values ih =>
    have hpos : 0 < 64 ^ values.length := Nat.pow_pos (by decide)
    rw [List.length_cons, pow_succ, mul_comm (64 ^ values.length), ← mul_assoc] at hs
    have hle : (start.toNat + 1) * 64 ≤ 2 ^ 32 := (Nat.le_mul_of_pos_right _ hpos).trans hs
    have hlt := hv v List.mem_cons_self
    have hstep := @toNat_shift_or start v (by omega) hlt
    rw [List.foldl_cons, List.foldl_cons, ih (fun w hw ↦ hv w (List.mem_cons_of_mem v hw)),
      hstep]
    rw [hstep]
    exact (Nat.mul_le_mul_right _ (by omega)).trans hs

/-- The digits of a word of at most four. -/
theorem toNat_word {values : List UInt32} (hv : ∀ v ∈ values, v.toNat < 64)
    (hl : values.length ≤ 4) :
    (word values).toNat = values.foldl (fun n v ↦ n * 64 + v.toNat) 0 := by
  refine toNat_foldl hv ?_
  rw [UInt32.toNat_zero, zero_add, one_mul]
  exact (Nat.pow_le_pow_right (by decide) hl).trans (by decide)

/-- Three bytes in a word. -/
theorem toNat_bytes (a b c : UInt8) :
    ((a.toUInt32 <<< 16) ||| (b.toUInt32 <<< 8) ||| c.toUInt32).toNat =
      a.toNat * 65536 + b.toNat * 256 + c.toNat := by
  have ha := a.toNat_lt
  have hb := b.toNat_lt
  have hc := c.toNat_lt
  have h₁ : (a.toUInt32 <<< 16).toNat = a.toNat <<< 16 := by
    rw [UInt32.toNat_shiftLeft, UInt8.toNat_toUInt32, show (16 : UInt32).toNat % 32 = 16 from rfl,
      Nat.shiftLeft_eq, Nat.mod_eq_of_lt (by omega)]
  have h₂ : (b.toUInt32 <<< 8).toNat = b.toNat <<< 8 := by
    rw [UInt32.toNat_shiftLeft, UInt8.toNat_toUInt32, show (8 : UInt32).toNat % 32 = 8 from rfl,
      Nat.shiftLeft_eq, Nat.mod_eq_of_lt (by omega)]
  rw [UInt32.toNat_or, UInt32.toNat_or, h₁, h₂, UInt8.toNat_toUInt32, Nat.or_assoc,
    ← Nat.shiftLeft_add_eq_or_of_lt (i := 8) (by omega),
    ← Nat.shiftLeft_add_eq_or_of_lt (i := 16) (by rw [Nat.shiftLeft_eq]; omega),
    Nat.shiftLeft_eq, Nat.shiftLeft_eq]
  omega

/-! ### One group -/

/-- The three bytes of a word. -/
def lowBytes (w : UInt32) : List UInt8 :=
  [(w >>> 16).toUInt8, (w >>> 8).toUInt8, w.toUInt8]

/-- A group by its padding. -/
theorem decodeChunk_eq (last : Bool) (a b c d : UInt8) :
    decodeChunk last [a, b, c, d] =
      if d ≠ 0x3d then ([a, b, c, d].mapM digit).map fun values ↦ lowBytes (word values)
      else if last = false then none
      else if c ≠ 0x3d then ([a, b, c].mapM digit).bind fun values ↦
        if (word values <<< 6).toUInt8 ≠ 0 then none
        else some ((lowBytes (word values <<< 6)).take 2)
      else if b ≠ 0x3d then ([a, b].mapM digit).bind fun values ↦
        if ((word values <<< 12) >>> 8).toUInt8 ≠ 0 ∨ (word values <<< 12).toUInt8 ≠ 0 then none
        else some ((lowBytes (word values <<< 12)).take 1)
      else none := by
  by_cases hd : d = 0x3d
  · subst hd
    rw [if_neg (by simp)]
    by_cases hl : last = false
    · simp [decodeChunk, hl]
    rw [if_neg hl]
    by_cases hc : c = 0x3d
    · subst hc
      by_cases hb : b = 0x3d
      · subst hb
        by_cases ha : a = 0x3d <;> simp [decodeChunk, ha]
      · simp [decodeChunk, hb, hl]
        cases digit a <;> cases digit b <;> simp [word, lowBytes]
    · simp [decodeChunk, hc, hl]
      cases digit a <;> cases digit b <;> cases digit c <;> simp [word, lowBytes]
  · simp [decodeChunk, hd]
    cases digit a <;> cases digit b <;> cases digit c <;> cases digit d <;>
      simp [word, lowBytes]

/-- The word of three bytes, as the encoder makes it. -/
def bytesWord (x y z : UInt8) : UInt32 :=
  (x.toUInt32 <<< 16) ||| (y.toUInt32 <<< 8) ||| z.toUInt32

/-- The four digits of a word. -/
def sextets (w : UInt32) : List UInt8 :=
  [sextet (w >>> 18), sextet (w >>> 12), sextet (w >>> 6), sextet w]

private theorem toNat_shiftRight (w k : UInt32) (hk : k.toNat < 32) :
    (w >>> k).toNat = w.toNat / 2 ^ k.toNat := by
  rw [UInt32.toNat_shiftRight, Nat.mod_eq_of_lt hk, Nat.shiftRight_eq_div_pow]

private theorem toNat_shifts (w : UInt32) :
    (w >>> 18).toNat = w.toNat / 262144 ∧ (w >>> 16).toNat = w.toNat / 65536 ∧
      (w >>> 12).toNat = w.toNat / 4096 ∧ (w >>> 8).toNat = w.toNat / 256 ∧
      (w >>> 6).toNat = w.toNat / 64 :=
  ⟨toNat_shiftRight w 18 (by decide), toNat_shiftRight w 16 (by decide),
    toNat_shiftRight w 12 (by decide), toNat_shiftRight w 8 (by decide),
    toNat_shiftRight w 6 (by decide)⟩

private theorem sextet_congr {m n : UInt32} (h : m.toNat % 64 = n.toNat % 64) :
    sextet m = sextet n := by
  rw [sextet, sextet, h]

theorem lowBytes_bytesWord (x y z : UInt8) : lowBytes (bytesWord x y z) = [x, y, z] := by
  have hx := x.toNat_lt
  have hy := y.toNat_lt
  have hz := z.toNat_lt
  have hn : (bytesWord x y z).toNat = _ := toNat_bytes x y z
  obtain ⟨-, h16, -, h8, -⟩ := toNat_shifts (bytesWord x y z)
  have h₁ : (bytesWord x y z >>> 16).toUInt8 = x := by
    rw [← UInt8.toNat_inj, UInt32.toNat_toUInt8, h16]
    omega
  have h₂ : (bytesWord x y z >>> 8).toUInt8 = y := by
    rw [← UInt8.toNat_inj, UInt32.toNat_toUInt8, h8]
    omega
  have h₃ : (bytesWord x y z).toUInt8 = z := by
    rw [← UInt8.toNat_inj, UInt32.toNat_toUInt8]
    omega
  rw [lowBytes, h₁, h₂, h₃]

/-- A word of three bytes is that of its bytes. -/
theorem bytesWord_lowBytes {w : UInt32} (hw : w.toNat < 2 ^ 24) :
    bytesWord (w >>> 16).toUInt8 (w >>> 8).toUInt8 w.toUInt8 = w := by
  obtain ⟨-, h16, -, h8, -⟩ := toNat_shifts w
  rw [← UInt32.toNat_inj, bytesWord, toNat_bytes, UInt32.toNat_toUInt8, UInt32.toNat_toUInt8,
    UInt32.toNat_toUInt8, h16, h8]
  omega

/-- The digits of a word of four digits. -/
theorem sextets_word {a b c d : UInt32} (ha : a.toNat < 64) (hb : b.toNat < 64)
    (hc : c.toNat < 64) (hd : d.toNat < 64) :
    sextets (word [a, b, c, d]) = [sextet a, sextet b, sextet c, sextet d] ∧
      (word [a, b, c, d]).toNat < 2 ^ 24 := by
  have hw : (word [a, b, c, d]).toNat =
      ((a.toNat * 64 + b.toNat) * 64 + c.toNat) * 64 + d.toNat := by
    rw [toNat_word (by simp [ha, hb, hc, hd]) le_rfl]
    simp
  generalize word [a, b, c, d] = w at hw
  obtain ⟨h18, -, h12, -, h6⟩ := toNat_shifts w
  refine ⟨?_, by omega⟩
  have h₁ : sextet (w >>> 18) = sextet a := sextet_congr (by omega)
  have h₂ : sextet (w >>> 12) = sextet b := sextet_congr (by omega)
  have h₃ : sextet (w >>> 6) = sextet c := sextet_congr (by omega)
  have h₄ : sextet w = sextet d := sextet_congr (by omega)
  rw [sextets, h₁, h₂, h₃, h₄]

/-- A word of three bytes is that of its digits. -/
theorem word_sextets {w : UInt32} (hw : w.toNat < 2 ^ 24) :
    ∃ a b c d, digit (sextet (w >>> 18)) = some a ∧ digit (sextet (w >>> 12)) = some b ∧
      digit (sextet (w >>> 6)) = some c ∧ digit (sextet w) = some d ∧
      word [a, b, c, d] = w ∧ c.toNat = w.toNat / 64 % 64 ∧ d.toNat = w.toNat % 64 := by
  refine ⟨_, _, _, _, digit_sextet _, digit_sextet _, digit_sextet _, digit_sextet _, ?_⟩
  have hlt : ∀ n : Nat, (UInt32.ofNat (n % 64)).toNat = n % 64 := fun n ↦
    UInt32.toNat_ofNat_of_lt ((Nat.mod_lt n (by decide)).trans (by decide))
  obtain ⟨h18, -, h12, -, h6⟩ := toNat_shifts w
  refine ⟨?_, by rw [hlt, h6], hlt _⟩
  rw [← UInt32.toNat_inj, toNat_word (by simp [hlt, Nat.mod_lt]) le_rfl]
  simp only [List.foldl_cons, List.foldl_nil, hlt, Nat.zero_mul, Nat.zero_add]
  omega

theorem sextet_ne_pad (n : UInt32) : sextet n ≠ 0x3d := by
  intro h
  have hd := digit_sextet n
  rw [h, digit_pad] at hd
  cases hd

private theorem word_pad (a b c : UInt32) : word [a, b, c] <<< 6 = word [a, b, c, 0] := by
  rw [word, word, List.foldl_cons, List.foldl_cons, List.foldl_cons, List.foldl_cons,
    List.foldl_cons, List.foldl_cons, List.foldl_cons, List.foldl_nil, List.foldl_nil,
    UInt32.or_zero]

private theorem word_pads (a b : UInt32) : word [a, b] <<< 12 = word [a, b, 0, 0] := by
  rw [← word_pad]
  have h : word [a, b, 0] = word [a, b] <<< 6 := by
    simp [word]
  rw [h, ← UInt32.toNat_inj]
  generalize word [a, b] = w
  have hs : ∀ v k : UInt32, k.toNat < 32 → (v <<< k).toNat = v.toNat * 2 ^ k.toNat % 2 ^ 32 := by
    intro v k hk
    rw [UInt32.toNat_shiftLeft, Nat.mod_eq_of_lt hk, Nat.shiftLeft_eq]
  have h12 : (w <<< 12).toNat = w.toNat * 4096 % 2 ^ 32 := hs w 12 (by decide)
  have h6 : ∀ v : UInt32, (v <<< 6).toNat = v.toNat * 64 % 2 ^ 32 := fun v ↦ hs v 6 (by decide)
  rw [h12, h6, h6]
  omega

theorem base64Chunk_three (x y z : UInt8) :
    base64Chunk [x, y, z] = sextets (bytesWord x y z) := rfl

theorem base64Chunk_two (x y : UInt8) :
    base64Chunk [x, y] = (sextets (bytesWord x y 0)).take 3 ++ [0x3d] := rfl

theorem base64Chunk_one (x : UInt8) :
    base64Chunk [x] = (sextets (bytesWord x 0 0)).take 2 ++ [0x3d, 0x3d] := rfl

private theorem mapM_digit_cons {a : UInt8} {rest : List UInt8} {values : List UInt32} :
    (a :: rest).mapM digit = some values ↔
      ∃ v, digit a = some v ∧ ∃ vs, rest.mapM digit = some vs ∧ values = v :: vs := by
  rw [List.mapM_cons]
  cases digit a <;> cases rest.mapM digit <;> simp [eq_comm]

private theorem mapM_two {a b : UInt8} {values : List UInt32} :
    [a, b].mapM digit = some values ↔
      ∃ va, digit a = some va ∧ ∃ vb, digit b = some vb ∧ values = [va, vb] := by
  simp only [mapM_digit_cons, List.mapM_nil, Option.pure_def, Option.some.injEq]
  grind

private theorem mapM_three {a b c : UInt8} {values : List UInt32} :
    [a, b, c].mapM digit = some values ↔
      ∃ va, digit a = some va ∧ ∃ vb, digit b = some vb ∧ ∃ vc, digit c = some vc ∧
        values = [va, vb, vc] := by
  simp only [mapM_digit_cons, List.mapM_nil, Option.pure_def, Option.some.injEq]
  grind

private theorem mapM_four {a b c d : UInt8} {values : List UInt32} :
    [a, b, c, d].mapM digit = some values ↔
      ∃ va, digit a = some va ∧ ∃ vb, digit b = some vb ∧ ∃ vc, digit c = some vc ∧
        ∃ vd, digit d = some vd ∧ values = [va, vb, vc, vd] := by
  simp only [mapM_digit_cons, List.mapM_nil, Option.pure_def, Option.some.injEq]
  grind

private theorem bytesWord_lt (x y z : UInt8) : (bytesWord x y z).toNat < 2 ^ 24 := by
  have hx := x.toNat_lt
  have hy := y.toNat_lt
  have hz := z.toNat_lt
  rw [bytesWord, toNat_bytes]
  omega

/-- The decoder takes a group back to what the encoder made it of. -/
theorem decodeChunk_base64Chunk {last : Bool} {bytes : List UInt8} (hb : bytes ≠ [])
    (h3 : bytes.length ≤ 3) (hl : bytes.length < 3 → last = true) :
    decodeChunk last (base64Chunk bytes) = some bytes := by
  match bytes, hb, h3, hl with
  | [x, y, z], _, _, _ =>
    obtain ⟨a, b, c, d, ha, hb, hc, hd, hword, -⟩ := word_sextets (bytesWord_lt x y z)
    rw [base64Chunk_three, sextets, decodeChunk_eq, if_pos (sextet_ne_pad _),
      mapM_four.mpr ⟨a, ha, b, hb, c, hc, d, hd, rfl⟩, Option.map_some, hword, lowBytes_bytesWord]
  | [x, y], _, _, hl =>
    obtain ⟨a, b, c, d, ha, hb, hc, -, hword, -, hd⟩ := word_sextets (bytesWord_lt x y 0)
    have hzero : d = 0 := by
      rw [← UInt32.toNat_inj, hd, bytesWord, toNat_bytes, UInt8.toNat_zero, UInt32.toNat_zero]
      omega
    have hlow := lowBytes_bytesWord x y 0
    rw [← hword, hzero, ← word_pad] at hlow
    obtain ⟨-, -, h0⟩ : _ ∧ _ ∧ (word [a, b, c] <<< 6).toUInt8 = 0 := by
      simpa [lowBytes] using hlow
    rw [base64Chunk_two, sextets, List.take, List.take, List.take, List.take_zero,
      List.cons_append, List.cons_append, List.cons_append, List.nil_append, decodeChunk_eq,
      if_neg (by simp), if_neg (by simp [hl]), if_pos (sextet_ne_pad _)]
    rw [mapM_three.mpr ⟨a, ha, b, hb, c, hc, rfl⟩, Option.bind_some, if_neg (not_not.mpr h0), hlow]
    rfl
  | [x], _, _, hl =>
    obtain ⟨a, b, c, d, ha, hb, -, -, hword, hc, hd⟩ := word_sextets (bytesWord_lt x 0 0)
    have hzeros : c = 0 ∧ d = 0 := by
      rw [← UInt32.toNat_inj, ← UInt32.toNat_inj, hc, hd, bytesWord, toNat_bytes,
        UInt8.toNat_zero, UInt32.toNat_zero]
      omega
    have hlow := lowBytes_bytesWord x 0 0
    rw [← hword, hzeros.1, hzeros.2, ← word_pads] at hlow
    obtain ⟨-, h8, h0⟩ : _ ∧ (word [a, b] <<< 12 >>> 8).toUInt8 = 0 ∧
        (word [a, b] <<< 12).toUInt8 = 0 := by
      simpa [lowBytes] using hlow
    rw [base64Chunk_one, sextets, List.take, List.take, List.take_zero, List.cons_append,
      List.cons_append, List.nil_append, decodeChunk_eq, if_neg (by simp),
      if_neg (by simp [hl]), if_neg (by simp), if_pos (sextet_ne_pad _),
      mapM_two.mpr ⟨a, ha, b, hb, rfl⟩,
      Option.bind_some, if_neg (by simp [h8, h0]), hlow]
    rfl

/-- A group that the decoder accepts is what the encoder makes of its bytes. -/
theorem eq_of_decodeChunk {last : Bool} {a b c d : UInt8} {bytes : List UInt8}
    (h : decodeChunk last [a, b, c, d] = some bytes) :
    [a, b, c, d] = base64Chunk bytes ∧ bytes ≠ [] ∧ bytes.length ≤ 3 ∧
      (bytes.length < 3 → last = true) := by
  rw [decodeChunk_eq] at h
  split at h
  · obtain ⟨values, hv, rfl⟩ := Option.map_eq_some_iff.mp h
    obtain ⟨va, ha, vb, hb, vc, hc, vd, hd, rfl⟩ := mapM_four.mp hv
    obtain ⟨hs, hw⟩ := sextets_word (digit_eq_some ha).1 (digit_eq_some hb).1
      (digit_eq_some hc).1 (digit_eq_some hd).1
    refine ⟨?_, by simp [lowBytes], le_rfl, fun h ↦ absurd h (lt_irrefl 3)⟩
    rw [lowBytes, base64Chunk_three, bytesWord_lowBytes hw, hs, (digit_eq_some ha).2,
      (digit_eq_some hb).2, (digit_eq_some hc).2, (digit_eq_some hd).2]
  next hd =>
  rw [not_not] at hd
  subst hd
  split at h
  · cases h
  next hl =>
  rw [Bool.not_eq_false] at hl
  split at h
  · obtain ⟨values, hv, h⟩ := Option.bind_eq_some_iff.mp h
    obtain ⟨va, ha, vb, hb, vc, hc, rfl⟩ := mapM_three.mp hv
    split at h
    · cases h
    next h0 =>
    rw [not_not] at h0
    obtain rfl := Option.some.inj h
    obtain ⟨hs, hw⟩ := sextets_word (d := 0) (digit_eq_some ha).1 (digit_eq_some hb).1
      (digit_eq_some hc).1 (by decide)
    have hback := bytesWord_lowBytes hw
    rw [← word_pad] at hback hs hw
    rw [h0] at hback
    refine ⟨?_, by simp [lowBytes], by simp [lowBytes], fun _ ↦ hl⟩
    rw [lowBytes, List.take, List.take, List.take_zero, base64Chunk_two, hback, hs,
      (digit_eq_some ha).2, (digit_eq_some hb).2, (digit_eq_some hc).2]
    rfl
  next hc =>
  rw [not_not] at hc
  subst hc
  split at h
  · obtain ⟨values, hv, h⟩ := Option.bind_eq_some_iff.mp h
    obtain ⟨va, ha, vb, hb, rfl⟩ := mapM_two.mp hv
    split at h
    · cases h
    next h0 =>
    rw [not_or, not_not, not_not] at h0
    obtain rfl := Option.some.inj h
    obtain ⟨hs, hw⟩ := sextets_word (c := 0) (d := 0) (digit_eq_some ha).1
      (digit_eq_some hb).1 (by decide) (by decide)
    have hback := bytesWord_lowBytes hw
    rw [← word_pads] at hback hs hw
    rw [h0.1, h0.2] at hback
    refine ⟨?_, by simp [lowBytes], by simp [lowBytes], fun _ ↦ hl⟩
    rw [lowBytes, List.take, List.take_zero, base64Chunk_one, hback, hs,
      (digit_eq_some ha).2, (digit_eq_some hb).2]
    rfl
  · cases h

/-! ### Texts -/

private theorem base64_append {bytes more : List UInt8} (hb : bytes ≠ [])
    (h3 : bytes.length ≤ 3) (hm : bytes.length < 3 → more = []) :
    base64 (bytes ++ more) = base64Chunk bytes ++ base64 more := by
  match bytes, hb, h3, hm with
  | [x, y, z], _, _, _ => simp [base64]
  | [x, y], _, _, hm => simp [base64, hm]
  | [x], _, _, hm => simp [base64, hm]

private theorem decodeChunks_append {bytes rest more : List UInt8}
    (hb : decodeChunk rest.isEmpty (base64Chunk bytes) = some bytes)
    (hr : decodeChunks rest = some more) :
    decodeChunks (base64Chunk bytes ++ rest) = some (bytes ++ more) := by
  unfold base64Chunk at hb ⊢
  rw [List.cons_append, List.cons_append, List.cons_append, List.cons_append, List.nil_append,
    decodeChunks, hb, hr]
  rfl

theorem base64_eq_nil {data : List UInt8} : base64 data = [] ↔ data = [] := by
  cases data with
  | nil => simp [base64]
  | cons x data => simp [base64, base64Chunk]

/-- What the encoder makes is decoded, group by group. -/
private theorem decodeChunks_base64 (data : List UInt8) :
    decodeChunks (base64 data) = some data := by
  induction data using chunks.induct 3 with
  | case1 =>
    rw [base64_eq_nil.mpr rfl]
    rfl
  | case2 x data ih =>
    have hb : x :: data.take 2 ≠ [] := List.cons_ne_nil _ _
    have h3 : (x :: data.take 2).length ≤ 3 := by
      rw [List.length_cons, List.length_take]
      omega
    have hm : (x :: data.take 2).length < 3 → data.drop 2 = [] := by
      rw [List.length_cons, List.length_take, List.drop_eq_nil_iff]
      omega
    have happ := @base64_append _ (data.drop 2) hb h3 hm
    rw [List.cons_append, List.take_append_drop] at happ
    have hg := @decodeChunk_base64Chunk (base64 (data.drop 2)).isEmpty _ hb h3
      fun h ↦ List.isEmpty_iff.mpr (base64_eq_nil.mpr (hm h))
    rw [happ, decodeChunks_append hg ih, List.cons_append, List.take_append_drop]

/-- What is decoded is what the encoder makes, group by group. -/
private theorem eq_of_decodeChunks {text data : List UInt8} (h : decodeChunks text = some data) :
    text = base64 data := by
  induction text using decodeChunks.induct generalizing data with
  | case1 =>
    cases h
    exact (base64_eq_nil.mpr rfl).symm
  | case2 a b c d rest ih =>
    rw [decodeChunks] at h
    obtain ⟨bytes, hb, h⟩ := Option.bind_eq_some_iff.mp h
    obtain ⟨more, hm, h⟩ := Option.bind_eq_some_iff.mp h
    obtain rfl := Option.some.inj h
    obtain ⟨hg, hne, h3, hlast⟩ := eq_of_decodeChunk hb
    have hrest := ih hm
    rw [base64_append hne h3 fun hl ↦ base64_eq_nil.mp (hrest ▸ List.isEmpty_iff.mp (hlast hl)),
      ← hg, ← hrest]
    rfl
  | case3 text h₁ h₂ =>
    rw [decodeChunks] at h
    · cases h
    · exact h₁
    · exact h₂

/-- The decoder accepts a text exactly as the encoding of what it gives. -/
theorem decode_eq_some_iff {text data : List UInt8} :
    decode text = some data ↔ text = base64 data := by
  unfold decode
  split
  · next h =>
    refine ⟨fun hn ↦ (nomatch hn), ?_⟩
    rintro rfl
    rw [length_base64, base64Length] at h
    omega
  · refine ⟨eq_of_decodeChunks, ?_⟩
    rintro rfl
    exact decodeChunks_base64 data

/-! ### Canonical texts -/

/-- Strict base64: digits, then the padding that fills up the last group, where the bits of
the last digit that are beyond the last byte are zero. -/
structure Padded (text digits : List UInt8) (pad : Nat) : Prop where
  eq : text = digits ++ List.replicate pad 0x3d
  full : text.length % 4 = 0
  short : pad ≤ 2
  known : ∀ b ∈ digits, (digit b).isSome = true
  trailing : ∀ b v, digits.getLast? = some b → digit b = some v → v.toNat % 4 ^ pad = 0

/-- A text that is strict base64. -/
def Canonical (text : List UInt8) : Prop := ∃ digits pad, Padded text digits pad

private theorem padded_chunk {bytes : List UInt8} (hb : bytes ≠ []) (h3 : bytes.length ≤ 3) :
    ∃ digits pad, Padded (base64Chunk bytes) digits pad ∧ (bytes.length = 3 → pad = 0) := by
  have hsome : ∀ n, (digit (sextet n)).isSome = true := fun n ↦ by rw [digit_sextet]; rfl
  have hlt : ∀ n : Nat, (UInt32.ofNat (n % 64)).toNat = n % 64 := fun n ↦
    UInt32.toNat_ofNat_of_lt ((Nat.mod_lt n (by decide)).trans (by decide))
  have hlen : ∀ l : List UInt8, (base64Chunk l).length % 4 = 0 :=
    fun l ↦ by simp [base64Chunk]
  match bytes, hb, h3 with
  | [x, y, z], _, _ =>
    refine ⟨sextets (bytesWord x y z), 0, ⟨?_, hlen _, by decide, ?_, ?_⟩, fun _ ↦ rfl⟩
    · rw [base64Chunk_three, List.replicate_zero, List.append_nil]
    · simp [sextets, hsome]
    · intro b v _ _
      rw [pow_zero, Nat.mod_one]
  | [x, y], _, _ =>
    refine ⟨(sextets (bytesWord x y 0)).take 3, 1, ⟨base64Chunk_two x y, hlen _, by decide, ?_, ?_⟩,
      fun h ↦ absurd h (by simp)⟩
    · simp [sextets, hsome]
    · intro b v hb hv
      obtain rfl : sextet (bytesWord x y 0 >>> 6) = b := by simpa [sextets] using hb
      obtain rfl := Option.some.inj ((digit_sextet _).symm.trans hv)
      rw [hlt, (toNat_shifts _).2.2.2.2, bytesWord, toNat_bytes, UInt8.toNat_zero]
      omega
  | [x], _, _ =>
    refine ⟨(sextets (bytesWord x 0 0)).take 2, 2, ⟨base64Chunk_one x, hlen _, by decide, ?_, ?_⟩,
      fun h ↦ absurd h (by simp)⟩
    · simp [sextets, hsome]
    · intro b v hb hv
      obtain rfl : sextet (bytesWord x 0 0 >>> 12) = b := by simpa [sextets] using hb
      obtain rfl := Option.some.inj ((digit_sextet _).symm.trans hv)
      rw [hlt, (toNat_shifts _).2.2.1, bytesWord, toNat_bytes, UInt8.toNat_zero]
      omega

/-- Digits remain before the padding of a text that is not empty. -/
private theorem Padded.ne_nil {text digits : List UInt8} {pad : Nat} (h : Padded text digits pad)
    (ht : text ≠ []) : digits ≠ [] := by
  rintro rfl
  have hl : text.length = pad := by rw [h.eq]; simp
  have hp := h.short
  have hf := h.full
  exact ht (List.length_eq_zero_iff.mp (by omega))

/-- A full group more. -/
private theorem Padded.append {a b c d : UInt8} {text digits : List UInt8} {pad : Nat}
    (h : Padded text digits pad) (ht : text ≠ [])
    (hd : ∀ x ∈ [a, b, c, d], (digit x).isSome = true) :
    Padded (a :: b :: c :: d :: text) (a :: b :: c :: d :: digits) pad where
  eq := by rw [h.eq]; rfl
  full := by
    have := h.full
    simp only [List.length_cons]
    omega
  short := h.short
  known x hx := by
    obtain hx | hx := List.mem_append.mp (show x ∈ [a, b, c, d] ++ digits from hx)
    · exact hd x hx
    · exact h.known x hx
  trailing x v hx := by
    have hne := h.ne_nil ht
    refine h.trailing x v ?_
    rw [← hx]
    simp [List.getLast?_cons, List.getLast?_eq_some_getLast hne]

/-- What the encoder makes is strict base64. -/
theorem canonical_base64 (data : List UInt8) : Canonical (base64 data) := by
  induction data using chunks.induct 3 with
  | case1 =>
    rw [base64_eq_nil.mpr rfl]
    exact ⟨[], 0, rfl, rfl, by decide, fun _ h ↦ absurd h List.not_mem_nil, fun _ _ h ↦ by cases h⟩
  | case2 x data ih =>
    have hb : x :: data.take 2 ≠ [] := List.cons_ne_nil _ _
    have h3 : (x :: data.take 2).length ≤ 3 := by
      rw [List.length_cons, List.length_take]
      omega
    have hm : (x :: data.take 2).length < 3 → data.drop 2 = [] := by
      rw [List.length_cons, List.length_take, List.drop_eq_nil_iff]
      omega
    have happ := @base64_append _ (data.drop 2) hb h3 hm
    rw [List.cons_append, List.take_append_drop] at happ
    obtain ⟨digits, pad, hp, hfull⟩ := padded_chunk hb h3
    rw [happ]
    by_cases hmore : data.drop 2 = []
    · rw [hmore, base64_eq_nil.mpr rfl, List.append_nil]
      exact ⟨digits, pad, hp⟩
    obtain rfl : pad = 0 := hfull (le_antisymm h3 (not_lt.mp fun h ↦ hmore (hm h)))
    obtain ⟨digits', pad', hp'⟩ := ih
    have hd : digits = base64Chunk (x :: data.take 2) := by
      rw [hp.eq, List.replicate_zero, List.append_nil]
    rw [hd] at hp
    exact ⟨_, pad', hp'.append (fun h ↦ hmore (base64_eq_nil.mp h)) hp.known⟩

private theorem ne_pad_of_known {b : UInt8} (h : (digit b).isSome = true) : b ≠ 0x3d := by
  rintro rfl
  rw [digit_pad] at h
  cases h

/-- The last group of strict base64 is decoded. -/
private theorem decodeChunk_of_padded {a b c d : UInt8} {digits : List UInt8} {pad : Nat}
    (h : Padded [a, b, c, d] digits pad) : (decodeChunk true [a, b, c, d]).isSome = true := by
  match pad, h with
  | 0, h =>
    obtain rfl : digits = [a, b, c, d] := by simpa using h.eq.symm
    have hk : ∀ x ∈ [a, b, c, d], (digit x).isSome = true := h.known
    simp only [List.forall_mem_cons, Option.isSome_iff_exists] at hk
    obtain ⟨⟨va, ha⟩, ⟨vb, hb⟩, ⟨vc, hc⟩, ⟨vd, hd⟩, -⟩ := hk
    rw [decodeChunk_eq, if_pos (ne_pad_of_known (by rw [hd]; rfl)),
      mapM_four.mpr ⟨va, ha, vb, hb, vc, hc, vd, hd, rfl⟩]
    rfl
  | 1, h =>
    have heq : [a, b, c] ++ [d] = digits ++ [0x3d] := h.eq
    obtain ⟨rfl, hd⟩ := List.append_inj' heq rfl
    obtain rfl := List.singleton_inj.mp hd
    have hk : ∀ x ∈ [a, b, c], (digit x).isSome = true := h.known
    simp only [List.forall_mem_cons, Option.isSome_iff_exists] at hk
    obtain ⟨⟨va, ha⟩, ⟨vb, hb⟩, ⟨vc, hc⟩, -⟩ := hk
    have hz := h.trailing c vc rfl hc
    have h0 : (word [va, vb, vc] <<< 6).toUInt8 = 0 := by
      rw [word_pad, ← UInt8.toNat_inj, UInt32.toNat_toUInt8, toNat_word (by
        simp [(digit_eq_some ha).1, (digit_eq_some hb).1, (digit_eq_some hc).1]) le_rfl]
      simp only [List.foldl_cons, List.foldl_nil, UInt32.toNat_zero, UInt8.toNat_zero]
      omega
    rw [decodeChunk_eq, if_neg (not_not.mpr rfl), if_neg (by decide),
      if_pos (ne_pad_of_known (by rw [hc]; rfl)),
      mapM_three.mpr ⟨va, ha, vb, hb, vc, hc, rfl⟩, Option.bind_some,
      if_neg (not_not.mpr h0)]
    rfl
  | 2, h =>
    have heq : [a, b] ++ [c, d] = digits ++ [0x3d, 0x3d] := h.eq
    obtain ⟨rfl, hcd⟩ := List.append_inj' heq rfl
    obtain ⟨rfl, rfl⟩ : c = 0x3d ∧ d = 0x3d := by simpa using hcd
    have hk : ∀ x ∈ [a, b], (digit x).isSome = true := h.known
    simp only [List.forall_mem_cons, Option.isSome_iff_exists] at hk
    obtain ⟨⟨va, ha⟩, ⟨vb, hb⟩, -⟩ := hk
    have hz := h.trailing b vb rfl hb
    have hw : (word [va, vb] <<< 12).toNat = (va.toNat * 64 + vb.toNat) * 4096 := by
      rw [word_pads, toNat_word (by
        simp [(digit_eq_some ha).1, (digit_eq_some hb).1]) le_rfl]
      simp only [List.foldl_cons, List.foldl_nil, UInt32.toNat_zero]
      omega
    have h8 : (word [va, vb] <<< 12 >>> 8).toUInt8 = 0 := by
      rw [← UInt8.toNat_inj, UInt32.toNat_toUInt8, (toNat_shifts _).2.2.2.1, hw,
        UInt8.toNat_zero]
      omega
    have h0 : (word [va, vb] <<< 12).toUInt8 = 0 := by
      rw [← UInt8.toNat_inj, UInt32.toNat_toUInt8, hw, UInt8.toNat_zero]
      omega
    rw [decodeChunk_eq, if_neg (not_not.mpr rfl), if_neg (by decide),
      if_neg (not_not.mpr rfl), if_pos (ne_pad_of_known (by rw [hb]; rfl)),
      mapM_two.mpr ⟨va, ha, vb, hb, rfl⟩, Option.bind_some, if_neg (by simp [h8, h0])]
    rfl
  | n + 3, h => exact absurd h.short (by omega)

/-- Before the last group of strict base64 there is a full one. -/
private theorem Padded.rest {a b c d : UInt8} {rest digits : List UInt8} {pad : Nat}
    (h : Padded (a :: b :: c :: d :: rest) digits pad) (hr : rest ≠ []) :
    (∀ x ∈ [a, b, c, d], (digit x).isSome = true) ∧ Canonical rest := by
  have hf := h.full
  have hs := h.short
  have hpos := List.length_pos_of_ne_nil hr
  have hlen := congrArg List.length h.eq
  simp only [List.length_cons, List.length_append, List.length_replicate] at hf hlen
  obtain ⟨digits', rfl⟩ : ∃ digits', digits = [a, b, c, d] ++ digits' := by
    have hp : [a, b, c, d] <+: digits ++ List.replicate pad 0x3d := h.eq ▸ ⟨rest, rfl⟩
    obtain ⟨t, ht⟩ := List.prefix_of_prefix_length_le hp (List.prefix_append digits _) (by
      simp only [List.length_cons, List.length_nil]
      omega)
    exact ⟨t, ht.symm⟩
  have heq : rest = digits' ++ List.replicate pad 0x3d := by
    have := h.eq
    simpa using this
  refine ⟨fun x hx ↦ h.known x (List.mem_append_left _ hx), digits', pad, heq, by omega, hs,
    fun x hx ↦ h.known x (List.mem_append_right _ hx), fun x v hx ↦ h.trailing x v ?_⟩
  cases digits' with
  | nil => cases hx
  | cons y digits' => simpa [List.getLast?_cons] using hx

/-- Strict base64 is decoded. -/
private theorem decodeChunks_of_canonical {text : List UInt8} (h : Canonical text) :
    (decodeChunks text).isSome = true := by
  induction text using decodeChunks.induct with
  | case1 => rfl
  | case2 a b c d rest ih =>
    obtain ⟨digits, pad, hp⟩ := h
    rw [decodeChunks]
    by_cases hr : rest = []
    · subst hr
      obtain ⟨bytes, hb⟩ := Option.isSome_iff_exists.mp (decodeChunk_of_padded hp)
      rw [List.isEmpty_nil, hb]
      rfl
    · obtain ⟨hk, hc⟩ := hp.rest hr
      simp only [List.forall_mem_cons, Option.isSome_iff_exists] at hk
      obtain ⟨⟨va, ha⟩, ⟨vb, hb⟩, ⟨vc, hc'⟩, ⟨vd, hd⟩, -⟩ := hk
      obtain ⟨more, hm⟩ := Option.isSome_iff_exists.mp (ih hc)
      rw [decodeChunk_eq, if_pos (ne_pad_of_known (by rw [hd]; rfl)),
        mapM_four.mpr ⟨va, ha, vb, hb, vc, hc', vd, hd, rfl⟩, hm]
      rfl
  | case3 text h₁ h₂ =>
    obtain ⟨digits, pad, hp⟩ := h
    have hf := hp.full
    match text, h₁, h₂ with
    | [], h₁, _ => exact absurd rfl h₁
    | [_], _, _ | [_, _], _, _ | [_, _, _], _, _ => simp at hf
    | a :: b :: c :: d :: rest, _, h₂ => exact absurd rfl (h₂ a b c d rest)

/-- The decoder takes strict base64 back to what it encodes, and refuses every other text. -/
theorem decode_strict :
    (∀ text data, decode text = some data ↔ text = base64 data) ∧
      ∀ text, decode text = none ↔ ¬ Canonical text := by
  refine ⟨fun text data ↦ decode_eq_some_iff, fun text ↦ ?_⟩
  constructor
  · intro hn hc
    have hs := decodeChunks_of_canonical hc
    obtain ⟨digits, pad, hp⟩ := hc
    rw [decode, if_neg (not_not.mpr hp.full)] at hn
    rw [hn] at hs
    cases hs
  · intro hc
    rw [Option.eq_none_iff_forall_ne_some]
    intro data hd
    rw [decode_eq_some_iff.mp hd] at hc
    exact hc (canonical_base64 data)

end PtySpec.Vt
