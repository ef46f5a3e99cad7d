import PtySpec.Lib.Utf8

/-!
# Decimal digits of a fixed width

Numbers written with as many digits as a field has, and fields written one after another:
they are read back, and compare as texts the way the numbers compare.
-/

namespace PtySpec.Lib

/-! ### Texts one after another -/

/-- Two texts of one length decide the order, and what follows them only when they are one. -/
theorem append_lt_append {s s' t t' : List Char} (h : s.length = s'.length) :
    s ++ t < s' ++ t' ↔ s < s' ∨ s = s' ∧ t < t' := by
  induction s generalizing s' with
  | nil =>
    obtain rfl := List.length_eq_zero_iff.mp h.symm
    simp
  | cons c s ih =>
    cases s' with
    | nil => cases h
    | cons c' s' =>
      have hl : s.length = s'.length := Nat.succ.inj h
      simp only [List.cons_append, List.cons_lt_cons_iff, ih hl, List.cons.injEq]
      tauto

/-! ### Digits -/

/-- The digit of the ones. -/
def digit (n : Nat) : Char := Nat.digitChar (n % 10)

/-- The last `width` digits of a number. -/
def fixed : Nat → Nat → List Char
  | 0, _ => []
  | width + 1, n => digit (n / 10 ^ width) :: fixed width n

@[simp] theorem length_fixed (width n : Nat) : (fixed width n).length = width := by
  induction width with
  | zero => rfl
  | succ width ih => rw [fixed, List.length_cons, ih]

theorem toNat_digit (n : Nat) : (digit n).toNat = 48 + n % 10 :=
  Nat.toNat_digitChar_of_lt_ten (Nat.mod_lt n (by decide))

theorem digit_lt_digit {m n : Nat} : digit m < digit n ↔ m % 10 < n % 10 := by
  rw [Char.lt_def, UInt32.lt_iff_toNat_lt]
  have hm : (digit m).val.toNat = 48 + m % 10 := toNat_digit m
  have hn : (digit n).val.toNat = 48 + n % 10 := toNat_digit n
  omega

theorem digit_inj {m n : Nat} : digit m = digit n ↔ m % 10 = n % 10 := by
  rw [← Char.toNat_inj, toNat_digit, toNat_digit]
  omega

/-- The order of two sums of a multiple of `p` and a rest below it. -/
private theorem add_mul_lt {p a b r s : Nat} (hr : r < p) (hs : s < p) :
    r + p * a < s + p * b ↔ a < b ∨ a = b ∧ r < s := by
  rcases Nat.lt_trichotomy a b with h | rfl | h
  · have hm : p * (a + 1) ≤ p * b := Nat.mul_le_mul_left p h
    rw [Nat.mul_add, Nat.mul_one] at hm
    omega
  · omega
  · have hm : p * (b + 1) ≤ p * a := Nat.mul_le_mul_left p h
    rw [Nat.mul_add, Nat.mul_one] at hm
    omega

theorem fixed_lt_fixed_mod (width m n : Nat) :
    fixed width m < fixed width n ↔ m % 10 ^ width < n % 10 ^ width := by
  induction width with
  | zero => simp [fixed, Nat.mod_one]
  | succ width ih =>
    have hp : 0 < 10 ^ width := Nat.pow_pos (by decide)
    rw [fixed, fixed, List.cons_lt_cons_iff, digit_lt_digit, digit_inj, ih, Nat.mod_pow_succ,
      Nat.mod_pow_succ, add_mul_lt (Nat.mod_lt m hp) (Nat.mod_lt n hp)]

theorem fixed_lt_fixed {width m n : Nat} (hm : m < 10 ^ width) (hn : n < 10 ^ width) :
    fixed width m < fixed width n ↔ m < n := by
  rw [fixed_lt_fixed_mod, Nat.mod_eq_of_lt hm, Nat.mod_eq_of_lt hn]

theorem fixed_inj {width m n : Nat} (hm : m < 10 ^ width) (hn : n < 10 ^ width) :
    fixed width m = fixed width n ↔ m = n := by
  refine ⟨fun h ↦ ?_, fun h ↦ h ▸ rfl⟩
  have hmn := fixed_lt_fixed hm hn
  have hnm := fixed_lt_fixed hn hm
  rw [h] at hmn hnm
  have hirr := List.lt_irrefl (fixed width n)
  rw [iff_false_left hirr] at hmn hnm
  omega

/-- Texts that begin with a field and a mark compare as the numbers do, then as what follows. -/
theorem field_lt_field {width m n : Nat} {c : Char} {s t : List Char} (hm : m < 10 ^ width)
    (hn : n < 10 ^ width) :
    fixed width m ++ c :: s < fixed width n ++ c :: t ↔ m < n ∨ m = n ∧ s < t := by
  have hl : (fixed width m).length = (fixed width n).length := by
    rw [length_fixed, length_fixed]
  rw [append_lt_append hl, fixed_lt_fixed hm hn, fixed_inj hm hn, List.cons_lt_cons_iff]
  simp only [Char.lt_irrefl, false_or, true_and]

/-! ### Padding -/

/-- A number in decimal, with zeros before it up to a width. -/
def padded (width n : Nat) : List Char :=
  List.replicate (width - (Nat.toDigits 10 n).length) '0' ++ Nat.toDigits 10 n

theorem fixed_succ (width n : Nat) : fixed (width + 1) n = fixed width (n / 10) ++ [digit n] := by
  induction width generalizing n with
  | zero => simp [fixed]
  | succ width ih =>
    have hd : n / 10 ^ (width + 1) = n / 10 / 10 ^ width := by
      rw [Nat.div_div_eq_div_mul, Nat.pow_succ']
    rw [fixed, ih, fixed, List.cons_append, hd]

private theorem fixed_zero (width : Nat) : fixed width 0 = List.replicate width '0' := by
  induction width with
  | zero => rfl
  | succ width ih =>
    rw [fixed, ih, Nat.zero_div]
    rfl

/-- A number that fits in its field fills it. -/
theorem padded_eq_fixed {width n : Nat} (hw : 0 < width) (h : n < 10 ^ width) :
    padded width n = fixed width n := by
  induction width generalizing n with
  | zero => exact absurd hw (Nat.lt_irrefl 0)
  | succ width ih =>
    have ht : Nat.toDigits 10 n = if n < 10 then [digit n]
        else Nat.toDigits 10 (n / 10) ++ [digit n] := by
      rw [Nat.toDigits_eq_if (by decide)]
      split
      · next hn => rw [digit, Nat.mod_eq_of_lt hn]
      · rfl
    rw [fixed_succ, padded, ht]
    split
    · next hn =>
      rw [Nat.div_eq_of_lt hn, fixed_zero, List.length_singleton, Nat.add_sub_cancel]
    · next hn =>
      have hlt : n / 10 < 10 ^ width := by
        rw [Nat.pow_succ] at h
        omega
      have hpos : 0 < width := by
        rcases Nat.eq_zero_or_pos width with rfl | hpos
        · rw [Nat.pow_zero] at hlt
          omega
        · exact hpos
      rw [← ih hpos hlt, padded, List.length_append, List.length_singleton, Nat.add_sub_add_right,
        List.append_assoc]

/-! ### Reading -/

/-- The number that ASCII digits write. -/
def ofDigits (bytes : List UInt8) : Nat := bytes.foldl (fun n b ↦ 10 * n + (b.toNat - 48)) 0

/-- The bytes of a digit. -/
theorem utf8EncodeChar_digit (n : Nat) :
    String.utf8EncodeChar (digit n) = [UInt8.ofNat (48 + n % 10)] := by
  have h : (digit n).val.toNat = 48 + n % 10 := toNat_digit n
  have hlt : 48 + n % 10 ≤ 127 := by omega
  simp only [String.utf8EncodeChar, h, if_pos hlt]

/-- The bytes of a field. -/
def fixedBytes (width n : Nat) : List UInt8 := (fixed width n).flatMap String.utf8EncodeChar

theorem fixedBytes_succ (width n : Nat) :
    fixedBytes (width + 1) n = fixedBytes width (n / 10) ++ [UInt8.ofNat (48 + n % 10)] := by
  rw [fixedBytes, fixed_succ, List.flatMap_append, List.flatMap_singleton, utf8EncodeChar_digit]
  rfl

@[simp] theorem length_fixedBytes (width n : Nat) : (fixedBytes width n).length = width := by
  induction width generalizing n with
  | zero => rfl
  | succ width ih => rw [fixedBytes_succ, List.length_append, ih, List.length_singleton]

theorem toNat_digitByte (n : Nat) : (UInt8.ofNat (48 + n % 10)).toNat = 48 + n % 10 := by
  rw [UInt8.toNat_ofNat']
  omega

/-- Every byte of a field is a digit. -/
theorem mem_fixedBytes {width n : Nat} {b : UInt8} (h : b ∈ fixedBytes width n) :
    48 ≤ b.toNat ∧ b.toNat ≤ 57 := by
  induction width generalizing n with
  | zero => cases h
  | succ width ih =>
    rw [fixedBytes_succ, List.mem_append, List.mem_singleton] at h
    rcases h with h | rfl
    · exact ih h
    · rw [toNat_digitByte]
      omega

/-- A field is read back. -/
theorem ofDigits_fixedBytes (width n : Nat) : ofDigits (fixedBytes width n) = n % 10 ^ width := by
  induction width generalizing n with
  | zero => simp [fixedBytes, fixed, ofDigits, Nat.mod_one]
  | succ width ih =>
    have hd := ih (n / 10)
    unfold ofDigits at hd ⊢
    rw [fixedBytes_succ, List.foldl_append, hd, List.foldl_cons, List.foldl_nil,
      toNat_digitByte, Nat.pow_succ', Nat.mod_mul]
    omega

/-- Digits write a number below the power of ten of their count. -/
theorem ofDigits_lt {bytes : List UInt8} (h : ∀ b ∈ bytes, b.toNat ≤ 57) :
    ofDigits bytes < 10 ^ bytes.length := by
  induction bytes using List.reverseRecOn with
  | nil => decide
  | append_singleton bytes b ih =>
    have hi := ih fun c hc ↦ h c (List.mem_append_left _ hc)
    have hb := h b (List.mem_append_right _ (List.mem_singleton_self b))
    unfold ofDigits at hi ⊢
    rw [List.foldl_append, List.foldl_cons, List.foldl_nil, List.length_append,
      List.length_singleton, Nat.pow_succ]
    omega

end PtySpec.Lib
