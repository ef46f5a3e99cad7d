import Mathlib

/-!
# UTF-8 text and its ASCII bytes

A byte below 128 is a character of its own wherever it stands in UTF-8, so that text may be cut
there.
-/

namespace PtySpec.Lib

/-- Bytes that are UTF-8. -/
def Utf8 (bytes : List UInt8) : Prop :=
  ∃ text : List Char, bytes = text.flatMap String.utf8EncodeChar

theorem validateUTF8_iff (bytes : List UInt8) :
    bytes.toByteArray.validateUTF8 = true ↔ Utf8 bytes := by
  rw [ByteArray.validateUTF8_eq_true_iff]
  constructor
  · rintro ⟨text, h⟩
    refine ⟨text, ?_⟩
    have := congrArg (fun b : ByteArray ↦ b.data.toList) h
    simpa [List.utf8Encode] using this
  · rintro ⟨text, rfl⟩
    exact ⟨text, rfl⟩

theorem utf8_nil : Utf8 [] := ⟨[], rfl⟩

/-- An ASCII byte of a character is the whole of it. -/
theorem utf8EncodeChar_of_mem {c : Char} {x : UInt8} (hx : x < 0x80)
    (h : x ∈ String.utf8EncodeChar c) : String.utf8EncodeChar c = [x] := by
  have hlt : x.toNat < 128 := hx
  unfold String.utf8EncodeChar at h ⊢
  dsimp only at h ⊢
  split at h
  · next hc =>
    rw [if_pos hc, List.mem_singleton.mp h]
  · next hc =>
    exfalso
    have hv := c.val.toNat_lt
    split at h
    · simp only [List.mem_cons, List.not_mem_nil, or_false] at h
      obtain rfl | rfl := h <;> rw [UInt8.toNat_ofNat'] at hlt <;> omega
    split at h
    · simp only [List.mem_cons, List.not_mem_nil, or_false] at h
      obtain rfl | rfl | rfl := h <;> rw [UInt8.toNat_ofNat'] at hlt <;> omega
    · simp only [List.mem_cons, List.not_mem_nil, or_false] at h
      obtain rfl | rfl | rfl | rfl := h <;> rw [UInt8.toNat_ofNat'] at hlt <;> omega

theorem utf8EncodeChar_ascii {x : UInt8} (hx : x < 0x80) :
    String.utf8EncodeChar (Char.ofNat x.toNat) = [x] := by
  have hlt : x.toNat < 128 := hx
  have hv : (Char.ofNat x.toNat).val.toNat = x.toNat := by
    rw [Char.ofNat, dif_pos (.inl (by omega))]
    rfl
  unfold String.utf8EncodeChar
  dsimp only
  rw [hv, if_pos (by omega), UInt8.ofNat_toNat]

/-- Text is cut at an ASCII byte into texts. -/
theorem utf8_append_cons {a b : List UInt8} {x : UInt8} (hx : x < 0x80) :
    Utf8 (a ++ x :: b) ↔ Utf8 a ∧ Utf8 b := by
  constructor
  · rintro ⟨text, h⟩
    induction text generalizing a with
    | nil => simp at h
    | cons c text ih =>
      rw [List.flatMap_cons] at h
      obtain ⟨m, hc, hm⟩ | ⟨m, rfl, hm⟩ := List.append_eq_append_iff.mp h
      · cases m with
        | nil =>
          rw [List.append_nil] at hc
          obtain ⟨-, hb⟩ := ih (a := []) hm
          exact ⟨⟨[c], by simp [hc]⟩, hb⟩
        | cons y m =>
          obtain ⟨rfl, hb⟩ := List.cons_eq_cons.mp hm
          have hone := utf8EncodeChar_of_mem hx (hc ▸ List.mem_append_right a List.mem_cons_self)
          rw [hone] at hc
          obtain ⟨rfl, rfl⟩ : a = [] ∧ m = [] := by
            have := congrArg List.length hc
            simp only [List.length_append, List.length_cons, List.length_nil] at this
            exact ⟨List.length_eq_zero_iff.mp (by omega), List.length_eq_zero_iff.mp (by omega)⟩
          exact ⟨utf8_nil, text, hb⟩
      · obtain ⟨⟨s, rfl⟩, hb⟩ := ih hm.symm
        exact ⟨⟨c :: s, rfl⟩, hb⟩
  · rintro ⟨⟨s, rfl⟩, t, rfl⟩
    refine ⟨s ++ Char.ofNat x.toNat :: t, ?_⟩
    rw [List.flatMap_append, List.flatMap_cons, utf8EncodeChar_ascii hx]
    rfl

/-- Texts that are joined by an ASCII byte are text, and only they. -/
theorem utf8_intercalate {x : UInt8} (hx : x < 0x80) {parts : List (List UInt8)} :
    Utf8 ([x].intercalate parts) ↔ ∀ p ∈ parts, Utf8 p := by
  induction parts with
  | nil => simp [utf8_nil]
  | cons p parts ih =>
    cases parts with
    | nil => simp
    | cons q parts =>
      rw [List.intercalate_cons_cons, List.append_assoc, List.singleton_append,
        utf8_append_cons hx, ih]
      exact List.forall_mem_cons.symm

end PtySpec.Lib
