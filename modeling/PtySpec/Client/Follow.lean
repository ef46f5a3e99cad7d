import PtySpec.Lib.Pieces
import PtySpec.Lib.Utf8
import PtySpec.Serving.Screen

/-!
# Following output as plain text

Model of what `follow` writes of DATA packets in plain mode, `crates/pty-client/src/peek.rs:239`:
each payload is decoded by itself, and `strip_ansi` takes the CSI sequences out of it.
-/

namespace PtySpec.Client

open Lib
open Serving (fromUtf8Lossy utf8Width utf8Tail utf8Second)

/-! ### Stripping -/

/-- A byte of the parameters of a CSI sequence. -/
def isCsiParam (b : UInt8) : Bool := (0x30 ≤ b && b ≤ 0x39) || b = 0x3b

/-- `is_ascii_alphabetic`. -/
def isAsciiAlphabetic (b : UInt8) : Bool := (0x41 ≤ b && b ≤ 0x5a) || (0x61 ≤ b && b ≤ 0x7a)

/-- The rest of a CSI sequence that starts here, `peek.rs:291-299`. -/
def csiAt (x : UInt8) (text : List UInt8) : Option (List UInt8) :=
  match text with
  | [] => none
  | y :: rest =>
    if x = 0x1b ∧ y = 0x5b then
      let params := rest.takeWhile isCsiParam
      match rest.drop params.length with
      | final :: _ => if isAsciiAlphabetic final then some (y :: (params ++ [final])) else none
      | [] => none
    else none

/-- The loop of `strip_ansi`. -/
def withoutCsi (text : List UInt8) : List UInt8 := onePass csiAt (fun _ ↦ []) text

/-- `strip_ansi`, `peek.rs:286`; where its result is text, `from_utf8` and `from_utf8_lossy`
give the same. -/
def stripAnsi (text : List UInt8) : List UInt8 := fromUtf8Lossy (withoutCsi text)

/-- What is written of a DATA packet, `peek.rs:239-242`. -/
def plainData (payload : List UInt8) : List UInt8 := stripAnsi (fromUtf8Lossy payload)

/-- What is written of the DATA packets of a connection. -/
def followPlain (payloads : List (List UInt8)) : List UInt8 := payloads.flatMap plainData

/-! ### CSI sequences -/

/-- A CSI sequence that is taken out. -/
def Csi (q : List UInt8) : Prop :=
  ∃ params final, q = 0x1b :: 0x5b :: (params ++ [final]) ∧ (∀ b ∈ params, isCsiParam b = true) ∧
    isAsciiAlphabetic final = true

private theorem isCsiParam_iff {b : UInt8} :
    isCsiParam b = true ↔ (48 ≤ b.toNat ∧ b.toNat ≤ 57) ∨ b.toNat = 59 := by
  have he : b = 0x3b ↔ b.toNat = 59 := UInt8.toNat_inj.symm
  simp only [isCsiParam, Bool.or_eq_true, Bool.and_eq_true, decide_eq_true_eq, he,
    UInt8.le_iff_toNat_le]
  rfl

private theorem isAsciiAlphabetic_iff {b : UInt8} :
    isAsciiAlphabetic b = true ↔
      (65 ≤ b.toNat ∧ b.toNat ≤ 90) ∨ (97 ≤ b.toNat ∧ b.toNat ≤ 122) := by
  simp only [isAsciiAlphabetic, Bool.or_eq_true, Bool.and_eq_true, decide_eq_true_eq,
    UInt8.le_iff_toNat_le]
  rfl

private theorem not_param_of_alphabetic {b : UInt8} (h : isAsciiAlphabetic b = true) :
    isCsiParam b = false := by
  rw [isAsciiAlphabetic_iff] at h
  rw [← Bool.not_eq_true, isCsiParam_iff]
  omega

private theorem takeWhile_params {params t : List UInt8} {final : UInt8}
    (hp : ∀ b ∈ params, isCsiParam b = true) (hf : isAsciiAlphabetic final = true) :
    (params ++ final :: t).takeWhile isCsiParam = params := by
  rw [List.takeWhile_append_of_pos hp, List.takeWhile_cons_of_neg, List.append_nil]
  simp [not_param_of_alphabetic hf]

theorem finds_csi : Finds csiAt Csi := by
  intro x text rest
  constructor
  · intro h
    unfold csiAt at h
    split at h
    · cases h
    · next y t =>
      split at h
      · next hxy =>
        obtain ⟨rfl, rfl⟩ := hxy
        dsimp only at h
        split at h
        · next final more hd =>
          split at h
          · next hf =>
            cases h
            refine ⟨⟨_, final, rfl, fun b hb ↦ List.mem_takeWhile_imp hb, hf⟩, ?_⟩
            refine List.cons_prefix_cons.mpr ⟨rfl, more, ?_⟩
            rw [List.append_assoc, List.singleton_append, ← hd]
            exact (List.prefix_iff_eq_append.mp (List.takeWhile_prefix isCsiParam))
          · cases h
        · cases h
      · cases h
  · rintro ⟨⟨params, final, he, hp, hf⟩, t, rfl⟩
    obtain ⟨rfl, rfl⟩ := List.cons.inj he
    unfold csiAt
    rw [List.cons_append, List.append_assoc, List.singleton_append]
    dsimp only
    rw [if_pos ⟨rfl, rfl⟩, takeWhile_params hp hf, List.drop_left]
    dsimp only
    rw [if_pos hf]

theorem marked_csi : Marked 0x1b Csi where
  opens := by
    rintro q ⟨params, final, rfl, hp, hf⟩
    refine ⟨_, rfl, fun hm ↦ ?_⟩
    rw [List.mem_cons, List.mem_append, List.mem_singleton] at hm
    obtain hm | hm | hm := hm
    · exact absurd hm (by decide)
    · exact absurd (hp _ hm) (by decide)
    · rw [← hm] at hf
      exact absurd hf (by decide)
  same := by
    rintro q m ⟨params, final, rfl, hp, hf⟩ ⟨params', final', he, hp', hf'⟩
    simp only [List.cons_append, List.cons.injEq, true_and, List.append_assoc,
      List.nil_append] at he
    have h₁ := takeWhile_params (t := m) hp hf
    have h₂ := takeWhile_params (t := []) hp' hf'
    rw [he, h₂] at h₁
    subst h₁
    exact (List.cons.inj (List.append_cancel_left he)).2

theorem replaces_withoutCsi : Replaces Csi (fun _ ↦ []) withoutCsi :=
  replaces_onePass marked_csi finds_csi

private theorem ascii_of_csi {q : List UInt8} (h : Csi q) : ∀ b ∈ q, b < 0x80 := by
  obtain ⟨params, final, rfl, hp, hf⟩ := h
  have hall (b : UInt8) (h : isCsiParam b = true ∨ isAsciiAlphabetic b = true) : b < 0x80 := by
    rw [isCsiParam_iff, isAsciiAlphabetic_iff] at h
    rw [UInt8.lt_iff_toNat_lt]
    change b.toNat < 128
    omega
  intro b hb
  simp only [List.mem_cons, List.mem_append, List.not_mem_nil, or_false] at hb
  obtain rfl | rfl | hb | rfl := hb
  · decide
  · decide
  · exact hall b (.inl (hp b hb))
  · exact hall b (.inr hf)

/-! ### Decoding -/

/-- A character is its first byte, which says how many follow, and those. -/
private structure Encoded (first : UInt8) (more : List UInt8) : Prop where
  width : utf8Width first = more.length + 1
  second : ∀ b ∈ more.head?, utf8Second first b = true
  follow : ∀ b ∈ more, 0x80 ≤ b.toNat ∧ b.toNat ≤ 0xbf

private theorem utf8Width_eq (b : UInt8) : utf8Width b =
    if b.toNat < 128 then 1 else if b.toNat < 194 then 0 else if b.toNat < 224 then 2
    else if b.toNat < 240 then 3 else if b.toNat < 245 then 4 else 0 := by
  simp only [utf8Width, UInt8.lt_iff_toNat_lt]
  rfl

private theorem utf8Second_iff (first b : UInt8) : utf8Second first b = true ↔
    if first.toNat = 224 then 160 ≤ b.toNat ∧ b.toNat ≤ 191
    else if first.toNat = 237 then 128 ≤ b.toNat ∧ b.toNat ≤ 159
    else if first.toNat = 240 then 144 ≤ b.toNat ∧ b.toNat ≤ 191
    else if first.toNat = 244 then 128 ≤ b.toNat ∧ b.toNat ≤ 143
    else 128 ≤ b.toNat ∧ b.toNat ≤ 191 := by
  have he (k : UInt8) : first = k ↔ first.toNat = k.toNat := UInt8.toNat_inj.symm
  simp only [utf8Second, he]
  split_ifs <;> simp only [Bool.and_eq_true, decide_eq_true_eq, UInt8.le_iff_toNat_le] <;>
    first | rfl | contradiction

private theorem encoded (c : Char) :
    ∃ first more, String.utf8EncodeChar c = first :: more ∧ Encoded first more := by
  have hv : c.val.toNat < 0xd800 ∨ (0xdfff < c.val.toNat ∧ c.val.toNat < 0x110000) := c.valid
  unfold String.utf8EncodeChar
  dsimp only
  generalize c.val.toNat = v at hv
  have hb (n : Nat) (h : n < 256) : (UInt8.ofNat n).toNat = n := by
    rw [UInt8.toNat_ofNat']
    omega
  split
  · refine ⟨_, [], rfl, ?_, by simp, by simp⟩
    rw [utf8Width_eq, hb v (by omega), if_pos (by omega)]
    rfl
  · split
    · have h₀ := hb (v / 64 % 32 + 192) (by omega)
      have h₁ := hb (v % 64 + 128) (by omega)
      refine ⟨_, [_], rfl, ?_, ?_, ?_⟩
      · rw [utf8Width_eq, h₀, if_neg (by omega), if_neg (by omega), if_pos (by omega)]
        rfl
      · simp only [List.head?_cons, Option.mem_some_iff, forall_eq', utf8Second_iff, h₀, h₁]
        split_ifs <;> omega
      · simp only [List.mem_singleton, forall_eq, h₁]
        omega
    · split
      · have h₀ := hb (v / 4096 % 16 + 224) (by omega)
        have h₁ := hb (v / 64 % 64 + 128) (by omega)
        have h₂ := hb (v % 64 + 128) (by omega)
        refine ⟨_, [_, _], rfl, ?_, ?_, ?_⟩
        · rw [utf8Width_eq, h₀, if_neg (by omega), if_neg (by omega), if_neg (by omega),
            if_pos (by omega)]
          rfl
        · simp only [List.head?_cons, Option.mem_some_iff, forall_eq', utf8Second_iff, h₀, h₁]
          split_ifs <;> omega
        · simp only [List.mem_cons, List.not_mem_nil, or_false, forall_eq_or_imp, forall_eq, h₁, h₂]
          omega
      · have h₀ := hb (v / 262144 % 8 + 240) (by omega)
        have h₁ := hb (v / 4096 % 64 + 128) (by omega)
        have h₂ := hb (v / 64 % 64 + 128) (by omega)
        have h₃ := hb (v % 64 + 128) (by omega)
        refine ⟨_, [_, _, _], rfl, ?_, ?_, ?_⟩
        · rw [utf8Width_eq, h₀, if_neg (by omega), if_neg (by omega), if_neg (by omega),
            if_neg (by omega), if_pos (by omega)]
          rfl
        · simp only [List.head?_cons, Option.mem_some_iff, forall_eq', utf8Second_iff, h₀, h₁]
          split_ifs <;> omega
        · simp only [List.mem_cons, List.not_mem_nil, or_false, forall_eq_or_imp, forall_eq, h₁, h₂,
            h₃]
          omega

private theorem length_takeWhile_follow {more : List UInt8}
    (h : ∀ b ∈ more, 0x80 ≤ b.toNat ∧ b.toNat ≤ 0xbf) :
    more.takeWhile (fun b ↦ 0x80 ≤ b && b ≤ 0xbf) = more := by
  rw [List.takeWhile_eq_self_iff]
  intro b hb
  rw [Bool.and_eq_true, decide_eq_true_eq, decide_eq_true_eq, UInt8.le_iff_toNat_le,
    UInt8.le_iff_toNat_le]
  exact h b hb

/-- The bytes that belong to a character, all of them or where the text ends in it. -/
private theorem utf8Tail_eq {first : UInt8} {more part : List UInt8} (h : Encoded first more)
    (hp : part <+: more) {rest : List UInt8} (hr : part = more ∨ rest = []) :
    utf8Tail first (part ++ rest) = part.length := by
  have hle := hp.length_le
  have htake : (part ++ rest).take (utf8Width first - 1) = part := by
    rw [h.width, Nat.add_sub_cancel]
    obtain rfl | rfl := hr
    · exact List.take_left
    · rw [List.append_nil, List.take_of_length_le hle]
  unfold utf8Tail
  rw [htake]
  cases part with
  | nil => rfl
  | cons b part =>
    obtain ⟨t, rfl⟩ := hp
    dsimp only
    rw [if_pos (h.second b rfl), length_takeWhile_follow fun x hx ↦
      h.follow x (by simp [hx]), List.length_cons, Nat.add_comm]

/-- U+FFFD. -/
private def replacement : List UInt8 := [0xef, 0xbf, 0xbd]

/-- A character is decoded. -/
private theorem lossy_char (c : Char) (rest : List UInt8) :
    fromUtf8Lossy (String.utf8EncodeChar c ++ rest) =
      String.utf8EncodeChar c ++ fromUtf8Lossy rest := by
  obtain ⟨first, more, hc, h⟩ := encoded c
  rw [hc, List.cons_append, fromUtf8Lossy, utf8Tail_eq h List.prefix_rfl (.inl rfl)]
  rw [if_pos h.width.symm, List.take_left, List.drop_left]

/-- A byte that follows, without its first byte, is replaced. -/
private theorem lossy_follow {b : UInt8} (h : 0x80 ≤ b.toNat ∧ b.toNat ≤ 0xbf)
    (rest : List UInt8) : fromUtf8Lossy (b :: rest) = replacement ++ fromUtf8Lossy rest := by
  have hw : utf8Width b = 0 := by
    rw [utf8Width_eq, if_neg (by omega), if_pos (by omega)]
  have ht : utf8Tail b rest = 0 := by
    rw [utf8Tail, hw]
    rfl
  rw [fromUtf8Lossy, ht, hw]
  rw [if_neg (by decide), List.drop_zero]
  rfl

/-- A character that the text ends in is replaced. -/
private theorem lossy_cut {first : UInt8} {more part : List UInt8} (h : Encoded first more)
    (hp : part <+: more) (hne : part ≠ more) :
    fromUtf8Lossy (first :: part) = replacement := by
  have ht := utf8Tail_eq h hp (.inr (rfl : ([] : List UInt8) = []))
  rw [List.append_nil] at ht
  have hlt : part.length ≠ more.length := fun he ↦ hne (hp.eq_of_length he)
  rw [fromUtf8Lossy, ht, h.width]
  rw [if_neg (by omega), List.drop_length, fromUtf8Lossy, List.append_nil]
  rfl

/-- Text is decoded to itself. -/
private theorem lossy_text (text : List Char) :
    fromUtf8Lossy (text.flatMap String.utf8EncodeChar) = text.flatMap String.utf8EncodeChar := by
  induction text with
  | nil => rw [List.flatMap_nil, fromUtf8Lossy]
  | cons c text ih => rw [List.flatMap_cons, lossy_char, ih]

/-- Bytes that only follow a first byte. -/
private def Follow (k : List UInt8) : Prop := ∀ b ∈ k, 0x80 ≤ b.toNat ∧ b.toNat ≤ 0xbf

private theorem follow_nil : Follow [] := fun _ hb ↦ nomatch hb

/-- The start of a character, without its end. -/
private def Begun (p : List UInt8) : Prop :=
  ∃ first more part, Encoded first more ∧ p = first :: part ∧ part <+: more ∧ part ≠ more

private theorem lossy_follows {k : List UInt8} (h : Follow k) (rest : List UInt8) :
    fromUtf8Lossy (k ++ rest) =
      (List.replicate k.length '\uFFFD').flatMap String.utf8EncodeChar ++ fromUtf8Lossy rest := by
  induction k with
  | nil => rfl
  | cons b k ih =>
    rw [List.cons_append, lossy_follow (h b List.mem_cons_self), List.length_cons,
      List.replicate_succ, List.flatMap_cons, ih fun x hx ↦ h x (List.mem_cons_of_mem b hx),
      List.append_assoc]
    rfl

/-- A piece of text is decoded to text. -/
private theorem lossy_piece {k p : List UInt8} (hk : Follow k) (text : List Char)
    (hp : p = [] ∨ Begun p) :
    fromUtf8Lossy (k ++ (text.flatMap String.utf8EncodeChar ++ p)) =
      (List.replicate k.length '\uFFFD' ++
        (text ++ if p = [] then [] else ['\uFFFD'])).flatMap String.utf8EncodeChar := by
  have htext : fromUtf8Lossy (text.flatMap String.utf8EncodeChar ++ p) =
      text.flatMap String.utf8EncodeChar ++ fromUtf8Lossy p := by
    induction text with
    | nil => rfl
    | cons c text ih => rw [List.flatMap_cons, List.append_assoc, lossy_char, ih, List.append_assoc]
  rw [lossy_follows hk, htext, List.flatMap_append, List.flatMap_append]
  obtain rfl | ho := hp
  · rw [if_pos rfl, fromUtf8Lossy]
    rfl
  · obtain ⟨first, more, part, he, rfl, hpre, hne⟩ := ho
    rw [if_neg (List.cons_ne_nil _ _), lossy_cut he hpre hne]
    rfl

/-! ### Stripping text -/

private theorem not_has_of_foreign {x : List UInt8} (h : ∀ b ∈ x, 0x80 ≤ b.toNat) :
    ¬Has Csi x := by
  rintro ⟨a, q, b, rfl, hq⟩
  obtain ⟨rest, rfl, -⟩ := marked_csi.opens hq
  have hm := h 0x1b (by simp)
  exact absurd hm (by decide)

private theorem withoutCsi_append {x y : List UInt8}
    (h : (∀ b ∈ x, 0x80 ≤ b.toNat) ∨ ∀ b ∈ y, 0x80 ≤ b.toNat) :
    withoutCsi (x ++ y) = withoutCsi x ++ withoutCsi y := by
  refine replaces_withoutCsi.append_eq marked_csi.apart ?_
  rintro ⟨a, u, v, b, rfl, rfl, hu, hv, hq⟩
  have hascii := ascii_of_csi hq
  obtain ⟨c, u, rfl⟩ := List.exists_cons_of_ne_nil hu
  obtain ⟨d, v, rfl⟩ := List.exists_cons_of_ne_nil hv
  have hc : c.toNat < 128 := hascii c (by simp)
  have hd : d.toNat < 128 := hascii d (by simp)
  obtain h | h := h
  · have := h c (by simp)
    omega
  · have := h d (by simp)
    omega

private theorem withoutCsi_foreign {x : List UInt8} (h : ∀ b ∈ x, 0x80 ≤ b.toNat) :
    withoutCsi x = x :=
  replaces_withoutCsi.keep (not_has_of_foreign h)

private theorem utf8_of_ascii_append {q b : List UInt8} (hq : ∀ x ∈ q, x < 0x80)
    (h : Utf8 (q ++ b)) : Utf8 b := by
  induction q with
  | nil => exact h
  | cons x q ih =>
    have hx := (utf8_append_cons (a := []) (b := q ++ b) (hq x List.mem_cons_self)).mp h
    exact ih (fun y hy ↦ hq y (List.mem_cons_of_mem x hy)) hx.2

/-- Text without its sequences is text. -/
private theorem utf8_withoutCsi {text : List UInt8} (h : Utf8 text) : Utf8 (withoutCsi text) := by
  induction hn : text.length using Nat.strong_induction_on generalizing text with
  | _ n ih =>
    by_cases hh : Has Csi text
    · obtain ⟨a, q, b, rfl, hq⟩ := hh
      have hpos := List.length_pos_of_ne_nil (marked_csi.apart.nonempty hq)
      have hascii := ascii_of_csi hq
      obtain ⟨rest, rfl, -⟩ := marked_csi.opens hq
      rw [List.append_assoc, List.cons_append] at h
      obtain ⟨ha, hb⟩ := (utf8_append_cons (hascii 0x1b List.mem_cons_self)).mp h
      have hb' := utf8_of_ascii_append (fun x hx ↦ hascii x (List.mem_cons_of_mem _ hx)) hb
      simp only [List.length_append, List.length_cons] at hn
      obtain ⟨s, hs⟩ := ih a.length (by omega) ha rfl
      obtain ⟨t, ht⟩ := ih b.length (by omega) hb' rfl
      rw [replaces_withoutCsi.swap a b hq, hs, ht, List.append_nil]
      exact ⟨s ++ t, List.flatMap_append.symm⟩
    · rw [replaces_withoutCsi.keep hh]
      exact h

private theorem stripAnsi_text {text : List UInt8} (h : Utf8 text) :
    stripAnsi text = withoutCsi text := by
  obtain ⟨s, hs⟩ := utf8_withoutCsi h
  rw [stripAnsi, hs, lossy_text]

/-! ### Pieces of text -/

/-- A character. -/
def Character (q : List UInt8) : Prop := ∃ c, q = String.utf8EncodeChar c

/-- A cut through text: the whole characters before it, and the character that it goes through,
if it goes through one. -/
private theorem cut_text {a rest : List UInt8} {text : List Char}
    (h : a ++ rest = text.flatMap String.utf8EncodeChar) :
    ∃ (before : List Char) (p k : List UInt8) (after : List Char),
      a = before.flatMap String.utf8EncodeChar ++ p ∧
      rest = k ++ after.flatMap String.utf8EncodeChar ∧ Follow k ∧
      ((p = [] ∧ k = []) ∨ (Begun p ∧ k ≠ [] ∧ Character (p ++ k))) := by
  induction text generalizing a with
  | nil =>
    obtain ⟨rfl, rfl⟩ := List.append_eq_nil_iff.mp h
    exact ⟨[], [], [], [], rfl, rfl, follow_nil, .inl ⟨rfl, rfl⟩⟩
  | cons c text ih =>
    rw [List.flatMap_cons] at h
    obtain ⟨m, hc, hm⟩ | ⟨m, rfl, hm⟩ := List.append_eq_append_iff.mp h
    · obtain ⟨first, more, hfm, he⟩ := encoded c
      cases a with
      | nil =>
        rw [List.nil_append] at hc
        refine ⟨[], [], [], c :: text, rfl, ?_, follow_nil, .inl ⟨rfl, rfl⟩⟩
        rw [hm, ← hc, List.flatMap_cons]
        rfl
      | cons x part =>
        cases m with
        | nil =>
          refine ⟨[c], [], [], text, ?_, hm, follow_nil, .inl ⟨rfl, rfl⟩⟩
          rw [List.append_nil] at hc
          simp [hc]
        | cons y m =>
          rw [hfm, List.cons_append] at hc
          obtain ⟨rfl, hmore⟩ := List.cons.inj hc
          refine ⟨[], first :: part, y :: m, text, rfl, hm, fun b hb ↦ ?_,
            .inr ⟨⟨first, more, part, he, rfl, ⟨y :: m, hmore.symm⟩, ?_⟩, by simp, c, ?_⟩⟩
          · exact he.follow b (hmore ▸ List.mem_append_right part hb)
          · rintro rfl
            simp at hmore
          · rw [hfm, hmore, List.cons_append]
    · obtain ⟨before, p, k, after, rfl, hr, hk, hpk⟩ := ih hm.symm
      refine ⟨c :: before, p, k, after, ?_, hr, hk, hpk⟩
      rw [List.flatMap_cons, List.append_assoc]

/-- A piece of what is left of a text, and what is left after it. -/
private structure Slice (k piece rest : List UInt8) (k₁ : List UInt8) (text : List Char)
    (p k₂ : List UInt8) (after : List Char) : Prop where
  piece_eq : piece = k₁ ++ (text.flatMap String.utf8EncodeChar ++ p)
  rest_eq : rest = k₂ ++ after.flatMap String.utf8EncodeChar
  starts : Follow k₁
  goes : Follow k₂
  started : k ≠ [] → k₁ ≠ [] ∨ k₂ = k
  whole : k = [] → k₁ = []
  ends : (p = [] ∧ (k = [] → k₂ = [])) ∨ (Begun p ∧ k₂ ≠ [] ∧ Character (p ++ k₂))

private theorem exists_cut {k piece rest : List UInt8} {text : List Char} (hk : Follow k)
    (h : piece ++ rest = k ++ text.flatMap String.utf8EncodeChar) :
    ∃ k₁ before p k₂ after, Slice k piece rest k₁ before p k₂ after := by
  obtain ⟨m, rfl, hm⟩ | ⟨m, rfl, hm⟩ := List.append_eq_append_iff.mp h
  · refine ⟨piece, [], [], m, text, by simp, hm,
      fun b hb ↦ hk b (List.mem_append_left m hb), fun b hb ↦ hk b (List.mem_append_right piece hb),
      fun _ ↦ ?_, fun he ↦ (List.append_eq_nil_iff.mp he).1,
      .inl ⟨rfl, fun he ↦ (List.append_eq_nil_iff.mp he).2⟩⟩
    by_cases hp : piece = []
    · exact .inr (by rw [hp, List.nil_append])
    · exact .inl hp
  · obtain ⟨before, p, k₂, after, rfl, hr, hk₂, hpk⟩ := cut_text hm.symm
    refine ⟨k, before, p, k₂, after, rfl, hr, hk, hk₂, .inl, id, ?_⟩
    exact hpk.imp_left fun ⟨hp, hk₂⟩ ↦ ⟨hp, fun _ ↦ hk₂⟩

/-- A number of U+FFFD. -/
private def replacements (n : Nat) : List UInt8 :=
  (List.replicate n '\uFFFD').flatMap String.utf8EncodeChar

private theorem length_replacements (n : Nat) : (replacements n).length = 3 * n := by
  induction n with
  | zero => rfl
  | succ n ih =>
    rw [replacements, List.replicate_succ, List.flatMap_cons, List.length_append,
      ← replacements, ih, Nat.mul_succ, Nat.add_comm]
    rfl

private theorem foreign_replacements (n : Nat) : ∀ b ∈ replacements n, 0x80 ≤ b.toNat := by
  intro b hb
  obtain ⟨c, hc, hb⟩ := List.mem_flatMap.mp hb
  rw [List.eq_of_mem_replicate hc] at hb
  change b ∈ replacement at hb
  simp only [replacement, List.mem_cons, List.not_mem_nil, or_false] at hb
  obtain rfl | rfl | rfl := hb <;> decide

private theorem foreign_begun {p : List UInt8} (h : Begun p) :
    p.length ≤ 3 ∧ p ≠ [] ∧ ∀ b ∈ p, 0x80 ≤ b.toNat := by
  obtain ⟨first, more, part, he, rfl, hp, hne⟩ := h
  have hlt : part.length < more.length :=
    Nat.lt_of_le_of_ne hp.length_le fun hl ↦ hne (hp.eq_of_length hl)
  have hw := he.width
  rw [utf8Width_eq] at hw
  refine ⟨?_, List.cons_ne_nil _ _, fun b hb ↦ ?_⟩
  · rw [List.length_cons]
    split_ifs at hw <;> omega
  · obtain rfl | hb := List.mem_cons.mp hb
    · split_ifs at hw <;> omega
    · exact (he.follow b (hp.subset hb)).1

namespace Slice

variable {k piece rest k₁ : List UInt8} {text : List Char} {p k₂ : List UInt8}
  {after : List Char}

private theorem foreign_end (h : Slice k piece rest k₁ text p k₂ after) :
    ∀ b ∈ p, 0x80 ≤ b.toNat := by
  obtain ⟨rfl, -⟩ | ⟨ho, -⟩ := h.ends
  · intro b hb
    cases hb
  · exact (foreign_begun ho).2.2

private theorem withoutCsi_piece (h : Slice k piece rest k₁ text p k₂ after) :
    withoutCsi piece = k₁ ++ (withoutCsi (text.flatMap String.utf8EncodeChar) ++ p) := by
  have hk (b : UInt8) (hb : b ∈ k₁) : 0x80 ≤ b.toNat := (h.starts b hb).1
  rw [h.piece_eq, withoutCsi_append (.inl hk), withoutCsi_append (.inr h.foreign_end),
    withoutCsi_foreign hk, withoutCsi_foreign h.foreign_end]

private theorem plainData_piece (h : Slice k piece rest k₁ text p k₂ after) :
    plainData piece = replacements k₁.length ++
      (withoutCsi (text.flatMap String.utf8EncodeChar) ++
        replacements (if p = [] then 0 else 1)) := by
  have hp : p = [] ∨ Begun p := by
    obtain ⟨hp, -⟩ | ⟨hp, -⟩ := h.ends
    · exact .inl hp
    · exact .inr hp
  have hend : (if p = [] then [] else ['\uFFFD']) =
      List.replicate (if p = [] then 0 else 1) '\uFFFD' := by
    split <;> rfl
  rw [plainData, h.piece_eq, lossy_piece h.starts text hp, stripAnsi_text ⟨_, rfl⟩,
    List.flatMap_append, List.flatMap_append, hend, ← replacements, ← replacements,
    withoutCsi_append (.inl (foreign_replacements _)),
    withoutCsi_append (.inr (foreign_replacements _)),
    withoutCsi_foreign (foreign_replacements _), withoutCsi_foreign (foreign_replacements _)]

/-- A piece decoded is no shorter, and longer if a character was cut before it. -/
private theorem length_le (h : Slice k piece rest k₁ text p k₂ after) :
    (withoutCsi piece).length + k₁.length ≤ (plainData piece).length := by
  have hp : p.length ≤ 3 * (if p = [] then 0 else 1) := by
    obtain ⟨rfl, -⟩ | ⟨ho, -⟩ := h.ends
    · exact Nat.zero_le _
    · obtain ⟨hl, hne, -⟩ := foreign_begun ho
      rw [if_neg hne]
      exact hl
  rw [h.withoutCsi_piece, h.plainData_piece]
  simp only [List.length_append, length_replacements]
  omega

/-- Where a character lies across the cut, what is left starts inside it. -/
private theorem ne_nil_of_straddles (h : Slice k piece rest k₁ text p k₂ after)
    (hs : Straddles Character piece rest) : k₂ ≠ [] := by
  rintro rfl
  obtain ⟨a, u, v, b, -, hr, hu, hv, c, hc⟩ := hs
  obtain ⟨first, more, hfm, he⟩ := encoded c
  obtain ⟨x, u, rfl⟩ := List.exists_cons_of_ne_nil hu
  obtain ⟨y, v, rfl⟩ := List.exists_cons_of_ne_nil hv
  rw [hfm, List.cons_append] at hc
  have hy := he.follow y ((List.cons.inj hc).2 ▸ List.mem_append_right u List.mem_cons_self)
  rw [h.rest_eq, List.nil_append] at hr
  cases after with
  | nil => cases hr
  | cons d after =>
    obtain ⟨first', more', hd, he'⟩ := encoded d
    rw [List.flatMap_cons, hd, List.cons_append, List.cons_append] at hr
    have hw := he'.width
    rw [(List.cons.inj hr).1, utf8Width_eq] at hw
    split_ifs at hw <;> omega

end Slice

/-! ### Cutting output into packets -/

/-- Decoding in pieces leaves more, if a character is split. -/
private theorem length_pieces (pieces : List (List UInt8)) {k : List UInt8} {text : List Char}
    (hk : Follow k) (h : pieces.flatten = k ++ text.flatMap String.utf8EncodeChar) :
    (pieces.flatMap withoutCsi).length ≤ (pieces.flatMap plainData).length ∧
      (k ≠ [] ∨ ¬Unsplit Character pieces →
        (pieces.flatMap withoutCsi).length < (pieces.flatMap plainData).length) := by
  induction pieces generalizing k text with
  | nil =>
    refine ⟨Nat.le_refl _, fun hs ↦ ?_⟩
    obtain hs | hs := hs
    · exact absurd (List.append_eq_nil_iff.mp h.symm).1 hs
    · exact absurd trivial hs
  | cons piece pieces ih =>
    rw [List.flatten_cons] at h
    obtain ⟨k₁, before, p, k₂, after, hc⟩ := exists_cut hk h
    obtain ⟨hle, hlt⟩ := ih hc.goes hc.rest_eq
    have hpiece := hc.length_le
    rw [List.flatMap_cons, List.flatMap_cons, List.length_append, List.length_append]
    refine ⟨by omega, fun hs ↦ ?_⟩
    obtain hs | hs := hs
    · obtain hk₁ | hk₂ := hc.started hs
      · have := List.length_pos_of_ne_nil hk₁
        omega
      · have := hlt (.inl (hk₂ ▸ hs))
        omega
    · by_cases hst : Straddles Character piece pieces.flatten
      · have := hlt (.inl (hc.ne_nil_of_straddles hst))
        omega
      · have := hlt (.inr fun hu ↦ hs ⟨hst, hu⟩)
        omega

/-- Where no character is split, decoding in pieces changes nothing. -/
private theorem flatMap_plainData (pieces : List (List UInt8)) {text : List Char}
    (h : pieces.flatten = text.flatMap String.utf8EncodeChar) (hu : Unsplit Character pieces) :
    pieces.flatMap plainData = pieces.flatMap withoutCsi := by
  induction pieces generalizing text with
  | nil => rfl
  | cons piece pieces ih =>
    rw [List.flatten_cons] at h
    obtain ⟨k₁, before, p, k₂, after, hc⟩ :=
      exists_cut (k := []) follow_nil (by rw [h, List.nil_append])
    obtain rfl := hc.whole rfl
    obtain ⟨rfl, hk₂⟩ | ⟨ho, hk₂, hch⟩ := hc.ends
    · obtain rfl := hk₂ rfl
      rw [List.flatMap_cons, List.flatMap_cons, ih hc.rest_eq hu.2, hc.plainData_piece,
        hc.withoutCsi_piece, if_pos rfl]
      rfl
    · refine absurd ⟨before.flatMap String.utf8EncodeChar, p, k₂, _, hc.piece_eq, hc.rest_eq,
        (foreign_begun ho).2.1, hk₂, hch⟩ hu.1

private theorem length_csi_pieces (payloads : List (List UInt8)) :
    (withoutCsi payloads.flatten).length ≤ (payloads.flatMap withoutCsi).length ∧
      (¬Unsplit Csi payloads →
        (withoutCsi payloads.flatten).length < (payloads.flatMap withoutCsi).length) :=
  replaces_withoutCsi.size_pieces (fun _ _ ↦ List.length_append)
    (fun _ hq ↦ List.length_pos_of_ne_nil (marked_csi.apart.nonempty hq)) marked_csi.apart payloads

private theorem unsplit_of_eq {payloads : List (List UInt8)} (h : Utf8 payloads.flatten)
    (he : followPlain payloads = stripAnsi payloads.flatten) :
    Unsplit Character payloads ∧ Unsplit Csi payloads := by
  obtain ⟨text, ht⟩ := h
  obtain ⟨hle, hlt⟩ := length_pieces payloads follow_nil ht
  obtain ⟨hle', hlt'⟩ := length_csi_pieces payloads
  rw [stripAnsi_text ⟨text, ht⟩, followPlain] at he
  rw [he] at hle hlt
  constructor
  · by_contra hu
    have := hlt (.inr hu)
    omega
  · by_contra hu
    have := hlt' hu
    omega

/-- What is written of the DATA packets is the whole output without its CSI sequences exactly
if no packet ends inside a character or inside a CSI sequence. -/
theorem followPlain_iff (payloads : List (List UInt8)) (h : Utf8 payloads.flatten) :
    followPlain payloads = stripAnsi payloads.flatten ↔
      Unsplit Character payloads ∧ Unsplit Csi payloads := by
  refine ⟨unsplit_of_eq h, fun ⟨hu, hu'⟩ ↦ ?_⟩
  obtain ⟨text, ht⟩ := h
  have hcsi : payloads.flatMap withoutCsi = withoutCsi payloads.flatten :=
    replaces_withoutCsi.flatMap_eq marked_csi.apart hu'
  rw [stripAnsi_text ⟨text, ht⟩, followPlain, flatMap_plainData payloads ht hu, hcsi]

/-- Two packets, and a sequence in the second one. -/
theorem followPlain_iff_twice :
    followPlain [[0xc3, 0xa9], [0x1b, 0x5b, 0x6d]] = stripAnsi [0xc3, 0xa9, 0x1b, 0x5b, 0x6d] ↔
      Unsplit Character [[0xc3, 0xa9], [0x1b, 0x5b, 0x6d]] ∧
        Unsplit Csi [[0xc3, 0xa9], [0x1b, 0x5b, 0x6d]] :=
  followPlain_iff [[0xc3, 0xa9], [0x1b, 0x5b, 0x6d]] ⟨['é', '\x1b', '[', 'm'], rfl⟩

/-- A character whose two bytes are in two packets, and a sequence whose last byte is in the
second of two. -/
theorem followPlain_refuted :
    ¬(∀ payloads, Utf8 payloads.flatten → followPlain payloads = stripAnsi payloads.flatten) ∧
      followPlain [[0xc3], [0xa9]] ≠ stripAnsi [0xc3, 0xa9] ∧
      followPlain [[0x1b, 0x5b], [0x6d]] ≠ stripAnsi [0x1b, 0x5b, 0x6d] := by
  have hchar : followPlain [[0xc3], [0xa9]] ≠ stripAnsi [0xc3, 0xa9] := by
    intro he
    have ht : Utf8 [[0xc3], [0xa9]].flatten := ⟨['é'], rfl⟩
    have hu := unsplit_of_eq ht he
    exact hu.1.1 ⟨[], [0xc3], [0xa9], [], rfl, rfl, by simp, by simp, 'é', rfl⟩
  refine ⟨fun h ↦ hchar (h [[0xc3], [0xa9]] ⟨['é'], rfl⟩), hchar, fun he ↦ ?_⟩
  have ht : Utf8 [[0x1b, 0x5b], [0x6d]].flatten := ⟨['\x1b', '[', 'm'], rfl⟩
  have hu := unsplit_of_eq ht he
  exact hu.2.1 ⟨[], [0x1b, 0x5b], [0x6d], [], rfl, rfl, by simp, by simp, [], 0x6d, rfl,
    by simp, by decide⟩

end PtySpec.Client
