import PtySpec.Lib.Pieces

/-!
# The detach key

Model of `process_input` and `normalize_detach_key`, `crates/pty-client/src/attach.rs:445` and
`tty.rs:343`: Ctrl+\ in the input of an attached terminal arms a detach, and a second one
within the double-tap window is sent on in place of both. Each read is looked at by itself.
-/

namespace PtySpec.Client

open Lib

/-- `DETACH_KEY`, `tty.rs:369`. -/
def detachKey : UInt8 := 0x1c

/-- `DOUBLE_TAP_MS`, `tty.rs:373`, in nanoseconds. -/
def doubleTapWindow : Nat := 300 * 10 ^ 6

/-! ### Encodings -/

/-- `ENCODINGS`, `tty.rs:344`: `ESC [ 92 ; n u` for four modifiers, and `ESC [ 27 ; 5 ; 92 ~`. -/
def encodings : List (List UInt8) :=
  [[0x1b, 0x5b, 0x39, 0x32, 0x3b, 0x35, 0x75],
    [0x1b, 0x5b, 0x39, 0x32, 0x3b, 0x36, 0x39, 0x75],
    [0x1b, 0x5b, 0x39, 0x32, 0x3b, 0x31, 0x33, 0x33, 0x75],
    [0x1b, 0x5b, 0x39, 0x32, 0x3b, 0x31, 0x39, 0x37, 0x75],
    [0x1b, 0x5b, 0x32, 0x37, 0x3b, 0x35, 0x3b, 0x39, 0x32, 0x7e]]

/-- The rest of an encoding that starts here. -/
def encodingAt (x : UInt8) (text : List UInt8) : Option (List UInt8) :=
  (encodings.find? (· <+: x :: text)).map List.tail

/-- `normalize_detach_key`, `tty.rs:343`. -/
def normalizeDetachKey (data : List UInt8) : List UInt8 :=
  if encodings.any (· <:+: data) then onePass encodingAt (fun _ ↦ [detachKey]) data else data

/-! ### Input -/

/-- What `process_input` keeps between reads: the armed detach, how often the clock was read,
and the payloads of the DATA packets it has written. -/
structure Input where
  detachArmed : Option Nat
  readings : Nat
  packets : List (List UInt8)
  deriving DecidableEq, Repr

namespace Input

/-- Before the first read. -/
def start : Input := ⟨none, 0, []⟩

/-- What has been forwarded to the session. -/
def forwarded (s : Input) : List UInt8 := s.packets.flatten

/-- A detach is armed. -/
def armed (s : Input) : Bool := s.detachArmed.isSome

end Input

/-- The loop over one read: the armed detach, the readings of the clock and what to forward. -/
structure Tapping where
  detachArmed : Option Nat
  readings : Nat
  forward : List UInt8

/-- One byte of a read, `attach.rs:453-470`; `duration_since` is 0 for a time to come. -/
def Tapping.byte (clock : Nat → Nat) (t : Tapping) (b : UInt8) : Tapping :=
  if b = detachKey then
    let now := clock t.readings
    match t.detachArmed with
    | some since =>
      if now - since < doubleTapWindow then
        ⟨none, t.readings + 1, t.forward ++ [detachKey]⟩
      else ⟨some now, t.readings + 1, t.forward⟩
    | none => ⟨some now, t.readings + 1, t.forward⟩
  else { t with forward := t.forward ++ [b] }

/-- `process_input`, `attach.rs:445`. -/
def processInput (clock : Nat → Nat) (s : Input) (raw : List UInt8) : Input :=
  let data := normalizeDetachKey raw
  if detachKey ∈ data then
    let t := data.foldl (Tapping.byte clock) ⟨s.detachArmed, s.readings, []⟩
    { detachArmed := t.detachArmed
      readings := t.readings
      packets := if t.forward = [] then s.packets else s.packets ++ [t.forward] }
  else { s with packets := s.packets ++ [data] }

/-- All the reads of an input. -/
def processReads (clock : Nat → Nat) (reads : List (List UInt8)) : Input :=
  reads.foldl (processInput clock) .start

/-! ### Normalized input -/

/-- An encoding of the key. -/
def Encoding (q : List UInt8) : Prop := q ∈ encodings

theorem marked_encoding : Marked 0x1b Encoding where
  opens {q} h := by
    have hall : ∀ q ∈ encodings, q = 0x1b :: q.tail ∧ 0x1b ∉ q.tail := by decide
    exact ⟨q.tail, hall q h⟩
  same {q m} h h' := by
    have hall : ∀ q ∈ encodings, ∀ q' ∈ encodings, q <+: q' → q = q' := by decide
    have he := hall q h (q ++ m) h' (List.prefix_append q m)
    simpa using he

private theorem finds_encoding : Finds encodingAt Encoding := by
  intro x text rest
  unfold encodingAt
  rw [Option.map_eq_some_iff]
  constructor
  · rintro ⟨q, hq, rfl⟩
    have hm := List.mem_of_find?_eq_some hq
    have hp : q <+: x :: text := by simpa using List.find?_some hq
    obtain ⟨tail, rfl, -⟩ := marked_encoding.opens hm
    obtain ⟨rfl, ht⟩ := List.cons_prefix_cons.mp hp
    exact ⟨hm, ht⟩
  · rintro ⟨hm, hp⟩
    have hp' : x :: rest <+: x :: text := List.cons_prefix_cons.mpr ⟨rfl, hp⟩
    cases hf : encodings.find? (· <+: x :: text) with
    | none => exact absurd hp' (by simpa using List.find?_eq_none.mp hf _ hm)
    | some q =>
      have hq := List.mem_of_find?_eq_some hf
      have hqp : q <+: x :: text := by simpa using List.find?_some hf
      refine ⟨q, rfl, ?_⟩
      obtain ⟨k, hk⟩ | ⟨k, hk⟩ := List.prefix_or_prefix_of_prefix hqp hp'
      · obtain rfl := marked_encoding.same hq (hk ▸ hm)
        rw [List.append_nil] at hk
        rw [hk, List.tail_cons]
      · obtain rfl := marked_encoding.same hm (hk ▸ hq)
        rw [List.append_nil] at hk
        rw [← hk, List.tail_cons]

/-- Each encoding is replaced by the key, and nothing else. -/
theorem replaces_normalize :
    Replaces Encoding (fun _ ↦ [detachKey]) normalizeDetachKey := by
  have hr := replaces_onePass (g := fun _ ↦ [detachKey]) marked_encoding finds_encoding
  have he : normalizeDetachKey = onePass encodingAt fun _ ↦ [detachKey] := by
    funext data
    unfold normalizeDetachKey
    split
    · rfl
    · next h =>
      refine (hr.keep fun ⟨a, q, b, hd, hq⟩ ↦ h ?_).symm
      rw [List.any_eq_true]
      exact ⟨q, hq, decide_eq_true ⟨a, b, hd.symm⟩⟩
  rw [he]
  exact hr

/-- Twice the number of bytes, where a key counts once. -/
def weight (data : List UInt8) : Nat := 2 * data.length - data.count detachKey

private theorem weight_add (data : List UInt8) :
    weight data + data.count detachKey = 2 * data.length := by
  have h : data.count detachKey ≤ data.length := List.count_le_length
  unfold weight
  omega

private theorem weight_append (x y : List UInt8) : weight (x ++ y) = weight x + weight y := by
  have hx := weight_add x
  have hy := weight_add y
  have hxy := weight_add (x ++ y)
  rw [List.count_append, List.length_append] at hxy
  omega

private theorem weight_encoding (q : List UInt8) (h : Encoding q) :
    weight [detachKey] < weight q := by
  have hall : ∀ q ∈ encodings, weight [detachKey] < weight q := by decide
  exact hall q h

/-! ### Taps within the window -/

/-- All readings of the clock are within one window. -/
def WithinWindow (clock : Nat → Nat) : Prop := ∀ i j, clock j - clock i < doubleTapWindow

/-- What is forwarded of normalized input: every second key, and all other bytes. -/
def everySecond : Bool → List UInt8 → List UInt8
  | _, [] => []
  | armed, b :: rest =>
    if b = detachKey then
      if armed then detachKey :: everySecond false rest else everySecond true rest
    else b :: everySecond armed rest

/-- A detach is armed after normalized input. -/
def armedAfter (armed : Bool) (data : List UInt8) : Bool :=
  armed ^^ decide (data.count detachKey % 2 = 1)

private theorem armedAfter_cons (armed : Bool) (b : UInt8) (rest : List UInt8) :
    armedAfter armed (b :: rest) =
      armedAfter (if b = detachKey then !armed else armed) rest := by
  unfold armedAfter
  rw [List.count_cons]
  by_cases hb : b = detachKey
  · rw [if_pos hb, hb, beq_self_eq_true, if_pos rfl]
    rcases Nat.mod_two_eq_zero_or_one (rest.count detachKey) with h | h
    · rw [show (rest.count detachKey + 1) % 2 = 1 by omega, h]
      cases armed <;> rfl
    · rw [show (rest.count detachKey + 1) % 2 = 0 by omega, h]
      cases armed <;> rfl
  · rw [if_neg hb, if_neg (by simpa using hb), Nat.add_zero]

private theorem armedAfter_append (armed : Bool) (x y : List UInt8) :
    armedAfter armed (x ++ y) = armedAfter (armedAfter armed x) y := by
  induction x generalizing armed with
  | nil => simp [armedAfter]
  | cons b x ih => rw [List.cons_append, armedAfter_cons, armedAfter_cons, ih]

private theorem everySecond_cons (armed : Bool) (b : UInt8) (rest : List UInt8) :
    everySecond armed (b :: rest) =
      if b = detachKey then
        if armed then detachKey :: everySecond false rest else everySecond true rest
      else b :: everySecond armed rest := by
  rw [everySecond]

private theorem everySecond_append (armed : Bool) (x y : List UInt8) :
    everySecond armed (x ++ y) =
      everySecond armed x ++ everySecond (armedAfter armed x) y := by
  induction x generalizing armed with
  | nil => simp [everySecond, armedAfter]
  | cons b x ih =>
    rw [List.cons_append, armedAfter_cons, everySecond_cons, everySecond_cons]
    split
    · cases armed with
      | true =>
        simp only [if_true, Bool.not_true]
        rw [ih, List.cons_append]
      | false =>
        simp only [Bool.false_eq_true, if_false, Bool.not_false]
        rw [ih]
    · rw [ih, List.cons_append]

private theorem everySecond_of_not_mem {armed : Bool} {data : List UInt8}
    (h : detachKey ∉ data) : everySecond armed data = data := by
  induction data with
  | nil => rfl
  | cons b data ih =>
    rw [List.mem_cons, not_or] at h
    rw [everySecond_cons, if_neg (Ne.symm h.1), ih h.2]

/-- The taps are paired, and the other bytes are as they were. -/
private theorem everySecond_counts (armed : Bool) (data : List UInt8) :
    (everySecond armed data).filter (· ≠ detachKey) = data.filter (· ≠ detachKey) ∧
      2 * (everySecond armed data).count detachKey + (armedAfter armed data).toNat =
        data.count detachKey + armed.toNat := by
  induction data generalizing armed with
  | nil => simp [everySecond, armedAfter]
  | cons b data ih =>
    rw [armedAfter_cons, everySecond_cons]
    by_cases hb : b = detachKey
    · subst hb
      simp only [if_true]
      cases armed with
      | true =>
        obtain ⟨hf, hc⟩ := ih false
        simp only [if_true, Bool.not_true, List.count_cons_self]
        refine ⟨by simpa using hf, ?_⟩
        simp only [Bool.toNat_false, Bool.toNat_true] at hc ⊢
        omega
      | false =>
        obtain ⟨hf, hc⟩ := ih true
        simp only [Bool.false_eq_true, if_false, Bool.not_false, List.count_cons_self]
        refine ⟨by simpa using hf, ?_⟩
        simp only [Bool.toNat_false, Bool.toNat_true] at hc ⊢
        omega
    · obtain ⟨hf, hc⟩ := ih armed
      simp only [if_neg hb]
      rw [List.count_cons_of_ne hb, List.count_cons_of_ne hb]
      exact ⟨by simpa [hb] using hf, hc⟩

private theorem length_everySecond (data : List UInt8) :
    2 * (everySecond false data).length + (armedAfter false data).toNat = weight data := by
  obtain ⟨hf, hc⟩ := everySecond_counts false data
  have hsplit (l : List UInt8) :
      (l.filter (· ≠ detachKey)).length + l.count detachKey = l.length := by
    rw [List.count_eq_countP, List.countP_eq_length_filter, Nat.add_comm]
    have h := List.length_eq_length_filter_add (l := l) (· == detachKey)
    rw [h]
    congr 2
    refine List.filter_congr fun b _ ↦ ?_
    by_cases hb : b = detachKey <;> simp [hb]
  have h₁ := hsplit (everySecond false data)
  have h₂ := hsplit data
  have hw := weight_add data
  rw [hf] at h₁
  simp only [Bool.toNat_false] at hc
  omega

variable {clock : Nat → Nat}

/-- A detach was armed at a reading of the clock. -/
private def ArmedBy (clock : Nat → Nat) (armed : Option Nat) : Prop :=
  ∀ since ∈ armed, ∃ i, since = clock i

/-- One byte, by what is forwarded of it and whether a detach is armed after it. -/
private theorem byte_eq (hw : WithinWindow clock) {t : Tapping} (ht : ArmedBy clock t.detachArmed)
    (b : UInt8) :
    (t.byte clock b).forward = t.forward ++ everySecond t.detachArmed.isSome [b] ∧
      (t.byte clock b).detachArmed.isSome = armedAfter t.detachArmed.isSome [b] ∧
      ArmedBy clock (t.byte clock b).detachArmed := by
  rw [armedAfter_cons, everySecond_cons]
  unfold Tapping.byte
  by_cases hb : b = detachKey
  · rw [if_pos hb, if_pos hb, if_pos hb]
    cases ha : t.detachArmed with
    | none => exact ⟨by simp [everySecond], rfl, fun since hs ↦ ⟨_, (Option.some.inj hs).symm⟩⟩
    | some since =>
      obtain ⟨i, rfl⟩ := ht since ha
      dsimp only
      rw [if_pos (hw i t.readings)]
      exact ⟨by simp [everySecond], rfl, fun since hs ↦ by cases hs⟩
  · rw [if_neg hb, if_neg hb, if_neg hb]
    exact ⟨by simp [everySecond], by simp [armedAfter], ht⟩

private theorem foldl_byte (hw : WithinWindow clock) (data : List UInt8) {t : Tapping}
    (ht : ArmedBy clock t.detachArmed) :
    (data.foldl (Tapping.byte clock) t).forward =
        t.forward ++ everySecond t.detachArmed.isSome data ∧
      (data.foldl (Tapping.byte clock) t).detachArmed.isSome =
        armedAfter t.detachArmed.isSome data ∧
      ArmedBy clock (data.foldl (Tapping.byte clock) t).detachArmed := by
  induction data generalizing t with
  | nil => exact ⟨by simp [everySecond], by simp [armedAfter], ht⟩
  | cons b data ih =>
    obtain ⟨hf, ha, hb⟩ := byte_eq hw ht b
    obtain ⟨hf', ha', hb'⟩ := ih hb
    refine ⟨?_, ?_, hb'⟩
    · rw [List.foldl_cons, hf', hf, ha, ← List.singleton_append (l := data), everySecond_append,
        List.append_assoc]
    · rw [List.foldl_cons, ha', ha, ← armedAfter_append, List.singleton_append]

/-- One read. -/
private theorem processInput_eq (hw : WithinWindow clock) {s : Input}
    (hs : ArmedBy clock s.detachArmed) (raw : List UInt8) :
    (processInput clock s raw).forwarded =
        s.forwarded ++ everySecond s.armed (normalizeDetachKey raw) ∧
      (processInput clock s raw).armed = armedAfter s.armed (normalizeDetachKey raw) ∧
      ArmedBy clock (processInput clock s raw).detachArmed := by
  unfold processInput
  dsimp only
  split
  · obtain ⟨hf, ha, hb⟩ := @foldl_byte clock hw (normalizeDetachKey raw)
      ⟨s.detachArmed, s.readings, []⟩ hs
    refine ⟨?_, ha, hb⟩
    unfold Input.forwarded
    dsimp only
    rw [hf, List.nil_append]
    split
    · next he =>
      rw [Input.armed, he, List.append_nil]
    · rw [List.flatten_append, List.flatten_singleton]
      rfl
  · next h =>
    refine ⟨?_, ?_, hs⟩
    · rw [everySecond_of_not_mem h, Input.forwarded, List.flatten_append, List.flatten_singleton]
      rfl
    · rw [armedAfter, List.count_eq_zero_of_not_mem h]
      exact (Bool.xor_false _).symm

/-- All reads. -/
private theorem processReads_eq (hw : WithinWindow clock) (reads : List (List UInt8)) :
    (processReads clock reads).forwarded =
        everySecond false (reads.flatMap normalizeDetachKey) ∧
      (processReads clock reads).armed =
        armedAfter false (reads.flatMap normalizeDetachKey) := by
  have h : ∀ s : Input, ArmedBy clock s.detachArmed →
      (reads.foldl (processInput clock) s).forwarded =
          s.forwarded ++ everySecond s.armed (reads.flatMap normalizeDetachKey) ∧
        (reads.foldl (processInput clock) s).armed =
          armedAfter s.armed (reads.flatMap normalizeDetachKey) := by
    induction reads with
    | nil => exact fun s _ ↦ ⟨by simp [everySecond], by simp [armedAfter]⟩
    | cons raw reads ih =>
      intro s hs
      obtain ⟨hf, ha, hb⟩ := processInput_eq hw hs raw
      obtain ⟨hf', ha'⟩ := ih _ hb
      rw [List.foldl_cons, List.flatMap_cons, everySecond_append, armedAfter_append, hf', ha', hf,
        ha, List.append_assoc]
      exact ⟨rfl, rfl⟩
  exact h .start fun since hs ↦ by cases hs

/-- What is promised of an input, however it is read: the same is forwarded and a detach is
armed as for one read of it all; each encoding is a tap, of which every second one is
forwarded and the last one without another arms the detach; and the other bytes are forwarded
in their order. -/
structure Promised (clock : Nat → Nat) (reads : List (List UInt8)) : Prop where
  forwarded : (processReads clock reads).forwarded =
    (processReads clock [reads.flatten]).forwarded
  armed : (processReads clock reads).armed = (processReads clock [reads.flatten]).armed
  taps : 2 * (processReads clock reads).forwarded.count detachKey +
      (processReads clock reads).armed.toNat =
    (normalizeDetachKey reads.flatten).count detachKey
  others : (processReads clock reads).forwarded.filter (· ≠ detachKey) =
    (normalizeDetachKey reads.flatten).filter (· ≠ detachKey)

/-- An input within one window is handled as promised exactly if each encoding that starts in
a read ends in it. -/
theorem promised_iff {clock : Nat → Nat} (hw : WithinWindow clock) (reads : List (List UInt8)) :
    Promised clock reads ↔ Unsplit Encoding reads := by
  have hR := marked_encoding.apart
  obtain ⟨hf, ha⟩ := processReads_eq hw reads
  obtain ⟨hf₁, ha₁⟩ := processReads_eq hw [reads.flatten]
  rw [List.flatMap_singleton] at hf₁ ha₁
  have hiff := replaces_normalize.flatMap_eq_iff weight_append weight_encoding hR reads
  constructor
  · intro h
    by_contra hu
    have hlt := (replaces_normalize.size_pieces weight_append weight_encoding hR reads).2 hu
    have h₁ := length_everySecond (reads.flatMap normalizeDetachKey)
    have h₂ := length_everySecond (normalizeDetachKey reads.flatten)
    rw [← hf, ← ha, h.forwarded, h.armed, hf₁, ha₁] at h₁
    omega
  · intro hu
    rw [← hiff] at hu
    obtain ⟨hfilter, hcount⟩ := everySecond_counts false (normalizeDetachKey reads.flatten)
    rw [hu] at hf ha
    refine ⟨hf.trans hf₁.symm, ha.trans ha₁.symm, ?_, ?_⟩
    · rw [hf, ha]
      simpa using hcount
    · rw [hf]
      exact hfilter

private theorem withinWindow_zero : WithinWindow fun _ ↦ 0 := by
  intro _ _
  change 0 - 0 < doubleTapWindow
  decide

/-- An encoding that two reads split is typed into the session. -/
theorem promised_refuted :
    ¬ ∀ clock : Nat → Nat, WithinWindow clock → ∀ reads, Promised clock reads := by
  intro h
  have ha := (h (fun _ ↦ 0) withinWindow_zero
    [[0x1b, 0x5b, 0x39, 0x32, 0x3b], [0x35, 0x75]]).armed
  have h₁ : normalizeDetachKey [0x1b, 0x5b, 0x39, 0x32, 0x3b] = [0x1b, 0x5b, 0x39, 0x32, 0x3b] :=
    if_neg (by decide)
  have h₂ : normalizeDetachKey [0x35, 0x75] = [0x35, 0x75] := if_neg (by decide)
  have hnil : normalizeDetachKey [] = [] := if_neg (by decide)
  have h₃ : normalizeDetachKey [0x1b, 0x5b, 0x39, 0x32, 0x3b, 0x35, 0x75] = [detachKey] := by
    have hs := replaces_normalize.swap [] (q := encodings[0]) [] List.mem_cons_self
    rw [hnil] at hs
    exact hs
  rw [(processReads_eq withinWindow_zero _).2, (processReads_eq withinWindow_zero _).2] at ha
  simp only [List.flatMap_cons, List.flatMap_nil, List.flatten_cons, List.flatten_nil,
    List.append_nil, List.cons_append, List.nil_append, h₁, h₂, h₃] at ha
  exact absurd ha (by decide)

/-- Two encodings in one read are one key. -/
theorem promised_iff_once :
    Promised (fun _ ↦ 0) [[0x1b, 0x5b, 0x39, 0x32, 0x3b, 0x35, 0x75, 0x1b, 0x5b, 0x32, 0x37, 0x3b,
      0x35, 0x3b, 0x39, 0x32, 0x7e]] :=
  (promised_iff withinWindow_zero _).mpr
    ⟨fun ⟨_, _, _, _, _, he, _, hv, _⟩ ↦ hv (List.append_eq_nil_iff.mp he.symm).1, trivial⟩

end PtySpec.Client
