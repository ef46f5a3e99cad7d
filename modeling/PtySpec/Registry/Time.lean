import PtySpec.Lib.Calendar
import PtySpec.Lib.Digits

/-!
# Timestamps

Model of `iso8601_from_epoch_ms`, `parse_iso8601_ms` and the calendar between them,
`crates/pty-core/src/registry/time.rs:29-173`. Counts are integers; where the code divides
with `/` and `%` nothing is negative. Texts compare by their characters, which is the order
of their bytes.
-/

namespace PtySpec.Registry

open Lib

/-! ### The calendar -/

/-- `days_from_civil`, `time.rs:152`. -/
def daysFromCivil (y m d : Int) : Int :=
  let y := if m ≤ 2 then y - 1 else y
  let era := y / 400
  let yoe := y - era * 400
  let mp := (m + 9) % 12
  let doy := (153 * mp + 2) / 5 + d - 1
  let doe := yoe * 365 + yoe / 4 - yoe / 100 + doy
  era * 146097 + doe - 719468

/-- `civil_from_days`, `time.rs:162`. -/
def civilFromDays (z : Int) : Int × Int × Int :=
  let z := z + 719468
  let era := z / 146097
  let doe := z - era * 146097
  let yoe := (doe - doe / 1460 + doe / 36524 - doe / 146096) / 365
  let y := yoe + era * 400
  let doy := doe - (365 * yoe + yoe / 4 - yoe / 100)
  let mp := (5 * doy + 2) / 153
  let d := doy - (153 * mp + 2) / 5 + 1
  let m := if mp < 10 then mp + 3 else mp - 9
  (if m ≤ 2 then y + 1 else y, m, d)

/-! ### Writing -/

/-- `{n:0width}`: the sign counts. -/
def zeroPadded (width : Nat) (n : Int) : List Char :=
  if n < 0 then '-' :: padded (width - 1) n.natAbs else padded width n.natAbs

/-- The characters of a timestamp. -/
def isoChars (ms : Int) : List Char :=
  let days := ms / 86400000
  let rem := ms % 86400000
  let (y, m, d) := civilFromDays days
  let hh := rem / 3600000
  let mm := (rem / 60000) % 60
  let ss := (rem / 1000) % 60
  let mmm := rem % 1000
  zeroPadded 4 y ++ '-' :: (zeroPadded 2 m ++ '-' :: (zeroPadded 2 d ++ 'T' ::
    (zeroPadded 2 hh ++ ':' :: (zeroPadded 2 mm ++ ':' :: (zeroPadded 2 ss ++ '.' ::
      (zeroPadded 3 mmm ++ ['Z']))))))

/-- `iso8601_from_epoch_ms`, `time.rs:30`. -/
def iso8601FromEpochMs (ms : Int) : String := String.ofList (isoChars ms)

/-- The year of a time. -/
def yearOf (ms : Int) : Int := (civilFromDays (ms / 86400000)).1

/-! ### Reading -/

/-- `s.as_bytes()`. -/
def asBytes (s : String) : List UInt8 := s.toList.flatMap String.utf8EncodeChar

/-- `u8::is_ascii_digit`. -/
def isAsciiDigit (b : UInt8) : Bool := 0x30 ≤ b && b ≤ 0x39

/-- `num`, `time.rs:46`. -/
def num (b : List UInt8) (start len : Nat) : Option Int :=
  let slice := (b.drop start).take len
  if slice.length = len ∧ slice.all isAsciiDigit = true then some (ofDigits slice) else none

/-- The time of day, and where it ends. -/
structure Clock where
  hour : Int
  minute : Int
  second : Int
  milli : Int
  pos : Nat

/-- The digits after a point: the first three are the milliseconds, `time.rs:78-89`. -/
def parseFraction (b : List UInt8) (start : Nat) : Option (Int × Nat) :=
  let frac := (b.drop start).takeWhile isAsciiDigit
  if frac = [] then none
  else
    let scaled := frac ++ List.replicate (3 - frac.length) 0x30
    some (ofDigits (scaled.take 3), start + frac.length)

/-- The seconds, `time.rs:74-90`. -/
def parseSeconds (b : List UInt8) : Option (Int × Int × Nat) :=
  if b[16]? = some 0x3a then do
    let second ← num b 17 2
    if b[19]? = some 0x2e then
      let (milli, pos) ← parseFraction b 20
      some (second, milli, pos)
    else some (second, 0, 19)
  else some (0, 0, 16)

/-- The part after the `T`, `time.rs:65-94`. -/
def parseClock (b : List UInt8) : Option Clock :=
  if b[10]? = some 0x54 then do
    let hour ← num b 11 2
    if b[13]? ≠ some 0x3a then none
    else
      let minute ← num b 14 2
      let (second, milli, pos) ← parseSeconds b
      if 24 < hour ∨ 59 < minute ∨ 59 < second then none
      else some ⟨hour, minute, second, milli, pos⟩
  else some ⟨0, 0, 0, 0, 10⟩

/-- The zone, in milliseconds to add, `time.rs:95-122`. -/
def parseOffset (b : List UInt8) (pos : Nat) : Option Int :=
  match b[pos]? with
  | none => some 0
  | some sign =>
    if sign = 0x5a then if pos + 1 ≠ b.length then none else some 0
    else if sign = 0x2b ∨ sign = 0x2d then do
      let oh ← num b (pos + 1) 2
      if b[pos + 3]? ≠ some 0x3a then none
      else
        let om ← num b (pos + 4) 2
        if pos + 6 ≠ b.length then none
        else
          let offset := (oh * 60 + om) * 60000
          some (if sign = 0x2b then -offset else offset)
    else none

/-- `parse_iso8601_ms`, `time.rs:44`. -/
def parseIso8601Ms (s : String) : Option Int := do
  let b := asBytes s
  let year ← num b 0 4
  if b[4]? ≠ some 0x2d then none
  else
    let month ← num b 5 2
    if b[7]? ≠ some 0x2d then none
    else
      let day ← num b 8 2
      if ¬(1 ≤ month ∧ month ≤ 12) ∨ ¬(1 ≤ day ∧ day ≤ 31) then none
      else
        let clock ← parseClock b
        let offset ← parseOffset b clock.pos
        some (daysFromCivil year month day * 86400000 + clock.hour * 3600000 +
          clock.minute * 60000 + clock.second * 1000 + clock.milli + offset)

/-! ### A day and its date -/

/-- The month and the day of it, counted from a day in its year. -/
private theorem monthOf {doy : Int} (h0 : 0 ≤ doy) (h1 : doy < 366) :
    0 ≤ (5 * doy + 2) / 153 ∧ (5 * doy + 2) / 153 ≤ 11 ∧
      monthStart ((5 * doy + 2) / 153) ≤ doy ∧ doy < monthStart ((5 * doy + 2) / 153 + 1) := by
  unfold monthStart
  omega

/-- What a date says about its day. -/
structure Dated (z y m d : Int) : Prop where
  month : 1 ≤ m ∧ m ≤ 12
  day : 1 ≤ d ∧ d ≤ 31
  dayIn : DayIn (z + 719468) (if m ≤ 2 then y - 1 else y) ((m + 9) % 12) (d - 1)

theorem civilFromDays_dated (z : Int) :
    Dated z (civilFromDays z).1 (civilFromDays z).2.1 (civilFromDays z).2.2 := by
  unfold civilFromDays
  dsimp only
  generalize hera : (z + 719468) / 146097 = era
  generalize hdoe : z + 719468 - era * 146097 = doe
  obtain ⟨hy0, hy1, hle, hlt⟩ := @yearOfEra_spec doe (by omega) (by omega)
  rw [show (doe - doe / 1460 + doe / 36524 - doe / 146096) / 365 = yearOfEra doe from rfl]
  generalize yearOfEra doe = yoe at hy0 hy1 hle hlt ⊢
  have hstart : yearStart yoe = 365 * yoe + yoe / 4 - yoe / 100 := by
    unfold yearStart
    omega
  have hlen := yearStart_add_one yoe
  rw [← hstart]
  generalize hdoy : doe - yearStart yoe = doy
  obtain ⟨hm0, hm11, hmle, hmlt⟩ := @monthOf doy (by omega) (by split at hlen <;> omega)
  generalize (5 * doy + 2) / 153 = mp at hm0 hm11 hmle hmlt ⊢
  change Dated z _ _ (doy - monthStart mp + 1)
  have hlong : monthStart (mp + 1) ≤ monthStart mp + 31 := by
    unfold monthStart
    omega
  have hday : z + 719468 = yearStart (yoe + era * 400) + monthStart mp + (doy - monthStart mp) := by
    rw [yearStart_add_eras]
    omega
  have hin : DayIn (z + 719468) (yoe + era * 400) mp (doy - monthStart mp) := by
    refine ⟨hday, ?_, ?_, hm0, hm11, by omega, by omega⟩
    · rw [yearStart_add_eras]
      omega
    · rw [show yoe + era * 400 + 1 = yoe + 1 + era * 400 by ring, yearStart_add_eras]
      omega
  generalize hm : (if mp < 10 then mp + 3 else mp - 9) = m
  obtain ⟨hm1, hm12, hmp⟩ : 1 ≤ m ∧ m ≤ 12 ∧ (m + 9) % 12 = mp := by
    split at hm <;> omega
  refine ⟨⟨hm1, hm12⟩, by omega, ?_⟩
  have hy : (if m ≤ 2 then (if m ≤ 2 then yoe + era * 400 + 1 else yoe + era * 400) - 1
      else if m ≤ 2 then yoe + era * 400 + 1 else yoe + era * 400) = yoe + era * 400 := by
    split
    · exact Int.add_sub_cancel _ 1
    · rfl
  rw [hy, hmp, Int.add_sub_cancel]
  exact hin

/-- A day is found again from its date. -/
theorem Dated.daysFromCivil {z y m d : Int} (h : Dated z y m d) : daysFromCivil y m d = z := by
  have hday := h.dayIn.day
  unfold Registry.daysFromCivil
  dsimp only
  generalize (if m ≤ 2 then y - 1 else y) = y' at hday ⊢
  generalize (m + 9) % 12 = mp at hday ⊢
  unfold yearStart monthStart at hday
  omega

/-- Days compare as their dates do. -/
theorem Dated.lt_iff {z y m d z' y' m' d' : Int} (h : Dated z y m d) (h' : Dated z' y' m' d') :
    z < z' ↔ y < y' ∨ y = y' ∧ (m < m' ∨ m = m' ∧ d < d') := by
  have hlt := h.dayIn.lt_iff h'.dayIn
  obtain ⟨hm1, hm12⟩ := h.month
  obtain ⟨hm1', hm12'⟩ := h'.month
  rw [Int.add_lt_add_iff_right] at hlt
  rw [hlt]
  split <;> split <;> omega

theorem Dated.isDate {z y m d : Int} (h : Dated z y m d) : IsDate y m d :=
  ((dayIn_iff_isDate h.month).1 h.dayIn).1

/-- The day of a date, counted from the first March of the calendar. -/
theorem daysFromCivil_add (y m d : Int) : daysFromCivil y m d + 719468 =
    yearStart (marchYear y m) + monthStart ((m + 9) % 12) + (d - 1) := by
  unfold Registry.daysFromCivil marchYear
  dsimp only
  generalize (if m ≤ 2 then y - 1 else y) = y'
  generalize (m + 9) % 12 = mp
  unfold yearStart monthStart
  omega

/-- The day that a date is converted to has that date. -/
theorem dated_of_isDate {y m d : Int} (h : IsDate y m d) : Dated (daysFromCivil y m d) y m d := by
  have hle : monthLength y m ≤ 31 := by
    unfold monthLength
    split <;> split <;> decide
  exact ⟨h.month, ⟨h.day.1, Int.le_trans h.day.2 hle⟩,
    (dayIn_iff_isDate h.month).2 ⟨h, daysFromCivil_add y m d⟩⟩

/-- The days from the first of a month to the first of the next. -/
theorem daysFromCivil_next {y m ny nm : Int} (hm : 1 ≤ m ∧ m ≤ 12)
    (hnext : m < 12 ∧ ny = y ∧ nm = m + 1 ∨ m = 12 ∧ ny = y + 1 ∧ nm = 1) :
    daysFromCivil ny nm 1 - daysFromCivil y m 1 = monthLength y m := by
  have hfirst := daysFromCivil_add y m 1
  have hafter := daysFromCivil_add ny nm 1
  by_cases h2 : m = 2
  · obtain ⟨rfl, rfl⟩ : ny = y ∧ nm = 3 := by omega
    subst h2
    have hlen := monthLength_february ny
    have hyear : marchYear ny 2 = ny - 1 ∧ marchYear ny 3 = ny := ⟨rfl, rfl⟩
    have hmonth : ((2 : Int) + 9) % 12 = 11 ∧ ((3 : Int) + 9) % 12 = 0 := ⟨rfl, rfl⟩
    have hstart : monthStart 0 = 0 := rfl
    rw [hyear.1, hmonth.1] at hfirst
    rw [hyear.2, hmonth.2, hstart] at hafter
    omega
  · have hlen := monthLength_eq (y := y) hm h2
    have hyear : marchYear ny nm = marchYear y m := by
      unfold marchYear
      split <;> split <;> omega
    have hmonth : (nm + 9) % 12 = (m + 9) % 12 + 1 := by omega
    rw [hyear, hmonth] at hafter
    omega

/-- A date is found again from its day. -/
theorem Dated.civilFromDays {z y m d : Int} (h : Dated z y m d) :
    civilFromDays z = (y, m, d) := by
  have hz := civilFromDays_dated z
  have hlt := h.lt_iff hz
  have hgt := hz.lt_iff h
  have heq := Int.lt_irrefl z
  refine Prod.ext ?_ (Prod.ext ?_ ?_) <;> dsimp only <;> omega

/-! ### The text of a time -/

/-- The characters of a date and a time of day that fit in their fields. -/
def stamp (y m d hh mm ss mmm : Nat) : List Char :=
  fixed 4 y ++ '-' :: (fixed 2 m ++ '-' :: (fixed 2 d ++ 'T' :: (fixed 2 hh ++ ':' ::
    (fixed 2 mm ++ ':' :: (fixed 2 ss ++ '.' :: (fixed 3 mmm ++ ['Z']))))))

/-- The fields of a time whose year has four digits, each fitting in its width. -/
structure Fields (ms : Int) (y m d hh mm ss mmm : Nat) : Prop where
  date : Dated (ms / 86400000) y m d
  time : ms % 86400000 = hh * 3600000 + mm * 60000 + ss * 1000 + mmm
  year : y < 10 ^ 4
  hour : hh < 24
  minute : mm < 60
  second : ss < 60
  milli : mmm < 1000

private theorem zeroPadded_eq {width : Nat} {n : Int} {k : Nat} (hn : n = k) (hw : 0 < width)
    (hk : k < 10 ^ width) : zeroPadded width n = fixed width k := by
  rw [zeroPadded, hn, if_neg (by omega), Int.natAbs_natCast, padded_eq_fixed hw hk]

/-- A time is written with its fields. -/
theorem exists_fields {ms : Int} (h : 0 ≤ yearOf ms ∧ yearOf ms ≤ 9999) :
    ∃ y m d hh mm ss mmm : Nat, Fields ms y m d hh mm ss mmm ∧
      isoChars ms = stamp y m d hh mm ss mmm := by
  have hdate := civilFromDays_dated (ms / 86400000)
  obtain ⟨hm1, hm12⟩ := hdate.month
  obtain ⟨hd1, hd31⟩ := hdate.day
  unfold yearOf at h
  unfold isoChars
  dsimp only
  generalize civilFromDays (ms / 86400000) = date at h hdate hm1 hm12 hd1 hd31 ⊢
  obtain ⟨y, m, d⟩ := date
  dsimp only at h hdate hm1 hm12 hd1 hd31 ⊢
  obtain ⟨rem, hrem⟩ : ∃ rem : Nat, ms % 86400000 = rem := ⟨(ms % 86400000).toNat, by omega⟩
  rw [hrem]
  lift y to Nat using h.1
  lift m to Nat using by omega
  lift d to Nat using by omega
  refine ⟨y, m, d, rem / 3600000, rem / 60000 % 60, rem / 1000 % 60, rem % 1000,
    ⟨hdate, by omega, by omega, by omega, by omega, by omega, by omega⟩, ?_⟩
  rw [zeroPadded_eq (k := y) rfl (by decide) (by omega)]
  rw [zeroPadded_eq (k := m) rfl (by decide) (by omega)]
  rw [zeroPadded_eq (k := d) rfl (by decide) (by omega)]
  rw [zeroPadded_eq (k := rem / 3600000) (by omega) (by decide) (by omega)]
  rw [zeroPadded_eq (k := rem / 60000 % 60) (by omega) (by decide) (by omega)]
  rw [zeroPadded_eq (k := rem / 1000 % 60) (by omega) (by decide) (by omega)]
  rw [zeroPadded_eq (k := rem % 1000) (by omega) (by decide) (by omega)]
  rfl

/-- Times compare as their texts. -/
theorem stamp_lt_stamp {a b : Int} {y m d hh mm ss mmm y' m' d' hh' mm' ss' mmm' : Nat}
    (ha : Fields a y m d hh mm ss mmm) (hb : Fields b y' m' d' hh' mm' ss' mmm') :
    stamp y m d hh mm ss mmm < stamp y' m' d' hh' mm' ss' mmm' ↔ a < b := by
  have hdate := ha.date.lt_iff hb.date
  have hdate' := hb.date.lt_iff ha.date
  obtain ⟨⟨hm1, hm12⟩, ⟨hd1, hd31⟩, -⟩ := ha.date
  obtain ⟨⟨hm1', hm12'⟩, ⟨hd1', hd31'⟩, -⟩ := hb.date
  obtain ⟨-, htime, hy, hhh, hmm, hss, hmmm⟩ := ha
  obtain ⟨-, htime', hy', hhh', hmm', hss', hmmm'⟩ := hb
  unfold stamp
  rw [field_lt_field hy hy', field_lt_field (m := m) (n := m') (by omega) (by omega),
    field_lt_field (m := d) (n := d') (by omega) (by omega),
    field_lt_field (m := hh) (n := hh') (by omega) (by omega),
    field_lt_field (m := mm) (n := mm') (by omega) (by omega),
    field_lt_field (m := ss) (n := ss') (by omega) (by omega),
    field_lt_field (m := mmm) (n := mmm') (by omega) (by omega)]
  simp only [List.lt_irrefl, and_false, or_false]
  omega

private theorem isAsciiDigit_of_mem {width n : Nat} {x : UInt8} (h : x ∈ fixedBytes width n) :
    isAsciiDigit x = true := by
  obtain ⟨h48, h57⟩ := mem_fixedBytes h
  have hl : (0x30 : UInt8) ≤ x := UInt8.le_iff_toNat_le.mpr h48
  have hr : x ≤ (0x39 : UInt8) := UInt8.le_iff_toNat_le.mpr h57
  rw [isAsciiDigit, decide_eq_true hl, decide_eq_true hr]
  rfl

/-- A field inside a text is read. -/
private theorem num_eq {b : List UInt8} {start len n : Nat}
    (h : (b.drop start).take len = fixedBytes len n) (hn : n < 10 ^ len) :
    num b start len = some (n : Int) := by
  have hall : (fixedBytes len n).all isAsciiDigit = true :=
    List.all_eq_true.mpr fun _ hx ↦ isAsciiDigit_of_mem hx
  unfold num
  dsimp only
  rw [h, if_pos ⟨length_fixedBytes len n, hall⟩, ofDigits_fixedBytes, Nat.mod_eq_of_lt hn]

/-- The bytes of a time. -/
def stampBytes (y m d hh mm ss mmm : Nat) : List UInt8 :=
  fixedBytes 4 y ++ 0x2d :: (fixedBytes 2 m ++ 0x2d :: (fixedBytes 2 d ++ 0x54 ::
    (fixedBytes 2 hh ++ 0x3a :: (fixedBytes 2 mm ++ 0x3a :: (fixedBytes 2 ss ++ 0x2e ::
      (fixedBytes 3 mmm ++ [0x5a]))))))

theorem asBytes_stamp (y m d hh mm ss mmm : Nat) :
    asBytes (String.ofList (stamp y m d hh mm ss mmm)) = stampBytes y m d hh mm ss mmm := by
  rw [asBytes, String.toList_ofList, stamp, stampBytes]
  simp only [List.flatMap_append, List.flatMap_cons, List.flatMap_nil, fixedBytes]
  rfl

private theorem two_bytes (n : Nat) : ∃ a b, fixedBytes 2 n = [a, b] :=
  List.length_eq_two.mp (length_fixedBytes 2 n)

private theorem three_bytes (n : Nat) : ∃ a b c, fixedBytes 3 n = [a, b, c] :=
  List.length_eq_three.mp (length_fixedBytes 3 n)

private theorem four_bytes (n : Nat) : ∃ a b c d, fixedBytes 4 n = [a, b, c, d] := by
  obtain ⟨a, b, c, h⟩ := three_bytes (n / 10)
  exact ⟨a, b, c, _, by rw [fixedBytes_succ, h]; rfl⟩

/-- The digits of the fraction are all the digits there are. -/
private theorem parseFraction_eq {b : List UInt8} {start n : Nat}
    (h : b.drop start = fixedBytes 3 n ++ [0x5a]) (hn : n < 1000) :
    parseFraction b start = some ((n : Int), start + 3) := by
  have htake : (b.drop start).takeWhile isAsciiDigit = fixedBytes 3 n := by
    rw [h, List.takeWhile_append_of_pos fun _ hx ↦ isAsciiDigit_of_mem hx]
    exact List.append_nil _
  have hlen := length_fixedBytes 3 n
  have hne : fixedBytes 3 n ≠ [] := List.ne_nil_of_length_eq_add_one hlen
  have hscaled : (fixedBytes 3 n ++ List.replicate (3 - 3) 0x30).take 3 = fixedBytes 3 n := by
    rw [Nat.sub_self, List.replicate_zero, List.append_nil, List.take_of_length_le hlen.le]
  unfold parseFraction
  dsimp only
  rw [htake, if_neg hne, hlen, hscaled, ofDigits_fixedBytes,
    Nat.mod_eq_of_lt (show n < 10 ^ 3 from hn)]

/-- The text of a time is read back. -/
theorem parse_stamp {ms : Int} {y m d hh mm ss mmm : Nat} (h : Fields ms y m d hh mm ss mmm) :
    parseIso8601Ms (String.ofList (stamp y m d hh mm ss mmm)) = some ms := by
  obtain ⟨hm1, hm12⟩ := h.date.month
  obtain ⟨hd1, hd31⟩ := h.date.day
  have hdays := h.date.daysFromCivil
  obtain ⟨-, htime, hy, hhh, hmm, hss, hmmm⟩ := h
  obtain ⟨y3, y2, y1, y0, eqy⟩ := four_bytes y
  obtain ⟨m1, m0, eqm⟩ := two_bytes m
  obtain ⟨d1, d0, eqd⟩ := two_bytes d
  obtain ⟨hh1, hh0, eqhh⟩ := two_bytes hh
  obtain ⟨mm1, mm0, eqmm⟩ := two_bytes mm
  obtain ⟨ss1, ss0, eqss⟩ := two_bytes ss
  obtain ⟨f2, f1, f0, eqf⟩ := three_bytes mmm
  have hb : stampBytes y m d hh mm ss mmm = [y3, y2, y1, y0, 0x2d, m1, m0, 0x2d, d1, d0, 0x54,
      hh1, hh0, 0x3a, mm1, mm0, 0x3a, ss1, ss0, 0x2e, f2, f1, f0, 0x5a] := by
    rw [stampBytes, eqy, eqm, eqd, eqhh, eqmm, eqss, eqf]
    rfl
  unfold parseIso8601Ms
  dsimp only
  rw [asBytes_stamp, hb]
  generalize hbs : [y3, y2, y1, y0, 0x2d, m1, m0, 0x2d, d1, d0, 0x54,
      hh1, hh0, 0x3a, mm1, mm0, 0x3a, ss1, ss0, 0x2e, f2, f1, f0, 0x5a] = b
  have hyear : num b 0 4 = some (y : Int) := num_eq (by rw [← hbs, eqy]; rfl) (by omega)
  have hmonth : num b 5 2 = some (m : Int) := num_eq (by rw [← hbs, eqm]; rfl) (by omega)
  have hday : num b 8 2 = some (d : Int) := num_eq (by rw [← hbs, eqd]; rfl) (by omega)
  have hhour : num b 11 2 = some (hh : Int) := num_eq (by rw [← hbs, eqhh]; rfl) (by omega)
  have hminute : num b 14 2 = some (mm : Int) := num_eq (by rw [← hbs, eqmm]; rfl) (by omega)
  have hsecond : num b 17 2 = some (ss : Int) := num_eq (by rw [← hbs, eqss]; rfl) (by omega)
  have hfraction : parseFraction b 20 = some ((mmm : Int), 23) :=
    parseFraction_eq (by rw [← hbs, eqf]; rfl) hmmm
  have hseconds : parseSeconds b = some ((ss : Int), (mmm : Int), 23) := by
    have hcolon : b[16]? = some 0x3a := by rw [← hbs]; rfl
    have hpoint : b[19]? = some 0x2e := by rw [← hbs]; rfl
    unfold parseSeconds
    rw [if_pos hcolon, hsecond, Option.bind_eq_bind, Option.bind_some, if_pos hpoint, hfraction]
    rfl
  have hclock : parseClock b = some ⟨hh, mm, ss, mmm, 23⟩ := by
    have hmark : b[10]? = some 0x54 := by rw [← hbs]; rfl
    have hcolon : b[13]? = some 0x3a := by rw [← hbs]; rfl
    unfold parseClock
    rw [if_pos hmark, hhour, Option.bind_eq_bind, Option.bind_some, if_neg (not_not.mpr hcolon),
      hminute, Option.bind_some, hseconds, Option.bind_eq_bind, Option.bind_some]
    exact if_neg (by omega)
  have hoffset : parseOffset b 23 = some 0 := by
    rw [← hbs]
    rfl
  have hdash : b[4]? = some 0x2d := by rw [← hbs]; rfl
  have hdash' : b[7]? = some 0x2d := by rw [← hbs]; rfl
  rw [Option.bind_eq_bind, hyear, Option.bind_some, if_neg (not_not.mpr hdash), hmonth,
    Option.bind_some, if_neg (not_not.mpr hdash'), hday, Option.bind_some, if_neg (by omega),
    hclock, Option.bind_eq_bind, Option.bind_some, hoffset, Option.bind_some, hdays]
  refine congrArg some ?_
  dsimp only
  omega

/-! ### Range -/

private theorem ofDigits_bounds {bytes : List UInt8} (h : bytes.all isAsciiDigit = true)
    {len : Nat} (hl : bytes.length ≤ len) : ofDigits bytes < 10 ^ len := by
  refine lt_of_lt_of_le (ofDigits_lt fun b hb ↦ ?_) (Nat.pow_le_pow_right (by decide) hl)
  have hd := List.all_eq_true.mp h b hb
  rw [isAsciiDigit, Bool.and_eq_true, decide_eq_true_eq, decide_eq_true_eq,
    UInt8.le_iff_toNat_le, UInt8.le_iff_toNat_le] at hd
  exact hd.2

private theorem num_bounds {b : List UInt8} {start len : Nat} {n : Int}
    (h : num b start len = some n) : 0 ≤ n ∧ n < 10 ^ len := by
  unfold num at h
  dsimp only at h
  split at h
  · next hs =>
    cases h
    have hb := ofDigits_bounds hs.2 hs.1.le
    exact ⟨Int.natCast_nonneg _, by exact_mod_cast hb⟩
  · cases h

private theorem parseFraction_bounds {b : List UInt8} {start pos : Nat} {milli : Int}
    (h : parseFraction b start = some (milli, pos)) : 0 ≤ milli ∧ milli < 1000 := by
  unfold parseFraction at h
  dsimp only at h
  split at h
  · cases h
  · cases h
    refine ⟨Int.natCast_nonneg _, ?_⟩
    have hb : ofDigits ((((b.drop start).takeWhile isAsciiDigit ++
        List.replicate (3 - ((b.drop start).takeWhile isAsciiDigit).length) 0x30)).take 3) <
          10 ^ 3 := by
      refine ofDigits_bounds ?_ (List.length_take_le _ _)
      refine List.all_eq_true.mpr fun c hc ↦ ?_
      obtain hc | hc := List.mem_append.mp (List.mem_of_mem_take hc)
      · exact List.mem_takeWhile_imp hc
      · rw [List.eq_of_mem_replicate hc]
        decide
    exact_mod_cast hb

private theorem parseClock_bounds {b : List UInt8} {c : Clock} (h : parseClock b = some c) :
    0 ≤ c.hour ∧ c.hour ≤ 24 ∧ 0 ≤ c.minute ∧ c.minute ≤ 59 ∧ 0 ≤ c.second ∧ c.second ≤ 59 ∧
      0 ≤ c.milli ∧ c.milli < 1000 := by
  unfold parseClock at h
  split at h
  · obtain ⟨hour, hh, h⟩ := Option.bind_eq_some_iff.mp h
    dsimp only at h
    split at h
    · cases h
    · obtain ⟨minute, hm, h⟩ := Option.bind_eq_some_iff.mp h
      obtain ⟨⟨second, milli, pos⟩, hs, h⟩ := Option.bind_eq_some_iff.mp h
      dsimp only at h
      split at h
      · cases h
      · next hr =>
        cases h
        have hh := num_bounds hh
        have hm := num_bounds hm
        have hsec : 0 ≤ second ∧ 0 ≤ milli ∧ milli < 1000 := by
          unfold parseSeconds at hs
          split at hs
          · obtain ⟨sec, hsec, hs⟩ := Option.bind_eq_some_iff.mp hs
            have hsec := num_bounds hsec
            dsimp only at hs
            split at hs
            · obtain ⟨⟨ms, p⟩, hf, hs⟩ := Option.bind_eq_some_iff.mp hs
              cases hs
              exact ⟨hsec.1, parseFraction_bounds hf⟩
            · cases hs
              exact ⟨hsec.1, le_refl _, by decide⟩
          · cases hs
            exact ⟨le_refl _, le_refl _, by decide⟩
        dsimp only
        omega
  · cases h
    simp

private theorem parseOffset_bounds {b : List UInt8} {pos : Nat} {offset : Int}
    (h : parseOffset b pos = some offset) : -400000000 ≤ offset ∧ offset ≤ 400000000 := by
  unfold parseOffset at h
  split at h
  · cases h
    decide
  · split at h
    · split at h
      · cases h
      · cases h
        decide
    · split at h
      · obtain ⟨oh, hoh, h⟩ := Option.bind_eq_some_iff.mp h
        dsimp only at h
        split at h
        · cases h
        · obtain ⟨om, hom, h⟩ := Option.bind_eq_some_iff.mp h
          have hoh := num_bounds hoh
          have hom := num_bounds hom
          split at h
          · cases h
          · cases h
            split <;> omega
      · cases h

private theorem daysFromCivil_bounds {y m d : Int} (hy : 0 ≤ y ∧ y < 10 ^ 4)
    (hd : 1 ≤ d ∧ d ≤ 31) :
    -1000000 ≤ daysFromCivil y m d ∧ daysFromCivil y m d ≤ 4000000 := by
  unfold daysFromCivil
  dsimp only
  generalize hy' : (if m ≤ 2 then y - 1 else y) = y'
  have hyb : -1 ≤ y' ∧ y' < 10000 := by
    split at hy' <;> omega
  omega

/-- A time that is read is far from the ends of an `i64`. -/
theorem parseIso8601Ms_bounds {s : String} {ms : Int} (h : parseIso8601Ms s = some ms) :
    -2 ^ 60 < ms ∧ ms < 2 ^ 60 := by
  unfold parseIso8601Ms at h
  dsimp only at h
  obtain ⟨year, hy, h⟩ := Option.bind_eq_some_iff.mp h
  split at h
  · cases h
  · obtain ⟨month, -, h⟩ := Option.bind_eq_some_iff.mp h
    split at h
    · cases h
    · obtain ⟨day, -, h⟩ := Option.bind_eq_some_iff.mp h
      split at h
      · cases h
      · next hr =>
        obtain ⟨clock, hc, h⟩ := Option.bind_eq_some_iff.mp h
        obtain ⟨offset, ho, h⟩ := Option.bind_eq_some_iff.mp h
        cases h
        rw [not_or, not_not, not_not] at hr
        have hdays := daysFromCivil_bounds (m := month) (num_bounds hy) hr.2
        have hclock := parseClock_bounds hc
        have hoffset := parseOffset_bounds ho
        omega

/-- A time whose year has at most four digits is read back from its text. -/
theorem parseIso8601Ms_iso {ms : Int} (h : 0 ≤ yearOf ms ∧ yearOf ms ≤ 9999) :
    parseIso8601Ms (iso8601FromEpochMs ms) = some ms := by
  obtain ⟨y, m, d, hh, mm, ss, mmm, hf, ht⟩ := exists_fields h
  rw [iso8601FromEpochMs, ht, parse_stamp hf]

/-- A text starts with the digits of its year, and a dash follows them. -/
private theorem asBytes_iso (ms : Int) :
    ∃ rest, asBytes (iso8601FromEpochMs ms) =
      (zeroPadded 4 (yearOf ms)).flatMap String.utf8EncodeChar ++ 0x2d :: rest := by
  refine ⟨(asBytes (iso8601FromEpochMs ms)).drop
    (((zeroPadded 4 (yearOf ms)).flatMap String.utf8EncodeChar).length + 1), ?_⟩
  rw [asBytes, iso8601FromEpochMs, String.toList_ofList, isoChars]
  dsimp only
  rw [List.flatMap_append, List.flatMap_cons]
  have hd : String.utf8EncodeChar '-' = [0x2d] := by decide
  rw [hd, List.singleton_append, yearOf, ← List.drop_drop, List.drop_left]
  rfl

/-- Whatever is read from the text of a time is that time. -/
theorem eq_of_parseIso8601Ms_iso {ms t : Int}
    (h : parseIso8601Ms (iso8601FromEpochMs ms) = some t) : t = ms := by
  by_cases hy : 0 ≤ yearOf ms ∧ yearOf ms ≤ 9999
  · rw [parseIso8601Ms_iso hy] at h
    exact (Option.some.inj h).symm
  · -- a year of another width leaves no dash, or no number, where one is looked for
    exfalso
    obtain ⟨rest, hb⟩ := asBytes_iso ms
    unfold parseIso8601Ms at h
    dsimp only at h
    obtain ⟨year, hnum, h⟩ := Option.bind_eq_some_iff.mp h
    rw [hb] at hnum h
    by_cases hneg : yearOf ms < 0
    · rw [zeroPadded, if_pos hneg, List.flatMap_cons] at hnum
      have hd : String.utf8EncodeChar '-' = [0x2d] := by decide
      rw [hd, num] at hnum
      simp [isAsciiDigit] at hnum
    · have hbig : 10 ^ 4 ≤ (yearOf ms).natAbs := by omega
      have hl : 4 < (Nat.toDigits 10 (yearOf ms).natAbs).length := by
        rw [← not_le, Nat.length_toDigits_le_iff (by decide) (by decide)]
        omega
      have hfix : zeroPadded 4 (yearOf ms) =
          fixed (Nat.toDigits 10 (yearOf ms).natAbs).length (yearOf ms).natAbs := by
        rw [zeroPadded, if_neg hneg, ← padded_eq_fixed (by omega)
          ((Nat.length_toDigits_le_iff (by decide) (by omega)).mp le_rfl), padded, padded,
          Nat.sub_self, Nat.sub_eq_zero_of_le (by omega)]
      rw [hfix] at h
      have hlen := length_fixedBytes (Nat.toDigits 10 (yearOf ms).natAbs).length (yearOf ms).natAbs
      rw [fixedBytes] at hlen
      split at h
      · cases h
      · next hdash =>
        rw [not_not, List.getElem?_append_left (by omega)] at hdash
        have hm := mem_fixedBytes (List.mem_of_getElem? hdash)
        have h2d : (0x2d : UInt8).toNat = 45 := rfl
        omega

/-- Every time whose year has at most four digits is read back from its text, and two of
them compare as their texts. -/
theorem timestamps {a b : Int} (ha : 0 ≤ yearOf a ∧ yearOf a ≤ 9999)
    (hb : 0 ≤ yearOf b ∧ yearOf b ≤ 9999) :
    parseIso8601Ms (iso8601FromEpochMs a) = some a ∧
      (iso8601FromEpochMs a < iso8601FromEpochMs b ↔ a < b) ∧
      (iso8601FromEpochMs a ≤ iso8601FromEpochMs b ↔ a ≤ b) := by
  obtain ⟨y, m, d, hh, mm, ss, mmm, hfa, hta⟩ := exists_fields ha
  obtain ⟨y', m', d', hh', mm', ss', mmm', hfb, htb⟩ := exists_fields hb
  have hlt : iso8601FromEpochMs a < iso8601FromEpochMs b ↔ a < b := by
    rw [String.lt_iff_toList_lt, iso8601FromEpochMs, iso8601FromEpochMs, String.toList_ofList,
      String.toList_ofList, hta, htb, stamp_lt_stamp hfa hfb]
  have hgt : iso8601FromEpochMs b < iso8601FromEpochMs a ↔ b < a := by
    rw [String.lt_iff_toList_lt, iso8601FromEpochMs, iso8601FromEpochMs, String.toList_ofList,
      String.toList_ofList, hta, htb, stamp_lt_stamp hfb hfa]
  refine ⟨parseIso8601Ms_iso ha, hlt, ?_⟩
  rw [← not_lt, hgt, not_lt]

/-- The last millisecond of a leap day, and the first of the year 0. -/
theorem timestamps_leapDay :
    parseIso8601Ms (iso8601FromEpochMs 951868799999) = some 951868799999 ∧
      iso8601FromEpochMs (-62167219200000) < iso8601FromEpochMs 951868799999 := by
  have hl : 0 ≤ yearOf 951868799999 ∧ yearOf 951868799999 ≤ 9999 := by decide
  have hz : 0 ≤ yearOf (-62167219200000) ∧ yearOf (-62167219200000) ≤ 9999 := by decide
  exact ⟨(timestamps hl hz).1, (timestamps hz hl).2.1.mpr (by decide)⟩
end PtySpec.Registry
