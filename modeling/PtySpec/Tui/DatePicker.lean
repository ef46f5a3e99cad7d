import PtySpec.Keys.Text
import PtySpec.Lib.Trace
import PtySpec.Registry.Time

/-!
# The date picker

Model of the state, the keys and the calendar of `crates/pty-tui/src/widgets/date_picker.rs:45-180`.
Years are `i32`; the count of days is an integer. The picker keeps to real dates up to the last
month of the year type, whose length it takes from the month after.
-/

namespace PtySpec.Tui

open Lib Keys

/-! ### The calendar of the picker -/

namespace DatePicker

/-- `days_from_civil`, `date_picker.rs:46`. -/
def daysFromCivil (y m d : Int) : Int :=
  let y := if m ≤ 2 then y - 1 else y
  let era := (if 0 ≤ y then y else y - 399).tdiv 400
  let yoe := y - era * 400
  let mp := (m + 9).tmod 12
  let doy := (153 * mp + 2).tdiv 5 + d - 1
  let doe := yoe * 365 + yoe.tdiv 4 - yoe.tdiv 100 + doy
  era * 146097 + doe - 719468

/-- `civil_from_days`, `date_picker.rs:57`. -/
def civilFromDays (z : Int) : Int × Int × Int :=
  let z := z + 719468
  let era := (if 0 ≤ z then z else z - 146096).tdiv 146097
  let doe := z - era * 146097
  let yoe := (doe - doe.tdiv 1460 + doe.tdiv 36524 - doe.tdiv 146096).tdiv 365
  let y := yoe + era * 400
  let doy := doe - (365 * yoe + yoe.tdiv 4 - yoe.tdiv 100)
  let mp := (5 * doy + 2).tdiv 153
  let d := doy - (153 * mp + 2).tdiv 5 + 1
  let m := if mp < 10 then mp + 3 else mp - 9
  (if m ≤ 2 then y + 1 else y, m, d)

/-- The years of an `i32`. -/
def InYears (y : Int) : Prop := -2 ^ 31 ≤ y ∧ y < 2 ^ 31

instance (y : Int) : Decidable (InYears y) := inferInstanceAs (Decidable (_ ∧ _))

/-- `x as i32`. -/
def asI32 (x : Int) : Int := x.bmod (2 ^ 32)

/-- `norm_month`, `date_picker.rs:72`. -/
def normMonth (year month : Int) : Int × Int :=
  let total := year * 12 + month
  (asI32 (total / 12), asI32 (total % 12))

/-- `days_in_month`, `date_picker.rs:78`. -/
def daysInMonth (year month : Int) : Int :=
  let (y, m) := normMonth year month
  let (ny, nm) := normMonth y (m + 1)
  asI32 (daysFromCivil ny (nm + 1) 1 - daysFromCivil y (m + 1) 1)

end DatePicker

open DatePicker

/-- `DatePickerState`, `date_picker.rs:20`: the month counts from 0. -/
structure DatePickerState where
  year : Int
  month : Int
  day : Int
  hour : Int
  minute : Int
deriving DecidableEq, Repr

/-- What stops the picker: `clamp` with its bounds the wrong way round. -/
inductive DatePicker.Panic
  | clamp
deriving DecidableEq, Repr

namespace DatePickerState

/-- `clamp_day`, `date_picker.rs:103`. -/
def clampDay (s : DatePickerState) : Except Panic DatePickerState :=
  let last := daysInMonth s.year s.month
  if last < 1 then .error .clamp
  else .ok { s with day := if s.day < 1 then 1 else if last < s.day then last else s.day }

/-- `shift_day`, `date_picker.rs:112`. -/
def shiftDay (s : DatePickerState) (delta : Int) : DatePickerState :=
  let days := daysFromCivil s.year (s.month + 1) s.day + delta
  let (y, m, d) := civilFromDays days
  { s with year := asI32 y, month := asI32 m - 1, day := asI32 d }

/-- `shift_month`, `date_picker.rs:124`. -/
def shiftMonth (s : DatePickerState) (delta : Int) : Except Panic DatePickerState :=
  let (y, m) := normMonth s.year (s.month + delta)
  clampDay { s with year := y, month := m }

/-- `shift_hours`, `date_picker.rs:135`. -/
def shiftHours (s : DatePickerState) (delta : Int) : DatePickerState :=
  { s with hour := (s.hour + delta) % 24 }

/-- `shift_minutes`, `date_picker.rs:143`. -/
def shiftMinutes (s : DatePickerState) (delta : Int) : DatePickerState :=
  { s with minute := (s.minute + delta) % 60 }

end DatePickerState

/-- `handle_date_picker_key`, `date_picker.rs:167`. -/
def handleDatePickerKey (state : DatePickerState) (key : KeyEvent) :
    Except Panic (Option DatePickerState) :=
  match key.name with
  | "up" => .ok (some (state.shiftDay (-7)))
  | "down" => .ok (some (state.shiftDay 7))
  | "left" => .ok (some (state.shiftDay (-1)))
  | "right" => .ok (some (state.shiftDay 1))
  | "[" => some <$> state.shiftMonth (-1)
  | "]" => some <$> state.shiftMonth 1
  | "h" => .ok (some (state.shiftHours (-1)))
  | "H" => .ok (some (state.shiftHours 1))
  | "m" => .ok (some (state.shiftMinutes (-5)))
  | "M" => .ok (some (state.shiftMinutes 5))
  | _ => .ok none

/-- The state after a key: one that is left to the caller does not change it. -/
def press (state : DatePickerState) (key : KeyEvent) : Option DatePickerState :=
  (handleDatePickerKey state key).toOption.map (·.getD state)

/-! ### The two calendars -/

namespace DatePicker

/-- The roundings of the source come out as the one toward minus infinity. -/
private theorem tdiv_floor {a b : Int} (hb : 0 < b) :
    (if 0 ≤ a then a else a - (b - 1)).tdiv b = a / b := by
  split
  · next h => exact Int.tdiv_eq_ediv_of_nonneg h
  · next h =>
    have hneg : a - (b - 1) = -(b - 1 - a) := by omega
    have hdiv := Int.mul_ediv_add_emod a b
    have hlt := Int.emod_lt_of_pos a hb
    have hle := Int.emod_nonneg a (Int.ne_of_gt hb)
    have hquot : (b - 1 - a) / b = -(a / b) := by
      refine ((Int.ediv_emod_unique (r := b - 1 - a % b) hb).2 ⟨?_, by omega, by omega⟩).1
      rw [Int.mul_neg]
      omega
    rw [hneg, Int.neg_tdiv, Int.tdiv_eq_ediv_of_nonneg (by omega), hquot, Int.neg_neg]

/-- The conversions of the picker and of the registry agree on every date. -/
theorem daysFromCivil_eq {y m : Int} (d : Int) (hm : 1 ≤ m ∧ m ≤ 12) :
    daysFromCivil y m d = Registry.daysFromCivil y m d := by
  have hera : (if 0 ≤ marchYear y m then marchYear y m else marchYear y m - 399).tdiv 400 =
      marchYear y m / 400 := tdiv_floor (b := 400) (by decide)
  have hmonth : (m + 9).tmod 12 = (m + 9) % 12 := Int.tmod_eq_emod_of_nonneg (by omega)
  have hstart : (153 * ((m + 9) % 12) + 2).tdiv 5 = (153 * ((m + 9) % 12) + 2) / 5 :=
    Int.tdiv_eq_ediv_of_nonneg (by omega)
  have hyear : 0 ≤ marchYear y m - marchYear y m / 400 * 400 := by omega
  unfold daysFromCivil Registry.daysFromCivil
  rw [← marchYear]
  dsimp only
  rw [hera, hmonth, hstart, Int.tdiv_eq_ediv_of_nonneg hyear, Int.tdiv_eq_ediv_of_nonneg hyear]

/-- The conversions of the picker and of the registry agree on every day. -/
theorem civilFromDays_eq (z : Int) : civilFromDays z = Registry.civilFromDays z := by
  have hera : (if 0 ≤ z + 719468 then z + 719468 else z + 719468 - 146096).tdiv 146097 =
      (z + 719468) / 146097 := tdiv_floor (b := 146097) (by decide)
  unfold civilFromDays Registry.civilFromDays
  dsimp only
  rw [hera]
  generalize hdoe : z + 719468 - (z + 719468) / 146097 * 146097 = doe
  have h0 : 0 ≤ doe := by omega
  have h1 : doe < 146097 := by omega
  have hyear : (doe - doe / 1460 + doe / 36524 - doe / 146096).tdiv 365 = yearOfEra doe :=
    Int.tdiv_eq_ediv_of_nonneg (by omega)
  obtain ⟨hy0, hy1, hle, -⟩ := yearOfEra_spec h0 h1
  have hyoe : (doe - doe / 1460 + doe / 36524 - doe / 146096) / 365 = yearOfEra doe := rfl
  rw [Int.tdiv_eq_ediv_of_nonneg h0, Int.tdiv_eq_ediv_of_nonneg h0,
    Int.tdiv_eq_ediv_of_nonneg h0, hyear, hyoe, Int.tdiv_eq_ediv_of_nonneg hy0,
    Int.tdiv_eq_ediv_of_nonneg hy0]
  generalize hdoy :
    doe - (365 * yearOfEra doe + yearOfEra doe / 4 - yearOfEra doe / 100) = doy
  have hdoy0 : 0 ≤ doy := by
    unfold yearStart at hle
    omega
  rw [Int.tdiv_eq_ediv_of_nonneg (a := 5 * doy + 2) (by omega)]
  rw [Int.tdiv_eq_ediv_of_nonneg (a := 153 * ((5 * doy + 2) / 153) + 2) (by omega)]

/-! ### Months -/

theorem asI32_eq {x : Int} (h : InYears x) : asI32 x = x :=
  Int.bmod_eq_of_le (by have := h.1; omega) (by have := h.2; omega)

theorem normMonth_eq {year month : Int} (h : InYears ((year * 12 + month) / 12)) :
    normMonth year month = ((year * 12 + month) / 12, (year * 12 + month) % 12) := by
  have hmonth : InYears ((year * 12 + month) % 12) := by
    unfold InYears
    omega
  unfold normMonth
  dsimp only
  rw [asI32_eq h, asI32_eq hmonth]

/-- `days_in_month` is the length of the month, but for the last month of the year type. -/
theorem daysInMonth_eq {year month : Int} (h : InYears ((year * 12 + month) / 12))
    (hlast : year * 12 + month ≠ 2 ^ 31 * 12 - 1) :
    daysInMonth year month =
      monthLength ((year * 12 + month) / 12) ((year * 12 + month) % 12 + 1) := by
  generalize htotal : year * 12 + month = total at h hlast ⊢
  have hnext : (total / 12 * 12 + (total % 12 + 1)) = total + 1 := by omega
  have hin : InYears ((total / 12 * 12 + (total % 12 + 1)) / 12) := by
    unfold InYears at h ⊢
    omega
  have hdays : Registry.daysFromCivil ((total + 1) / 12) ((total + 1) % 12 + 1) 1 -
      Registry.daysFromCivil (total / 12) (total % 12 + 1) 1 =
        monthLength (total / 12) (total % 12 + 1) :=
    Registry.daysFromCivil_next (by omega) (by omega)
  have hlen : InYears (monthLength (total / 12) (total % 12 + 1)) := by
    unfold InYears monthLength
    split <;> split <;> decide
  have hnorm : normMonth year month = _ := normMonth_eq (htotal ▸ h)
  unfold daysInMonth
  rw [hnorm]
  dsimp only
  rw [htotal, normMonth_eq hin, hnext]
  dsimp only
  rw [daysFromCivil_eq 1 (by omega), daysFromCivil_eq 1 (by omega), hdays, asI32_eq hlen]

/-- The month after the last one has a year that no `i32` holds. -/
theorem daysInMonth_last {year month : Int} (h : year * 12 + month = 2 ^ 31 * 12 - 1) :
    daysInMonth year month = -1041529539 := by
  have hnorm : normMonth year month = (2147483647, 11) := by
    rw [normMonth_eq (by unfold InYears; omega), h]
    rfl
  unfold daysInMonth
  rw [hnorm]
  decide

end DatePicker

/-! ### States and keys -/

namespace DatePickerState

/-- A state that is a date of the calendar at a time of day. -/
structure Valid (s : DatePickerState) : Prop where
  years : InYears s.year
  date : IsDate s.year (s.month + 1) s.day
  hour : 0 ≤ s.hour ∧ s.hour < 24
  minute : 0 ≤ s.minute ∧ s.minute < 60

/-- The day of a state, counted as the registry counts days. -/
def dayNumber (s : DatePickerState) : Int := Registry.daysFromCivil s.year (s.month + 1) s.day

variable {s : DatePickerState}

/-- Days away, as long as the year fits, is the date of the day that is meant. -/
theorem shiftDay_dated (h : s.Valid) {delta : Int}
    (hin : InYears (Registry.civilFromDays (s.dayNumber + delta)).1) :
    Registry.Dated (s.dayNumber + delta) (s.shiftDay delta).year ((s.shiftDay delta).month + 1)
      (s.shiftDay delta).day := by
  have hdated := Registry.civilFromDays_dated (s.dayNumber + delta)
  have hm := hdated.month
  have hd := hdated.day
  have hday : daysFromCivil s.year (s.month + 1) s.day = s.dayNumber :=
    daysFromCivil_eq _ h.date.month
  unfold shiftDay
  dsimp only
  rw [hday, civilFromDays_eq]
  revert hdated hm hd hin
  generalize Registry.civilFromDays (s.dayNumber + delta) = date
  intro hin hdated hm hd
  obtain ⟨y, m, d⟩ := date
  have hmonth : asI32 m - 1 + 1 = m := by
    rw [asI32_eq (by unfold InYears; dsimp only at hm; omega), Int.sub_add_cancel]
  have hdayOf : asI32 d = d := asI32_eq (by unfold InYears; dsimp only at hd; omega)
  dsimp only
  rw [asI32_eq hin, hmonth, hdayOf]
  exact hdated

theorem shiftDay_valid (h : s.Valid) {delta : Int}
    (hin : InYears (Registry.civilFromDays (s.dayNumber + delta)).1) :
    (s.shiftDay delta).Valid := by
  have hdated := shiftDay_dated h hin
  have hcivil := hdated.civilFromDays
  rw [hcivil] at hin
  exact ⟨hin, hdated.isDate, h.hour, h.minute⟩

theorem dayNumber_shiftDay (h : s.Valid) {delta : Int}
    (hin : InYears (Registry.civilFromDays (s.dayNumber + delta)).1) :
    (s.shiftDay delta).dayNumber = s.dayNumber + delta :=
  (shiftDay_dated h hin).daysFromCivil

/-- The date of a state is that of its day. -/
theorem shiftDay_eq (h : s.Valid) (delta : Int) :
    s.shiftDay delta =
      { s with
        year := asI32 (civilFromDays (s.dayNumber + delta)).1
        month := asI32 (civilFromDays (s.dayNumber + delta)).2.1 - 1
        day := asI32 (civilFromDays (s.dayNumber + delta)).2.2 } := by
  have hday : daysFromCivil s.year (s.month + 1) s.day = s.dayNumber :=
    daysFromCivil_eq _ h.date.month
  unfold shiftDay
  dsimp only
  rw [hday]

/-- Two shifts are one. -/
theorem shiftDay_shiftDay (h : s.Valid) {a : Int} (b : Int)
    (hin : InYears (Registry.civilFromDays (s.dayNumber + a)).1) :
    (s.shiftDay a).shiftDay b = s.shiftDay (a + b) := by
  rw [shiftDay_eq (shiftDay_valid h hin), dayNumber_shiftDay h hin, shiftDay_eq h (a + b),
    Int.add_assoc]
  rfl

theorem shiftDay_zero (h : s.Valid) : s.shiftDay 0 = s := by
  have hdated := Registry.dated_of_isDate h.date
  have hm := h.date.month
  have hd := hdated.day
  have hcivil : civilFromDays (s.dayNumber + 0) = (s.year, s.month + 1, s.day) := by
    rw [civilFromDays_eq, Int.add_zero]
    exact hdated.civilFromDays
  rw [shiftDay_eq h, hcivil]
  dsimp only
  rw [asI32_eq h.years, asI32_eq (x := s.month + 1) (by unfold InYears; omega),
    asI32_eq (x := s.day) (by unfold InYears; omega), Int.add_sub_cancel]

/-- Months away, as long as the year fits, is a date of the month that is meant, unless that is
the last month of the year type: there `clamp` gets its bounds the wrong way round. -/
theorem shiftMonth_eq (h : s.Valid) {delta : Int}
    (hin : InYears ((s.year * 12 + (s.month + delta)) / 12)) :
    (∃ t, s.shiftMonth delta = .ok t ∧ t.Valid) ↔
      s.year * 12 + (s.month + delta) ≠ 2 ^ 31 * 12 - 1 := by
  have hnorm := normMonth_eq hin
  have hsame : (s.year * 12 + (s.month + delta)) / 12 * 12 +
      (s.year * 12 + (s.month + delta)) % 12 = s.year * 12 + (s.month + delta) := by omega
  unfold shiftMonth
  rw [hnorm]
  generalize s.year * 12 + (s.month + delta) = total at hin hsame ⊢
  unfold clampDay
  dsimp only
  by_cases hlast : total = 2 ^ 31 * 12 - 1
  · rw [daysInMonth_last (hsame.trans hlast)]
    refine iff_of_false ?_ fun hne ↦ hne hlast
    rintro ⟨t, ht, -⟩
    cases ht
  · have hlen : daysInMonth (total / 12) (total % 12) = _ :=
      daysInMonth_eq (by rw [hsame]; exact hin) (by rw [hsame]; exact hlast)
    rw [hsame] at hlen
    have hpos := monthLength_pos (total / 12) (total % 12 + 1)
    rw [hlen, if_neg (by omega)]
    refine iff_of_true ⟨_, rfl, hin, ⟨by dsimp only; omega, ?_⟩, h.hour, h.minute⟩ hlast
    dsimp only
    split
    · omega
    · split <;> omega

theorem shiftHours_valid (h : s.Valid) (delta : Int) : (s.shiftHours delta).Valid :=
  ⟨h.years, h.date, ⟨Int.emod_nonneg _ (by decide), Int.emod_lt_of_pos _ (by decide)⟩, h.minute⟩

theorem shiftMinutes_valid (h : s.Valid) (delta : Int) : (s.shiftMinutes delta).Valid :=
  ⟨h.years, h.date, h.hour, ⟨Int.emod_nonneg _ (by decide), Int.emod_lt_of_pos _ (by decide)⟩⟩

end DatePickerState

/-- What a key of the picker shifts, and by how much. -/
inductive Shift
  | days (delta : Int)
  | months (delta : Int)
  | hours (delta : Int)
  | minutes (delta : Int)

/-- The shift that a key stands for. -/
def shiftOf (name : String) : Option Shift :=
  match name with
  | "up" => some (.days (-7))
  | "down" => some (.days 7)
  | "left" => some (.days (-1))
  | "right" => some (.days 1)
  | "[" => some (.months (-1))
  | "]" => some (.months 1)
  | "h" => some (.hours (-1))
  | "H" => some (.hours 1)
  | "m" => some (.minutes (-5))
  | "M" => some (.minutes 5)
  | _ => none

namespace Shift

/-- A state shifted. -/
def apply (s : DatePickerState) : Shift → Except Panic DatePickerState
  | days delta => .ok (s.shiftDay delta)
  | months delta => s.shiftMonth delta
  | hours delta => .ok (s.shiftHours delta)
  | minutes delta => .ok (s.shiftMinutes delta)

/-- The date that a shift means has a year of the year type. -/
def InYears (s : DatePickerState) : Shift → Prop
  | days delta => DatePicker.InYears (Registry.civilFromDays (s.dayNumber + delta)).1
  | months delta => DatePicker.InYears ((s.year * 12 + (s.month + delta)) / 12)
  | _ => True

/-- A shift by months to the last month of the year type. -/
def ToLastMonth (s : DatePickerState) : Shift → Prop
  | months delta => s.year * 12 + (s.month + delta) = 2 ^ 31 * 12 - 1
  | _ => False

/-- A shift keeps to real dates exactly when it is none to the last month. -/
theorem apply_valid_iff {s : DatePickerState} (h : s.Valid) {shift : Shift}
    (hin : shift.InYears s) :
    (∃ t, shift.apply s = .ok t ∧ t.Valid) ↔ ¬shift.ToLastMonth s := by
  cases shift with
  | days delta => exact iff_of_true ⟨_, rfl, s.shiftDay_valid h hin⟩ id
  | months delta => exact s.shiftMonth_eq h hin
  | hours delta => exact iff_of_true ⟨_, rfl, s.shiftHours_valid h delta⟩ id
  | minutes delta => exact iff_of_true ⟨_, rfl, s.shiftMinutes_valid h delta⟩ id

end Shift

/-- A key does what its shift does, and is left to the caller if it has none. -/
theorem handleDatePickerKey_eq (s : DatePickerState) (key : KeyEvent) :
    handleDatePickerKey s key =
      (shiftOf key.name).elim (.ok none) fun shift ↦ some <$> shift.apply s := by
  unfold handleDatePickerKey shiftOf
  split <;> rfl

/-- The date that a key means has a year of the year type. -/
def KeyInYears (s : DatePickerState) (key : KeyEvent) : Prop :=
  ∀ shift ∈ shiftOf key.name, shift.InYears s

/-- A key that shifts by months to the last month of the year type. -/
def KeyToLastMonth (s : DatePickerState) (key : KeyEvent) : Prop :=
  ∃ shift ∈ shiftOf key.name, shift.ToLastMonth s

/-- What a key does to a real date. -/
theorem press_valid_iff {s : DatePickerState} (h : s.Valid) {key : KeyEvent}
    (hin : KeyInYears s key) :
    (∃ t, press s key = some t ∧ t.Valid) ↔ ¬KeyToLastMonth s key := by
  unfold KeyInYears at hin
  unfold press KeyToLastMonth
  rw [handleDatePickerKey_eq]
  cases hkey : shiftOf key.name with
  | none => exact iff_of_true ⟨s, rfl, h⟩ (by simp)
  | some shift =>
    have hiff := Shift.apply_valid_iff h (hin shift hkey)
    rw [Option.elim_some]
    cases hshift : shift.apply s with
    | error e => simpa [hshift, Except.toOption] using hiff
    | ok t => simpa [hshift, Except.toOption] using hiff

/-- Over any keys whose dates fit the year type, the picker is on a real date at a real time
exactly as long as no key shifts by months to the last month; two shifts by days are one and
the opposite shift undoes one; `days_in_month` is the length of every month but that last one;
the conversions are those of the registry. -/
theorem stays_on_dates (s : DatePickerState) (keys : List KeyEvent) (hs : s.Valid)
    (hin : Throughout press KeyInYears s keys) :
    ((∀ before, before <+: keys → ∃ t, replay press s before = some t ∧ t.Valid) ↔
      Throughout press (fun t key ↦ ¬KeyToLastMonth t key) s keys) ∧
    (∀ a b, Shift.InYears s (.days a) →
      (s.shiftDay a).shiftDay b = s.shiftDay (a + b) ∧ (s.shiftDay a).shiftDay (-a) = s) ∧
    (∀ year month, InYears ((year * 12 + month) / 12) →
      (daysInMonth year month =
          monthLength ((year * 12 + month) / 12) ((year * 12 + month) % 12 + 1) ↔
        year * 12 + month ≠ 2 ^ 31 * 12 - 1)) ∧
    (∀ y m d, 1 ≤ m ∧ m ≤ 12 → daysFromCivil y m d = Registry.daysFromCivil y m d) ∧
    ∀ z, civilFromDays z = Registry.civilFromDays z := by
  refine ⟨?_, fun a b ha ↦ ⟨?_, ?_⟩, fun year month hin ↦ ⟨?_, ?_⟩,
    fun y m d hm ↦ daysFromCivil_eq d hm, civilFromDays_eq⟩
  · exact forall_replay_iff (fun _ _ ht hkey ↦ press_valid_iff ht hkey) hs hin
  · exact DatePickerState.shiftDay_shiftDay hs b ha
  · rw [DatePickerState.shiftDay_shiftDay hs _ ha, Int.add_right_neg,
      DatePickerState.shiftDay_zero hs]
  · intro hlen hlast
    rw [daysInMonth_last hlast] at hlen
    have hpos := monthLength_pos ((year * 12 + month) / 12) ((year * 12 + month) % 12 + 1)
    omega
  · exact daysInMonth_eq hin

/-- The day after 28 February 2024 is the leap day. -/
theorem stays_on_dates_leapDay :
    (∀ before, before <+: [KeyEvent.mk "right" none false false false] →
      ∃ t, replay press ⟨2024, 1, 28, 12, 30⟩ before = some t ∧ t.Valid) ↔
        Throughout press (fun t key ↦ ¬KeyToLastMonth t key) ⟨2024, 1, 28, 12, 30⟩
          [KeyEvent.mk "right" none false false false] := by
  refine (stays_on_dates _ _ ⟨by decide, by decide, by decide, by decide⟩
    (throughout_cons.2 ⟨fun shift hshift ↦ ?_, fun _ _ ↦ throughout_nil⟩)).1
  obtain rfl : Shift.days 1 = shift := Option.some.inj hshift
  exact ⟨by decide, by decide⟩

/-- In November of the last year, `]` asks for December and stops the picker. -/
theorem december_stops :
    press ⟨2147483647, 10, 15, 0, 0⟩ ⟨"]", none, false, false, false⟩ = none ∧
      daysInMonth 2147483647 11 = -1041529539 ∧
      ¬∀ s keys, DatePickerState.Valid s → Throughout press KeyInYears s keys →
        ∀ before, before <+: keys → ∃ t, replay press s before = some t ∧ t.Valid := by
  have hpress : press ⟨2147483647, 10, 15, 0, 0⟩ ⟨"]", none, false, false, false⟩ = none := by
    decide
  refine ⟨hpress, by decide, fun hall ↦ ?_⟩
  obtain ⟨t, ht, -⟩ := hall ⟨2147483647, 10, 15, 0, 0⟩ [⟨"]", none, false, false, false⟩]
    ⟨by decide, by decide, by decide, by decide⟩
    (throughout_cons.2 ⟨fun shift hshift ↦ by
      obtain rfl : Shift.months 1 = shift := Option.some.inj hshift
      exact ⟨by decide, by decide⟩, fun _ _ ↦ throughout_nil⟩) _ List.prefix_rfl
  rw [replay, hpress] at ht
  cases ht

end PtySpec.Tui
