/-
FAT timestamps: `fat_time_fat2unix` and `fat_time_unix2fat` (fat_misc.c), with a 64-bit `time_t`.

A date counts days from 1980; 2100 is not a leap year. The second of a timestamp in its time zone is computed by a
subtraction of a `time_t` from the offset of the time zone, which is computed as an `int`.
- `yearOf_spec`, `monthOf_spec`, `monthOf_day`: the two calendar conversions are inverse to each other;
- `fatTimeFat2unix_words`, `fatTimeUnix2fat_inside`: a timestamp between 1980 and 2108 as a count of days and a time of day;
- `fatTime_right`: exactly the timestamps whose local second can be computed come back truncated, or as the nearest one;
  valid words always come back.
-/
import AtsLdd.Core.Machine

namespace AtsLdd.Fat

open AtsLdd.Machine

/-! ## The conversions -/

def SECS_PER_MIN : ℤ := 60
def SECS_PER_HOUR : ℤ := 60 * 60
def SECS_PER_DAY : ℤ := SECS_PER_HOUR * 24
def UNIX_SECS_1980 : ℤ := 315532800
def UNIX_SECS_2108 : ℤ := 4354819200

/-- days between 1.1.70 and 1.1.80 -/
def DAYS_DELTA : ℤ := 365 * 10 + 2

/-- 2100, from 1980 on -/
def YEAR_2100 : ℤ := 120

/-- `IS_LEAP_YEAR`, for a year from 1980 on -/
def IsLeapYear (y : ℤ) : Prop := y % 4 = 0 ∧ y ≠ YEAR_2100

instance (y : ℤ) : Decidable (IsLeapYear y) := inferInstanceAs (Decidable (_ ∧ _))

/-- `days_in_year`: the day of the year on which month `m` begins, without a 29 February -/
def daysInYear (m : ℕ) : ℤ := [0, 0, 31, 59, 90, 120, 151, 181, 212, 243, 273, 304, 334, 0, 0, 0].getD m 0

/-- `struct timespec` -/
structure Timespec where
  sec : ℤ
  nsec : ℤ
  deriving DecidableEq

/-- the time zone: whether the volume is mounted with `tz=UTC`, and `sys_tz.tz_minuteswest` -/
structure TimeZone where
  tzUtc : Bool
  minuteswest : ℤ
  minuteswest_min : -2 ^ 31 ≤ minuteswest
  minuteswest_max : minuteswest < 2 ^ 31

/-- the words of a timestamp, as `fat_time_unix2fat` encodes it -/
structure FatTime where
  time : ℕ
  date : ℕ
  deriving DecidableEq

/-- the words of a timestamp, and the byte that counts the hundredths of its 2 seconds -/
structure FatStamp extends FatTime where
  timeCs : ℕ
  deriving DecidableEq

/-- the offset of the time zone in seconds -/
def TimeZone.offset (tz : TimeZone) : ℤ := int32 (tz.minuteswest * SECS_PER_MIN)

/-- the days 29 February between 1980 and year `y` -/
def leapDays (y : ℤ) : ℤ := if YEAR_2100 < y then (y + 3).tdiv 4 - 1 else (y + 3).tdiv 4

/-- `fat_time_fat2unix` -/
def fatTimeFat2unix (tz : TimeZone) (t : FatTime) (timeCs : ℕ) : Timespec :=
  let year : ℤ := (t.date >>> 9 : ℕ)
  let month := max 1 ((t.date >>> 5) &&& 0xf)
  let day : ℤ := (max 1 (t.date &&& 0x1f) : ℕ) - 1
  let leapDay := if IsLeapYear year ∧ 2 < month then leapDays year + 1 else leapDays year
  let second : ℤ := ((t.time &&& 0x1f) <<< 1 : ℕ)
  let second := second + ((t.time >>> 5) &&& 0x3f : ℕ) * SECS_PER_MIN
  let second := second + (t.time >>> 11 : ℕ) * SECS_PER_HOUR
  let second := second + (year * 365 + leapDay + daysInYear month + day + DAYS_DELTA) * SECS_PER_DAY
  let second := if tz.tzUtc then second else int64 (second + tz.offset)
  if timeCs ≠ 0 then ⟨int64 (second + (timeCs / 100 : ℕ)), (timeCs % 100 * 10000000 : ℕ)⟩ else ⟨second, 0⟩

/-- the year of a day from 1980 on: `day / 365`, or the one before -/
def yearOf (day : ℤ) : ℤ :=
  let year := day.tdiv 365
  if year * 365 + leapDays year > day then year - 1 else year

/-- the month of a day of the year, and the day in a year without a 29 February -/
def monthOf (leap : Bool) (day : ℤ) : ℕ × ℤ :=
  if leap = true ∧ day = daysInYear 3 then (2, day)
  else
    let day := if leap = true ∧ day > daysInYear 3 then day - 1 else day
    (((List.range' 1 11).find? fun month => decide (daysInYear (month + 1) > day)).getD 12, day)

/-- `fat_time_unix2fat` -/
def fatTimeUnix2fat (tz : TimeZone) (ts : Timespec) : FatStamp :=
  let second := if tz.tzUtc then ts.sec else int64 (ts.sec - tz.offset)
  if second < UNIX_SECS_1980 then ⟨⟨0, 0 <<< 9 ||| 1 <<< 5 ||| 1⟩, 0⟩
  else if second ≥ UNIX_SECS_2108 then ⟨⟨23 <<< 11 ||| 59 <<< 5 ||| 29, 127 <<< 9 ||| 12 <<< 5 ||| 31⟩, 199⟩
  else
    let day := second.tdiv SECS_PER_DAY - DAYS_DELTA
    let year := yearOf day
    let (month, day) := monthOf (IsLeapYear year) (day - (year * 365 + leapDays year))
    let day := day - daysInYear month
    { time := (((second.tdiv SECS_PER_HOUR).tmod 24).toNat <<< 11 ||| ((second.tdiv SECS_PER_MIN).tmod 60).toNat <<< 5 |||
        (second.tmod SECS_PER_MIN).toNat >>> 1) % 2 ^ 16
      date := (year.toNat <<< 9 ||| month <<< 5 ||| (day + 1).toNat) % 2 ^ 16
      timeCs := ((ts.sec % 2 * 100 + ts.nsec.tdiv 10000000) % 2 ^ 8).toNat }

/-! ## The calendar -/

/-- the days before year `y`, from 1980 on -/
def yearStart (y : ℤ) : ℤ := y * 365 + leapDays y

theorem yearStart_eq {y : ℤ} (h : 0 ≤ y) : yearStart y = y * 365 + (y + 3) / 4 - if 120 < y then 1 else 0 := by
  unfold yearStart leapDays YEAR_2100
  rw [Int.tdiv_eq_ediv_of_nonneg (by omega)]
  split_ifs <;> omega

/-- a year has 365 days, and one more when it is a leap year -/
theorem yearStart_succ {y : ℤ} (h : 0 ≤ y) : yearStart (y + 1) = yearStart y + 365 + if IsLeapYear y then 1 else 0 := by
  unfold IsLeapYear YEAR_2100
  rw [yearStart_eq h, yearStart_eq (by omega)]
  split_ifs <;> omega

/-- **The year of a day** before 2108. -/
theorem yearOf_spec {d : ℤ} (h0 : 0 ≤ d) (h1 : d < 46751) :
    0 ≤ yearOf d ∧ yearOf d < 128 ∧ yearStart (yearOf d) ≤ d ∧ d < yearStart (yearOf d + 1) := by
  have hpos : 0 ≤ d / 365 := Int.ediv_nonneg h0 (by norm_num)
  have hyear : yearOf d = if yearStart (d / 365) > d then d / 365 - 1 else d / 365 := by
    unfold yearOf
    rw [Int.tdiv_eq_ediv_of_nonneg h0]
    rfl
  have hstart := yearStart_eq hpos
  by_cases hd : yearStart (d / 365) > d
  · have hq : 0 ≤ d / 365 - 1 := by
      by_contra hneg
      have hzero : d / 365 = 0 := by omega
      rw [hzero] at hd
      exact absurd hd (not_lt.2 h0)
    have hprev := yearStart_eq hq
    rw [hyear, if_pos hd, sub_add_cancel]
    refine ⟨hq, by omega, ?_, hd⟩
    rw [hprev]
    split_ifs <;> omega
  · have hnext := yearStart_eq (show 0 ≤ d / 365 + 1 by omega)
    rw [hyear, if_neg hd]
    refine ⟨hpos, ?_, not_lt.1 hd, ?_⟩
    · by_contra hlarge
      have h128 : d / 365 = 128 := by omega
      rw [h128] at hstart hd
      norm_num at hstart
      omega
    · rw [hnext]
      split_ifs <;> omega

/-- a day is in one year -/
theorem yearOf_unique {y d : ℤ} (h0 : 0 ≤ y) (h1 : y < 128) (h2 : yearStart y ≤ d) (h3 : d < yearStart (y + 1)) :
    yearOf d = y := by
  have hd0 : 0 ≤ d := by
    rw [yearStart_eq h0] at h2
    split_ifs at h2 <;> omega
  have hd1 : d < 46751 := by
    rw [yearStart_eq (by omega)] at h3
    split_ifs at h3 <;> omega
  obtain ⟨hy0, hy1, hy2, hy3⟩ := yearOf_spec hd0 hd1
  generalize yearOf d = x at hy0 hy1 hy2 hy3
  rw [yearStart_eq h0] at h2
  rw [yearStart_eq (show 0 ≤ y + 1 by omega)] at h3
  rw [yearStart_eq hy0] at hy2
  rw [yearStart_eq (show 0 ≤ x + 1 by omega)] at hy3
  split_ifs at h2 h3 hy2 hy3 <;> omega

/-- the days of month `m`, with a 29 February when the year is a leap year -/
def daysInMonth (leap : Bool) (m : ℕ) : ℤ :=
  if m = 2 then if leap then 29 else 28 else if m = 12 then 31 else daysInYear (m + 1) - daysInYear m

/-- the day of the year of day `d` of month `m`, from 0 on -/
def dayOfYear (leap : Bool) (m : ℕ) (d : ℤ) : ℤ := daysInYear m + (d - 1) + if leap ∧ 2 < m then 1 else 0

/-- the month of a day and the day of the month, from 1 on, that `fat_time_unix2fat` finds -/
def monthDay (leap : Bool) (day : ℤ) : ℕ × ℤ := ((monthOf leap day).1, (monthOf leap day).2 - daysInYear (monthOf leap day).1 + 1)

/-- **The month of a day.** -/
theorem monthDay_spec : ∀ (leap : Bool) (n : ℕ), n < 366 → (n = 365 → leap = true) →
    1 ≤ (monthDay leap n).1 ∧ (monthDay leap n).1 ≤ 12 ∧ 1 ≤ (monthDay leap n).2 ∧
      (monthDay leap n).2 ≤ daysInMonth leap (monthDay leap n).1 ∧
      dayOfYear leap (monthDay leap n).1 (monthDay leap n).2 = n := by
  decide +kernel

/-- **The day of a month.** -/
theorem monthDay_dayOfYear : ∀ (leap : Bool) (m : ℕ), m < 13 → ∀ d : ℕ, d < 32 → 1 ≤ m ∧ 1 ≤ d ∧ (d : ℤ) ≤ daysInMonth leap m →
    monthDay leap (dayOfYear leap m d) = (m, (d : ℤ)) ∧ 0 ≤ dayOfYear leap m d ∧ dayOfYear leap m d < 365 + if leap then 1 else 0 := by
  decide +kernel

/-! ## Words -/

theorem shiftLeft_or {a b i : ℕ} (h : b < 2 ^ i) : a <<< i ||| b = a * 2 ^ i + b := by
  rw [← Nat.shiftLeft_add_eq_or_of_lt h, Nat.shiftLeft_eq]

/-- three fields of a word, the last one of 5 bits -/
theorem pack_eq {a b c i : ℕ} (hb : b < 2 ^ i) (hc : c < 2 ^ 5) : a <<< (i + 5) ||| b <<< 5 ||| c = (a * 2 ^ i + b) * 2 ^ 5 + c := by
  have hfirst : a <<< (i + 5) ||| b <<< 5 = (a * 2 ^ i + b) <<< 5 := by
    rw [← shiftLeft_or hb, Nat.shiftLeft_or_distrib, ← Nat.shiftLeft_add]
  rw [hfirst, shiftLeft_or hc]

/-- the local second that the words stand for -/
def FatTime.second (t : FatTime) : ℤ :=
  (yearStart (t.date / 512 : ℕ) + dayOfYear (IsLeapYear (t.date / 512 : ℕ)) (max 1 (t.date / 32 % 16)) (max 1 (t.date % 32) : ℕ) +
    DAYS_DELTA) * SECS_PER_DAY + (t.time / 2048 : ℕ) * SECS_PER_HOUR + (t.time / 32 % 64 : ℕ) * SECS_PER_MIN +
    2 * (t.time % 32 : ℕ)

/-- a time of day and a day of the calendar between 1980 and 2107 -/
structure FatTime.Valid (t : FatTime) : Prop where
  hour : t.time / 2048 < 24
  minute : t.time / 32 % 64 < 60
  second : t.time % 32 < 30
  year : t.date / 512 < 128
  month_min : 1 ≤ t.date / 32 % 16
  month_max : t.date / 32 % 16 ≤ 12
  day_min : 1 ≤ t.date % 32
  day_max : (t.date % 32 : ℕ) ≤ daysInMonth (IsLeapYear (t.date / 512 : ℕ)) (t.date / 32 % 16)

/-- the words of a local second between 1980 and 2108 -/
def localWords (second : ℤ) : FatTime :=
  let day := second.tdiv SECS_PER_DAY - DAYS_DELTA
  let md := monthDay (IsLeapYear (yearOf day)) (day - yearStart (yearOf day))
  { time := (((second.tdiv SECS_PER_HOUR).tmod 24).toNat <<< 11 ||| ((second.tdiv SECS_PER_MIN).tmod 60).toNat <<< 5 |||
      (second.tmod SECS_PER_MIN).toNat >>> 1) % 2 ^ 16
    date := ((yearOf day).toNat <<< 9 ||| md.1 <<< 5 ||| md.2.toNat) % 2 ^ 16 }

/-- the second of a timestamp in the time zone, as it is computed -/
def TimeZone.localSecond (tz : TimeZone) (ts : Timespec) : ℤ := if tz.tzUtc then ts.sec else int64 (ts.sec - tz.offset)

/-- the second in UTC of a second in the time zone, as it is computed -/
def TimeZone.utcSecond (tz : TimeZone) (second : ℤ) : ℤ := if tz.tzUtc then second else int64 (second + tz.offset)

theorem fatTimeUnix2fat_eq (tz : TimeZone) (ts : Timespec) : fatTimeUnix2fat tz ts =
    if tz.localSecond ts < UNIX_SECS_1980 then ⟨⟨0, 33⟩, 0⟩
    else if UNIX_SECS_2108 ≤ tz.localSecond ts then ⟨⟨49021, 65439⟩, 199⟩
    else ⟨localWords (tz.localSecond ts), ((ts.sec % 2 * 100 + ts.nsec.tdiv 10000000) % 2 ^ 8).toNat⟩ := by
  unfold fatTimeUnix2fat localWords TimeZone.localSecond
  rfl

theorem fatTimeFat2unix_eq (tz : TimeZone) (t : FatTime) (timeCs : ℕ) : fatTimeFat2unix tz t timeCs =
    if timeCs ≠ 0 then ⟨int64 (tz.utcSecond t.second + (timeCs / 100 : ℕ)), (timeCs % 100 * 10000000 : ℕ)⟩
    else ⟨tz.utcSecond t.second, 0⟩ := by
  have hyear : t.date >>> 9 = t.date / 512 := Nat.shiftRight_eq_div_pow _ _
  have hmonth : (t.date >>> 5) &&& 0xf = t.date / 32 % 16 := by
    rw [Nat.shiftRight_eq_div_pow]
    exact Nat.and_two_pow_sub_one_eq_mod _ 4
  have hday : t.date &&& 0x1f = t.date % 32 := Nat.and_two_pow_sub_one_eq_mod _ 5
  have hhour : t.time >>> 11 = t.time / 2048 := Nat.shiftRight_eq_div_pow _ _
  have hmin : (t.time >>> 5) &&& 0x3f = t.time / 32 % 64 := by
    rw [Nat.shiftRight_eq_div_pow]
    exact Nat.and_two_pow_sub_one_eq_mod _ 6
  have hsec : (t.time &&& 0x1f) <<< 1 = 2 * (t.time % 32) := by
    rw [Nat.shiftLeft_eq, Nat.and_two_pow_sub_one_eq_mod _ 5, Nat.mul_comm]
  have hsecond : ((2 * (t.time % 32) : ℕ) : ℤ) + (t.time / 32 % 64 : ℕ) * SECS_PER_MIN + (t.time / 2048 : ℕ) * SECS_PER_HOUR +
      ((t.date / 512 : ℕ) * 365 + (if IsLeapYear (t.date / 512 : ℕ) ∧ 2 < max 1 (t.date / 32 % 16) then leapDays (t.date / 512 : ℕ) + 1
        else leapDays (t.date / 512 : ℕ)) + daysInYear (max 1 (t.date / 32 % 16)) + ((max 1 (t.date % 32) : ℕ) - 1) + DAYS_DELTA) *
        SECS_PER_DAY = t.second := by
    unfold FatTime.second yearStart dayOfYear
    simp only [decide_eq_true_eq]
    split_ifs <;> (push_cast; ring)
  unfold fatTimeFat2unix
  simp only [hyear, hmonth, hday, hhour, hmin, hsec, hsecond]
  rfl

section
variable {L : ℤ}

/-- the words of a local second, field by field -/
theorem localWords_eq (h0 : UNIX_SECS_1980 ≤ L) (h1 : L < UNIX_SECS_2108) :
    ∃ y m d : ℕ, yearOf (L / 86400 - 3652) = y ∧
      monthDay (IsLeapYear y) (L / 86400 - 3652 - yearStart y) = (m, (d : ℤ)) ∧ y < 128 ∧ 1 ≤ m ∧ m ≤ 12 ∧ 1 ≤ d ∧ d < 32 ∧
      (d : ℤ) ≤ daysInMonth (IsLeapYear y) m ∧ yearStart y + dayOfYear (IsLeapYear y) m d = L / 86400 - 3652 ∧
      localWords L = ⟨((L / 3600 % 24).toNat * 2 ^ 6 + (L / 60 % 60).toNat) * 2 ^ 5 + (L % 60 / 2).toNat,
        (y * 2 ^ 4 + m) * 2 ^ 5 + d⟩ := by
  unfold UNIX_SECS_1980 at h0
  unfold UNIX_SECS_2108 at h1
  have hL : 0 ≤ L := by omega
  obtain ⟨hy0, hy1, hy2, hy3⟩ := yearOf_spec (d := L / 86400 - 3652) (by omega) (by omega)
  obtain ⟨y, hy⟩ := Int.eq_ofNat_of_zero_le hy0
  rw [hy] at hy1 hy2 hy3
  rw [yearStart_succ (by omega)] at hy3
  -- the day of the year
  obtain ⟨n, hn⟩ := Int.eq_ofNat_of_zero_le (show 0 ≤ L / 86400 - 3652 - yearStart y by omega)
  have hlt : n < 366 := by
    split_ifs at hy3 <;> omega
  have hleap : n = 365 → decide (IsLeapYear y) = true := by
    intro h
    by_contra hno
    rw [if_neg (by simpa using hno)] at hy3
    omega
  obtain ⟨hm1, hm12, hd1, hdm, hdoy⟩ := monthDay_spec (IsLeapYear y) n hlt hleap
  obtain ⟨d, hd⟩ := Int.eq_ofNat_of_zero_le (show 0 ≤ (monthDay (IsLeapYear y) n).2 by omega)
  rw [hd] at hd1 hdm hdoy
  have hd31 : ∀ (leap : Bool) (m : ℕ), m < 13 → daysInMonth leap m ≤ 31 := by decide
  have hd32 := hd31 (IsLeapYear y) _ (Nat.lt_succ_of_le hm12)
  refine ⟨y, (monthDay (IsLeapYear y) n).1, d, hy, ?_, by omega, hm1, hm12, by omega, by omega, hdm, by omega, ?_⟩
  · rw [hn, ← hd]
  · have hsec : L.tdiv SECS_PER_DAY - DAYS_DELTA = L / 86400 - 3652 := by
      rw [Int.tdiv_eq_ediv_of_nonneg hL]
      rfl
    have hhour : (L.tdiv SECS_PER_HOUR).tmod 24 = L / 3600 % 24 := by
      rw [Int.tdiv_eq_ediv_of_nonneg hL]
      exact Int.tmod_eq_emod_of_nonneg (Int.ediv_nonneg hL (by decide))
    have hmin : (L.tdiv SECS_PER_MIN).tmod 60 = L / 60 % 60 := by
      rw [Int.tdiv_eq_ediv_of_nonneg hL]
      exact Int.tmod_eq_emod_of_nonneg (Int.ediv_nonneg hL (by decide))
    have hs : (L.tmod SECS_PER_MIN).toNat >>> 1 = (L % 60 / 2).toNat := by
      rw [Int.tmod_eq_emod_of_nonneg hL, Nat.shiftRight_eq_div_pow]
      unfold SECS_PER_MIN
      omega
    unfold localWords
    simp only [hsec, hhour, hmin, hs, hy, hn, hd]
    congr 1
    · rw [show (11 : ℕ) = 6 + 5 from rfl, pack_eq (by omega) (by omega)]
      omega
    · rw [show (9 : ℕ) = 4 + 5 from rfl, Int.toNat_natCast, Int.toNat_natCast, pack_eq (by omega) (by omega)]
      omega

/-- **The words of a local second** stand for it, rounded down to an even second. -/
theorem localWords_second (h0 : UNIX_SECS_1980 ≤ L) (h1 : L < UNIX_SECS_2108) : (localWords L).second = L - L % 2 := by
  obtain ⟨y, m, d, -, -, hy, hm1, hm12, hd1, hd32, -, hday, hwords⟩ := localWords_eq h0 h1
  unfold UNIX_SECS_1980 at h0
  have h1 : ((y * 2 ^ 4 + m) * 2 ^ 5 + d) / 512 = y := by omega
  have h2 : ((y * 2 ^ 4 + m) * 2 ^ 5 + d) / 32 % 16 = m := by omega
  have h3 : ((y * 2 ^ 4 + m) * 2 ^ 5 + d) % 32 = d := by omega
  rw [hwords]
  unfold FatTime.second
  simp only [h1, h2, h3, max_eq_right hm1, max_eq_right hd1, hday]
  unfold DAYS_DELTA SECS_PER_DAY SECS_PER_HOUR SECS_PER_MIN
  omega

theorem FatTime.Valid.second_eq {t : FatTime} (v : t.Valid) : t.second =
    (yearStart (t.date / 512 : ℕ) + dayOfYear (IsLeapYear (t.date / 512 : ℕ)) (t.date / 32 % 16) (t.date % 32 : ℕ) + 3652) * 86400 +
      ((t.time / 2048 : ℕ) * 3600 + (t.time / 32 % 64 : ℕ) * 60 + 2 * (t.time % 32 : ℕ)) := by
  unfold FatTime.second
  rw [max_eq_right v.month_min, max_eq_right v.day_min]
  unfold DAYS_DELTA SECS_PER_DAY SECS_PER_HOUR SECS_PER_MIN
  ring

/-- the day that valid words stand for -/
theorem FatTime.Valid.day {t : FatTime} (v : t.Valid) :
    monthDay (IsLeapYear (t.date / 512 : ℕ)) (dayOfYear (IsLeapYear (t.date / 512 : ℕ)) (t.date / 32 % 16) (t.date % 32 : ℕ)) =
        (t.date / 32 % 16, ((t.date % 32 : ℕ) : ℤ)) ∧
      yearOf (yearStart (t.date / 512 : ℕ) + dayOfYear (IsLeapYear (t.date / 512 : ℕ)) (t.date / 32 % 16) (t.date % 32 : ℕ)) =
        (t.date / 512 : ℕ) ∧
      0 ≤ yearStart (t.date / 512 : ℕ) + dayOfYear (IsLeapYear (t.date / 512 : ℕ)) (t.date / 32 % 16) (t.date % 32 : ℕ) ∧
      yearStart (t.date / 512 : ℕ) + dayOfYear (IsLeapYear (t.date / 512 : ℕ)) (t.date / 32 % 16) (t.date % 32 : ℕ) < 46751 := by
  obtain ⟨hmd, h0, h1⟩ := monthDay_dayOfYear (IsLeapYear (t.date / 512 : ℕ)) (t.date / 32 % 16) (Nat.lt_succ_of_le v.month_max)
    (t.date % 32) (Nat.mod_lt _ (by norm_num)) ⟨v.month_min, v.day_min, v.day_max⟩
  have hyear := v.year
  have hstart := yearStart_eq (y := (t.date / 512 : ℕ)) (by omega)
  have hnext := yearStart_succ (y := (t.date / 512 : ℕ)) (by omega)
  generalize t.date / 512 = y at *
  generalize dayOfYear _ _ _ = n at *
  have hlt : yearStart y + n < yearStart (y + 1 : ℤ) := by
    rw [hnext]
    simp only [decide_eq_true_eq] at h1
    omega
  refine ⟨hmd, yearOf_unique (by omega) (by omega) (by omega) hlt, ?_, ?_⟩
  · rw [hstart]
    split_ifs <;> omega
  · rw [yearStart_eq (show (0 : ℤ) ≤ y + 1 by omega)] at hlt
    split_ifs at hlt <;> omega

/-- a second as its day and its time of day -/
theorem time_of_day {D h m s e : ℤ} (hh0 : 0 ≤ h) (hh1 : h < 24) (hm0 : 0 ≤ m) (hm1 : m < 60) (hs0 : 0 ≤ s) (hs1 : s < 30)
    (he : e = 0 ∨ e = 1) {L : ℤ} (hL : L = D * 86400 + (h * 3600 + m * 60 + 2 * s) + e) :
    L / 86400 = D ∧ L / 3600 % 24 = h ∧ L / 60 % 60 = m ∧ L % 60 / 2 = s := by
  have hhour : L / 3600 = D * 24 + h := by omega
  have hmin : L / 60 = (D * 24 + h) * 60 + m := by omega
  refine ⟨by omega, ?_, ?_, by omega⟩
  · rw [hhour]
    omega
  · rw [hmin]
    omega

/-- **Valid words** are the words of the second that they stand for, and of the one behind it. -/
theorem FatTime.Valid.localWords_second {t : FatTime} (v : t.Valid) {e : ℤ} (he : e = 0 ∨ e = 1) :
    UNIX_SECS_1980 ≤ t.second + e ∧ t.second + e < UNIX_SECS_2108 ∧ t.second % 2 = 0 ∧ localWords (t.second + e) = t := by
  obtain ⟨hmd, hyear, hday0, hday1⟩ := v.day
  have hsecond := v.second_eq
  obtain ⟨hh, hm, hs, hy, -, -, -, -⟩ := v
  obtain ⟨hday, hhour, hmin, hsec⟩ := time_of_day (Int.natCast_nonneg (t.time / 2048)) (by omega)
    (Int.natCast_nonneg (t.time / 32 % 64)) (by omega) (Int.natCast_nonneg (t.time % 32)) (by omega) he
    (congrArg (· + e) hsecond)
  have heven : t.second % 2 = 0 := by omega
  have h0 : UNIX_SECS_1980 ≤ t.second + e := by
    unfold UNIX_SECS_1980
    omega
  have h1 : t.second + e < UNIX_SECS_2108 := by
    unfold UNIX_SECS_2108
    omega
  refine ⟨h0, h1, heven, ?_⟩
  obtain ⟨y, m, d, hy', hmd', -, -, -, -, -, -, -, hwords⟩ := localWords_eq h0 h1
  rw [hday, add_sub_cancel_right] at hy' hmd'
  have hyy : t.date / 512 = y := by
    rw [hyear] at hy'
    exact_mod_cast hy'
  rw [← hyy, add_sub_cancel_left, hmd, Prod.mk.injEq, Nat.cast_inj] at hmd'
  rw [hwords, hhour, hmin, hsec]
  have hdate : (y * 2 ^ 4 + m) * 2 ^ 5 + d = t.date := by omega
  have htime : ((t.time / 2048 : ℕ) : ℤ).toNat * 2 ^ 6 + ((t.time / 32 % 64 : ℕ) : ℤ).toNat = t.time / 32 := by omega
  have htime' : t.time / 32 * 2 ^ 5 + ((t.time % 32 : ℕ) : ℤ).toNat = t.time := by omega
  rw [hdate, htime, htime']

end

/-! ## There and back -/

/-- a `struct timespec` that is a point in time -/
structure Timespec.Valid (ts : Timespec) : Prop where
  sec_min : -2 ^ 63 ≤ ts.sec
  sec_max : ts.sec < 2 ^ 63
  nsec_min : 0 ≤ ts.nsec
  nsec_max : ts.nsec < 1000000000

instance : LE Timespec := ⟨fun a b => a.sec < b.sec ∨ a.sec = b.sec ∧ a.nsec ≤ b.nsec⟩

theorem Timespec.mk_le {a b c d : ℤ} : (⟨a, b⟩ : Timespec) ≤ ⟨c, d⟩ ↔ a < c ∨ a = c ∧ b ≤ d := Iff.rfl

/-- what comes back from the words and the hundredths of a timestamp -/
def TimeZone.roundTrip (tz : TimeZone) (ts : Timespec) : Timespec :=
  fatTimeFat2unix tz (fatTimeUnix2fat tz ts).toFatTime (fatTimeUnix2fat tz ts).timeCs

/-- what comes back from the words of a timestamp -/
def TimeZone.roundTripEven (tz : TimeZone) (ts : Timespec) : Timespec := fatTimeFat2unix tz (fatTimeUnix2fat tz ts).toFatTime 0

/-- the offset of the time zone that is added and subtracted -/
def TimeZone.shift (tz : TimeZone) : ℤ := if tz.tzUtc then 0 else tz.offset

section
variable {tz : TimeZone} {ts ts' : Timespec} {L : ℤ}

theorem TimeZone.shift_bounds (tz : TimeZone) : -2 ^ 31 ≤ tz.shift ∧ tz.shift < 2 ^ 31 ∧ tz.shift % 2 = 0 := by
  unfold TimeZone.shift TimeZone.offset SECS_PER_MIN
  split_ifs
  · norm_num
  · obtain ⟨h1, h2⟩ := int32_bounds (tz.minuteswest * 60)
    refine ⟨h1, h2, ?_⟩
    unfold int32 Int.bmod
    norm_num
    split_ifs <;> omega

/-- a second between 1980 and 2108 can be computed in UTC -/
theorem TimeZone.utcSecond_eq (tz : TimeZone) (h0 : 0 ≤ L) (h1 : L < 2 ^ 33) : tz.utcSecond L = L + tz.shift := by
  obtain ⟨hs0, hs1, -⟩ := tz.shift_bounds
  unfold TimeZone.utcSecond
  unfold TimeZone.shift at hs0 hs1 ⊢
  by_cases hutc : tz.tzUtc = true
  · rw [if_pos hutc, if_pos hutc, add_zero]
  · rw [if_neg hutc] at hs0 hs1 ⊢
    rw [if_neg hutc]
    exact int64_of_bounds (by omega) (by omega)

/-- the local second has the parity of the second -/
theorem TimeZone.localSecond_parity (tz : TimeZone) (ts : Timespec) : tz.localSecond ts % 2 = ts.sec % 2 := by
  obtain ⟨-, -, hs⟩ := tz.shift_bounds
  unfold TimeZone.localSecond
  unfold TimeZone.shift at hs
  by_cases hutc : tz.tzUtc = true
  · rw [if_pos hutc]
  · rw [if_neg hutc] at hs ⊢
    unfold int64 Int.bmod
    norm_num
    split_ifs <;> omega

/-- **What comes back**, for the local second that was computed. -/
theorem TimeZone.roundTrip_eq (tz : TimeZone) (hv : ts.Valid) :
    tz.roundTrip ts = (if tz.localSecond ts < UNIX_SECS_1980 then ⟨UNIX_SECS_1980 + tz.shift, 0⟩
      else if UNIX_SECS_2108 ≤ tz.localSecond ts then ⟨UNIX_SECS_2108 - 1 + tz.shift, 990000000⟩
      else ⟨tz.localSecond ts + tz.shift, ts.nsec - ts.nsec % 10000000⟩) ∧
    tz.roundTripEven ts = (if tz.localSecond ts < UNIX_SECS_1980 then ⟨UNIX_SECS_1980 + tz.shift, 0⟩
      else if UNIX_SECS_2108 ≤ tz.localSecond ts then ⟨UNIX_SECS_2108 - 2 + tz.shift, 0⟩
      else ⟨tz.localSecond ts - tz.localSecond ts % 2 + tz.shift, 0⟩) := by
  obtain ⟨hs0, hs1, hs2⟩ := tz.shift_bounds
  have hparity := tz.localSecond_parity ts
  unfold TimeZone.roundTrip TimeZone.roundTripEven
  rw [fatTimeUnix2fat_eq]
  generalize tz.localSecond ts = L at hparity ⊢
  by_cases hlow : L < UNIX_SECS_1980
  · have hsecond : FatTime.second ⟨0, 33⟩ = UNIX_SECS_1980 := by decide
    simp only [if_pos hlow]
    rw [fatTimeFat2unix_eq, hsecond, tz.utcSecond_eq (by decide) (by decide)]
    exact ⟨rfl, rfl⟩
  by_cases hhigh : UNIX_SECS_2108 ≤ L
  · have hsecond : FatTime.second ⟨49021, 65439⟩ = UNIX_SECS_2108 - 2 := by decide
    simp only [if_neg hlow, if_pos hhigh]
    rw [fatTimeFat2unix_eq, fatTimeFat2unix_eq, hsecond, tz.utcSecond_eq (by decide) (by decide)]
    refine ⟨?_, rfl⟩
    rw [if_pos (by norm_num), int64_of_bounds (by unfold UNIX_SECS_2108; omega) (by unfold UNIX_SECS_2108; omega)]
    congr 1
    norm_num
    ring
  · rw [not_lt] at hlow
    rw [not_le] at hhigh
    have hsecond := localWords_second hlow hhigh
    simp only [if_neg (not_lt.2 hlow), if_neg (not_le.2 hhigh)]
    rw [fatTimeFat2unix_eq, fatTimeFat2unix_eq, hsecond]
    unfold UNIX_SECS_1980 at hlow
    unfold UNIX_SECS_2108 at hhigh
    rw [tz.utcSecond_eq (by omega) (by omega)]
    obtain ⟨-, -, hn0, hn1⟩ := hv
    have hnsec : ts.nsec.tdiv 10000000 = ts.nsec / 10000000 := Int.tdiv_eq_ediv_of_nonneg hn0
    have hcs : ((ts.sec % 2 * 100 + ts.nsec.tdiv 10000000) % 2 ^ 8).toNat = (ts.sec % 2 * 100 + ts.nsec / 10000000).toNat := by
      rw [hnsec, Int.emod_eq_of_lt (by omega) (by omega)]
    refine ⟨?_, rfl⟩
    rw [hcs]
    by_cases hzero : (ts.sec % 2 * 100 + ts.nsec / 10000000).toNat ≠ 0
    · rw [if_pos hzero, int64_of_bounds (by omega) (by omega)]
      congr 1 <;> omega
    · rw [if_neg hzero]
      congr 1 <;> omega

/-- **Valid words come back.** -/
theorem fatTimeUnix2fat_fat2unix (tz : TimeZone) {t : FatTime} (v : t.Valid) {cs : ℕ} (hcs : cs < 200) :
    fatTimeUnix2fat tz (fatTimeFat2unix tz t cs) = ⟨t, cs⟩ := by
  obtain ⟨hs0, hs1, hs2⟩ := tz.shift_bounds
  have he : ((cs / 100 : ℕ) : ℤ) = 0 ∨ ((cs / 100 : ℕ) : ℤ) = 1 := by omega
  obtain ⟨h0, h1, heven, hwords⟩ := v.localWords_second he
  have hts : fatTimeFat2unix tz t cs = ⟨t.second + tz.shift + (cs / 100 : ℕ), (cs % 100 * 10000000 : ℕ)⟩ := by
    unfold UNIX_SECS_1980 at h0
    unfold UNIX_SECS_2108 at h1
    rw [fatTimeFat2unix_eq, tz.utcSecond_eq (by omega) (by omega)]
    by_cases hzero : cs ≠ 0
    · rw [if_pos hzero, int64_of_bounds (by omega) (by omega)]
    · rw [if_neg hzero, not_not.1 hzero]
      simp
  have hlocal : tz.localSecond ⟨t.second + tz.shift + (cs / 100 : ℕ), (cs % 100 * 10000000 : ℕ)⟩ = t.second + (cs / 100 : ℕ) := by
    unfold UNIX_SECS_1980 at h0
    unfold UNIX_SECS_2108 at h1
    unfold TimeZone.localSecond
    unfold TimeZone.shift at hs0 hs1 ⊢
    by_cases hutc : tz.tzUtc = true
    · rw [if_pos hutc, if_pos hutc, add_zero]
    · rw [if_neg hutc] at hs0 hs1 ⊢
      rw [if_neg hutc, int64_of_bounds (by simp only; omega) (by simp only; omega)]
      simp only
      ring
  rw [hts, fatTimeUnix2fat_eq, hlocal, if_neg (not_lt.2 h0), if_neg (not_le.2 h1), hwords]
  congr 1
  simp only
  rw [Int.tdiv_eq_ediv_of_nonneg (by omega)]
  omega

/-! ## Timestamps whose local second can be computed -/

/-- the offset of the time zone in seconds, as a number -/
def TimeZone.west (tz : TimeZone) : ℤ := if tz.tzUtc then 0 else 60 * tz.minuteswest

/-- the second of a timestamp in the time zone, as a number -/
def TimeZone.localTime (tz : TimeZone) (ts : Timespec) : ℤ := ts.sec - tz.west

/-- the offset is an `int` and the local second a `time_t` -/
def TimeZone.Fits (tz : TimeZone) (ts : Timespec) : Prop :=
  (-2 ^ 31 ≤ tz.west ∧ tz.west < 2 ^ 31) ∧ -2 ^ 63 ≤ tz.localTime ts ∧ tz.localTime ts < 2 ^ 63

/-- the timestamp in steps of 10 ms, or the nearest one that there are words for -/
def TimeZone.nearest (tz : TimeZone) (ts : Timespec) : Timespec :=
  if tz.localTime ts < UNIX_SECS_1980 then ⟨UNIX_SECS_1980 + tz.west, 0⟩
  else if UNIX_SECS_2108 ≤ tz.localTime ts then ⟨UNIX_SECS_2108 - 1 + tz.west, 990000000⟩
  else ⟨ts.sec, ts.nsec - ts.nsec % 10000000⟩

/-- the same in steps of two seconds -/
def TimeZone.nearestEven (tz : TimeZone) (ts : Timespec) : Timespec :=
  if tz.localTime ts < UNIX_SECS_1980 then ⟨UNIX_SECS_1980 + tz.west, 0⟩
  else if UNIX_SECS_2108 ≤ tz.localTime ts then ⟨UNIX_SECS_2108 - 2 + tz.west, 0⟩
  else ⟨ts.sec - tz.localTime ts % 2, 0⟩

/-- a timestamp comes back as the nearest one, with and without the hundredths -/
def TimeZone.Faithful (tz : TimeZone) (ts : Timespec) : Prop :=
  tz.roundTrip ts = tz.nearest ts ∧ tz.roundTripEven ts = tz.nearestEven ts

/-- the encoding of the timestamps in `S` -/
structure TimesRight (tz : TimeZone) (S : Set Timespec) : Prop where
  /-- between 1980 and 2108 they come back truncated -/
  roundTrip : ∀ ts ∈ S, ts.Valid → UNIX_SECS_1980 ≤ tz.localTime ts → tz.localTime ts < UNIX_SECS_2108 →
    tz.roundTrip ts = ⟨ts.sec, ts.nsec - ts.nsec % 10000000⟩ ∧ tz.roundTripEven ts = ⟨ts.sec - tz.localTime ts % 2, 0⟩
  /-- valid words come back -/
  words : ∀ (t : FatTime) (cs : ℕ), t.Valid → cs < 200 → fatTimeUnix2fat tz (fatTimeFat2unix tz t cs) = ⟨t, cs⟩
  /-- the order is kept -/
  mono : ∀ ts ∈ S, ∀ ts' ∈ S, ts.Valid → ts'.Valid → ts ≤ ts' →
    tz.roundTrip ts ≤ tz.roundTrip ts' ∧ tz.roundTripEven ts ≤ tz.roundTripEven ts'

/-- what fits is computed right -/
theorem TimeZone.Fits.computed (h : tz.Fits ts) : tz.shift = tz.west ∧ tz.localSecond ts = tz.localTime ts := by
  obtain ⟨⟨hw0, hw1⟩, hl0, hl1⟩ := h
  unfold TimeZone.shift TimeZone.localSecond
  unfold TimeZone.localTime TimeZone.west at *
  by_cases hutc : tz.tzUtc = true
  · simp only [if_pos hutc, sub_zero]
    exact ⟨trivial, trivial⟩
  · rw [if_neg hutc] at hw0 hw1 hl0 hl1
    simp only [if_neg hutc]
    have hoff : tz.offset = 60 * tz.minuteswest := by
      unfold TimeZone.offset SECS_PER_MIN
      rw [mul_comm, int32_of_bounds hw0 hw1]
    rw [hoff]
    exact ⟨rfl, int64_of_bounds hl0 hl1⟩

/-- the offset that is used is the right one up to a multiple of `2 ^ 32`, the local second up to a multiple of `2 ^ 64` -/
theorem TimeZone.shift_west (tz : TimeZone) : ∃ k : ℤ, tz.west = tz.shift + k * 2 ^ 32 := by
  unfold TimeZone.west TimeZone.shift TimeZone.offset SECS_PER_MIN
  by_cases hutc : tz.tzUtc = true
  · exact ⟨0, by rw [if_pos hutc, if_pos hutc]; norm_num⟩
  · rw [if_neg hutc, if_neg hutc, mul_comm 60]
    exact ⟨_, (Int.bmod_add_bdiv' (tz.minuteswest * 60) (2 ^ 32)).symm⟩

theorem TimeZone.localSecond_mod (tz : TimeZone) (hv : ts.Valid) : -2 ^ 63 ≤ tz.localSecond ts ∧ tz.localSecond ts < 2 ^ 63 ∧
    ∃ k : ℤ, ts.sec - tz.shift = tz.localSecond ts + k * 2 ^ 64 := by
  unfold TimeZone.localSecond TimeZone.shift
  by_cases hutc : tz.tzUtc = true
  · rw [if_pos hutc, if_pos hutc]
    exact ⟨hv.sec_min, hv.sec_max, 0, by norm_num⟩
  · rw [if_neg hutc, if_neg hutc]
    exact ⟨Int.le_bmod (by norm_num), Int.bmod_lt (by norm_num), _, (Int.bmod_add_bdiv' (ts.sec - tz.offset) (2 ^ 64)).symm⟩

theorem faithful_of_fits (hv : ts.Valid) (h : tz.Fits ts) : tz.Faithful ts := by
  obtain ⟨hshift, hlocal⟩ := h.computed
  obtain ⟨h1, h2⟩ := tz.roundTrip_eq hv
  have hsec : tz.localTime ts + tz.west = ts.sec := sub_add_cancel _ _
  rw [hlocal, hshift] at h1 h2
  refine ⟨h1.trans ?_, h2.trans ?_⟩
  · unfold TimeZone.nearest
    rw [hsec]
  · unfold TimeZone.nearestEven
    rw [sub_add_eq_add_sub (tz.localTime ts), hsec]

/-- **What does not fit** comes back wrong. -/
theorem fits_of_faithful (hv : ts.Valid) (h : tz.Faithful ts) : tz.Fits ts := by
  obtain ⟨hs0, hs1, -⟩ := tz.shift_bounds
  obtain ⟨k, hk⟩ := tz.shift_west
  obtain ⟨hl0, hl1, j, hj⟩ := tz.localSecond_mod hv
  have hv0 := hv.sec_min
  have hv1 := hv.sec_max
  have hlocal : tz.localTime ts = ts.sec - tz.west := rfl
  have hsec : (tz.roundTrip ts).sec = (tz.nearest ts).sec := congrArg Timespec.sec h.1
  rw [(tz.roundTrip_eq hv).1] at hsec
  unfold TimeZone.nearest UNIX_SECS_1980 UNIX_SECS_2108 at hsec
  -- both times are between 1980 and 2108, so that the two offsets are less than 2 ^ 32 apart
  have hzero : k = 0 := by
    split_ifs at hsec <;> simp only at hsec <;> omega
  subst hzero
  have hj0 : j = 0 := by
    split_ifs at hsec <;> simp only at hsec <;> omega
  subst hj0
  unfold TimeZone.Fits
  omega

/-- the nearest timestamps are in the order of the timestamps -/
theorem nearest_mono (hv : ts.Valid) (hv' : ts'.Valid) (hle : ts ≤ ts') :
    tz.nearest ts ≤ tz.nearest ts' ∧ tz.nearestEven ts ≤ tz.nearestEven ts' := by
  obtain ⟨-, -, hn0, hn1⟩ := hv
  obtain ⟨-, -, hn0', hn1'⟩ := hv'
  have hsec : ts.sec = tz.localTime ts + tz.west := (sub_add_cancel _ _).symm
  have hsec' : ts'.sec = tz.localTime ts' + tz.west := (sub_add_cancel _ _).symm
  have hle : ts.sec < ts'.sec ∨ ts.sec = ts'.sec ∧ ts.nsec ≤ ts'.nsec := hle
  unfold TimeZone.nearest TimeZone.nearestEven UNIX_SECS_1980 UNIX_SECS_2108
  generalize tz.localTime ts = x at hsec ⊢
  generalize tz.localTime ts' = x' at hsec' ⊢
  constructor
  · split_ifs <;> rw [Timespec.mk_le] <;> omega
  · split_ifs <;> rw [Timespec.mk_le] <;> omega

/-- **The timestamps that fit** are encoded right. -/
theorem timesRight_fits (tz : TimeZone) {S : Set Timespec} (hS : ∀ ts ∈ S, ts.Valid → tz.Fits ts) : TimesRight tz S := by
  have hfaithful : ∀ ts ∈ S, ts.Valid → tz.Faithful ts := fun ts hts hv => faithful_of_fits hv (hS ts hts hv)
  refine ⟨fun ts hts hv h0 h1 => ?_, fun t cs v hcs => fatTimeUnix2fat_fat2unix tz v hcs, fun ts hts ts' hts' hv hv' hle => ?_⟩
  · obtain ⟨hr, hre⟩ := hfaithful ts hts hv
    rw [hr, hre, TimeZone.nearest, TimeZone.nearestEven, if_neg (not_lt.2 h0), if_neg (not_le.2 h1), if_neg (not_lt.2 h0),
      if_neg (not_le.2 h1)]
    exact ⟨rfl, rfl⟩
  · obtain ⟨hr, hre⟩ := hfaithful ts hts hv
    obtain ⟨hr', hre'⟩ := hfaithful ts' hts' hv'
    rw [hr, hre, hr', hre']
    exact nearest_mono hv hv' hle

/-- a time zone in which all timestamps are encoded right has an offset that is an `int` -/
theorem west_of_timesRight (h : TimesRight tz Set.univ) : -2 ^ 31 ≤ tz.west ∧ tz.west < 2 ^ 31 := by
  have hbounds : -2 ^ 31 * 60 ≤ tz.west ∧ tz.west < 2 ^ 31 * 60 := by
    have h1 := tz.minuteswest_min
    have h2 := tz.minuteswest_max
    unfold TimeZone.west
    split_ifs <;> omega
  -- the first second of 1980 in the time zone
  have hv : Timespec.Valid ⟨UNIX_SECS_1980 + tz.west, 0⟩ := by
    unfold UNIX_SECS_1980
    exact ⟨by simp only; omega, by simp only; omega, le_rfl, by norm_num⟩
  have hlocal : tz.localTime ⟨UNIX_SECS_1980 + tz.west, 0⟩ = UNIX_SECS_1980 := add_sub_cancel_right _ _
  obtain ⟨hr, hre⟩ := h.roundTrip _ (Set.mem_univ _) hv hlocal.ge (hlocal.trans_lt (by decide))
  refine (fits_of_faithful hv ⟨hr.trans ?_, hre.trans ?_⟩).1
  · rw [TimeZone.nearest, hlocal, if_neg (lt_irrefl _), if_neg (by decide)]
  · rw [TimeZone.nearestEven, hlocal, if_neg (lt_irrefl _), if_neg (by decide)]

/-- **All timestamps** are encoded right only when all fit. -/
theorem fits_of_timesRight (h : TimesRight tz Set.univ) (hv : ts.Valid) : tz.Fits ts := by
  obtain ⟨hw0, hw1⟩ := west_of_timesRight h
  refine ⟨⟨hw0, hw1⟩, ?_⟩
  by_contra hno
  -- the first two seconds of 1980 in the time zone
  have hvalid : ∀ e : ℤ, e = 0 ∨ e = 1 → Timespec.Valid ⟨UNIX_SECS_1980 + e + tz.west, 0⟩ := by
    intro e he
    unfold UNIX_SECS_1980
    exact ⟨by simp only; omega, by simp only; omega, le_rfl, by norm_num⟩
  have hnear : ∀ e : ℤ, e = 0 ∨ e = 1 → tz.roundTrip ⟨UNIX_SECS_1980 + e + tz.west, 0⟩ = ⟨UNIX_SECS_1980 + e + tz.west, 0⟩ := by
    intro e he
    have hlocal : tz.localTime ⟨UNIX_SECS_1980 + e + tz.west, 0⟩ = UNIX_SECS_1980 + e := add_sub_cancel_right _ _
    refine (h.roundTrip _ (Set.mem_univ _) (hvalid e he) ?_ ?_).1
    · rw [hlocal]
      omega
    · rw [hlocal]
      unfold UNIX_SECS_1980 UNIX_SECS_2108
      omega
  have hshift : tz.shift = tz.west := by
    obtain ⟨hs0, hs1, -⟩ := tz.shift_bounds
    obtain ⟨k, hk⟩ := tz.shift_west
    omega
  obtain ⟨hl0, hl1, j, hj⟩ := tz.localSecond_mod hv
  have hlocal : tz.localTime ts = ts.sec - tz.west := rfl
  obtain ⟨hr, -⟩ := tz.roundTrip_eq hv
  have hv0 := hv.sec_min
  have hv1 := hv.sec_max
  by_cases hlow : tz.localTime ts < -2 ^ 63
  · -- the local second wraps to one behind 2108
    rw [if_neg (by unfold UNIX_SECS_1980; omega), if_pos (by unfold UNIX_SECS_2108; omega), hshift] at hr
    have hle : ts ≤ ⟨UNIX_SECS_1980 + 0 + tz.west, 0⟩ := Or.inl (by unfold UNIX_SECS_1980; simp only; omega)
    have hmono := (h.mono ts (Set.mem_univ _) _ (Set.mem_univ _) hv (hvalid 0 (Or.inl rfl)) hle).1
    rw [hr, hnear 0 (Or.inl rfl), Timespec.mk_le] at hmono
    unfold UNIX_SECS_1980 UNIX_SECS_2108 at hmono
    omega
  · -- the local second wraps to one before 1980
    rw [if_pos (by unfold UNIX_SECS_1980; omega), hshift] at hr
    have hle : (⟨UNIX_SECS_1980 + 1 + tz.west, 0⟩ : Timespec) ≤ ts := Or.inl (by unfold UNIX_SECS_1980; simp only; omega)
    have hmono := (h.mono _ (Set.mem_univ _) ts (Set.mem_univ _) (hvalid 1 (Or.inr rfl)) hv hle).1
    rw [hr, hnear 1 (Or.inr rfl), Timespec.mk_le] at hmono
    omega

/-- **Timestamps are right exactly when the local second can be computed**, each of them and all of them. -/
theorem fatTime_right (tz : TimeZone) : (∀ ts : Timespec, ts.Valid → (tz.Faithful ts ↔ tz.Fits ts)) ∧
    TimesRight tz {ts | tz.Fits ts} ∧ (TimesRight tz Set.univ ↔ ∀ ts : Timespec, ts.Valid → tz.Fits ts) :=
  ⟨fun _ hv => ⟨fits_of_faithful hv, faithful_of_fits hv⟩, timesRight_fits tz fun _ hts _ => hts,
    fun h _ hv => fits_of_timesRight h hv, fun h => timesRight_fits tz fun ts _ hv => h ts hv⟩

end

/-- one minute west of UTC -/
def westOne : TimeZone := ⟨false, 1, by decide, by decide⟩

/-- one minute west of UTC the first second of a `time_t` comes back as the end of 2107, and one in 1980 as itself -/
theorem times_overflow : ¬ ∀ tz : TimeZone, TimesRight tz Set.univ := by
  intro hall
  have hvalid : Timespec.Valid ⟨-2 ^ 63, 0⟩ := ⟨by norm_num, by norm_num, le_rfl, by norm_num⟩
  have hfits := fits_of_timesRight (hall westOne) hvalid
  exact absurd hfits.2.1 (by decide)

end AtsLdd.Fat
