import Distsys.Lib.Scan

/-! Times of the C library, in the GMT time zone. A `time_t` is a 64-bit count of seconds, which goes far beyond
    the years that an `int` can count: `localtime` breaks it down in the Gregorian calendar where it can, and
    `strftime` prints what it made. -/

namespace Distsys

/-- A `time_t`: seconds since 1 January 1970, in 64 bits. -/
structure Time where
  secs : Int
  lower : -2 ^ 63 ≤ secs
  upper : secs < 2 ^ 63
  deriving DecidableEq

def Time.epoch : Time := ⟨0, by decide, by decide⟩

/-- A broken-down time; months count from 0 and week days from Sunday. The year is counted from 0 here, and from 1900 in
    `tm_year`. -/
structure Tm where
  year : Int
  mon : Nat
  mday : Nat
  hour : Nat
  min : Nat
  sec : Nat
  wday : Nat

/-- The date and the time of day in the Gregorian calendar, whatever its year. The days of a 400-year era begin on
    1 March, so that a leap day ends a year. -/
def Time.civil (t : Time) : Tm :=
  let z := t.secs / 86400 + 719468
  let doe := z % 146097
  let yoe := (doe - doe / 1460 + doe / 36524 - doe / 146096) / 365
  let doy := doe - (365 * yoe + yoe / 4 - yoe / 100)
  let mp := (5 * doy + 2) / 153
  let sod := t.secs % 86400
  { year := yoe + z / 146097 * 400 + (if mp < 10 then 0 else 1)
    mon := (if mp < 10 then mp + 2 else mp - 10).toNat
    mday := (doy - (153 * mp + 2) / 5 + 1).toNat
    hour := (sod / 3600).toNat
    min := (sod % 3600 / 60).toNat
    sec := (sod % 60).toNat
    wday := ((t.secs / 86400 + 4) % 7).toNat }

/-- The year fits `tm_year`, an `int` that counts from 1900. -/
def Time.YearFits (t : Time) : Prop := -2 ^ 31 ≤ t.civil.year - 1900 ∧ t.civil.year - 1900 < 2 ^ 31

instance (t : Time) : Decidable t.YearFits := inferInstanceAs (Decidable (_ ∧ _))

/-- `localtime`, in GMT: NULL when the year does not fit. -/
def localtime (t : Time) : Option Tm := if t.YearFits then some t.civil else none

theorem Time.epoch_yearFits : Time.epoch.YearFits := by decide

/-- What `time` can return: the clock is not set to a year that `localtime` fails on. -/
structure ClockTime extends Time where
  year_fits : toTime.YearFits

/-- A clock that shows the epoch. -/
def ClockTime.epoch : ClockTime := ⟨.epoch, Time.epoch_yearFits⟩

/-- Two digits, as `%02d` prints them. -/
def twoDigits (n : Nat) : Bytes := [0x30 + (n / 10 % 10).toUInt8, 0x30 + (n % 10).toUInt8]

/-- `%a` in the C locale. -/
def dayName (wday : Nat) : Bytes :=
  ([str "Sun", str "Mon", str "Tue", str "Wed", str "Thu", str "Fri", str "Sat"][wday]?).getD (str "?")

/-- `%b` in the C locale. -/
def monthName (mon : Nat) : Bytes :=
  ([str "Jan", str "Feb", str "Mar", str "Apr", str "May", str "Jun", str "Jul", str "Aug", str "Sep", str "Oct",
    str "Nov", str "Dec"][mon]?).getD (str "?")

/-- `strftime` with the format `%a, %d %b %Y %H:%M:%S`. -/
def strftime (tm : Tm) : Bytes :=
  dayName tm.wday ++ str ", " ++ twoDigits tm.mday ++ str " " ++ monthName tm.mon ++ str " " ++ decimalInt tm.year ++
    str " " ++ twoDigits tm.hour ++ str ":" ++ twoDigits tm.min ++ str ":" ++ twoDigits tm.sec

/-! ### The length of a printed time -/

theorem length_twoDigits (n : Nat) : (twoDigits n).length = 2 := rfl

theorem length_getD_le {names : List Bytes} {d : Bytes} {k i : Nat} (h : ∀ w ∈ names, w.length ≤ k)
    (hd : d.length ≤ k) :
    ((names[i]?).getD d).length ≤ k := by
  cases hi : names[i]? with
  | none => exact hd
  | some w => exact h w (List.mem_of_getElem? hi)

theorem length_dayName_le (n : Nat) : (dayName n).length ≤ 3 := length_getD_le (by decide) (by decide)

theorem length_monthName_le (n : Nat) : (monthName n).length ≤ 3 := length_getD_le (by decide) (by decide)

theorem year_bounds (t : Time) : -10 ^ 12 < t.civil.year ∧ t.civil.year < 10 ^ 12 := by
  have h₁ := t.lower
  have h₂ := t.upper
  simp only [Time.civil]
  split <;> omega

theorem length_decimalInt_le {z : Int} (h₁ : -10 ^ 12 < z) (h₂ : z < 10 ^ 12) : (decimalInt z).length ≤ 13 := by
  unfold decimalInt
  split
  · have := (length_decimal_le (n := z.natAbs) (k := 12) (by omega)).mpr (by omega)
    simp only [List.length_cons]
    omega
  · have := (length_decimal_le (n := z.toNat) (k := 12) (by omega)).mpr (by omega)
    omega

/-- A printed time fits an array of 80 bytes with room to spare, so `strftime` never cuts it. -/
theorem length_strftime_le (t : Time) : (strftime t.civil).length ≤ 34 := by
  have h₁ := length_dayName_le t.civil.wday
  have h₂ := length_monthName_le t.civil.mon
  have h₃ := length_decimalInt_le (year_bounds t).1 (year_bounds t).2
  have h₄ : (str ", ").length = 2 ∧ (str " ").length = 1 ∧ (str ":").length = 1 := by decide
  simp only [strftime, List.length_append, length_twoDigits, h₄.1, h₄.2.1, h₄.2.2]
  omega

/-! ### No line ends in a printed time -/

theorem not_mem_of_isdigit {w : Bytes} (h : ∀ c ∈ w, isdigit c = true) : LF ∉ w :=
  fun hm => absurd (h _ hm) (by decide)

theorem isdigit_of_mem_twoDigits {n : Nat} {c : UInt8} (h : c ∈ twoDigits n) : isdigit c = true := by
  simp only [twoDigits, List.mem_cons, List.not_mem_nil, or_false] at h
  rcases h with rfl | rfl
  · exact (digit_of_lt (Nat.mod_lt _ (by omega))).1
  · exact (digit_of_lt (Nat.mod_lt _ (by omega))).1

theorem LF_not_mem_twoDigits (n : Nat) : LF ∉ twoDigits n := not_mem_of_isdigit fun _ => isdigit_of_mem_twoDigits

theorem LF_not_mem_getD {names : List Bytes} {d : Bytes} {i : Nat} (h : ∀ w ∈ names, LF ∉ w) (hd : LF ∉ d) :
    LF ∉ (names[i]?).getD d := by
  cases hi : names[i]? with
  | none => exact hd
  | some w => exact h w (List.mem_of_getElem? hi)

theorem LF_not_mem_decimal (n : Nat) : LF ∉ decimal n := not_mem_of_isdigit fun _ => isdigit_of_mem_decimal

theorem LF_not_mem_decimalInt (z : Int) : LF ∉ decimalInt z := by
  unfold decimalInt
  split
  · rw [List.mem_cons, not_or]
    exact ⟨by decide, LF_not_mem_decimal _⟩
  · exact LF_not_mem_decimal _

theorem LF_not_mem_strftime (tm : Tm) : LF ∉ strftime tm := by
  have h₁ : LF ∉ dayName tm.wday := LF_not_mem_getD (by decide) (by decide)
  have h₂ : LF ∉ monthName tm.mon := LF_not_mem_getD (by decide) (by decide)
  have h₃ : LF ∉ str ", " ∧ LF ∉ str " " ∧ LF ∉ str ":" := by decide
  simp only [strftime, List.mem_append, not_or]
  simp only [h₁, h₂, h₃.1, h₃.2.1, h₃.2.2, LF_not_mem_twoDigits, LF_not_mem_decimalInt, not_false_eq_true, and_self]

/-! ### A printed time is read back -/

theorem value_twoDigits {n : Nat} (h : n < 100) : value (twoDigits n) = n := by
  have htens := (digit_of_lt (d := n / 10 % 10) (Nat.mod_lt _ (by omega))).2
  have hones := (digit_of_lt (d := n % 10) (Nat.mod_lt _ (by omega))).2
  simp only [value, twoDigits, List.foldl_cons, List.foldl_nil, htens, hones]
  omega

/-- A number of two digits. -/
def Numeral.padded (n : Nat) (h : n < 100) : Numeral where
  text := twoDigits n
  val := n
  reads ht := by
    rw [(scanInt_digits (fun _ => isdigit_of_mem_twoDigits) (by simp [twoDigits]) ht).2, value_twoDigits h]

theorem civil_bounds (t : Time) :
    t.civil.mday < 100 ∧ t.civil.hour < 100 ∧ t.civil.min < 100 ∧ t.civil.sec < 100 := by
  simp only [Time.civil]
  omega

/-- What a time is printed between, behind some text. -/
def timeLiterals (before : Bytes) (t : Time) : List Bytes :=
  [before ++ dayName t.civil.wday ++ str ", ", str " " ++ monthName t.civil.mon ++ str " ", str " ", str ":", str ":"]

def timeValues (t : Time) : List Int :=
  [t.civil.mday, t.civil.year, t.civil.hour, t.civil.min, t.civil.sec]

theorem scanInts_strftime {before after : Bytes} {c : UInt8} (t : Time) (hc : isdigit c = false)
    (hafter : StopsDigits after) :
    scanInts (timeLiterals (c :: before) t) (c :: before ++ strftime t.civil ++ after) = some (timeValues t) := by
  obtain ⟨hmday, hhour, hmin, hsec⟩ := civil_bounds t
  let fields : List (Bytes × Numeral) := [(c :: before ++ dayName t.civil.wday ++ str ", ", .padded _ hmday),
    (str " " ++ monthName t.civil.mon ++ str " ", .decimal t.civil.year), (str " ", .padded _ hhour),
    (str ":", .padded _ hmin), (str ":", .padded _ hsec)]
  have hliterals : ∀ l ∈ timeLiterals (c :: before) t, l ≠ [] ∧ StopsDigits l := by
    intro l hl
    simp only [timeLiterals, List.mem_cons, List.not_mem_nil, or_false] at hl
    rcases hl with rfl | rfl | rfl | rfl | rfl
    · exact ⟨by simp, fun d hd => Option.some.inj hd ▸ hc⟩
    · exact ⟨by simp [str], fun d hd => Option.some.inj hd ▸ by decide⟩
    · decide +kernel
    · decide +kernel
    · decide +kernel
  have htext : c :: before ++ strftime t.civil = printFields fields := by
    simp [printFields, fields, strftime, Numeral.padded, Numeral.decimal]
  rw [htext]
  exact scanInts_printFields hafter fields hliterals

end Distsys
