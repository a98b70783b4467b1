import Distsys.Lib.Calendar

/-! Times read back: `mktime` counts the seconds of a broken-down time, and `strptime` reads one from a text. A
    format is a list of directives; the text that it prints is read back wherever no directive can run on into
    the text behind it. -/

namespace Distsys

/-! ### Counting the seconds -/

/-- The seconds of a broken-down time in the GMT time zone, which has no summer time. -/
def Tm.seconds (tm : Tm) : Int :=
  let year := tm.year - if tm.mon < 2 then 1 else 0
  let yoe := year % 400
  let mp : Int := if tm.mon < 2 then tm.mon + 10 else tm.mon - 2
  let doy := (153 * mp + 2) / 5 + tm.mday - 1
  let days := year / 400 * 146097 + (365 * yoe + yoe / 4 - yoe / 100 + doy) - 719468
  days * 86400 + tm.hour * 3600 + tm.min * 60 + tm.sec

/-- The hour of summer time, which a positive `tm_isdst` says is in force. -/
def dstHour (isdst : Bool) : Int := if isdst then 3600 else 0

theorem dstHour_bounds (isdst : Bool) : 0 ≤ dstHour isdst ∧ dstHour isdst ≤ 3600 := by
  cases isdst <;> decide

/-- `mktime`: -1 when the time does not fit a `time_t`. A zone without summer time takes the hour off all the same. -/
def mktime (isdst : Bool) (tm : Tm) : Time :=
  if h : -2 ^ 63 ≤ tm.seconds - dstHour isdst ∧ tm.seconds < 2 ^ 63 then
    ⟨tm.seconds - dstHour isdst, h.1, Int.lt_of_le_of_lt (Int.sub_le_self _ (dstHour_bounds isdst).1) h.2⟩
  else ⟨-1, by decide, by decide⟩

section Count
variable {doe yoe doy mp s : Int}

/-- A century ends in a year that is no leap year, but for the last of an era. -/
theorem century_of_day (h₀ : 0 ≤ doe) (h₁ : doe < 146097)
    (h : yoe = (doe - doe / 1460 + doe / 36524 - doe / 146096) / 365) : yoe / 100 = doe / 36524 - doe / 146096 := by
  have hd : 0 ≤ doe / 36524 ∧ doe / 36524 ≤ 4 := by omega
  obtain ⟨hd₀, hd₁⟩ := hd
  generalize hcentury : doe / 36524 = d at *
  interval_cases d <;> omega

theorem year_of_day (h₀ : 0 ≤ doe) (h₁ : doe < 146097)
    (h : yoe = (doe - doe / 1460 + doe / 36524 - doe / 146096) / 365) : (0 ≤ yoe ∧ yoe < 400) ∧
      0 ≤ doe - (365 * yoe + yoe / 4 - yoe / 100) ∧ doe - (365 * yoe + yoe / 4 - yoe / 100) < 366 := by
  have hcentury := century_of_day h₀ h₁ h
  refine ⟨?_, ?_⟩ <;> omega

/-- The months from March on have 153 days every five of them. -/
theorem month_of_day (h₀ : 0 ≤ doy) (h₁ : doy < 366) (h : mp = (5 * doy + 2) / 153) :
    0 ≤ mp ∧ mp < 12 ∧ 0 ≤ doy - (153 * mp + 2) / 5 ∧ doy - (153 * mp + 2) / 5 < 31 := by
  omega

theorem mon_of_month (h₀ : 0 ≤ mp) (h₁ : mp < 12) :
    let mon := (if mp < 10 then mp + 2 else mp - 10).toNat
    mon < 12 ∧ (mon < 2 ↔ 10 ≤ mp) ∧ (if mon < 2 then (mon : Int) + 10 else mon - 2) = mp := by
  dsimp only
  split <;> split <;> omega

theorem year_of_era (h : 0 ≤ yoe ∧ yoe < 400) (era : Int) :
    (yoe + era * 400) % 400 = yoe ∧ (yoe + era * 400) / 400 = era := by
  omega

theorem second_of_day (h : 0 ≤ s) :
    ((s / 3600).toNat * 3600 : Int) + (s % 3600 / 60).toNat * 60 + (s % 60).toNat = s := by
  omega

end Count

/-- The fields of a time that `strptime` can read. -/
structure Tm.InRange (tm : Tm) : Prop where
  mon : tm.mon < 12
  mday : 1 ≤ tm.mday ∧ tm.mday ≤ 31
  hour : tm.hour ≤ 23
  min : tm.min ≤ 59
  sec : tm.sec ≤ 61
  wday : tm.wday < 7

/-- A time in the parts that it is broken down by: the era, the year of it, the day of the year and the month of the
    day, and the second of the day. -/
theorem civil_parts (t : Time) : ∃ era yoe doy mp sod : Int, (0 ≤ yoe ∧ yoe < 400) ∧ (0 ≤ mp ∧ mp < 12) ∧
    (0 ≤ doy - (153 * mp + 2) / 5 ∧ doy - (153 * mp + 2) / 5 < 31) ∧ (0 ≤ sod ∧ sod < 86400) ∧
    t.secs = (era * 146097 + (365 * yoe + yoe / 4 - yoe / 100 + doy) - 719468) * 86400 + sod ∧
    t.civil.year = yoe + era * 400 + (if mp < 10 then 0 else 1) ∧
    t.civil.mon = (if mp < 10 then mp + 2 else mp - 10).toNat ∧
    t.civil.mday = (doy - (153 * mp + 2) / 5 + 1).toNat ∧ t.civil.hour = (sod / 3600).toNat ∧
    t.civil.min = (sod % 3600 / 60).toNat ∧ t.civil.sec = (sod % 60).toNat := by
  have hdoe₀ : 0 ≤ (t.secs / 86400 + 719468) % 146097 := by omega
  have hdoe₁ : (t.secs / 86400 + 719468) % 146097 < 146097 := by omega
  have hsod : 0 ≤ t.secs % 86400 ∧ t.secs % 86400 < 86400 := by omega
  have hsecs (n : Int) : t.secs = ((t.secs / 86400 + 719468) / 146097 * 146097 +
      (n + ((t.secs / 86400 + 719468) % 146097 - n)) - 719468) * 86400 + t.secs % 86400 := by
    omega
  obtain ⟨hyoe, hdoy₀, hdoy₁⟩ := year_of_day hdoe₀ hdoe₁ rfl
  obtain ⟨hmp₀, hmp₁, hmday⟩ := month_of_day hdoy₀ hdoy₁ rfl
  exact ⟨_, _, _, _, _, hyoe, ⟨hmp₀, hmp₁⟩, hmday, hsod, hsecs _, rfl, rfl, rfl, rfl, rfl, rfl⟩

theorem inRange_civil (t : Time) : t.civil.InRange := by
  obtain ⟨era, yoe, doy, mp, sod, -, ⟨hmp₀, hmp₁⟩, hmday, hsod, -, -, hmon, hday, hhour, hmin, hsec⟩ := civil_parts t
  refine ⟨?_, ?_, ?_, ?_, ?_, ?_⟩
  · rw [hmon]
    exact (mon_of_month hmp₀ hmp₁).1
  · rw [hday]
    omega
  · rw [hhour]
    omega
  · rw [hmin]
    omega
  · rw [hsec]
    omega
  · simp only [Time.civil]
    omega

/-- Counting back what was broken down. -/
theorem seconds_civil (t : Time) : t.civil.seconds = t.secs := by
  obtain ⟨era, yoe, doy, mp, sod, hyoe, ⟨hmp₀, hmp₁⟩, hmday, hsod, hsecs, hyear, hmon, hday, hhour, hmin, hsec⟩ :=
    civil_parts t
  obtain ⟨-, hjan, hmp⟩ := mon_of_month hmp₀ hmp₁
  rw [← hmon] at hjan hmp
  -- January and February belong to the era year before.
  have hyear' : t.civil.year - (if t.civil.mon < 2 then 1 else 0) = yoe + era * 400 := by
    rw [hyear]
    by_cases h : t.civil.mon < 2
    · rw [if_pos h, if_neg (by omega)]
      omega
    · rw [if_neg h, if_pos (by omega)]
      omega
  obtain ⟨hyoe', hera⟩ := year_of_era hyoe era
  have hmday' := Int.toNat_of_nonneg (Int.add_nonneg hmday.1 Int.one_nonneg)
  unfold Tm.seconds
  rw [hmp, hyear', hday, hhour, hmin, hsec, hsecs]
  dsimp only
  rw [hyoe', hera, hmday', Int.add_assoc, Int.add_assoc, ← Int.add_assoc ((sod / 3600).toNat * 3600 : Int),
    second_of_day hsod.1]
  ring

/-- The years from 0 on are far from the first second of a `time_t`. -/
theorem secs_of_year {t : Time} (h : 0 ≤ t.civil.year) : -2 ^ 62 ≤ t.secs := by
  simp only [Time.civil] at h
  split at h <;> omega

theorem mktime_civil {t : Time} (isdst : Bool) (h : 0 ≤ t.civil.year) :
    (mktime isdst t.civil).secs = t.secs - dstHour isdst := by
  have hsecs := seconds_civil t
  have hlower := secs_of_year h
  have hfits : -2 ^ 63 ≤ t.civil.seconds - dstHour isdst ∧ t.civil.seconds < 2 ^ 63 := by
    have := dstHour_bounds isdst
    exact ⟨by omega, hsecs ▸ t.upper⟩
  unfold mktime
  rw [dif_pos hfits]
  exact congrArg (· - dstHour isdst) hsecs

/-! ### Reading names and numbers -/

def isspace (c : UInt8) : Bool := c == SP || 0x09 ≤ c && c ≤ 0x0D

def isalpha (c : UInt8) : Bool := isupper c || islower c

def weekdays : List Bytes :=
  [str "Sunday", str "Monday", str "Tuesday", str "Wednesday", str "Thursday", str "Friday", str "Saturday"]

def months : List Bytes :=
  [str "January", str "February", str "March", str "April", str "May", str "June", str "July", str "August",
    str "September", str "October", str "November", str "December"]

/-- `strncasecmp` finds the word at the start of the text. -/
def startsWith (w s : Bytes) : Bool := (s.take w.length).map tolower == w.map tolower

/-- The index of a name at the start of a text, and the text behind it. A name may be cut to three letters, and no two
    names have the same; the longer form goes first. -/
def readName (names : List Bytes) (s : Bytes) : Option (Nat × Bytes) :=
  let i := names.findIdx fun w => startsWith (w.take 3) s
  (names[i]?).map fun w => (i, if startsWith w s then s.drop w.length else s.drop 3)

/-- The digits behind the first of a number: at most `n` of them, and none that takes it beyond `hi`. -/
def moreDigits (hi : Nat) : Nat → Nat → Bytes → Nat × Bytes
  | n + 1, v, c :: s => if v * 10 ≤ hi ∧ isdigit c = true then moreDigits hi n (v * 10 + digitValue c) s
    else (v, c :: s)
  | _, v, s => (v, s)

/-- A number of at most `n` digits, from `lo` to `hi`. -/
def getNumber (lo hi n : Nat) (s : Bytes) : Option (Nat × Bytes) :=
  match s.dropWhile isspace with
  | [] => none
  | c :: s =>
    if isdigit c then
      let p := moreDigits hi (n - 1) (digitValue c) s
      if lo ≤ p.1 ∧ p.1 ≤ hi then some p else none
    else none

/-! ### Formats -/

/-- What a format is made of. -/
inductive Directive where
  | byte (c : UInt8)
  /-- White space, or none. -/
  | space
  /-- `%a` -/
  | wday
  /-- `%d` -/
  | mday
  /-- `%b` -/
  | mon
  /-- `%Y` -/
  | year
  /-- `%H` -/
  | hour
  /-- `%M` -/
  | min
  /-- `%S` -/
  | sec
  deriving DecidableEq, Repr

/-- What `strptime` does at one directive: the time with its field set, and the text behind. -/
def Directive.read (d : Directive) (tm : Tm) (s : Bytes) : Option (Tm × Bytes) :=
  match d with
  | .byte c => match s with
    | [] => none
    | x :: s => if x = c then some (tm, s) else none
  | .space => some (tm, s.dropWhile isspace)
  | .wday => (readName weekdays s).map fun p => ({ tm with wday := p.1 }, p.2)
  | .mday => (getNumber 1 31 2 s).map fun p => ({ tm with mday := p.1 }, p.2)
  | .mon => (readName months s).map fun p => ({ tm with mon := p.1 }, p.2)
  | .year => (getNumber 0 9999 4 s).map fun p => ({ tm with year := p.1 }, p.2)
  | .hour => (getNumber 0 23 2 s).map fun p => ({ tm with hour := p.1 }, p.2)
  | .min => (getNumber 0 59 2 s).map fun p => ({ tm with min := p.1 }, p.2)
  | .sec => (getNumber 0 61 2 s).map fun p => ({ tm with sec := p.1 }, p.2)

/-- `strptime`: the time with the fields that the format has, and the text behind. -/
def strptime : List Directive → Tm → Bytes → Option (Tm × Bytes)
  | [], tm, s => some (tm, s)
  | d :: ds, tm, s => (d.read tm s).bind fun p => strptime ds p.1 p.2

/-- What `strftime` prints for a directive. -/
def Directive.print (d : Directive) (tm : Tm) : Bytes :=
  match d with
  | .byte c => [c]
  | .space => [SP]
  | .wday => dayName tm.wday
  | .mday => twoDigits tm.mday
  | .mon => monthName tm.mon
  | .year => decimalInt tm.year
  | .hour => twoDigits tm.hour
  | .min => twoDigits tm.min
  | .sec => twoDigits tm.sec

/-- What a format prints of a time. -/
def printTime (ds : List Directive) (tm : Tm) : Bytes := ds.flatMap (·.print tm)

/-- `%a, %d %b %Y %H:%M:%S` -/
def timeFormat : List Directive :=
  [.wday, .byte 0x2C, .space, .mday, .space, .mon, .space, .year, .space, .hour, .byte 0x3A, .min, .byte 0x3A, .sec]

theorem strftime_eq (t : Time) : strftime t.civil = printTime timeFormat t.civil := by
  simp [strftime, printTime, timeFormat, Directive.print, str, SP]

/-- The field of a directive, taken from one time into another. -/
def Directive.copy (d : Directive) (src dst : Tm) : Tm :=
  match d with
  | .byte _ | .space => dst
  | .wday => { dst with wday := src.wday }
  | .mday => { dst with mday := src.mday }
  | .mon => { dst with mon := src.mon }
  | .year => { dst with year := src.year }
  | .hour => { dst with hour := src.hour }
  | .min => { dst with min := src.min }
  | .sec => { dst with sec := src.sec }

/-- The directive does not run on into the text. -/
def Directive.Ends : Directive → Bytes → Prop
  | .space, s => ∀ c ∈ s.head?, isspace c = false
  | .wday, s | .mon, s => ∀ c ∈ s.head?, isalpha c = false
  | .year, s => StopsDigits s
  | .byte _, _ | .mday, _ | .hour, _ | .min, _ | .sec, _ => True

/-- No directive of a format runs on into what the format prints behind it. -/
def Separated (tm : Tm) : List Directive → Bytes → Prop
  | [], _ => True
  | d :: ds, s => d.Ends (printTime ds tm ++ s) ∧ Separated tm ds s

/-! ### What is printed is read back -/

section ReadBack
variable {names : List Bytes} {tm dst : Tm} {s t w : Bytes} {c : UInt8} {lo hi n k i : Nat} {ds : List Directive}
  {d : Directive}

theorem dropWhile_of_head {p : UInt8 → Bool} (h : ∀ c ∈ s.head?, p c = false) : s.dropWhile p = s := by
  cases s with
  | nil => rfl
  | cons c s => simp [h c (by simp)]

theorem not_isspace_of_isdigit (h : isdigit c = true) : isspace c = false := by
  simp only [isdigit, Bool.and_eq_true, decide_eq_true_eq, UInt8.le_iff_toNat_le, UInt8.reduceToNat] at h
  simp only [isspace, SP, Bool.or_eq_false_iff, Bool.and_eq_false_iff, decide_eq_false_iff_not, beq_eq_false_iff_ne,
    ne_eq, UInt8.le_iff_toNat_le, UInt8.reduceToNat, ← UInt8.toNat_inj]
  omega

/-- A number is taken up to where it stops, as long as it is not too long and does not get too large. -/
theorem moreDigits_stops (ht : StopsDigits t) : ∀ {w : Bytes} {n v : Nat}, (∀ c ∈ w, isdigit c = true) → w.length ≤ n →
    v * 10 ^ w.length + value w ≤ hi → moreDigits hi n v (w ++ t) = (v * 10 ^ w.length + value w, t)
  | [], n, v, _, _, _ => by
    cases n with
    | zero => simp [moreDigits, value]
    | succ n =>
      cases t with
      | nil => simp [moreDigits, value]
      | cons c t => simp [moreDigits, value, ht c (by simp)]
  | c :: w, n, v, hw, hn, hle => by
    obtain ⟨m, rfl⟩ : ∃ m, n = m + 1 := ⟨n - 1, by simp only [List.length_cons] at hn; omega⟩
    have hval : v * 10 ^ (c :: w).length + value (c :: w) = (v * 10 + digitValue c) * 10 ^ w.length + value w := by
      rw [← List.singleton_append, value_append, value_singleton, List.length_append, List.length_singleton]
      ring
    have hv : v * 10 ≤ hi := by
      have hpow : 1 ≤ 10 ^ w.length := Nat.one_le_pow _ _ (by decide)
      calc v * 10 ≤ v * 10 + digitValue c := Nat.le_add_right _ _
        _ ≤ (v * 10 + digitValue c) * 10 ^ w.length := Nat.le_mul_of_pos_right _ hpow
        _ ≤ hi := by omega
    rw [hval] at hle ⊢
    rw [List.cons_append, moreDigits, if_pos ⟨hv, hw c List.mem_cons_self⟩]
    exact moreDigits_stops ht (fun x hx => hw x (List.mem_cons_of_mem _ hx)) (by simpa using hn) hle

/-- Two digits are never more than are asked for. -/
theorem getNumber_twoDigits (hlo : lo ≤ k) (hhi : k ≤ hi) (hk : k < 100) :
    getNumber lo hi 2 (twoDigits k ++ t) = some (k, t) := by
  have htens := digit_of_lt (d := k / 10 % 10) (Nat.mod_lt _ (by omega))
  have hones := digit_of_lt (d := k % 10) (Nat.mod_lt _ (by omega))
  have hv : k / 10 % 10 * 10 + k % 10 = k := by omega
  have hle : k / 10 % 10 * 10 ≤ hi := by omega
  unfold getNumber
  rw [dropWhile_of_head (by simp [twoDigits, not_isspace_of_isdigit htens.1])]
  simp only [twoDigits, List.cons_append, List.nil_append, htens, hones, moreDigits, if_true, hle, hv, hlo, hhi,
    and_self]

theorem getNumber_year (ht : StopsDigits t) (hk : k ≤ 9999) : getNumber 0 9999 4 (decimal k ++ t) = some (k, t) := by
  have hlen : (decimal k).length ≤ 4 := (length_decimal_le (by decide)).mpr (by omega)
  have hval := value_decimal k
  have hdigits : ∀ c ∈ decimal k, isdigit c = true := fun c => isdigit_of_mem_decimal
  obtain ⟨c, w, hw⟩ := List.exists_cons_of_ne_nil (decimal_ne_nil k)
  rw [hw] at hlen hval hdigits ⊢
  have hc := hdigits c List.mem_cons_self
  rw [← List.singleton_append, value_append, value_singleton] at hval
  have hmore : moreDigits 9999 3 (digitValue c) (w ++ t) = (k, t) := by
    rw [moreDigits_stops ht (fun x hx => hdigits x (List.mem_cons_of_mem _ hx)) (Nat.le_of_lt_succ
      (by simpa using hlen)) (by omega), hval]
  unfold getNumber
  rw [List.cons_append, dropWhile_of_head (by simp [not_isspace_of_isdigit hc])]
  simp [hc, hmore, hk]

theorem islower_tolower (h : isalpha c = true) : islower (tolower c) = true := by
  unfold tolower
  split
  · next hu =>
    simp only [isupper, islower, Bool.and_eq_true, decide_eq_true_eq, UInt8.le_iff_toNat_le, UInt8.reduceToNat,
      UInt8.toNat_add] at hu ⊢
    omega
  · next hu => simpa [isalpha, hu] using h

theorem isalpha_of_tolower_eq {b : UInt8} (hc : isalpha c = true) (h : tolower b = tolower c) : isalpha b = true := by
  by_cases hu : isupper b = true
  · simp [isalpha, hu]
  · have hself : tolower b = b := if_neg hu
    have hlow := islower_tolower hc
    rw [← h, hself] at hlow
    simp [isalpha, hlow]

/-- A word that only begins like a text is not at its start: the text would go on with a letter. -/
theorem startsWith_take (hw : ∀ c ∈ w.drop k, isalpha c = true) (ht : ∀ c ∈ t.head?, isalpha c = false)
    (h : startsWith w (w.take k ++ t) = true) : w.length ≤ k := by
  by_contra hlong
  have hlen : (w.take k).length = k := by rw [List.length_take]; omega
  have htake : (w.take k ++ t).take w.length = w.take k ++ t.take (w.length - k) := by
    rw [List.take_append, hlen, List.take_of_length_le (by omega)]
  have hmap : (t.take (w.length - k)).map tolower = (w.drop k).map tolower := by
    have heq := eq_of_beq h
    rw [htake] at heq
    conv_rhs at heq => rw [← List.take_append_drop k w]
    rw [List.map_append, List.map_append] at heq
    exact List.append_cancel_left heq
  obtain ⟨c, u, hdrop⟩ : ∃ c u, w.drop k = c :: u :=
    List.exists_cons_of_ne_nil fun hnil => hlong (List.drop_eq_nil_iff.mp hnil)
  rw [hdrop] at hmap hw
  cases t with
  | nil => simp at hmap
  | cons b t =>
    obtain ⟨m, hm⟩ : ∃ m, w.length - k = m + 1 := ⟨w.length - k - 1, by omega⟩
    rw [hm, List.take_succ_cons, List.map_cons, List.map_cons] at hmap
    have hb := isalpha_of_tolower_eq (hw c List.mem_cons_self) (List.cons.inj hmap).1
    rw [ht b (by simp)] at hb
    cases hb

/-- Names of at least three letters, no two of which begin with the same three. -/
structure Distinct (names : List Bytes) : Prop where
  length : ∀ w ∈ names, 3 ≤ w.length
  letters : ∀ w ∈ names, (w.drop 3).all isalpha = true
  pairwise : names.Pairwise fun v w => startsWith (v.take 3) (w.take 3) = false

theorem readName_take (hnames : Distinct names) (hi : i < names.length) (ht : ∀ c ∈ t.head?, isalpha c = false) :
    readName names (names[i].take 3 ++ t) = some (i, t) := by
  have hthree : ∀ j (hj : j < names.length), (names[j].take 3).length = 3 := fun j hj => by
    have := hnames.length _ (List.getElem_mem hj)
    rw [List.length_take]
    omega
  have hstart : ∀ j (hj : j < names.length), startsWith (names[j].take 3) (names[i].take 3 ++ t) =
      startsWith (names[j].take 3) (names[i].take 3) := fun j hj => by
    unfold startsWith
    rw [hthree j hj, List.take_left' (hthree i hi), List.take_take, Nat.min_self]
  have hindex : names.findIdx (fun w => startsWith (w.take 3) (names[i].take 3 ++ t)) = i := by
    rw [List.findIdx_eq hi]
    refine ⟨?_, fun j hji => ?_⟩
    · rw [hstart i hi]
      simp [startsWith]
    · rw [hstart j (hji.trans hi)]
      exact List.pairwise_iff_getElem.mp hnames.pairwise j i (hji.trans hi) hi hji
  unfold readName
  dsimp only
  rw [hindex, List.getElem?_eq_getElem hi, Option.map_some]
  split
  · next hlong =>
    have hletters := List.all_eq_true.mp (hnames.letters _ (List.getElem_mem hi))
    have hlen := startsWith_take hletters ht hlong
    rw [List.take_of_length_le hlen, List.drop_left]
  · rw [List.drop_left' (hthree i hi)]

theorem distinct_weekdays : Distinct weekdays := ⟨by decide, by decide, by decide⟩

theorem distinct_months : Distinct months := ⟨by decide, by decide, by decide⟩

theorem dayName_eq : ∀ (i : Nat) (h : i < weekdays.length), dayName i = weekdays[i].take 3 := by decide

theorem monthName_eq : ∀ (i : Nat) (h : i < months.length), monthName i = months[i].take 3 := by decide

/-- Each directive reads what it printed. -/
theorem read_print (hr : tm.InRange) (hy : d = .year → 0 ≤ tm.year ∧ tm.year ≤ 9999) (ht : d.Ends t) :
    d.read dst (d.print tm ++ t) = some (d.copy tm dst, t) := by
  cases d with
  | byte c => simp [Directive.read, Directive.print, Directive.copy]
  | space => simp [Directive.read, Directive.print, Directive.copy, isspace, dropWhile_of_head ht]
  | wday =>
    have hi : tm.wday < weekdays.length := hr.wday
    simp [Directive.read, Directive.print, Directive.copy, dayName_eq _ hi, readName_take distinct_weekdays hi ht]
  | mon =>
    have hi : tm.mon < months.length := hr.mon
    simp [Directive.read, Directive.print, Directive.copy, monthName_eq _ hi, readName_take distinct_months hi ht]
  | mday =>
    obtain ⟨hlo, hhi⟩ := hr.mday
    simp [Directive.read, Directive.print, Directive.copy, getNumber_twoDigits hlo hhi (by omega)]
  | hour =>
    have hhi := hr.hour
    simp [Directive.read, Directive.print, Directive.copy, getNumber_twoDigits (Nat.zero_le _) hhi (by omega)]
  | min =>
    have hhi := hr.min
    simp [Directive.read, Directive.print, Directive.copy, getNumber_twoDigits (Nat.zero_le _) hhi (by omega)]
  | sec =>
    have hhi := hr.sec
    simp [Directive.read, Directive.print, Directive.copy, getNumber_twoDigits (Nat.zero_le _) hhi (by omega)]
  | year =>
    obtain ⟨hlo, hhi⟩ := hy rfl
    have hnat : ((tm.year.toNat : Nat) : Int) = tm.year := Int.toNat_of_nonneg hlo
    have hread := getNumber_year (k := tm.year.toNat) ht (by omega)
    rw [← decimalInt_natCast, hnat] at hread
    simp [Directive.read, Directive.print, Directive.copy, hread, hlo]

/-- A format reads back the fields that it printed. -/
theorem strptime_printTime (hr : tm.InRange) : ∀ {ds : List Directive} {dst : Tm},
    (.year ∈ ds → 0 ≤ tm.year ∧ tm.year ≤ 9999) → Separated tm ds t →
      strptime ds dst (printTime ds tm ++ t) = some (ds.foldl (fun dst d => d.copy tm dst) dst, t)
  | [], _, _, _ => rfl
  | d :: ds, dst, hy, ht => by
    have hread : d.read dst (d.print tm ++ (printTime ds tm ++ t)) = some (d.copy tm dst, printTime ds tm ++ t) :=
      read_print hr (fun h => hy (by simp [h])) ht.1
    rw [strptime, printTime, List.flatMap_cons, List.append_assoc]
    change (d.read dst (d.print tm ++ (printTime ds tm ++ t))).bind _ = _
    rw [hread, Option.bind_some, strptime_printTime hr (fun h => hy (List.mem_cons_of_mem _ h)) ht.2]
    rfl

theorem printTime_append {es : List Directive} : printTime (ds ++ es) tm = printTime ds tm ++ printTime es tm :=
  List.flatMap_append

theorem separated_left {es : List Directive} : ∀ {ds : List Directive}, Separated tm (ds ++ es) t →
    Separated tm ds (printTime es tm ++ t)
  | [], _ => trivial
  | _ :: _, h => ⟨by rw [← List.append_assoc, ← printTime_append]; exact h.1, separated_left h.2⟩

theorem strptime_append {es : List Directive} : strptime (ds ++ es) dst s = (strptime ds dst s).bind fun p =>
    strptime es p.1 p.2 := by
  induction ds generalizing dst s with
  | nil => rfl
  | cons d ds ih =>
    rw [List.cons_append, strptime, strptime, Option.bind_assoc]
    congr 1
    funext p
    exact ih

end ReadBack

/-! ### The format of the header dates -/

section TimeFormat
variable {t : Time} {dst : Tm} {rest s u w taken : Bytes} {lo hi n v k : Nat}

theorem head_append {p : UInt8 → Bool} (h : w.head?.map p = some false) : ∀ c ∈ (w ++ s).head?, p c = false := by
  cases w with
  | nil => cases h
  | cons b w =>
    rintro c ⟨⟩
    exact Option.some.inj h

theorem head_dayName : ∀ i < weekdays.length, (dayName i).head?.map isspace = some false := by decide

theorem head_monthName : ∀ i < months.length, (monthName i).head?.map isspace = some false := by decide

theorem head_twoDigits (n : Nat) : (twoDigits n).head?.map isspace = some false := by
  simp [twoDigits, not_isspace_of_isdigit (digit_of_lt (Nat.mod_lt _ (by omega))).1]

theorem head_decimalInt (z : Int) : (decimalInt z).head?.map isspace = some false := by
  have hdecimal (n : Nat) : (decimal n).head?.map isspace = some false := by
    obtain ⟨c, w, hw⟩ := List.exists_cons_of_ne_nil (decimal_ne_nil n)
    have hc : isdigit c = true := isdigit_of_mem_decimal (n := n) (hw ▸ List.mem_cons_self)
    rw [hw]
    simp [not_isspace_of_isdigit hc]
  unfold decimalInt
  split
  · rfl
  · exact hdecimal _

theorem separated_timeFormat (t : Time) (rest : Bytes) : Separated t.civil timeFormat rest := by
  have hmon := head_monthName _ (inRange_civil t).mon
  simp only [timeFormat, Separated, Directive.Ends, printTime, List.flatMap_cons, List.flatMap_nil, Directive.print,
    List.append_assoc, true_and, and_true]
  refine ⟨?_, head_append (head_twoDigits _), head_append hmon, ?_, head_append (head_decimalInt _), ?_,
    head_append (head_twoDigits _)⟩
  all_goals
    rintro c ⟨⟩
    decide

/-! A year of more than four digits is read in two parts, and the second is no hour with its colon. -/

/-- Digits up to a space. -/
def DigitsFirst (s : Bytes) : Prop := ∃ w u, (∀ c ∈ w, isdigit c = true) ∧ s = w ++ SP :: u

theorem DigitsFirst.of_append (h : DigitsFirst (taken ++ s)) (htaken : ∀ c ∈ taken, isdigit c = true) :
    DigitsFirst s := by
  obtain ⟨w, u, hw, heq⟩ := h
  rcases List.append_eq_append_iff.mp heq with ⟨w', rfl, hs⟩ | ⟨v, rfl, hv⟩
  · exact ⟨w', u, fun c hc => hw c (List.mem_append_right _ hc), hs⟩
  · cases v with
    | nil => exact ⟨[], u, by simp, by simpa using hv.symm⟩
    | cons c v =>
      obtain ⟨rfl, -⟩ := List.cons.inj hv
      exact absurd (htaken SP (by simp)) (by decide)

theorem moreDigits_taken : ∀ {n v : Nat} {s : Bytes}, ∃ taken, s = taken ++ (moreDigits hi n v s).2 ∧ taken.length ≤ n ∧
    ∀ c ∈ taken, isdigit c = true
  | 0, v, s => ⟨[], by simp [moreDigits], by simp, by simp⟩
  | n + 1, v, [] => ⟨[], by simp [moreDigits], by simp, by simp⟩
  | n + 1, v, c :: s => by
    rw [moreDigits]
    split
    · next hc =>
      obtain ⟨taken, hs, hlen, hdigits⟩ := moreDigits_taken (n := n) (v := v * 10 + digitValue c) (s := s)
      exact ⟨c :: taken, by rw [List.cons_append, ← hs], by simpa using hlen, by simpa [hc.2] using hdigits⟩
    · exact ⟨[], rfl, by simp, by simp⟩

theorem getNumber_taken (h : getNumber lo hi (n + 1) s = some (v, rest)) :
    ∃ taken, s.dropWhile isspace = taken ++ rest ∧
    taken.length ≤ n + 1 ∧ ∀ c ∈ taken, isdigit c = true := by
  unfold getNumber at h
  split at h
  · cases h
  · next c u hs =>
    split at h
    · next hc =>
      dsimp only at h
      split at h
      · obtain ⟨taken, hu, hlen, hdigits⟩ := @moreDigits_taken hi n (digitValue c) u
        rw [Nat.add_sub_cancel, Option.some.injEq] at h
        rw [h] at hu
        exact ⟨c :: taken, by rw [hs, hu, List.cons_append], by simpa using hlen, by simpa [hc] using hdigits⟩
      · cases h
    · cases h

theorem strptime_hour_digits (h : DigitsFirst s) (hd : ∀ c ∈ s.head?, isdigit c = true) :
    strptime [.space, .hour, .byte 0x3A, .min, .byte 0x3A, .sec] dst s = none := by
  have hskip : s.dropWhile isspace = s := dropWhile_of_head fun c hc => not_isspace_of_isdigit (hd c hc)
  simp only [strptime, Directive.read, Option.bind_some, hskip]
  cases hour : getNumber 0 23 2 s with
  | none => rfl
  | some p =>
    obtain ⟨v, rest⟩ := p
    obtain ⟨taken, hs, -, hdigits⟩ := getNumber_taken hour
    rw [hskip] at hs
    rw [hs] at h
    obtain ⟨w, u, hw, rfl⟩ := h.of_append hdigits
    simp only [Option.map_some, Option.bind_some]
    cases w with
    | nil => rfl
    | cons c w =>
      have hc : c ≠ 0x3A := ne_of_class (hw c List.mem_cons_self) (by decide)
      simp [hc]

theorem strptime_longYear (h : 9999 < k) :
    strptime [.year, .space, .hour, .byte 0x3A, .min, .byte 0x3A, .sec] dst (decimal k ++ SP :: s) = none := by
  have hlen : 4 < (decimal k).length := by
    by_contra hle
    have := (length_decimal_le (n := k) (k := 4) (by decide)).mp (by omega)
    omega
  have hdigits : ∀ c ∈ decimal k, isdigit c = true := fun _ => isdigit_of_mem_decimal
  rw [strptime, Directive.read]
  cases hyear : getNumber 0 9999 4 (decimal k ++ SP :: s) with
  | none => rfl
  | some p =>
    obtain ⟨v, rest⟩ := p
    obtain ⟨taken, hs, hle, htaken⟩ := getNumber_taken hyear
    obtain ⟨c, w, hw⟩ := List.exists_cons_of_ne_nil (decimal_ne_nil k)
    have hskip : (decimal k ++ SP :: s).dropWhile isspace = decimal k ++ SP :: s := by
      refine dropWhile_of_head fun d hd => not_isspace_of_isdigit ?_
      rw [hw] at hd
      obtain rfl : c = d := Option.some.inj hd
      exact hdigits c (hw ▸ List.mem_cons_self)
    rw [hskip] at hs
    -- The digits that are taken leave one behind at least.
    obtain ⟨w', hw', hrest⟩ : ∃ w', decimal k = taken ++ w' ∧ rest = w' ++ SP :: s := by
      rcases List.append_eq_append_iff.mp hs with ⟨v, rfl, hv⟩ | ⟨v, hv, hrest⟩
      · cases v with
        | nil => exact ⟨[], by simp, by simpa using hv.symm⟩
        | cons c v => simp only [List.length_append, List.length_cons] at hle; omega
      · exact ⟨v, hv, hrest⟩
    have hne : w' ≠ [] := by
      rintro rfl
      rw [hw', List.append_nil] at hlen
      omega
    obtain ⟨d, u, rfl⟩ := List.exists_cons_of_ne_nil hne
    have hall : ∀ c ∈ d :: u, isdigit c = true := fun c hc => hdigits c (hw' ▸ List.mem_append_right _ hc)
    simp only [Option.map_some, Option.bind_some]
    refine strptime_hour_digits ⟨d :: u, s, hall, hrest⟩ fun c hc => ?_
    rw [hrest] at hc
    obtain rfl : d = c := Option.some.inj hc
    exact hall d List.mem_cons_self

theorem strptime_negativeYear {z : Int} (h : z < 0) (ds : List Directive) :
    strptime (.year :: ds) dst (decimalInt z ++ s) = none := by
  simp [decimalInt, h, strptime, Directive.read, getNumber, isspace, SP, isdigit]

/-- A printed time is read back as itself, whatever follows, unless its year has no place in four digits. -/
theorem strptime_strftime (t : Time) (dst : Tm) (rest : Bytes) : strptime timeFormat dst (strftime t.civil ++ rest) =
    if 0 ≤ t.civil.year ∧ t.civil.year ≤ 9999 then some (t.civil, rest) else none := by
  have hr := inRange_civil t
  rw [strftime_eq]
  split
  · next hy => exact strptime_printTime hr (fun _ => hy) (separated_timeFormat t rest)
  · next hy =>
    have hsplit : timeFormat = ([.wday, .byte 0x2C, .space, .mday, .space, .mon, .space] : List Directive) ++
        ([.year, .space, .hour, .byte 0x3A, .min, .byte 0x3A, .sec] : List Directive) := rfl
    have hseparated := separated_timeFormat t rest
    rw [hsplit] at hseparated ⊢
    have hbefore := separated_left hseparated
    rw [ strptime_append, printTime_append, List.append_assoc, strptime_printTime hr (by simp) hbefore,
      Option.bind_some]
    have hyear : printTime [.year, .space, .hour, .byte 0x3A, .min, .byte 0x3A, .sec] t.civil ++ rest =
        decimalInt t.civil.year ++ SP :: (printTime [.hour, .byte 0x3A, .min, .byte 0x3A, .sec] t.civil ++ rest) := by
      simp [printTime, Directive.print]
    rw [hyear]
    rcases lt_or_ge t.civil.year 0 with hneg | hnonneg
    · exact strptime_negativeYear hneg _
    · have hnat : (t.civil.year.toNat : Int) = t.civil.year := Int.toNat_of_nonneg hnonneg
      have hdecimal : decimalInt t.civil.year = decimal t.civil.year.toNat := by rw [← decimalInt_natCast, hnat]
      rw [hdecimal]
      exact strptime_longYear (by omega)

end TimeFormat

end Distsys
