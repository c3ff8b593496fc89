import Mathlib.Tactic.IntervalCases
import AmmarServer.Tools.TimeProvider

/-! Dates that are printed and parsed, and the order of their times. -/

namespace AmmarServer.Tools
open Bytes CString TextFile Calendar

/-! The number of a day. -/

/-- `DaysFromCivil` of a date. -/
def dayNumber (d : Date) : ℤ := daysFromCivil d.year d.month d.day

/-- The era is the quotient that is rounded down, also for years before 0. -/
theorem era_eq (y : ℤ) : Int.tdiv (if 0 ≤ y then y else y - 399) 400 = y / 400 := by
  split
  · rename_i hy
    exact Int.tdiv_eq_ediv_of_nonneg hy
  · have hsign : Int.sign 400 = 1 := rfl
    rw [Int.tdiv_eq_ediv, hsign]
    split <;> omega

/-- The days before a month of a year that starts in March. -/
def daysBefore (m : ℕ) : ℕ := (153 * (if 2 < m then m - 3 else m + 9) + 2) / 5

theorem daysFromCivil_eq (y : ℤ) {m d : ℕ} (hd : 1 ≤ d) :
    daysFromCivil y m d =
      (if m ≤ 2 then y - 1 else y) * 365 + (if m ≤ 2 then y - 1 else y) / 4 -
        (if m ≤ 2 then y - 1 else y) / 100 + (if m ≤ 2 then y - 1 else y) / 400 +
        daysBefore m + d - 719469 := by
  have hshift : y - (if m ≤ 2 then 1 else 0) = if m ≤ 2 then y - 1 else y := by
    split <;> omega
  unfold daysFromCivil daysBefore
  simp only [hshift, era_eq]
  generalize (if m ≤ 2 then y - 1 else y) = y
  generalize (153 * (if 2 < m then m - 3 else m + 9) + 2) / 5 = before
  obtain ⟨yoe, hyoe⟩ := Int.eq_ofNat_of_zero_le (show 0 ≤ y - y / 400 * 400 by omega)
  rw [hyoe, Int.toNat_natCast]
  omega

theorem daysBefore_succ {m : ℕ} (hm : 1 ≤ m) (hlt : m < 12) (hfeb : m ≠ 2) (year : ℤ) :
    daysBefore (m + 1) = daysBefore m + daysInMonth year m := by
  unfold daysInMonth
  rw [if_neg hfeb]
  interval_cases m
  all_goals first | rfl | exact absurd rfl hfeb

/-- Consecutive days have consecutive numbers. -/
theorem dayNumber_next (d : Date) (h : d.Valid) : dayNumber d.next = dayNumber d + 1 := by
  obtain ⟨hmonth, hmonth', hday, hday'⟩ := h
  obtain ⟨year, month, day⟩ := d
  simp only at hmonth hmonth' hday hday'
  unfold dayNumber
  obtain ⟨-, hnext⟩ | ⟨hlast, hmore, hnext⟩ | ⟨hlast, hmore, hnext⟩ := Date.next_cases ⟨year, month, day⟩
  · rw [hnext]
    simp only
    rw [daysFromCivil_eq _ hday, daysFromCivil_eq _ (Nat.le_add_left 1 day)]
    omega
  · rw [hnext]
    simp only at hlast hmore ⊢
    rw [daysFromCivil_eq _ hday, daysFromCivil_eq _ le_rfl]
    by_cases hfeb : month = 2
    · -- The year starts behind its leap day.
      subst hfeb
      have hbefore : daysBefore 2 = 337 ∧ daysBefore 3 = 0 := by decide
      have hlength : daysInMonth year 2 = if IsLeap year then 29 else 28 := rfl
      rw [hlength] at hday' hlast
      simp only [Nat.reduceAdd, Nat.reduceLeDiff, if_true, if_false, hbefore.1, hbefore.2]
      by_cases hleap : IsLeap year
      · rw [if_pos hleap] at hday' hlast
        unfold IsLeap at hleap
        omega
      · rw [if_neg hleap] at hday' hlast
        unfold IsLeap at hleap
        omega
    · have hbefore := daysBefore_succ hmonth hmore hfeb year
      have hshift : month + 1 ≤ 2 ↔ month ≤ 2 := by omega
      simp only [hshift]
      omega
  · obtain rfl : month = 12 := le_antisymm hmonth' hmore
    have hbefore : daysBefore 12 = 275 ∧ daysBefore 1 = 306 := by decide
    have hlength : daysInMonth year 12 = 31 := rfl
    rw [hnext]
    simp only at hlast ⊢
    rw [daysFromCivil_eq _ hday, daysFromCivil_eq _ le_rfl]
    simp only [Nat.reduceLeDiff, if_true, if_false, hbefore.1, hbefore.2]
    omega

theorem dayNumber_epoch : dayNumber epoch = 0 := by decide

/-- A later day has the larger number. -/
theorem dayNumber_lt {d d' : Date} (h : d.Valid) (h' : d'.Valid) (hlt : d.Before d') :
    dayNumber d < dayNumber d' := Date.lt_of_before dayNumber_next h h' hlt

theorem dayNumber_dateAt (days : ℕ) : dayNumber (dateAt days) = days := by
  rw [apply_dateAt dayNumber_next, dayNumber_epoch, zero_add]

theorem dateAt_year (days : ℕ) : 1970 ≤ (dateAt days).year := by
  by_contra hearly
  have hbefore : (dateAt days).Before epoch := .inl (not_le.mp hearly)
  have hnegative := dayNumber_lt (dateAt_valid days) (by decide) hbefore
  rw [dayNumber_dateAt, dayNumber_epoch] at hnegative
  omega

/-! Reading the fields back. -/

/-- Digits that an `unsigned int` holds the number of. -/
structure Number (s : List UInt8) (n : ℕ) : Prop where
  ne_nil : s ≠ []
  digits : ∀ c ∈ s, isDigit c = true
  value : TextFile.digits s = n
  small : n < 2 ^ 32

theorem Number.scan {s : List UInt8} {n : ℕ} (h : Number s n) {rest : List UInt8}
    (hstop : ∀ c ∈ rest.head?, isDigit c = false) : scanUnsigned (s ++ rest) = some (n, rest) := by
  obtain ⟨hne, hdigits, rfl, hsmall⟩ := h
  exact scanUnsigned_digits hne hdigits hsmall hstop

theorem number_decimal {n : ℕ} (hn : n < 2 ^ 32) : Number (decimal n) n :=
  ⟨decimal_ne_nil n, isDigit_decimal, digits_decimal n, hn⟩

theorem number_paddedDecimal (width : ℕ) {n : ℕ} (hn : n < 2 ^ 32) :
    Number (paddedDecimal width n) n :=
  ⟨paddedDecimal_ne_nil width n, isDigit_paddedDecimal, digits_paddedDecimal width n, hn⟩

/-- A date from its day to its seconds, and the text behind them. -/
def dateBody (day month year hour minute second rest : List UInt8) : List UInt8 :=
  day ++ 32 :: (month ++ 32 :: (year ++ 32 :: (hour ++ 58 :: (minute ++ 58 :: (second ++ rest)))))

set_option maxRecDepth 4000 in
theorem months_plain {month : List UInt8} (h : month ∈ months) :
    month ≠ [] ∧ month.length ≤ 3 ∧ ∀ c ∈ month, isSpace c = false ∧ c ≠ 0 ∧ c ≠ 44 := by
  revert month
  decide

section Fields
variable {day month year hour minute second rest : List UInt8} {d y h m s : ℕ}

theorem scanTime_numbers (hhour : Number hour h) (hminute : Number minute m)
    (hsecond : Number second s) (hstop : ∀ c ∈ rest.head?, isDigit c = false) :
    scanTime (hour ++ 58 :: (minute ++ 58 :: (second ++ rest))) = some (h, m, s) := by
  have hcolon : ∀ t : List UInt8, ∀ c ∈ (58 :: t : List UInt8).head?, isDigit c = false := by
    rintro t c hc
    obtain rfl := Option.some.inj hc
    rfl
  unfold scanTime
  rw [hhour.scan (hcolon _), Option.bind_some]
  simp only [scanLiteral_cons, Option.bind_some]
  rw [hminute.scan (hcolon _), Option.bind_some]
  simp only [scanLiteral_cons, Option.bind_some]
  rw [hsecond.scan hstop]
  rfl

theorem scanFixdate_dateBody (hday : Number day d) (hmonth : month ∈ months) (hyear : Number year y)
    (hhour : Number hour h) (hminute : Number minute m) (hsecond : Number second s)
    (hstop : ∀ c ∈ rest.head?, isDigit c = false) :
    scanFixdate (dateBody day month year hour minute second rest) =
      some ⟨d, month, y, h, m, s⟩ := by
  obtain ⟨hne, hlength, hplain⟩ := months_plain hmonth
  have hblank : ∀ t : List UInt8, ∀ c ∈ (32 :: t : List UInt8).head?,
      isDigit c = false ∧ isSpace c = true := by
    rintro t c hc
    obtain rfl := Option.some.inj hc
    exact ⟨rfl, rfl⟩
  unfold scanFixdate dateBody
  rw [hday.scan fun c hc => (hblank _ c hc).1, Option.bind_some]
  simp only
  rw [scanWord_space 3 (by rfl), scanWord_append hne (fun c hc => (hplain c hc).1) hlength
    (fun c hc => (hblank _ c hc).2), Option.bind_some]
  simp only
  rw [scanUnsigned_space (by rfl), hyear.scan fun c hc => (hblank _ c hc).1, Option.bind_some]
  simp only
  have hspace : scanTime (32 :: (hour ++ 58 :: (minute ++ 58 :: (second ++ rest)))) =
      scanTime (hour ++ 58 :: (minute ++ 58 :: (second ++ rest))) := by
    unfold scanTime
    rw [scanUnsigned_space (by rfl)]
  rw [hspace, scanTime_numbers hhour hminute hsecond hstop]
  rfl

end Fields

/-! Whole dates. -/

/-- A date with its weekday and its zone. -/
def dateLine (weekday day month year hour minute second : List UInt8) : List UInt8 :=
  weekday ++ 44 :: 32 :: dateBody day month year hour minute second (ascii " GMT")

set_option maxRecDepth 4000 in
theorem days_plain {weekday : List UInt8} (h : weekday ∈ days) :
    weekday ≠ [] ∧ ∀ c ∈ weekday, isBlank c = false ∧ c ≠ 0 ∧ c ≠ 44 := by
  revert weekday
  decide

theorem dateText_append {weekday body tail : List UInt8} (hweekday : weekday ∈ days)
    (hbody : 0 ∉ body) (hhead : ∀ c ∈ (body ++ [84]).head?, c ≠ 32)
    (htail : tail = [] ∨ tail = [LF]) :
    dateText (weekday ++ 44 :: 32 :: (body ++ [84]) ++ tail) = body ++ [84] := by
  obtain ⟨hne, hplain⟩ := days_plain hweekday
  have hzero : 0 ∉ weekday ++ 44 :: 32 :: (body ++ [84]) ++ tail := by
    intro hmem
    rcases List.mem_append.mp hmem with hmem | hmem
    · rcases List.mem_append.mp hmem with hmem | hmem
      · exact (hplain 0 hmem).2.1 rfl
      · simp [hbody] at hmem
    · rcases htail with rfl | rfl
      · cases hmem
      · simp [LF] at hmem
  have hfront : (weekday ++ 44 :: 32 :: (body ++ [84]) ++ tail).dropWhile isBlank =
      weekday ++ 44 :: 32 :: (body ++ [84]) ++ tail := by
    obtain ⟨c, rest, rfl⟩ := List.exists_cons_of_ne_nil hne
    simp only [List.cons_append]
    rw [List.dropWhile_cons_of_neg (by simp [(hplain c (List.mem_cons_self ..)).1])]
  have hback : (weekday ++ 44 :: 32 :: (body ++ [84]) ++ tail).rdropWhile
      (fun c => isBlank c || isNewline c) = weekday ++ 44 :: 32 :: (body ++ [84]) := by
    have hlast : weekday ++ 44 :: 32 :: (body ++ [84]) = (weekday ++ 44 :: 32 :: body) ++ [84] := by
      simp
    rcases htail with rfl | rfl
    · rw [List.append_nil, hlast, List.rdropWhile_concat_neg _ _ _ (by decide)]
    · rw [List.rdropWhile_concat_pos _ _ _ (by decide), hlast,
        List.rdropWhile_concat_neg _ _ _ (by decide)]
  have hcomma : (weekday ++ 44 :: 32 :: (body ++ [84])).dropWhile (fun c => decide (c ≠ 44)) =
      44 :: 32 :: (body ++ [84]) := by
    rw [List.dropWhile_append_of_pos fun c hc => by simpa using (hplain c hc).2.2]
    rfl
  unfold dateText
  rw [cstring_of_notMem hzero, hfront, hback]
  simp only [hcomma]
  rw [List.dropWhile_cons_of_pos (by rfl)]
  obtain ⟨c, rest, hcons⟩ := List.exists_cons_of_ne_nil (List.concat_ne_nil 84 body)
  rw [hcons] at hhead ⊢
  rw [List.dropWhile_cons_of_neg (by simpa using hhead c rfl)]

section Parse
variable {weekday day month year hour minute second tail : List UInt8} {d y h m s : ℕ}

theorem zero_notMem_number {t : List UInt8} {n : ℕ} (ht : Number t n) : 0 ∉ t :=
  fun hmem => (plain_of_isDigit (ht.digits 0 hmem)).2.2.2.2.2 rfl

set_option maxRecDepth 4000 in
theorem parseHTTPDate_dateLine (hweekday : weekday ∈ days) (hday : Number day d)
    (hmonth : month ∈ months) (hyear : Number year y) (hhour : Number hour h)
    (hminute : Number minute m) (hsecond : Number second s) (htail : tail = [] ∨ tail = [LF])
    (hlength : (dateLine weekday day month year hour minute second ++ tail).length < 64) :
    parseHTTPDate (dateLine weekday day month year hour minute second ++ tail) =
      dateTime ⟨d, month, y, h, m, s⟩ := by
  have hsplit : dateBody day month year hour minute second (ascii " GMT") =
      dateBody day month year hour minute second (ascii " GM") ++ [84] := by
    have hzone : ascii " GMT" = ascii " GM" ++ [84] := rfl
    unfold dateBody
    rw [hzone]
    simp
  have hbody : 0 ∉ dateBody day month year hour minute second (ascii " GM") := by
    have hname : 0 ∉ month := fun hmem => ((months_plain hmonth).2.2 0 hmem).2.1 rfl
    have hzone : 0 ∉ ascii " GM" := by decide
    unfold dateBody
    simp [zero_notMem_number hday, zero_notMem_number hyear, zero_notMem_number hhour,
      zero_notMem_number hminute, zero_notMem_number hsecond, hname, hzone]
  have hhead : ∀ c ∈ (dateBody day month year hour minute second (ascii " GM") ++ [84]).head?,
      c ≠ 32 := by
    obtain ⟨c, rest, rfl⟩ := List.exists_cons_of_ne_nil hday.ne_nil
    rintro c' hc' rfl
    obtain rfl : c = 32 := Option.some.inj hc'
    exact absurd (hday.digits 32 (List.mem_cons_self ..)) (by decide)
  have htext : dateText (dateLine weekday day month year hour minute second ++ tail) =
      dateBody day month year hour minute second (ascii " GMT") := by
    unfold dateLine
    rw [hsplit]
    exact dateText_append hweekday hbody hhead htail
  unfold parseHTTPDate
  rw [if_neg (not_le.mpr hlength), htext]
  unfold scanDate
  rw [scanFixdate_dateBody hday hmonth hyear hhour hminute hsecond (by decide)]
  rfl

end Parse

theorem parseMonthName_months {i : ℕ} (hi : i < 12) :
    parseMonthName (months.getD i []) = some i := by
  revert i
  decide

theorem dateTime_months {i d y h m s : ℕ} (hi : i < 12) :
    dateTime ⟨d, months.getD i [], y, h, m, s⟩ =
      if d < 1 ∨ 31 < d ∨ y < 1900 ∨ 9999 < y ∨ 23 < h ∨ 59 < m ∨ 60 < s then none
      else some (dayNumber ⟨y, i + 1, d⟩ * 86400 + h * 3600 + m * 60 + s) := by
  unfold dateTime
  rw [parseMonthName_months hi]
  rfl

/-! What is printed for a time. -/

theorem days_mem (n : ℕ) : days.getD (n % 7) [] ∈ days := by
  have hlt : n % 7 < 7 := Nat.mod_lt n (by decide)
  interval_cases n % 7 <;> decide

theorem months_mem {i : ℕ} (hi : i < 12) : months.getD i [] ∈ months := by
  interval_cases i <;> decide

theorem mem_length {name : List UInt8} : (name ∈ days → name.length = 3) ∧
    (name ∈ months → name.length = 3) := by
  constructor
  · revert name
    decide
  · revert name
    decide

/-- The value that is printed for a time. -/
def timeValue (time : ℕ) : List UInt8 :=
  let tmv := gmtime time
  dateValue tmv.tm_wday tmv.tm_mday tmv.tm_mon tmv.year tmv.tm_hour tmv.tm_min tmv.tm_sec

theorem dateValue_eq (dayofweek day month year hour minute second : ℕ) :
    dateValue dayofweek day month year hour minute second =
      dateLine (days.getD dayofweek []) (decimal day) (months.getD month []) (decimal year)
        (paddedDecimal 2 hour) (paddedDecimal 2 minute) (paddedDecimal 2 second) := by
  have hcomma : ascii ", " = [44, 32] := rfl
  unfold dateValue dateLine dateBody
  rw [hcomma]
  simp only [List.append_assoc, List.cons_append, List.nil_append]

theorem gmtime_wday (time : ℕ) : (gmtime time).tm_wday = (4 + time / 86400) % 7 := rfl

theorem gmtime_ranges (time : ℕ) :
    1 ≤ (gmtime time).tm_mday ∧ (gmtime time).tm_mday ≤ 31 ∧ (gmtime time).tm_mon < 12 ∧
      1970 ≤ (gmtime time).year ∧ (gmtime time).tm_hour < 24 ∧ (gmtime time).tm_min < 60 ∧
      (gmtime time).tm_sec < 60 := by
  have hvalid := dateAt_valid (time / 86400)
  have hyear := dateAt_year (time / 86400)
  have hday := hvalid.day_le.trans (Date.daysInMonth_bounds _ _).2
  have hmonth := hvalid.month_le
  unfold gmtime
  simp only
  exact ⟨hvalid.day_pos, hday, by omega, by omega, by omega, by omega, by omega⟩

theorem dayNumber_gmtime (time : ℕ) :
    dayNumber ⟨(gmtime time).year, (gmtime time).tm_mon + 1, (gmtime time).tm_mday⟩ =
      (time / 86400 : ℕ) := by
  have hvalid := dateAt_valid (time / 86400)
  have hyear := dateAt_year (time / 86400)
  have hmonth := hvalid.month_pos
  have hdate : (⟨(gmtime time).year, (gmtime time).tm_mon + 1, (gmtime time).tm_mday⟩ : Date) =
      dateAt (time / 86400) := by
    unfold gmtime
    simp only
    rw [Int.toNat_of_nonneg (by omega), Nat.sub_add_cancel hmonth]
  rw [hdate, dayNumber_dateAt]

theorem timeValue_length {time : ℕ} (hyear : (gmtime time).year ≤ 9999) :
    (timeValue time).length ≤ 29 := by
  obtain ⟨-, hday, hmonth, -, hhour, hminute, hsecond⟩ := gmtime_ranges time
  have hweekday := mem_length.1 (days_mem (4 + time / 86400))
  have hname := mem_length.2 (months_mem hmonth)
  have hdayLength : (decimal (gmtime time).tm_mday).length ≤ 2 :=
    decimal_length (by decide) (by omega)
  have hyearLength : (decimal (gmtime time).year).length ≤ 4 := decimal_length (by decide) (by omega)
  have hhourLength : (paddedDecimal 2 (gmtime time).tm_hour).length = 2 :=
    paddedDecimal_length (by decide) (by omega)
  have hminuteLength : (paddedDecimal 2 (gmtime time).tm_min).length = 2 :=
    paddedDecimal_length (by decide) (by omega)
  have hsecondLength : (paddedDecimal 2 (gmtime time).tm_sec).length = 2 :=
    paddedDecimal_length (by decide) (by omega)
  have hzone : (ascii " GMT").length = 4 := rfl
  unfold timeValue
  rw [dateValue_eq]
  unfold dateLine dateBody
  simp only [List.length_append, List.length_cons, gmtime_wday, hweekday, hname, hhourLength,
    hminuteLength, hsecondLength, hzone]
  omega

/-- What is printed for a time up to the year 9999 is parsed as that time. -/
theorem parseHTTPDate_timeValue {time : ℕ} (hyear : (gmtime time).year ≤ 9999)
    {tail : List UInt8} (htail : tail = [] ∨ tail = [LF]) :
    parseHTTPDate (timeValue time ++ tail) = some (time : ℤ) := by
  obtain ⟨hday, hday', hmonth, hyear', hhour, hminute, hsecond⟩ := gmtime_ranges time
  have hlength := timeValue_length hyear
  have htailLength : tail.length ≤ 1 := by
    rcases htail with rfl | rfl
    · exact Nat.zero_le 1
    · exact le_rfl
  have hshort : (timeValue time ++ tail).length < 64 := by
    rw [List.length_append]
    omega
  unfold timeValue at hshort ⊢
  rw [dateValue_eq, gmtime_wday] at hshort ⊢
  rw [parseHTTPDate_dateLine (days_mem _) (number_decimal (by omega)) (months_mem hmonth)
    (number_decimal (by omega)) (number_paddedDecimal 2 (by omega))
    (number_paddedDecimal 2 (by omega)) (number_paddedDecimal 2 (by omega)) htail hshort,
    dateTime_months hmonth, if_neg (by omega), dayNumber_gmtime]
  unfold gmtime
  simp only
  congr 1
  omega

theorem getDateStringFromTimeT_eq (maxOutput : ℕ) (label : Option (List UInt8)) (time : ℕ) :
    getDateStringFromTimeT maxOutput label time =
      (((label.map (· ++ ascii ": ")).getD []) ++ timeValue time ++ [LF]).take (maxOutput - 1) := by
  cases label with
  | none => rfl
  | some label =>
    rw [Option.map_some, Option.getD_some, List.append_assoc]
    rfl

/-! Dates that others print. -/

/-- An IMF-fixdate. -/
structure ImfFixdate where
  weekday : Fin 7
  day : Fin 100
  month : Fin 12
  year : Fin 10000
  hour : Fin 100
  minute : Fin 100
  second : Fin 100
deriving DecidableEq, Repr

namespace ImfFixdate

def text (v : ImfFixdate) : List UInt8 :=
  dateLine (days.getD v.weekday []) (paddedDecimal 2 v.day) (months.getD v.month [])
    (paddedDecimal 4 v.year) (paddedDecimal 2 v.hour) (paddedDecimal 2 v.minute)
    (paddedDecimal 2 v.second)

def date (v : ImfFixdate) : Date := ⟨v.year.val, v.month + 1, v.day⟩

/-- The first date and time come before the second. -/
def Earlier (v w : ImfFixdate) : Prop :=
  v.date.Before w.date ∨
    v.date = w.date ∧ (v.hour < w.hour ∨
      v.hour = w.hour ∧ (v.minute < w.minute ∨ v.minute = w.minute ∧ v.second < w.second))

theorem text_length (v : ImfFixdate) : v.text.length = 29 := by
  have hweekday := mem_length.1 (days_mem v.weekday)
  have hname := mem_length.2 (months_mem v.month.isLt)
  have htwo : ∀ n : Fin 100, (paddedDecimal 2 n).length = 2 :=
    fun n => paddedDecimal_length (by decide) n.isLt
  have hfour : (paddedDecimal 4 v.year).length = 4 := paddedDecimal_length (by decide) v.year.isLt
  have hzone : (ascii " GMT").length = 4 := rfl
  rw [Nat.mod_eq_of_lt v.weekday.isLt] at hweekday
  unfold text dateLine dateBody
  simp only [List.length_append, List.length_cons, hweekday, hname, htwo, hfour, hzone]

theorem parse_text (v : ImfFixdate) :
    parseHTTPDate v.text = dateTime ⟨v.day, months.getD v.month [], v.year, v.hour, v.minute,
      v.second⟩ := by
  have hweekday := days_mem v.weekday
  rw [Nat.mod_eq_of_lt v.weekday.isLt] at hweekday
  have htwo : ∀ n : Fin 100, Number (paddedDecimal 2 n) n := fun n => number_paddedDecimal 2 (by omega)
  have hparse := parseHTTPDate_dateLine hweekday (htwo v.day) (months_mem v.month.isLt)
    (number_paddedDecimal 4 (n := v.year) (by omega)) (htwo v.hour) (htwo v.minute)
    (htwo v.second) (.inl rfl) (by
      rw [List.append_nil]
      exact v.text_length.trans_lt (by decide))
  rwa [List.append_nil] at hparse

theorem accepted {v : ImfFixdate} {time : ℤ} (h : parseHTTPDate v.text = some time) :
    v.hour.val ≤ 23 ∧ v.minute.val ≤ 59 ∧ v.second.val ≤ 60 ∧
      time = dayNumber v.date * 86400 + v.hour.val * 3600 + v.minute.val * 60 + v.second.val := by
  rw [parse_text, dateTime_months v.month.isLt] at h
  split at h
  · cases h
  · have htime := Option.some.inj h
    refine ⟨by omega, by omega, by omega, htime.symm⟩

/-- Of two dates, the later one has the larger time, and none has a smaller one. Both times are the
same only if the earlier date is a leap second. -/
theorem time_lt {v w : ImfFixdate} {time time' : ℤ} (hv : v.date.Valid) (hw : w.date.Valid)
    (h : parseHTTPDate v.text = some time) (h' : parseHTTPDate w.text = some time')
    (hearlier : v.Earlier w) : time < time' ∨ v.second.val = 60 ∧ time = time' := by
  obtain ⟨hhour, hminute, hsecond, rfl⟩ := accepted h
  obtain ⟨-, -, -, rfl⟩ := accepted h'
  rcases hearlier with hday | ⟨hday, hclock⟩
  · have hnumber := dayNumber_lt hv hw hday
    omega
  · rw [hday]
    simp only [Fin.lt_def, Fin.ext_iff] at hclock
    omega

end ImfFixdate

/-- Every time up to the year 9999 is printed as a date that is parsed as that time, the days are
numbered from 1 January 1970, and the accepted IMF-fixdates of days of the calendar have the order of
their times, up to a leap second and the second behind it. -/
theorem httpDates_agree :
    (∀ (maxOutput : ℕ) (label : Option (List UInt8)) (time : ℕ), (gmtime time).year ≤ 9999 →
      ((label.map (· ++ ascii ": ")).getD []).length + 31 ≤ maxOutput →
      ∃ value, getDateStringFromTimeT maxOutput label time =
          ((label.map (· ++ ascii ": ")).getD []) ++ value ++ [LF] ∧
        parseHTTPDate value = some (time : ℤ) ∧ parseHTTPDate (value ++ [LF]) = some (time : ℤ)) ∧
    daysFromCivil 1970 1 1 = 0 ∧ (∀ d : Date, d.Valid → dayNumber d.next = dayNumber d + 1) ∧
    ∀ (v w : ImfFixdate) (time time' : ℤ), v.date.Valid → w.date.Valid →
      parseHTTPDate v.text = some time → parseHTTPDate w.text = some time' → v.Earlier w →
      time < time' ∨ v.second.val = 60 ∧ time = time' := by
  refine ⟨fun maxOutput label time hyear hroom => ⟨timeValue time, ?_, ?_, ?_⟩, dayNumber_epoch,
    dayNumber_next, fun v w time time' hv hw h h' => ImfFixdate.time_lt hv hw h h'⟩
  · have hlength := timeValue_length hyear
    rw [getDateStringFromTimeT_eq, List.take_of_length_le]
    simp only [List.length_append, List.length_cons, List.length_nil]
    omega
  · have hparse := parseHTTPDate_timeValue hyear (.inl rfl)
    rwa [List.append_nil] at hparse
  · exact parseHTTPDate_timeValue hyear (.inr rfl)

/-- The leap second at the end of the year 2016. -/
def leapSecond : ImfFixdate :=
  { weekday := Fin.last 6
    day := 31
    month := 11
    year := 2016
    hour := 23
    minute := 59
    second := 60 }

/-- The second behind it. -/
def newYear : ImfFixdate :=
  { weekday := (Fin.last 6).rev
    day := 1
    month := 0
    year := 2017
    hour := 0
    minute := 0
    second := 0 }

theorem httpDates_agree_newYear :
    (1483228800 : ℤ) < 1483228800 ∨ leapSecond.second.val = 60 ∧ (1483228800 : ℤ) = 1483228800 :=
  httpDates_agree.2.2.2 leapSecond newYear 1483228800 1483228800 (by decide) (by decide) (by decide)
    (by decide) (.inl (by decide))

/-- A leap second has the time of the second behind it. -/
theorem leapSecond_sameTime :
    ¬ ∀ (v w : ImfFixdate) (time time' : ℤ), parseHTTPDate v.text = some time →
      parseHTTPDate w.text = some time' → v.Earlier w → time < time' := by
  intro h
  have hlt := h leapSecond newYear 1483228800 1483228800 (by decide) (by decide) (.inl (by decide))
  exact absurd hlt (lt_irrefl _)

end AmmarServer.Tools
