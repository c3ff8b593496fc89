import Mathlib.Data.Int.Order.Basic
import Mathlib.Tactic.Ring
import Mathlib.Logic.Function.Iterate

/-! The proleptic Gregorian calendar, one day after the other. -/

namespace Calendar

/-- Months and days count from 1. -/
structure Date where
  year : ℤ
  month : ℕ
  day : ℕ
deriving DecidableEq, Repr

def IsLeap (year : ℤ) : Prop := year % 4 = 0 ∧ (year % 100 ≠ 0 ∨ year % 400 = 0)

instance (year : ℤ) : Decidable (IsLeap year) := inferInstanceAs (Decidable (_ ∧ _))

def daysInMonth (year : ℤ) (month : ℕ) : ℕ :=
  if month = 2 then if IsLeap year then 29 else 28
  else if month = 4 ∨ month = 6 ∨ month = 9 ∨ month = 11 then 30
  else 31

namespace Date

structure Valid (d : Date) : Prop where
  month_pos : 1 ≤ d.month
  month_le : d.month ≤ 12
  day_pos : 1 ≤ d.day
  day_le : d.day ≤ daysInMonth d.year d.month

instance (d : Date) : Decidable d.Valid :=
  decidable_of_iff (1 ≤ d.month ∧ d.month ≤ 12 ∧ 1 ≤ d.day ∧ d.day ≤ daysInMonth d.year d.month)
    ⟨fun ⟨h₁, h₂, h₃, h₄⟩ => ⟨h₁, h₂, h₃, h₄⟩, fun h => ⟨h.1, h.2, h.3, h.4⟩⟩

/-- The next day. -/
def next (d : Date) : Date :=
  if d.day < daysInMonth d.year d.month then { d with day := d.day + 1 }
  else if d.month < 12 then { d with month := d.month + 1, day := 1 }
  else { year := d.year + 1, month := 1, day := 1 }

/-- An earlier day. -/
def Before (d d' : Date) : Prop :=
  d.year < d'.year ∨
    d.year = d'.year ∧ (d.month < d'.month ∨ d.month = d'.month ∧ d.day < d'.day)

instance (d d' : Date) : Decidable (Before d d') := inferInstanceAs (Decidable (_ ∨ _))

theorem daysInMonth_bounds (year : ℤ) (month : ℕ) :
    28 ≤ daysInMonth year month ∧ daysInMonth year month ≤ 31 := by
  unfold daysInMonth
  split
  · split <;> decide
  · split <;> decide

/-- The three ways to the next day. -/
theorem next_cases (d : Date) :
    d.day < daysInMonth d.year d.month ∧ d.next = { d with day := d.day + 1 } ∨
    daysInMonth d.year d.month ≤ d.day ∧ d.month < 12 ∧
      d.next = { d with month := d.month + 1, day := 1 } ∨
    daysInMonth d.year d.month ≤ d.day ∧ 12 ≤ d.month ∧
      d.next = { year := d.year + 1, month := 1, day := 1 } := by
  unfold next
  split
  · rename_i hday
    exact .inl ⟨hday, rfl⟩
  · rename_i hday
    split
    · rename_i hmonth
      exact .inr (.inl ⟨not_lt.mp hday, hmonth, rfl⟩)
    · rename_i hmonth
      exact .inr (.inr ⟨not_lt.mp hday, not_lt.mp hmonth, rfl⟩)

theorem Valid.next {d : Date} (h : d.Valid) : d.next.Valid := by
  obtain ⟨hday, hnext⟩ | ⟨-, hmonth, hnext⟩ | ⟨-, -, hnext⟩ := next_cases d
  · rw [hnext]
    exact ⟨h.month_pos, h.month_le, Nat.le_add_left 1 d.day, hday⟩
  · rw [hnext]
    refine ⟨Nat.le_add_left 1 d.month, hmonth, le_rfl, ?_⟩
    exact (by decide : 1 ≤ 28).trans (daysInMonth_bounds d.year (d.month + 1)).1
  · rw [hnext]
    exact ⟨le_rfl, (by decide : 1 ≤ 12), le_rfl, (by decide : 1 ≤ 28).trans (daysInMonth_bounds _ 1).1⟩

/-- No day lies between a day and the next. -/
theorem next_eq_or_before {d d' : Date} (h : d.Valid) (h' : d'.Valid) (hlt : Before d d') :
    d.next = d' ∨ Before d.next d' := by
  have hsame : d.year = d'.year → d.month = d'.month → d'.day ≤ daysInMonth d.year d.month := by
    intro hyear hmonth
    rw [hyear, hmonth]
    exact h'.day_le
  have hmonth := h.month_le
  have hmonth' := h'.month_pos
  have hday' := h'.day_pos
  have hlast := h'.month_le
  obtain ⟨year', month', day'⟩ := d'
  unfold Before at hlt ⊢
  obtain ⟨hday, hnext⟩ | ⟨hday, hmore, hnext⟩ | ⟨hday, hmore, hnext⟩ := next_cases d
  all_goals
    rw [hnext, mk.injEq]
    simp only at *
    omega

/-- The days between a day and a later one, at most. -/
def gap (d d' : Date) : ℕ :=
  (d'.year - d.year).toNat * 600 + d'.month * 40 + d'.day - (d.month * 40 + d.day)

theorem gap_next {d d' : Date} (h : d.Valid) (h' : d'.Valid) (hlt : Before d.next d') :
    gap d.next d' < gap d d' := by
  have hbounds := daysInMonth_bounds d.year d.month
  have hday := h.day_le
  have hpos := h.day_pos
  have hmonth := h.month_le
  have hmonth' := h'.month_le
  have hday' := h'.day_le.trans (daysInMonth_bounds d'.year d'.month).2
  unfold gap Before at *
  obtain ⟨hless, hnext⟩ | ⟨hless, hmore, hnext⟩ | ⟨hless, hmore, hnext⟩ := next_cases d
  all_goals
    rw [hnext] at hlt ⊢
    simp only at *
    omega

/-- A number that the next day is one ahead of tells the order of the days. -/
theorem lt_of_before {f : Date → ℤ} (hf : ∀ d, d.Valid → f d.next = f d + 1) {d d' : Date}
    (h : d.Valid) (h' : d'.Valid) (hlt : Before d d') : f d < f d' := by
  induction hgap : gap d d' using Nat.strong_induction_on generalizing d with
  | _ n ih =>
    have hstep := hf d h
    rcases next_eq_or_before h h' hlt with rfl | hlater
    · omega
    · have hrest := ih _ (hgap ▸ gap_next h h' hlater) h.next hlater rfl
      omega

end Date

/-! Days since the epoch. -/

def epoch : Date := ⟨1970, 1, 1⟩

/-- The day that comes a number of days after 1 January 1970. -/
def dateAt (days : ℕ) : Date := Date.next^[days] epoch

theorem dateAt_succ (days : ℕ) : dateAt (days + 1) = (dateAt days).next :=
  Function.iterate_succ_apply' ..

theorem dateAt_valid (days : ℕ) : (dateAt days).Valid := by
  induction days with
  | zero => decide
  | succ days ih => exact dateAt_succ days ▸ ih.next

/-- A number that the next day is one ahead of counts the days from the epoch. -/
theorem apply_dateAt {f : Date → ℤ} (hf : ∀ d, d.Valid → f d.next = f d + 1) (days : ℕ) :
    f (dateAt days) = f epoch + days := by
  induction days with
  | zero => exact (add_zero _).symm
  | succ days ih =>
    rw [dateAt_succ, hf _ (dateAt_valid days), ih]
    push_cast
    ring

end Calendar
