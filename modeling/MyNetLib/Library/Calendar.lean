import Mathlib

/-! # Intervals, years and months

The starts of consecutive intervals split every number into the interval it falls in
and its offset there. The Gregorian calendar does so twice: the days since 1970 fall
into years, the days of a year into months.
-/

namespace MyNetLib.Library

/-! ## Consecutive intervals -/

/-- The last interval, of those up to `bound`, that starts at `n` or before. -/
def interval (start : Nat → Nat) (bound n : Nat) : Nat := Nat.findGreatest (start · ≤ n) bound

variable {start : Nat → Nat} {bound bound' n m : Nat}

theorem interval_le_bound : interval start bound n ≤ bound := Nat.findGreatest_le bound

theorem start_interval_le (h : start 0 ≤ n) : start (interval start bound n) ≤ n :=
  Nat.findGreatest_spec (P := (start · ≤ n)) (Nat.zero_le bound) h

theorem lt_start_succ (h : n < start (bound + 1)) : n < start (interval start bound n + 1) := by
  rcases Nat.lt_or_ge (interval start bound n) bound with hlt | hge
  · exact Nat.lt_of_not_le (Nat.findGreatest_is_greatest (P := (start · ≤ n))
      (Nat.lt_succ_self _) hlt)
  · rw [Nat.le_antisymm interval_le_bound hge]
    exact h

theorem interval_lt (hmono : Monotone start) (hzero : start 0 = 0)
    (hm : m < start (bound' + 1)) (hlt : n < m) :
    interval start bound n < interval start bound' m ∨
      interval start bound n = interval start bound' m ∧
        n - start (interval start bound n) < m - start (interval start bound' m) := by
  have hn : start (interval start bound n) ≤ n := start_interval_le (by omega)
  have hnext := lt_start_succ hm
  rcases Nat.lt_trichotomy (interval start bound n) (interval start bound' m) with h | h | h
  · exact Or.inl h
  · right
    rw [← h]
    omega
  · have hle := hmono (Nat.succ_le_of_lt h)
    simp only [Nat.succ_eq_add_one] at hle
    omega

/-! ## The Gregorian calendar -/

namespace Calendar

/-- The days from 1970 to the beginning of the year `1970 + k`. -/
def yearStart (k : Nat) : Nat := 365 * k + (k + 1) / 4 + (k + 369) / 400 - (k + 69) / 100

theorem centuries_le (k : Nat) : (k + 69) / 100 ≤ (k + 1) / 4 + (k + 369) / 400 := by
  omega

/-- A year divisible by 100 is divisible by 4, one divisible by 400 is divisible by 100. -/
theorem yearStart_succ (k : Nat) :
    yearStart (k + 1) = yearStart k + 365 ∨ yearStart (k + 1) = yearStart k + 366 := by
  have hk := centuries_le k
  have h4 : (k + 1 + 1) / 4 = (k + 1) / 4 + if 4 ∣ k + 1 + 1 then 1 else 0 := Nat.succ_div
  have h100 : (k + 69 + 1) / 100 = (k + 69) / 100 + if 100 ∣ k + 69 + 1 then 1 else 0 :=
    Nat.succ_div
  have h400 : (k + 369 + 1) / 400 = (k + 369) / 400 + if 400 ∣ k + 369 + 1 then 1 else 0 :=
    Nat.succ_div
  unfold yearStart
  rw [show k + 1 + 69 = k + 69 + 1 by omega, show k + 1 + 369 = k + 369 + 1 by omega, h4, h100,
    h400]
  split <;> split <;> split <;> omega

theorem yearStart_mono : Monotone yearStart := by
  apply monotone_nat_of_le_succ
  intro k
  have hsucc := yearStart_succ k
  omega

theorem le_yearStart (k : Nat) : 365 * k ≤ yearStart k := by
  unfold yearStart
  omega

/-- The year of a day, counted from 1970. -/
def yearOf (days : Nat) : Nat := interval yearStart (days / 365) days

theorem lt_yearStart (days : Nat) : days < yearStart (days / 365 + 1) := by
  have hle := le_yearStart (days / 365 + 1)
  omega

def leap (year : Nat) : Bool := yearStart (year + 1) - yearStart year = 366

def monthLengths (leap : Bool) : List Nat :=
  [31, if leap then 29 else 28, 31, 30, 31, 30, 31, 31, 30, 31, 30, 31]

/-- The days of the year before the month `k`, counted from 0. -/
def monthStart (leap : Bool) (k : Nat) : Nat := ((monthLengths leap).take k).sum

theorem monthStart_mono (leap : Bool) : Monotone (monthStart leap) := by
  apply monotone_nat_of_le_succ
  intro k
  rw [monthStart, monthStart, List.take_add_one, List.sum_append]
  exact Nat.le_add_right _ _

/-- The day of the year, counted from 0. -/
def ydayOf (days : Nat) : Nat := days - yearStart (yearOf days)

def monthOf (days : Nat) : Nat := interval (monthStart (leap (yearOf days))) 11 (ydayOf days)

/-- The day of the month, counted from 1. -/
def mdayOf (days : Nat) : Nat :=
  ydayOf days - monthStart (leap (yearOf days)) (monthOf days) + 1

theorem ydayOf_lt (days : Nat) : ydayOf days < monthStart (leap (yearOf days)) 12 := by
  have hle : yearStart (yearOf days) ≤ days := start_interval_le (Nat.zero_le _)
  have hnext : days < yearStart (yearOf days + 1) := lt_start_succ (lt_yearStart days)
  have hsucc := yearStart_succ (yearOf days)
  cases hleap : leap (yearOf days) with
  | true =>
      have hlength : yearStart (yearOf days + 1) - yearStart (yearOf days) = 366 := by
        simpa [leap] using hleap
      show days - _ < 366
      omega
  | false =>
      have hlength : yearStart (yearOf days + 1) - yearStart (yearOf days) ≠ 366 := by
        simpa [leap] using hleap
      show days - _ < 365
      omega

theorem monthOf_le (days : Nat) : monthOf days ≤ 11 := interval_le_bound

theorem mdayOf_le (days : Nat) : mdayOf days ≤ 31 := by
  have hmonth := monthOf_le days
  have hnext : ydayOf days < monthStart (leap (yearOf days)) (monthOf days + 1) :=
    lt_start_succ (ydayOf_lt days)
  have hlength : ∀ leap k, k ≤ 11 → monthStart leap (k + 1) ≤ monthStart leap k + 31 := by decide
  have hle := hlength (leap (yearOf days)) _ hmonth
  unfold mdayOf
  omega

/-- Dates grow with the days: the year first, then the month, then the day. -/
theorem date_lt (h : n < m) :
    yearOf n < yearOf m ∨ yearOf n = yearOf m ∧
      (monthOf n < monthOf m ∨ monthOf n = monthOf m ∧ mdayOf n < mdayOf m) := by
  have hyear : yearOf n < yearOf m ∨ yearOf n = yearOf m ∧ ydayOf n < ydayOf m :=
    interval_lt yearStart_mono rfl (lt_yearStart m) h
  refine hyear.imp_right fun ⟨hsame, hyday⟩ => ⟨hsame, ?_⟩
  have hm := ydayOf_lt m
  unfold mdayOf monthOf
  rw [hsame]
  refine Or.imp_right ?_ (interval_lt (monthStart_mono (leap (yearOf m))) rfl hm hyday)
  exact fun ⟨hequal, hday⟩ => ⟨hequal, by omega⟩

end Calendar

end MyNetLib.Library
