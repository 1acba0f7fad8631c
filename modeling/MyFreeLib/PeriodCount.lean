/-
Time told in whole periods.  A count rounds down, so the difference of two
counts is less than one period away from the time between them, however coarse
the counts are.
-/
import Mathlib.Algebra.Order.Floor.Semiring
import Mathlib.Algebra.Order.Field.Basic
import Mathlib.Tactic.Linarith
import Mathlib.Tactic.FieldSimp
import Mathlib.Tactic.Ring

namespace MyFreeLib

universe u

/-- At `time` there have been `count` whole periods. -/
structure PeriodCount {K : Type u} [Field K] [LinearOrder K]
    (period time : K) (count : ℕ) : Prop where
  le : period * count ≤ time
  lt : time < period * (count + 1)

namespace PeriodCount

variable {K : Type u} [Field K] [LinearOrder K] [IsStrictOrderedRing K]

theorem floor [FloorSemiring K] {period time : K} (hperiod : 0 < period)
    (htime : 0 ≤ time) : PeriodCount period time ⌊time / period⌋₊ := by
  have hle := Nat.floor_le (div_nonneg htime hperiod.le)
  have hlt := Nat.lt_floor_add_one (time / period)
  rw [le_div_iff₀ hperiod, mul_comm] at hle
  rw [div_lt_iff₀ hperiod, mul_comm] at hlt
  exact ⟨hle, hlt⟩

theorem unique {period time : K} (hperiod : 0 < period) {m n : ℕ}
    (hm : PeriodCount period time m) (hn : PeriodCount period time n) :
    m = n := by
  have hle {m n : ℕ} (hm : PeriodCount period time m)
      (hn : PeriodCount period time n) : m ≤ n := by
    have hlt : (m : K) < n + 1 :=
      lt_of_mul_lt_mul_left (lt_of_le_of_lt hm.le hn.lt) hperiod.le
    exact Nat.lt_succ_iff.mp (by exact_mod_cast hlt)
  exact Nat.le_antisymm (hle hm hn) (hle hn hm)

/-- The count goes on from any whole number of periods. -/
theorem add_iff {period time : K} {m n : ℕ} :
    PeriodCount period (period * m + time) (m + n) ↔
      PeriodCount period time n := by
  constructor
  · rintro ⟨hle, hlt⟩
    push_cast at hle hlt
    exact ⟨by linarith, by linarith⟩
  · rintro ⟨hle, hlt⟩
    refine ⟨?_, ?_⟩ <;> push_cast <;> linarith

/-- Before the end of period `n` there are fewer than `n`. -/
theorem lt_iff {period time : K} {count n : ℕ} (hperiod : 0 < period)
    (h : PeriodCount period time count) :
    time < period * n ↔ count < n := by
  constructor
  · intro hlt
    have hcount := lt_of_mul_lt_mul_left (h.le.trans_lt hlt) hperiod.le
    exact Nat.cast_lt.mp hcount
  · intro hlt
    have hle : (count : K) + 1 ≤ n := by exact_mod_cast hlt
    exact h.lt.trans_le (mul_le_mul_of_nonneg_left hle hperiod.le)

/-- Counting by `n` periods at a time. -/
theorem coarsen {period time : K} {count n : ℕ} (hperiod : 0 < period)
    (hn : 0 < n) (h : PeriodCount period time count) :
    PeriodCount (period * n) time (count / n) := by
  have hle : ((n * (count / n) : ℕ) : K) ≤ count :=
    Nat.cast_le.mpr (Nat.mul_div_le count n)
  have hlt : (count : K) + 1 ≤ (n * (count / n + 1) : ℕ) := by
    exact_mod_cast Nat.lt_mul_div_succ count hn
  push_cast at hle hlt
  refine ⟨?_, ?_⟩
  · rw [mul_assoc]
    exact (mul_le_mul_of_nonneg_left hle hperiod.le).trans h.le
  · rw [mul_assoc]
    exact h.lt.trans_le (mul_le_mul_of_nonneg_left hlt hperiod.le)

/-- The difference of two counts is less than one away from the time between
them. -/
theorem abs_sub_lt {period start time : K} (hperiod : 0 < period) {m n : ℕ}
    (hstart : PeriodCount period start m)
    (htime : PeriodCount period time n) :
    |((n : K) - m) - (time - start) / period| < 1 := by
  have heq : ((n : K) - m) - (time - start) / period =
      ((period * n - time) - (period * m - start)) / period := by
    field_simp
    ring
  have hm := hstart.le
  have hm' := hstart.lt
  have hn := htime.le
  have hn' := htime.lt
  rw [heq, abs_div, abs_of_pos hperiod, div_lt_one hperiod, abs_lt]
  constructor <;> linarith

end PeriodCount

end MyFreeLib
