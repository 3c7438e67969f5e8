/-
Times without rounding.

A schedule runs on doubles, where every sum of periods is rounded. What the schedule
itself does with time, which ticks it makes and what becomes of the time between
them, is studied on rational numbers, where a period added is a period added.
-/
import ChipEight.Schedule.Time
import Mathlib.Data.Rat.Floor

set_option autoImplicit false

namespace ChipEight.Time

instance : Time ℚ where
  add a b := a + b
  sub a b := a - b
  reached a b := decide (b ≤ a)
  lasting a := decide (0 < a)
  periods n period := .ok (n * period)
  count span period :=
    if period = 0 then .error .divisionByZero
    else .ok (if 0 ≤ span / period then ⌊span / period⌋ else ⌈span / period⌉)

variable {a b : ℚ}

@[simp] theorem add_eq : Time.add a b = a + b := rfl

@[simp] theorem sub_eq : Time.sub a b = a - b := rfl

@[simp] theorem reached_iff : Time.reached a b = true ↔ b ≤ a := decide_eq_true_iff

@[simp] theorem periods_eq (n : Int) : Time.periods n a = .ok (n * a) := rfl

theorem count_eq_floor (hspan : 0 ≤ a) (hperiod : 0 < b) : Time.count a b = .ok ⌊a / b⌋ := by
  have hcount : Time.count a b =
      if b = 0 then .error .divisionByZero
      else .ok (if 0 ≤ a / b then ⌊a / b⌋ else ⌈a / b⌉) := rfl
  rw [hcount, if_neg hperiod.ne', if_pos (div_nonneg hspan hperiod.le)]

end ChipEight.Time
