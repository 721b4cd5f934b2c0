import Mathlib

/-! Constant-rate schedules in whole clock units: `rate` events in every `unit` ticks.
`deadline n` is the first tick by which `n` events may be complete, `allowance t` the
number of events due after `t` ticks. -/
namespace RateSchedules

def deadline (unit rate n : ℕ) : ℕ := unit * n / rate

def allowance (unit rate t : ℕ) : ℕ := rate * t / unit

@[simp] theorem deadline_zero (unit rate : ℕ) : deadline unit rate 0 = 0 := by simp [deadline]

theorem deadline_mono {unit rate m n : ℕ} (h : m ≤ n) :
    deadline unit rate m ≤ deadline unit rate n :=
  Nat.div_le_div_right (Nat.mul_le_mul_left unit h)

/-- Rates of at least one event per unit never wait longer than a unit for the next one. -/
theorem deadline_succ_le {unit rate n : ℕ} (hr : 1 ≤ rate) :
    deadline unit rate (n + 1) ≤ deadline unit rate n + unit := by
  have hstep : unit * (n + 1) ≤ unit * n + unit * rate := by
    rw [Nat.mul_succ]
    exact Nat.add_le_add_left (Nat.le_mul_of_pos_right unit hr) _
  calc deadline unit rate (n + 1) ≤ (unit * n + unit * rate) / rate := Nat.div_le_div_right hstep
    _ = deadline unit rate n + unit := Nat.add_mul_div_right _ _ hr

theorem floor_deadline (unit rate n t : ℕ) :
    ⌊((unit * n : ℕ) / rate - t : ℚ)⌋ = (deadline unit rate n : ℤ) - t := by
  rw [Int.floor_sub_natCast, Int.floor_div_natCast, Int.floor_natCast]
  rfl

theorem allowance_mono {unit rate s t : ℕ} (h : s ≤ t) :
    allowance unit rate s ≤ allowance unit rate t :=
  Nat.div_le_div_right (Nat.mul_le_mul_left rate h)

/-- Each further unit of time adds `rate` events. -/
theorem allowance_add_unit {unit rate t : ℕ} (hu : 0 < unit) :
    allowance unit rate (t + unit) = allowance unit rate t + rate := by
  rw [allowance, Nat.mul_add, Nat.add_mul_div_right _ _ hu, allowance]

end RateSchedules
