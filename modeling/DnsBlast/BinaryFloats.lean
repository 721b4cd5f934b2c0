import Mathlib

/-! Binary floating point as rationals, rounded to nearest with ties to even after every
operation, and how far a value computed so is from the exact one. -/
namespace BinaryFloats

structure Format where
  precision : ℕ
  minExponent : ℤ
  deriving DecidableEq, Repr

/-- The format of C's double, subnormal numbers included. Infinities are left to the reader
of a result: below `2^1024` there are none. -/
def double : Format := ⟨53, -1074⟩

/-- The nearest integer, an even one if there are two. -/
def nearest (x : ℚ) : ℤ :=
  if x - ⌊x⌋ < 1 / 2 ∨ x - ⌊x⌋ = 1 / 2 ∧ ⌊x⌋ % 2 = 0 then ⌊x⌋ else ⌊x⌋ + 1

def Format.quantum (f : Format) (x : ℚ) : ℚ :=
  2 ^ max (Int.log 2 |x| + 1 - f.precision) f.minExponent

def Format.round (f : Format) (x : ℚ) : ℚ := nearest (x / f.quantum x) * f.quantum x

theorem abs_nearest_sub_le (x : ℚ) : |(nearest x : ℚ) - x| ≤ 1 / 2 := by
  have hle := Int.floor_le x
  have hlt := Int.lt_floor_add_one x
  unfold nearest
  rw [abs_le]
  split_ifs with h
  · have hhalf : x - ⌊x⌋ ≤ 1 / 2 := h.elim le_of_lt fun h => h.1.le
    constructor <;> linarith
  · have hhalf : 1 / 2 ≤ x - ⌊x⌋ := not_lt.mp fun hx => h (Or.inl hx)
    push_cast
    constructor <;> linarith

theorem Format.quantum_pos (f : Format) (x : ℚ) : 0 < f.quantum x :=
  zpow_pos (by norm_num) _

theorem Format.abs_round_sub_le_quantum (f : Format) (x : ℚ) :
    |f.round x - x| ≤ f.quantum x / 2 := by
  have hq := f.quantum_pos x
  have hx : x = x / f.quantum x * f.quantum x := (div_mul_cancel₀ x hq.ne').symm
  calc |f.round x - x|
      = |(nearest (x / f.quantum x) - x / f.quantum x) * f.quantum x| := by
        rw [sub_mul, ← hx, Format.round]
    _ = |(nearest (x / f.quantum x) : ℚ) - x / f.quantum x| * f.quantum x := by
        rw [abs_mul, abs_of_pos hq]
    _ ≤ 1 / 2 * f.quantum x := mul_le_mul_of_nonneg_right (abs_nearest_sub_le _) hq.le
    _ = f.quantum x / 2 := by ring

/-- An operation that moves its exact result by at most the share `unit` of it, and by at
most `tiny` where the result is near zero. -/
def Rounds (unit tiny : ℚ) (round : ℚ → ℚ) : Prop := ∀ x, |round x - x| ≤ unit * |x| + tiny

theorem Format.quantum_le (f : Format) {x : ℚ} (hx : x ≠ 0) :
    f.quantum x ≤ 2 ^ (1 - (f.precision : ℤ)) * |x| + 2 ^ f.minExponent := by
  have habs : 0 < |x| := abs_pos.mpr hx
  have hlog : (2 : ℚ) ^ Int.log 2 |x| ≤ |x| := by
    simpa using Int.zpow_log_le_self (b := 2) (by norm_num) habs
  have hscale : (0 : ℚ) < 2 ^ (1 - (f.precision : ℤ)) := zpow_pos (by norm_num) _
  have hmin : (0 : ℚ) < 2 ^ f.minExponent := zpow_pos (by norm_num) _
  rcases max_choice (Int.log 2 |x| + 1 - f.precision) f.minExponent with h | h
  · rw [Format.quantum, h, add_sub_assoc, zpow_add₀ (by norm_num), mul_comm]
    exact (mul_le_mul_of_nonneg_left hlog hscale.le).trans (le_add_of_nonneg_right hmin.le)
  · rw [Format.quantum, h]
    exact le_add_of_nonneg_left (mul_nonneg hscale.le habs.le)

theorem Format.rounds (f : Format) :
    Rounds (2 ^ (1 - (f.precision : ℤ)) / 2) (2 ^ f.minExponent / 2) f.round := by
  intro x
  by_cases hx : x = 0
  · have hmin : (0 : ℚ) ≤ 2 ^ f.minExponent / 2 := by positivity
    simpa [hx, Format.round, nearest] using hmin
  · calc |f.round x - x| ≤ f.quantum x / 2 := f.abs_round_sub_le_quantum x
      _ ≤ (2 ^ (1 - (f.precision : ℤ)) * |x| + 2 ^ f.minExponent) / 2 :=
        div_le_div_of_nonneg_right (f.quantum_le hx) (by norm_num)
      _ = _ := by ring

/-- The exact value `x`, of size at most `size`, computed as `y` with an error of at most
the share `error` of this size. -/
structure Computed (size error x y : ℚ) : Prop where
  size_nonneg : 0 ≤ size
  error_nonneg : 0 ≤ error
  small : |x| ≤ size
  near : |y - x| ≤ error * size

theorem Computed.exact {size x : ℚ} (h : |x| ≤ size) : Computed size 0 x x :=
  ⟨(abs_nonneg x).trans h, le_rfl, h, by simp⟩

theorem Computed.weaken {size error error' x y : ℚ} (h : Computed size error x y)
    (hle : error ≤ error') : Computed size error' x y :=
  ⟨h.size_nonneg, h.error_nonneg.trans hle, h.small,
    h.near.trans (mul_le_mul_of_nonneg_right hle h.size_nonneg)⟩

theorem Computed.size_le {size error x y : ℚ} (h : Computed size error x y) :
    |y| ≤ (1 + error) * size := by
  calc |y| = |x + (y - x)| := by rw [add_sub_cancel]
    _ ≤ |x| + |y - x| := abs_add_le _ _
    _ ≤ size + error * size := add_le_add h.small h.near
    _ = (1 + error) * size := by ring

theorem Computed.round {size error x y unit tiny : ℚ} {round : ℚ → ℚ}
    (hr : Rounds unit tiny round) (h : Computed size error x y) (hunit : 0 ≤ unit)
    (htiny : tiny ≤ unit * size) :
    Computed size (error + unit * (2 + error)) x (round y) := by
  have herror := h.error_nonneg
  refine ⟨h.size_nonneg, by positivity, h.small, ?_⟩
  calc |round y - x| = |(round y - y) + (y - x)| := by rw [sub_add_sub_cancel]
    _ ≤ |round y - y| + |y - x| := abs_add_le _ _
    _ ≤ (unit * |y| + tiny) + error * size := add_le_add (hr y) h.near
    _ ≤ (unit * ((1 + error) * size) + unit * size) + error * size := by
        gcongr
        exact h.size_le
    _ = (error + unit * (2 + error)) * size := by ring

theorem Computed.mul {size error x y size' error' x' y' : ℚ} (h : Computed size error x y)
    (h' : Computed size' error' x' y') :
    Computed (size * size') (error + error' + error * error') (x * x') (y * y') := by
  have hsize := h.size_nonneg
  have hsize' := h'.size_nonneg
  have herror := h.error_nonneg
  have herror' := h'.error_nonneg
  refine ⟨by positivity, by positivity, ?_, ?_⟩
  · rw [abs_mul]
    exact mul_le_mul h.small h'.small (abs_nonneg _) hsize
  · calc |y * y' - x * x'| = |(y - x) * y' + x * (y' - x')| := by congr 1; ring
      _ ≤ |(y - x) * y'| + |x * (y' - x')| := abs_add_le _ _
      _ = |y - x| * |y'| + |x| * |y' - x'| := by rw [abs_mul, abs_mul]
      _ ≤ error * size * ((1 + error') * size') + size * (error' * size') := by
          gcongr
          · exact h.near
          · exact h'.size_le
          · exact h.small
          · exact h'.near
      _ = (error + error' + error * error') * (size * size') := by ring

/-- Numbers of one sign cancel in a difference; their errors do not. -/
theorem Computed.sub {size error x y error' x' y' : ℚ} (h : Computed size error x y)
    (h' : Computed size error' x' y') (hx : 0 ≤ x) (hx' : 0 ≤ x') :
    Computed size (error + error') (x - x') (y - y') := by
  have hsmall := (abs_le.mp h.small).2
  have hsmall' := (abs_le.mp h'.small).2
  refine ⟨h.size_nonneg, add_nonneg h.error_nonneg h'.error_nonneg, ?_, ?_⟩
  · exact abs_le.mpr ⟨by linarith, by linarith⟩
  · calc |(y - y') - (x - x')| = |(y - x) - (y' - x')| := by congr 1; ring
      _ ≤ |y - x| + |y' - x'| := abs_sub _ _
      _ ≤ error * size + error' * size := add_le_add h.near h'.near
      _ = (error + error') * size := by ring

/-- A divisor known up to half of its value. -/
theorem Computed.div {size error x y divisor error' z : ℚ} (h : Computed size error x y)
    (h' : Computed divisor error' divisor z) (hpos : 0 < divisor) (herror' : error' ≤ 1 / 2) :
    Computed (size / divisor) (2 * (error + error')) (x / divisor) (y / z) := by
  have hsize := h.size_nonneg
  have hz : divisor / 2 ≤ z := by
    have hnear := (abs_le.mp h'.near).1
    nlinarith
  have hzpos : 0 < z := by linarith
  refine ⟨by positivity, mul_nonneg (by norm_num) (add_nonneg h.error_nonneg h'.error_nonneg),
    ?_, ?_⟩
  · rw [abs_div, abs_of_pos hpos]
    exact div_le_div_of_nonneg_right h.small hpos.le
  · have hsplit : y / z - x / divisor =
        ((y - x) * divisor - x * (z - divisor)) / (z * divisor) := by
      field_simp
      ring
    have htop : |(y - x) * divisor - x * (z - divisor)| ≤ (error + error') * size * divisor := by
      calc |(y - x) * divisor - x * (z - divisor)|
          ≤ |(y - x) * divisor| + |x * (z - divisor)| := abs_sub _ _
        _ = |y - x| * divisor + |x| * |z - divisor| := by rw [abs_mul, abs_mul, abs_of_pos hpos]
        _ ≤ error * size * divisor + size * (error' * divisor) := by
            gcongr
            · exact h.near
            · exact h.small
            · exact h'.near
        _ = (error + error') * size * divisor := by ring
    rw [hsplit, abs_div, abs_of_pos (mul_pos hzpos hpos), div_le_iff₀ (mul_pos hzpos hpos)]
    have hnum : 0 ≤ (error + error') * size :=
      mul_nonneg (add_nonneg h.error_nonneg h'.error_nonneg) hsize
    calc _ ≤ (error + error') * size * divisor := htop
      _ ≤ (error + error') * size * (2 * z) := by gcongr; linarith
      _ = 2 * (error + error') * (size / divisor) * (z * divisor) := by field_simp

end BinaryFloats
