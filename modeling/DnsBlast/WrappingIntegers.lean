import Mathlib.Data.Int.ModEq
import Mathlib.Tactic.Positivity
import Mathlib.Tactic.Ring

/-! Fixed-width machine integers on ℕ and ℤ: unsigned subtraction modulo 2^w and
the two's-complement conversion to a signed width. Widths are parameters. -/
namespace WrappingIntegers

def wrapSub (w a b : ℕ) : ℕ := (((a : ℤ) - b) % 2 ^ w).toNat

def toSigned (w : ℕ) (x : ℤ) : ℤ := Int.bmod x (2 ^ w)

theorem one_lt_word : 1 < 2 ^ 64 := by decide

theorem wrapSub_cast (w a b : ℕ) : (wrapSub w a b : ℤ) = ((a : ℤ) - b) % 2 ^ w :=
  Int.toNat_of_nonneg (Int.emod_nonneg _ (by positivity))

@[simp] theorem wrapSub_self (w a : ℕ) : wrapSub w a a = 0 := by simp [wrapSub]

theorem wrapSub_of_le {w a b : ℕ} (hba : b ≤ a) (ha : a < 2 ^ w) : wrapSub w a b = a - b := by
  have hlt : ((a : ℤ) - b) < 2 ^ w := by
    have : (a : ℤ) < 2 ^ w := by exact_mod_cast ha
    omega
  have h : ((wrapSub w a b : ℕ) : ℤ) = a - b := by
    rw [wrapSub_cast, Int.emod_eq_of_lt (by omega) hlt]
  omega

theorem wrapSub_of_lt {w a b : ℕ} (hab : a < b) (hb : b ≤ 2 ^ w) :
    wrapSub w a b = 2 ^ w - (b - a) := by
  have hcast : ((2 ^ w : ℕ) : ℤ) = 2 ^ w := by push_cast; rfl
  have h : ((wrapSub w a b : ℕ) : ℤ) = a - b + 2 ^ w := by
    rw [wrapSub_cast, ← Int.add_emod_right, Int.emod_eq_of_lt] <;> omega
  omega

/-- Adjusting by `len - 1` computed without sign adds back the wrapped unit. -/
theorem wrapSub_wrapSub_one {w a len : ℕ} (hlen : len < a) :
    wrapSub w a (wrapSub w len 1) = (a + 1 - len) % 2 ^ w := by
  have hcast : ((2 ^ w : ℕ) : ℤ) = 2 ^ w := by push_cast; rfl
  have h : ((wrapSub w a (wrapSub w len 1) : ℕ) : ℤ) = ((a + 1 - len : ℕ) : ℤ) % 2 ^ w := by
    rw [wrapSub_cast, wrapSub_cast, Int.sub_emod_emod]
    congr 1
    omega
  rw [← hcast] at h
  exact_mod_cast h

theorem toSigned_of_range {w : ℕ} {x : ℤ} (hl : -2 ^ w ≤ x) (hu : x < 2 ^ w) :
    toSigned (w + 1) x = x := by
  have hp : (2 ^ (w + 1) : ℕ) = 2 * 2 ^ w := by ring
  rw [toSigned]
  apply Int.bmod_eq_of_le <;> rw [hp] <;> push_cast <;> omega

/-- Cutting to a smaller width forgets an earlier reduction to a larger one. -/
theorem toSigned_emod {v w : ℕ} (h : v ≤ w) (x : ℤ) :
    toSigned v (x % 2 ^ w) = toSigned v x := by
  have hd : ((2 ^ v : ℕ) : ℤ) ∣ 2 ^ w := by
    push_cast
    exact pow_dvd_pow 2 h
  rw [toSigned, toSigned, ← Int.emod_bmod, Int.emod_emod_of_dvd _ hd, Int.emod_bmod]

/-- An int in terms of linear arithmetic: its range, and the value it was cut from. -/
theorem toSigned_int (x : ℤ) :
    -2 ^ 31 ≤ toSigned 32 x ∧ toSigned 32 x < 2 ^ 31 ∧ (toSigned 32 x - x) % 2 ^ 32 = 0 := by
  rw [toSigned, Int.bmod_def]
  split_ifs <;> omega

/-- A natural number reads as non-positive exactly in the upper half of the width. -/
theorem toSigned_nonpos_iff {w x : ℕ} :
    toSigned (w + 1) x ≤ 0 ↔ x % 2 ^ (w + 1) = 0 ∨ 2 ^ w ≤ x % 2 ^ (w + 1) := by
  have hp : (2 ^ (w + 1) : ℕ) = 2 * 2 ^ w := by ring
  have hpos : 0 < 2 ^ w := by positivity
  rw [toSigned, Int.bmod_def]
  have hm : ((x : ℤ) % ((2 ^ (w + 1) : ℕ) : ℤ)) = ((x % 2 ^ (w + 1) : ℕ) : ℤ) := by
    push_cast; rfl
  rw [hm]
  have hlt : x % 2 ^ (w + 1) < 2 ^ (w + 1) := Nat.mod_lt _ (by positivity)
  split_ifs with h <;> omega

end WrappingIntegers
