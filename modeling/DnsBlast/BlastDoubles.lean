import DnsBlast.BinaryFloats
import DnsBlast.BlastRate

/-! The rate limit with real doubles. The roundings of throttled_receive can make its first
timeout a millisecond too short where the time left is a whole number of them, and no
more. What is lost does not add up, since every call reckons from startup_date. -/
namespace BlastDoubles

open WrappingIntegers LabelledRuns RateSchedules BinaryFloats BlastHeader BlastQuery
  BlastSyscalls BlastReceive BlastMain BlastTraffic BlastRate

def doubles : Platform := { glibc with round := double.round }

/-- time_to_wait * 1000, computed in doubles. -/
def timeToWait (P : Platform) (c : Context) (elapsed : ℕ) : ℚ :=
  P.round (P.round (P.round (P.round c.sentPackets - maxPackets P c.pps elapsed) /
    P.round c.pps) * 1000)

theorem double_rounds : Rounds (1 / 2 ^ 53) (1 / 2 ^ 53) double.round := by
  have hmin : (2 : ℚ) ^ (-1074 : ℤ) ≤ 2 ^ (-52 : ℤ) :=
    zpow_le_zpow_right₀ (by norm_num) (by norm_num)
  intro x
  calc |double.round x - x|
      ≤ 2 ^ (1 - (53 : ℤ)) / 2 * |x| + 2 ^ (-1074 : ℤ) / 2 := double.rounds x
    _ ≤ 2 ^ (1 - (53 : ℤ)) / 2 * |x| + 2 ^ (-52 : ℤ) / 2 := by gcongr
    _ = 1 / 2 ^ 53 * |x| + 1 / 2 ^ 53 := by norm_num

theorem computed_natCast {P : Platform} (hP : P.round = double.round) {n : ℕ} {size : ℚ}
    (h : (n : ℚ) ≤ size) (hsize : 1 ≤ size) : Computed size (1 / 2 ^ 52) n (P.round n) := by
  have hround := (Computed.exact ((abs_of_nonneg n.cast_nonneg).trans_le h)).round
    (hP ▸ double_rounds) (by norm_num) (le_mul_of_one_le_right (by norm_num) hsize)
  exact hround.weaken (by norm_num)

theorem Computed.rounded {P : Platform} (hP : P.round = double.round) {size error x y : ℚ}
    (h : Computed size error x y) (hsize : 1 ≤ size) (herror : error ≤ 1) :
    Computed size (error + 3 / 2 ^ 53) x (P.round y) := by
  have hround := h.round (hP ▸ double_rounds) (by norm_num)
    (le_mul_of_one_le_right (by norm_num) hsize)
  exact hround.weaken (by linarith)

/-- max_packets, for less than 2^32 ms. -/
theorem maxPackets_computed {P : Platform} (hP : P.round = double.round) {pps elapsed : ℕ}
    (hpps : 0 < pps) (he : elapsed < 2 ^ 32) :
    Computed (pps * 2 ^ 32 / 1000) (1 / 2 ^ 48) (pps * elapsed / 1000)
      (maxPackets P pps elapsed) := by
  have hrate : (1 : ℚ) ≤ pps := by exact_mod_cast hpps
  have htime : (elapsed : ℚ) ≤ 2 ^ 32 := by exact_mod_cast he.le
  have rate := computed_natCast hP (le_refl (pps : ℚ)) hrate
  have time := computed_natCast hP htime (by norm_num)
  have thousand : Computed (1000 : ℚ) 0 1000 1000 := Computed.exact (by norm_num)
  have product := Computed.rounded hP (rate.mul time) (by linarith) (by norm_num)
  have budget := Computed.rounded hP (product.div thousand (by norm_num) (by norm_num))
    (by linarith) (by norm_num)
  exact budget.weaken (by norm_num)

/-- The time left until the deadline, where it is less than 2^32 ms after the start. -/
theorem timeToWait_computed {P : Platform} (hP : P.round = double.round) {c : Context}
    (hpps : 0 < c.pps) {elapsed : ℕ} (he : elapsed < 2 ^ 32)
    (hd : 1000 * c.sentPackets ≤ c.pps * 2 ^ 32) :
    Computed (2 ^ 32) (1 / 2 ^ 45) ((1000 * c.sentPackets : ℕ) / c.pps - elapsed)
      (timeToWait P c elapsed) := by
  have hrate : (1 : ℚ) ≤ c.pps := by exact_mod_cast hpps
  have hsent : (c.sentPackets : ℚ) ≤ c.pps * 2 ^ 32 / 1000 := by
    rw [le_div_iff₀ (by norm_num), mul_comm]
    exact_mod_cast hd
  have hsize : (c.pps : ℚ) * 2 ^ 32 / 1000 / c.pps = 2 ^ 32 / 1000 := by field_simp
  have rate := computed_natCast hP (le_refl (c.pps : ℚ)) hrate
  have sent := computed_natCast hP hsent (by linarith)
  have thousand : Computed (1000 : ℚ) 0 1000 1000 := Computed.exact (by norm_num)
  have excess := Computed.rounded hP
    (sent.sub (maxPackets_computed hP hpps he) (by positivity) (by positivity)) (by linarith)
    (by norm_num)
  have seconds := Computed.rounded hP (excess.div rate (by linarith) (by norm_num))
    (by rw [hsize]; norm_num) (by norm_num)
  rw [hsize] at seconds
  have wait := Computed.rounded hP (seconds.mul thousand) (by norm_num) (by norm_num)
  have hexact : (c.sentPackets - c.pps * elapsed / 1000) / c.pps * 1000 =
      ((1000 * c.sentPackets : ℕ) / c.pps - elapsed : ℚ) := by
    push_cast
    field_simp
  rw [hexact, div_mul_cancel₀ _ (by norm_num)] at wait
  exact wait.weaken (by norm_num)

theorem firstTimeout_doubles {P : Platform} (hP : P.round = double.round) {c : Context}
    (hs : c.sending = true) (hpps : 0 < c.pps) {elapsed : ℕ}
    (hrange : -2 ^ 31 < timeToWait P c elapsed ∧ timeToWait P c elapsed < 2 ^ 31) :
    firstTimeout P c (maxPackets P c.pps elapsed) = max 0 ⌊timeToWait P c elapsed⌋ := by
  have hrate : (1 : ℚ) ≤ c.pps := by exact_mod_cast hpps
  have hne : P.round c.pps ≠ 0 := by
    have hnear := (abs_le.mp (computed_natCast hP (le_refl (c.pps : ℚ)) hrate).near).1
    intro hzero
    rw [hzero] at hnear
    linarith
  have hfits : -2 ^ 31 ≤ truncate (timeToWait P c elapsed) ∧
      truncate (timeToWait P c elapsed) < 2 ^ 31 := by
    unfold truncate
    split_ifs with h
    · exact ⟨le_trans (by norm_num) (Int.floor_nonneg.mpr h),
        Int.floor_lt.mpr (by exact_mod_cast hrange.2)⟩
    · have hceil : ⌈timeToWait P c elapsed⌉ ≤ 0 := Int.ceil_le.mpr (by simpa using (not_le.mp h).le)
      have hlow : (-2 ^ 31 : ℤ) < ⌈timeToWait P c elapsed⌉ :=
        Int.lt_ceil.mpr (by exact_mod_cast hrange.1)
      exact ⟨hlow.le, lt_of_le_of_lt hceil (by norm_num)⟩
  rw [timeToWait] at hfits ⊢
  simp only [firstTimeout, doubleDiv, if_neg hne, Option.map_some, toInt, if_pos hfits, hs,
    Bool.not_true, Bool.false_eq_true, if_false]
  exact truncate_clamped _

/-- With IEEE doubles the first poll is at most a millisecond off. -/
theorem doubles_within {P : Platform} (hP : P.round = double.round) : FirstPollWithin P 1 := by
  intro c elapsed hs hpps he hd
  have hdeadline : 1000 * c.sentPackets ≤ c.pps * 2 ^ 32 := by
    have hlt : 1000 * c.sentPackets / c.pps < 2 ^ 32 := lt_of_le_of_lt hd (by omega)
    rw [mul_comm c.pps]
    exact ((Nat.div_lt_iff_lt_mul hpps).mp hlt).le
  have hcomputed := timeToWait_computed hP hpps (he.trans (by norm_num)) hdeadline
  let x : ℚ := (1000 * c.sentPackets : ℕ) / c.pps - elapsed
  have hfloor : ⌊x⌋ = (deadline 1000 c.pps c.sentPackets : ℤ) - elapsed :=
    floor_deadline 1000 c.pps c.sentPackets elapsed
  have hnear := abs_le.mp hcomputed.near
  have hlow : x - 1 ≤ timeToWait P c elapsed := by linarith [hnear.1]
  have hhigh : timeToWait P c elapsed ≤ x + 1 := by linarith [hnear.2]
  have hlowFloor := Int.floor_le_floor hlow
  have hhighFloor := Int.floor_le_floor hhigh
  rw [Int.floor_sub_one, hfloor] at hlowFloor
  rw [Int.floor_add_one, hfloor] at hhighFloor
  have hrange : -2 ^ 31 < timeToWait P c elapsed ∧ timeToWait P c elapsed < 2 ^ 31 := by
    have htime : (elapsed : ℚ) + 1 ≤ 2 ^ 31 := by exact_mod_cast he
    have hpast : -(elapsed : ℚ) ≤ x := by
      have hdue : (0 : ℚ) ≤ (1000 * c.sentPackets : ℕ) / c.pps := by positivity
      linarith
    have hsoon : x < 1002 := by
      have hnext := Int.lt_floor_add_one x
      have hleft : ⌊x⌋ + 1 ≤ 1002 := by omega
      exact hnext.trans_le (by exact_mod_cast hleft)
    constructor <;> linarith [hnear.1, hnear.2]
  simp only [firstTimeout_doubles hP hs hpps hrange]
  omega

/-- At three queries a second the seventh is due after 2000 ms. Behind the sixth the rest of
the wait comes out just below 334. -/
example : timeToWait doubles { initContext 0 false with sentPackets := 6, pps := 3 } 1666 <
    334 := by decide +kernel

end BlastDoubles
