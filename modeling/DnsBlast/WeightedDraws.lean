import Mathlib.Data.Int.Interval
import Mathlib.Order.Interval.Finset.Nat
import Mathlib.Algebra.BigOperators.Group.List.Basic

/-! Choosing an entry of a table by one uniform draw. A threshold starts at the largest
draw and is lowered by one weight after another; the first entry whose threshold the draw
exceeds is chosen. Each entry owns an interval of draws as long as its weight. -/
namespace WeightedDraws

/-- The index of the chosen entry; `none` when the draw exceeds no threshold. -/
def chosen (draw : ℕ) (threshold : ℤ) : List ℕ → Option ℕ
  | [] => none
  | w :: ws =>
    if (draw : ℤ) > threshold - w then some 0 else (chosen draw (threshold - w) ws).map (· + 1)

def thresholds (draw : ℕ) (threshold : ℤ) : List ℕ → List ℤ
  | [] => []
  | w :: ws =>
    if (draw : ℤ) > threshold - w then [threshold - w]
    else (threshold - w) :: thresholds draw (threshold - w) ws

theorem thresholds_bounds (draw : ℕ) (threshold : ℤ) (ws : List ℕ) :
    ∀ pos ∈ thresholds draw threshold ws, threshold - ws.sum ≤ pos ∧ pos ≤ threshold := by
  induction ws generalizing threshold with
  | nil => simp [thresholds]
  | cons w ws ih =>
    have hsum : ((w :: ws).sum : ℤ) = w + ws.sum := by simp
    intro pos hpos
    by_cases hd : (draw : ℤ) > threshold - w
    · rw [thresholds, if_pos hd, List.mem_singleton] at hpos
      omega
    · rw [thresholds, if_neg hd, List.mem_cons] at hpos
      rcases hpos with rfl | hpos
      · omega
      · have := ih (threshold - w) pos hpos
        omega

/-- Entry `i` is chosen exactly between its own threshold and the one before it. -/
theorem chosen_eq_some {draw : ℕ} {threshold : ℤ} {ws : List ℕ} (h : draw ≤ threshold) (i : ℕ) :
    chosen draw threshold ws = some i ↔ i < ws.length ∧
      threshold - (ws.take (i + 1)).sum < draw ∧ draw ≤ threshold - (ws.take i).sum := by
  induction ws generalizing threshold i with
  | nil => simp [chosen]
  | cons w ws ih =>
    have hsum : ∀ j, (((w :: ws).take (j + 1)).sum : ℤ) = w + (ws.take j).sum := by simp
    by_cases hd : (draw : ℤ) > threshold - w
    · rw [chosen, if_pos hd]
      cases i with
      | zero =>
        refine iff_of_true rfl ⟨Nat.succ_pos _, ?_⟩
        rw [hsum 0]
        simp only [List.take_zero, List.sum_nil]
        omega
      | succ i =>
        rw [hsum i]
        constructor
        · intro hi
          cases hi
        · rintro ⟨-, -, hu⟩
          omega
    · rw [chosen, if_neg hd, Option.map_eq_some_iff]
      cases i with
      | zero =>
        constructor
        · rintro ⟨j, -, hj⟩
          cases hj
        · rintro ⟨-, hl, -⟩
          rw [hsum 0] at hl
          simp only [List.take_zero, List.sum_nil] at hl
          omega
      | succ i =>
        have := @ih (threshold - w) (by omega) i
        rw [hsum, hsum, List.length_cons]
        constructor
        · rintro ⟨j, hj, hji⟩
          rw [Nat.succ.inj hji, this] at hj
          omega
        · intro hi
          exact ⟨i, this.mpr (by omega), rfl⟩

theorem chosen_lt {draw : ℕ} {threshold : ℤ} {ws : List ℕ} {i : ℕ}
    (h : chosen draw threshold ws = some i) : i < ws.length := by
  induction ws generalizing threshold i with
  | nil => cases h
  | cons w ws ih =>
    by_cases hd : (draw : ℤ) > threshold - w
    · rw [chosen, if_pos hd] at h
      cases h
      exact Nat.succ_pos _
    · rw [chosen, if_neg hd] at h
      obtain ⟨j, hj, rfl⟩ := Option.map_eq_some_iff.mp h
      exact Nat.succ_lt_succ (ih hj)

theorem chosen_eq_none {draw : ℕ} {threshold : ℤ} {ws : List ℕ} (h : draw ≤ threshold) :
    chosen draw threshold ws = none ↔ draw ≤ threshold - ws.sum := by
  induction ws generalizing threshold with
  | nil => simpa [chosen] using h
  | cons w ws ih =>
    have hsum : ((w :: ws).sum : ℤ) = w + ws.sum := by simp
    by_cases hd : (draw : ℤ) > threshold - w
    · rw [chosen, if_pos hd]
      constructor
      · intro hn
        cases hn
      · intro hle
        omega
    · rw [chosen, if_neg hd, Option.map_eq_none_iff, @ih (threshold - w) (by omega)]
      omega

def drawsOf (M : ℕ) (ws : List ℕ) (outcome : Option ℕ) : Finset ℕ :=
  {draw ∈ Finset.range (M + 1) | chosen draw M ws = outcome}

section Counting
variable {M : ℕ} {ws : List ℕ}

theorem mem_drawsOf {outcome : Option ℕ} {draw : ℕ} :
    draw ∈ drawsOf M ws outcome ↔ draw ≤ M ∧ chosen draw M ws = outcome := by
  rw [drawsOf, Finset.mem_filter, Finset.mem_range, Nat.lt_succ_iff]

theorem drawsOf_disjoint {a b : Option ℕ} (h : a ≠ b) :
    Disjoint (drawsOf M ws a) (drawsOf M ws b) := by
  rw [Finset.disjoint_left]
  intro draw ha hb
  apply h
  rw [← (mem_drawsOf.mp ha).2, ← (mem_drawsOf.mp hb).2]

/-- An entry is chosen by as many draws as its weight says. -/
theorem card_drawsOf_some (h : ws.sum ≤ M) {i : ℕ} (hi : i < ws.length) :
    (drawsOf M ws (some i)).card = ws[i] := by
  have hnext : (ws.take (i + 1)).sum = (ws.take i).sum + ws[i] := List.sum_take_succ ws i hi
  have hle : (ws.take (i + 1)).sum ≤ ws.sum := by
    conv_rhs => rw [← List.take_append_drop (i + 1) ws, List.sum_append]
    exact Nat.le_add_right _ _
  have hinterval : drawsOf M ws (some i) =
      Finset.Ioc (M - (ws.take (i + 1)).sum) (M - (ws.take i).sum) := by
    ext draw
    rw [mem_drawsOf, Finset.mem_Ioc]
    constructor
    · rintro ⟨hdraw, hc⟩
      obtain ⟨-, hl, hu⟩ := (chosen_eq_some (by omega) i).mp hc
      omega
    · rintro ⟨hl, hu⟩
      exact ⟨by omega, (chosen_eq_some (by omega) i).mpr ⟨hi, by omega, by omega⟩⟩
  rw [hinterval, Nat.card_Ioc]
  omega

theorem card_drawsOf_none (h : ws.sum ≤ M) : (drawsOf M ws none).card = M + 1 - ws.sum := by
  have hinterval : drawsOf M ws none = Finset.range (M + 1 - ws.sum) := by
    ext draw
    rw [mem_drawsOf, Finset.mem_range]
    constructor
    · rintro ⟨hdraw, hc⟩
      have := (chosen_eq_none (by omega)).mp hc
      omega
    · intro hlt
      exact ⟨by omega, (chosen_eq_none (by omega)).mpr (by omega)⟩
  rw [hinterval, Finset.card_range]

end Counting

end WeightedDraws
