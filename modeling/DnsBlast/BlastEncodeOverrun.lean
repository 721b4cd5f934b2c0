import DnsBlast.BlastEncodeName

/-! Where encode_name may write. Its counter loses only `len - 1` for a label that
takes `len + 1` bytes, so from the second label on it promises room that is not
there. The lengths of the labels decide whether the encoder ever uses that room. -/
namespace BlastEncodeOverrun

open ByteStores DnsReader BlastHeader BlastEncodeName

def prefixBytes (ls : List Label) (j : ℕ) : ℕ := ((ls.take j).map fun l => l.length + 1).sum

@[simp] theorem prefixBytes_zero (ls : List Label) : prefixBytes ls 0 = 0 := by
  simp [prefixBytes]

@[simp] theorem prefixBytes_cons_succ (l : Label) (ls : List Label) (j : ℕ) :
    prefixBytes (l :: ls) (j + 1) = l.length + 1 + prefixBytes ls j := by
  simp [prefixBytes]

theorem prefixBytes_lt (ls : List Label) {i j : ℕ} (h : i < j) (hj : j ≤ ls.length) :
    prefixBytes ls i < prefixBytes ls j := by
  induction ls generalizing i j with
  | nil => simp at hj; omega
  | cons l ls ih =>
    obtain ⟨j, rfl⟩ : ∃ k, j = k + 1 := ⟨j - 1, by omega⟩
    cases i with
    | zero => simp
    | succ i =>
      have := ih (i := i) (j := j) (by omega) (by simpa using hj)
      simpa using this

theorem wireLength_eq_prefixBytes (ls : List Label) :
    wireLength ls = 1 + prefixBytes ls ls.length := by
  simp [wireLength, prefixBytes]

def accepted (room : ℕ) : List Label → ℕ
  | [] => 0
  | l :: ls =>
    if ucharMax < l.length ∨ room ≤ l.length then 0
    else accepted ((room + 1 - l.length) % 2 ^ 64) ls + 1

/-- Without room every label is refused, also an empty one. -/
theorem accepted_zero (ls : List Label) : accepted 0 ls = 0 := by
  cases ls <;> simp [accepted]

theorem encodeLabels_accepted (room : ℕ) (ls : List Label) :
    accepted room ls ≤ ls.length ∧
    ((encodeLabels room ls).2 = true ↔ accepted room ls = ls.length) ∧
    (encodeLabels room ls).1.length = prefixBytes ls (accepted room ls) +
      if accepted room ls = ls.length then 1 else 0 := by
  induction ls generalizing room with
  | nil => simp [accepted, encodeLabels]
  | cons l ls ih =>
    by_cases hr : ucharMax < l.length ∨ room ≤ l.length
    · simp [accepted, encodeLabels, hr]
    · obtain ⟨hle, hb, hlen⟩ := ih ((room + 1 - l.length) % 2 ^ 64)
      simp only [accepted, encodeLabels, if_neg hr, List.length_cons, prefixBytes_cons_succ,
        Nat.add_right_cancel_iff, hb, List.length_append, hlen, wireLabel]
      exact ⟨by omega, trivial, by omega⟩

/-- Exactly which labels are let through: the room in front of label `i` is the capacity,
less the bytes written, plus two for every label before it, as long as that is a size_t. -/
theorem le_accepted_iff {room : ℕ} (hroom : room < 2 ^ 64) (ls : List Label) (j : ℕ) :
    j ≤ accepted room ls ↔ j ≤ ls.length ∧ (∀ l ∈ ls.take j, l.length ≤ ucharMax) ∧
      ∀ i < j, room + 2 * i < 2 ^ 64 + prefixBytes ls i ∧
        prefixBytes ls (i + 1) ≤ room + 2 * i := by
  induction ls generalizing room j with
  | nil =>
    constructor
    · intro h
      obtain rfl : j = 0 := by simpa [accepted] using h
      simp
    · exact fun h => by simpa [accepted] using h.1
  | cons l ls ih =>
    cases j with
    | zero => simp
    | succ j =>
      by_cases hr : ucharMax < l.length ∨ room ≤ l.length
      · simp only [accepted, if_pos hr]
        constructor
        · omega
        · rintro ⟨_, hs, hb⟩
          have h0 := (hb 0 (by omega)).2
          have hl := hs l (by simp)
          simp only [Nat.zero_add, prefixBytes_cons_succ, prefixBytes_zero] at h0
          omega
      · have hl : l.length ≤ ucharMax ∧ l.length < room := by omega
        rw [accepted, if_neg hr, Nat.add_le_add_iff_right]
        by_cases hw : room + 1 - l.length < 2 ^ 64
        · rw [Nat.mod_eq_of_lt hw, ih hw]
          constructor
          · rintro ⟨hj, hs, hb⟩
            refine ⟨by simpa using hj, ?_, ?_⟩
            · simpa [hl.1] using hs
            · intro i hi
              cases i with
              | zero => simp; omega
              | succ i =>
                have := hb i (by omega)
                simp only [prefixBytes_cons_succ]
                omega
          · rintro ⟨hj, hs, hb⟩
            refine ⟨by simpa using hj, ?_, ?_⟩
            · intro k hk
              exact hs k (by simp [hk])
            · intro i hi
              have := hb (i + 1) (by omega)
              simp only [prefixBytes_cons_succ] at this
              omega
        · -- the counter wraps to zero and refuses every later label
          have hz : (room + 1 - l.length) % 2 ^ 64 = 0 := by
            rw [show room + 1 - l.length = 2 ^ 64 by omega]
            rfl
          rw [hz, accepted_zero]
          constructor
          · intro hj
            obtain rfl : j = 0 := by omega
            refine ⟨by simp, by simpa using hl.1, fun i hi => ?_⟩
            obtain rfl : i = 0 := by omega
            simp
            omega
          · rintro ⟨_, _, hb⟩
            by_contra hj
            have := (hb 1 (by omega)).1
            rw [show (1 : ℕ) = 0 + 1 by rfl, prefixBytes_cons_succ, prefixBytes_zero] at this
            omega

/-- The first `j` labels, and the closing zero when they are all, need more than `n` bytes. -/
def Overshoots (n : ℕ) (ls : List Label) (j : ℕ) : Prop :=
  n < prefixBytes ls j + if j = ls.length then 1 else 0

instance (n : ℕ) (ls : List Label) (j : ℕ) : Decidable (Overshoots n ls j) :=
  inferInstanceAs (Decidable (_ < _))

/-- Label `j` (counted from one) is the first that does not fit, and the encoder lets it
through: it is not the first label, it overshoots by less than `2j - 2`, no label up
to it is too long, and the counter did not pass the end of a size_t before it. -/
structure Overrun (n : ℕ) (ls : List Label) (j : ℕ) : Prop where
  within : j ≤ ls.length
  misfit : Overshoots n ls j
  first : ∀ i < j, ¬ Overshoots n ls i
  short : ∀ l ∈ ls.take j, l.length ≤ ucharMax
  head : prefixBytes ls 1 < n
  near : prefixBytes ls j + 2 < n + 2 * j
  counted : ∀ i < j, n + 2 * i ≤ 2 ^ 64 + prefixBytes ls i

/-- Overshooting lasts: the bytes only grow with the labels. -/
theorem overshoots_mono {n : ℕ} {ls : List Label} {i j : ℕ} (h : Overshoots n ls i) (hij : i ≤ j)
    (hj : j ≤ ls.length) : Overshoots n ls j := by
  rcases Nat.eq_or_lt_of_le hij with rfl | hlt
  · exact h
  · have := prefixBytes_lt ls hlt hj
    unfold Overshoots at h ⊢
    rw [if_neg (by omega)] at h
    omega

/-- The encoder writes past its capacity exactly on the names that overrun it. -/
theorem encodeLabels_overrun_iff {n : ℕ} (hn : 1 ≤ n) (hmax : n ≤ 2 ^ 64) (ls : List Label) :
    n < (encodeLabels (n - 1) ls).1.length ↔ ∃ j, Overrun n ls j := by
  obtain ⟨hle, -, hlen⟩ := encodeLabels_accepted (n - 1) ls
  have hiff := le_accepted_iff (show n - 1 < 2 ^ 64 by omega) ls
  rw [hlen]
  constructor
  · intro h
    have hex : ∃ j, Overshoots n ls j := ⟨accepted (n - 1) ls, h⟩
    have hj : Nat.find hex ≤ accepted (n - 1) ls := Nat.find_le h
    have hpos : 0 < Nat.find hex := by
      rw [Nat.find_pos]
      unfold Overshoots
      rw [prefixBytes_zero]
      split_ifs <;> omega
    obtain ⟨hw, hs, hb⟩ := (hiff (Nat.find hex)).mp hj
    have hlast := (hb (Nat.find hex - 1) (by omega)).2
    rw [Nat.sub_add_cancel hpos] at hlast
    refine ⟨Nat.find hex, hw, Nat.find_spec hex, fun i hi => Nat.find_min hex hi, hs, ?_, ?_, ?_⟩
    · have := (hb 0 hpos).2
      simp only [Nat.zero_add] at this
      omega
    · omega
    · intro i hi
      have := (hb i hi).1
      omega
  · rintro ⟨j, ho⟩
    have hj : j ≤ accepted (n - 1) ls := by
      refine (hiff j).mpr ⟨ho.within, ho.short, fun i hi => ⟨?_, ?_⟩⟩
      · have := ho.counted i hi
        omega
      · have hhead := ho.head
        have hnear := ho.near
        rcases Nat.eq_or_lt_of_le (Nat.succ_le_of_lt hi) with hij | hij
        · rw [← hij] at hnear
          simp only [Nat.succ_eq_add_one] at hnear
          omega
        · -- an inner label fits, and from the second one on the counter is too generous
          have hfit := ho.first (i + 1) hij
          unfold Overshoots at hfit
          cases i with
          | zero => simp only [Nat.zero_add]; omega
          | succ i => split_ifs at hfit <;> omega
    exact overshoots_mono ho.misfit hj hle

/-- encode_name writes only to the `n` bytes at `p`, and succeeds only when the whole
encoding fits in them, exactly on the names that do not overrun the capacity. -/
theorem encode_name_in_capacity_iff {n : ℕ} (hn : 1 ≤ n) (hmax : n < 2 ^ 64) (p : ℕ)
    (name : List UInt8) :
    ((∀ w ∈ (encodeName p n name).stores, p ≤ w.1 ∧ w.1 < p + n) ∧
      ((encodeName p n name).ret = 0 → 1 + ((labels name).map fun l => l.length + 1).sum ≤ n)) ↔
    ¬ ∃ j, Overrun n (labels name) j := by
  rw [← encodeLabels_overrun_iff hn hmax.le, encodeName_eq]
  obtain ⟨hle, hb, hlen⟩ := encodeLabels_accepted (n - 1) (labels name)
  simp only [resultOf]
  constructor
  · rintro ⟨hw, -⟩ h
    obtain ⟨b, hmem⟩ := exists_mem_storesAt (Nat.le_add_right p n)
      (show p + n < p + (encodeLabels (n - 1) (labels name)).1.length by omega)
    have := hw _ hmem
    simp only at this
    omega
  · intro h
    constructor
    · intro w hw
      have := mem_storesAt_bounds hw
      omega
    · intro hret
      have hall : accepted (n - 1) (labels name) = (labels name).length := by
        by_contra hne
        simp [hb, hne] at hret
      rw [hlen, if_pos hall, hall] at h
      change wireLength (labels name) ≤ n
      rw [wireLength_eq_prefixBytes]
      omega

/-- Four bytes and the name "a.b": the closing zero is the fifth byte. -/
theorem encode_name_overruns_two_labels :
    ¬ ∀ n : ℕ, 1 ≤ n → n < 2 ^ 64 → ∀ (p : ℕ) (name : List UInt8),
      (∀ w ∈ (encodeName p n name).stores, p ≤ w.1 ∧ w.1 < p + n) ∧
      ((encodeName p n name).ret = 0 →
        1 + ((labels name).map fun l => l.length + 1).sum ≤ n) := by
  intro h
  have hrun : encodeName 0 4 [97, 46, 98] =
      ⟨0, [(0, 1), (1, 97), (2, 1), (3, 98), (4, 0)], 5⟩ := by
    rw [encodeName_eq]
    decide
  have hw := (h 4 (by decide) (by decide) 0 [97, 46, 98]).1 (4, 0) (by rw [hrun]; decide)
  exact absurd hw.2 (by decide)

theorem encode_name_in_capacity_iff_five :
    (1 ≤ 5 ∧ 5 < 2 ^ 64) ∧ ¬ ∃ j, Overrun 5 (labels [97, 46, 98]) j := by
  refine ⟨by decide, (encode_name_in_capacity_iff (n := 5) (by decide) (by decide) 0 _).mp ?_⟩
  rw [encodeName_eq]
  decide

end BlastEncodeOverrun
