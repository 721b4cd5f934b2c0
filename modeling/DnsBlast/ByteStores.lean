import Mathlib.Data.List.Basic
import Mathlib.Logic.Function.Basic

/-! Byte memory and lists of stores. A function that only writes is given by the
stores it makes, oldest first, so that the addresses it touches are data. -/
namespace ByteStores

abbrev Memory := ℕ → UInt8
abbrev Store := ℕ × UInt8

def applyStores (m : Memory) (ws : List Store) : Memory :=
  ws.foldl (fun m w => Function.update m w.1 w.2) m

def storesAt (p : ℕ) : List UInt8 → List Store
  | [] => []
  | b :: bs => (p, b) :: storesAt (p + 1) bs

def readBytes (m : Memory) (p n : ℕ) : List UInt8 := (List.range n).map fun i => m (p + i)

@[simp] theorem applyStores_nil (m : Memory) : applyStores m [] = m := rfl

@[simp] theorem applyStores_cons (m : Memory) (w : Store) (ws : List Store) :
    applyStores m (w :: ws) = applyStores (Function.update m w.1 w.2) ws := rfl

theorem applyStores_append (m : Memory) (vs ws : List Store) :
    applyStores m (vs ++ ws) = applyStores (applyStores m vs) ws := List.foldl_append

@[simp] theorem storesAt_length (p : ℕ) (bs : List UInt8) :
    (storesAt p bs).length = bs.length := by
  induction bs generalizing p with
  | nil => rfl
  | cons b bs ih => simp [storesAt, ih]

theorem storesAt_append (p : ℕ) (bs cs : List UInt8) :
    storesAt p (bs ++ cs) = storesAt p bs ++ storesAt (p + bs.length) cs := by
  induction bs generalizing p with
  | nil => simp [storesAt]
  | cons b bs ih =>
    simp only [List.cons_append, storesAt, ih, List.length_cons]
    rw [show p + 1 + bs.length = p + (bs.length + 1) by omega]

theorem mem_storesAt_bounds {p : ℕ} {bs : List UInt8} {w : Store} (h : w ∈ storesAt p bs) :
    p ≤ w.1 ∧ w.1 < p + bs.length := by
  induction bs generalizing p with
  | nil => simp [storesAt] at h
  | cons b bs ih =>
    rcases List.mem_cons.mp h with rfl | h
    · simp
    · have := ih h
      simp only [List.length_cons]
      omega

theorem exists_mem_storesAt {p a : ℕ} {bs : List UInt8} (hl : p ≤ a) (hu : a < p + bs.length) :
    ∃ b, (a, b) ∈ storesAt p bs := by
  induction bs generalizing p with
  | nil => simp at hu; omega
  | cons b bs ih =>
    by_cases ha : a = p
    · exact ⟨b, by simp [storesAt, ha]⟩
    · obtain ⟨c, hc⟩ := ih (p := p + 1) (by omega) (by simp only [List.length_cons] at hu; omega)
      exact ⟨c, List.mem_cons_of_mem _ hc⟩

/-- A block of stores stays below `n` when its end does. -/
theorem storesAt_below_iff {p n : ℕ} {bs : List UInt8} :
    (∀ w ∈ storesAt p bs, w.1 < n) ↔ bs = [] ∨ p + bs.length ≤ n := by
  constructor
  · intro h
    by_contra hn
    push Not at hn
    have hpos := List.length_pos_of_ne_nil hn.1
    obtain ⟨b, hb⟩ := exists_mem_storesAt (show p ≤ p + bs.length - 1 by omega)
      (show p + bs.length - 1 < p + bs.length by omega)
    have := h _ hb
    omega
  · rintro (rfl | h) w hw
    · simp [storesAt] at hw
    · have := mem_storesAt_bounds hw
      omega

/-- Bytes that no store addresses keep their value. -/
theorem applyStores_frame {m : Memory} {ws : List Store} {a : ℕ} (h : ∀ w ∈ ws, w.1 ≠ a) :
    applyStores m ws a = m a := by
  induction ws generalizing m with
  | nil => rfl
  | cons w ws ih =>
    rw [applyStores_cons, ih (fun v hv => h v (List.mem_cons_of_mem _ hv)),
      Function.update_of_ne (h w List.mem_cons_self).symm]

theorem applyStores_storesAt_outside {m : Memory} {p a : ℕ} {bs : List UInt8}
    (h : a < p ∨ p + bs.length ≤ a) : applyStores m (storesAt p bs) a = m a := by
  apply applyStores_frame
  intro w hw
  have := mem_storesAt_bounds hw
  omega

theorem applyStores_storesAt_getElem {m : Memory} {p i : ℕ} {bs : List UInt8}
    (h : i < bs.length) : applyStores m (storesAt p bs) (p + i) = bs[i] := by
  induction bs generalizing m p i with
  | nil => simp at h
  | cons b bs ih =>
    rw [storesAt, applyStores_cons]
    cases i with
    | zero =>
      rw [applyStores_storesAt_outside (by omega)]
      simp
    | succ i =>
      rw [show p + (i + 1) = p + 1 + i by omega, ih (by simpa using h)]
      rfl

@[simp] theorem readBytes_length (m : Memory) (p n : ℕ) : (readBytes m p n).length = n := by
  simp [readBytes]

theorem readBytes_getElem {m : Memory} {p n i : ℕ} (h : i < (readBytes m p n).length) :
    (readBytes m p n)[i] = m (p + i) := by
  simp [readBytes]

theorem readBytes_add (m : Memory) (p k n : ℕ) :
    readBytes m p (k + n) = readBytes m p k ++ readBytes m (p + k) n := by
  simp [readBytes, List.range_add, Nat.add_assoc, Function.comp_def]

theorem readBytes_congr {m m' : Memory} {p n : ℕ} (h : ∀ i < n, m (p + i) = m' (p + i)) :
    readBytes m p n = readBytes m' p n := by
  unfold readBytes
  apply List.map_congr_left
  intro i hi
  exact h i (List.mem_range.mp hi)

theorem readBytes_storesAt (m : Memory) (p : ℕ) (bs : List UInt8) :
    readBytes (applyStores m (storesAt p bs)) p bs.length = bs := by
  apply List.ext_getElem (by simp)
  intro i hi hb
  rw [readBytes_getElem, applyStores_storesAt_getElem hb]

theorem readBytes_frame {m : Memory} {ws : List Store} {p n : ℕ}
    (h : ∀ w ∈ ws, w.1 < p ∨ p + n ≤ w.1) :
    readBytes (applyStores m ws) p n = readBytes m p n := by
  apply readBytes_congr
  intro i hi
  apply applyStores_frame
  intro w hw
  have := h w hw
  omega

end ByteStores
