import Mathlib.Algebra.Group.Nat.Defs
import Mathlib.Data.Int.Notation
import Mathlib.Data.List.TakeWhile
import DnsBlast.DecimalText

/-! Functions of the C library on strings, in the "C" locale. -/
namespace CStrings

open DecimalText

/-- A string without its terminator. -/
structure CString where
  bytes : List UInt8
  terminated : 0 ∉ bytes

def tolower (c : UInt8) : UInt8 := if 65 ≤ c ∧ c ≤ 90 then c + 32 else c

def strcasecmp : List UInt8 → List UInt8 → ℤ
  | [], [] => 0
  | [], d :: _ => -(tolower d).toNat
  | c :: _, [] => (tolower c).toNat
  | c :: cs, d :: ds =>
    if tolower c = tolower d then strcasecmp cs ds else (tolower c).toNat - (tolower d).toNat

def isspace (c : UInt8) : Bool := c = 32 || (9 ≤ c && c ≤ 13)

def ulongMax : ℕ := 2 ^ 64 - 1

/-- `strtoul(text, NULL, 10)`: too large a number gives the largest one, a minus sign
negates the result without sign. -/
def strtoul (text : List UInt8) : ℕ :=
  let text := text.dropWhile isspace
  let minus := text.head? = some 45
  let text := if text.head? = some 45 ∨ text.head? = some 43 then text.tail else text
  let number := value (text.takeWhile isDigit)
  if number > ulongMax then ulongMax else if minus then (2 ^ 64 - number) % 2 ^ 64 else number

theorem tolower_ne_zero {c : UInt8} (h : c ≠ 0) : tolower c ≠ 0 := by
  unfold tolower
  by_cases hc : 65 ≤ c ∧ c ≤ 90
  · rw [if_pos hc]
    obtain ⟨hl, hu⟩ := hc
    rw [UInt8.le_iff_toNat_le] at hl hu
    intro hz
    have hsum := congrArg UInt8.toNat hz
    rw [UInt8.toNat_add] at hsum
    simp at hl hu hsum
    omega
  · rw [if_neg hc]
    exact h

/-- strcasecmp finds no difference exactly between strings that are equal but for case. -/
theorem strcasecmp_eq_zero_iff {s t : List UInt8} (hs : 0 ∉ s) (ht : 0 ∉ t) :
    strcasecmp s t = 0 ↔ s.map tolower = t.map tolower := by
  have hpos : ∀ {c : UInt8}, c ≠ 0 → (tolower c).toNat ≠ 0 := by
    intro c hc hz
    exact tolower_ne_zero hc (UInt8.toNat_inj.mp hz)
  induction s generalizing t with
  | nil =>
    cases t with
    | nil => simp [strcasecmp]
    | cons d ds =>
      have hd := hpos (show d ≠ 0 from fun hz => ht (hz ▸ List.mem_cons_self))
      simp only [strcasecmp, List.map_nil, List.map_cons]
      apply iff_of_false
      · omega
      · simp
  | cons c cs ih =>
    have hc := hpos (show c ≠ 0 from fun hz => hs (hz ▸ List.mem_cons_self))
    cases t with
    | nil =>
      simp only [strcasecmp, List.map_nil, List.map_cons]
      apply iff_of_false
      · omega
      · simp
    | cons d ds =>
      rw [strcasecmp, List.map_cons, List.map_cons, List.cons.injEq]
      by_cases heq : tolower c = tolower d
      · have hrest : strcasecmp cs ds = 0 ↔ cs.map tolower = ds.map tolower := by
          apply ih
          · exact fun h => hs (List.mem_cons_of_mem c h)
          · exact fun h => ht (List.mem_cons_of_mem d h)
        rw [if_pos heq, hrest]
        simp only [heq, true_and]
      · rw [if_neg heq]
        apply iff_of_false
        · intro hz
          exact heq (UInt8.toNat_inj.mp (by omega))
        · rintro ⟨h, -⟩
          exact heq h

theorem strtoul_lt (text : List UInt8) : strtoul text < 2 ^ 64 := by
  have hmax : ulongMax < 2 ^ 64 := by decide
  simp only [strtoul]
  split_ifs <;> omega

/-- A number that is printed plainly is read back. -/
theorem strtoul_plain {text : List UInt8} (h : Plain text) (hv : value text < 2 ^ 64) :
    strtoul text = value text := by
  obtain ⟨c, cs, rfl⟩ := List.exists_cons_of_ne_nil h.nonempty
  have hc := h.digits c List.mem_cons_self
  have hall : (c :: cs).takeWhile isDigit = c :: cs := List.takeWhile_eq_self_iff.mpr h.digits
  simp only [isDigit, Bool.and_eq_true, decide_eq_true_eq] at hc
  have hspace : isspace c = false := by
    simp only [isspace, Bool.or_eq_false_iff, Bool.and_eq_false_iff, decide_eq_false_iff_not,
      ← UInt8.toNat_inj, UInt8.le_iff_toNat_le]
    simp
    omega
  have hminus : c ≠ 45 := by
    rw [ne_eq, ← UInt8.toNat_inj]
    simp
    omega
  have hplus : c ≠ 43 := by
    rw [ne_eq, ← UInt8.toNat_inj]
    simp
    omega
  have hmax : ¬ value (c :: cs) > ulongMax := by
    unfold ulongMax
    omega
  simp [strtoul, List.dropWhile_cons_of_neg, hspace, hminus, hplus, hall, hmax]

end CStrings
