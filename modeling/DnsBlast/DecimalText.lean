import Mathlib.Data.List.Basic

/-! Decimal numbers as lists of ASCII bytes, most significant digit first. -/
namespace DecimalText

def isDigit (c : UInt8) : Bool := 48 ≤ c.toNat && c.toNat ≤ 57

def value (text : List UInt8) : ℕ := text.foldl (fun v c => 10 * v + (c.toNat - 48)) 0

/-- A number as it is usually written: a zero comes first only in zero itself. -/
structure Plain (text : List UInt8) : Prop where
  nonempty : text ≠ []
  digits : ∀ c ∈ text, isDigit c
  leading : text.head? = some 48 → text = [48]

def digit (d : ℕ) : UInt8 := UInt8.ofNat (48 + d)

section Digits
variable {d : ℕ}

theorem digit_toNat (h : d < 10) : (digit d).toNat = 48 + d := by
  rw [digit, UInt8.toNat_ofNat']
  omega

theorem isDigit_digit (h : d < 10) : isDigit (digit d) := by
  simp only [isDigit, digit_toNat h, Bool.and_eq_true, decide_eq_true_eq]
  omega

theorem value_digit (h : d < 10) : value [digit d] = d := by
  simp [value, digit_toNat h]

theorem plain_digit (h : d < 10) : Plain [digit d] := by
  refine ⟨by simp, ?_, ?_⟩
  · intro c hc
    rw [List.mem_singleton.mp hc]
    exact isDigit_digit h
  · intro hz
    exact congrArg (fun c => [c]) (Option.some.inj hz)

theorem value_append_digit (text : List UInt8) (h : d < 10) :
    value (text ++ [digit d]) = 10 * value text + d := by
  simp [value, List.foldl_append, digit_toNat h]

/-- A digit may follow any number but zero. -/
theorem Plain.append_digit {text : List UInt8} (ht : Plain text) (hv : value text ≠ 0)
    (h : d < 10) : Plain (text ++ [digit d]) := by
  refine ⟨by simp, ?_, ?_⟩
  · intro c hc
    rcases List.mem_append.mp hc with hc | hc
    · exact ht.digits c hc
    · rw [List.mem_singleton.mp hc]
      exact isDigit_digit h
  · intro hz
    rw [List.head?_append_of_ne_nil _ ht.nonempty] at hz
    rw [ht.leading hz] at hv
    exact absurd rfl hv

end Digits

end DecimalText
