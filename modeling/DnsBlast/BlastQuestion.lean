import DnsBlast.BlastEncodeName
import DnsBlast.DecimalText

/-! The question generators of dnsblast.c. A generator draws from one fixed stream of
rand() values; its state is the number of values consumed so far. -/
namespace BlastQuestion

open BlastHeader BlastEncodeName DnsReader DecimalText

def rand (ρ : ℕ → ℕ) : StateM ℕ ℕ := fun n => (ρ n, n + 1)

theorem draw_bind_run {α β : Type} (x : StateM ℕ α) (f : α → StateM ℕ β) (n : ℕ) :
    (x >>= f).run n = (f (x.run n).1).run (x.run n).2 := rfl

theorem rand_run (ρ : ℕ → ℕ) (n : ℕ) : (rand ρ).run n = (ρ n, n + 1) := rfl

/-- main's `char name[100U] = "."`. -/
def initialName : List UInt8 := dot :: List.replicate 99 0

def charsetAlnum : List UInt8 :=
  (List.range 26).map (fun i => UInt8.ofNat (97 + i)) ++
    (List.range 10).map fun i => UInt8.ofNat (48 + i)

def overwrite (name s : List UInt8) : List UInt8 := s ++ 0 :: name.drop (s.length + 1)

def comName (a b c d : UInt8) : List UInt8 := [a, b, c, d, dot, 99, 111, 109]

def getRandomName (ρ : ℕ → ℕ) (name : List UInt8) : StateM ℕ (List UInt8) := do
  let r1 ← rand ρ
  let r2 ← rand ρ
  let alnum (r : ℕ) : UInt8 := charsetAlnum.getD (r % charsetAlnum.length) 0
  return overwrite name (comName (alnum r1) (alnum (r1 >>> 16)) (alnum r2) (alnum (r2 >>> 16)))

/-- The do-while of get_random_type over a table; `none` when it runs off the end. -/
def weightedChoice (rnd : ℕ) (pos : ℤ) : List WeightedType → Option ℕ
  | [] => none
  | t :: ts =>
    let pos := pos - t.weight
    if (rnd : ℤ) > pos then some t.type else weightedChoice rnd pos ts

def getRandomType (P : Platform) (ρ : ℕ → ℕ) : StateM ℕ ℕ := do
  let rnd ← rand ρ
  match weightedChoice rnd P.randMax (weightedTypes P) with
  | some type => return type
  | none =>
    let r ← rand ρ
    return ((weightedTypes P).map WeightedType.type).getD (r % (weightedTypes P).length) 0

/-- The digits printed by "%d" for a non-negative argument. -/
def decimal (n : ℕ) : List UInt8 := (Nat.toDigits 10 n).map fun c => UInt8.ofNat c.toNat

def dottedQuad (a b c d : ℕ) : List UInt8 :=
  decimal a ++ dot :: (decimal b ++ dot :: (decimal c ++ dot :: decimal d))

/-- The type passed in is overwritten before it is read. -/
def getRandomQuestion (P : Platform) (ρ : ℕ → ℕ) (name : List UInt8) (_type : ℕ) :
    StateM ℕ (List UInt8 × ℕ) := do
  let type ← getRandomType P ρ
  if type = 12 then
    let r1 ← rand ρ
    let r2 ← rand ρ
    let r3 ← rand ρ
    let r4 ← rand ρ
    return (overwrite name (dottedQuad (r1 % 256) (r2 % 256) (r3 % 256) (r4 % 256)), type)
  else
    let name ← getRandomName ρ name
    return (name, type)

theorem weightedChoice_mem {rnd : ℕ} {pos : ℤ} {ts : List WeightedType} {type : ℕ}
    (h : weightedChoice rnd pos ts = some type) : type ∈ ts.map WeightedType.type := by
  induction ts generalizing pos with
  | nil => cases h
  | cons t ts ih =>
    simp only [weightedChoice] at h
    split_ifs at h with hp
    · cases h
      exact List.mem_cons_self
    · exact List.mem_cons_of_mem _ (ih h)

theorem getRandomType_run (P : Platform) (ρ : ℕ → ℕ) (n : ℕ) :
    (getRandomType P ρ).run n =
      match weightedChoice (ρ n) P.randMax (weightedTypes P) with
      | some type => (type, n + 1)
      | none => (queryTypes.getD (ρ (n + 1) % queryTypes.length) 0, n + 2) := by
  rw [getRandomType, draw_bind_run, rand_run]
  cases weightedChoice (ρ n) P.randMax (weightedTypes P) <;> rfl

theorem getRandomType_mem (P : Platform) (ρ : ℕ → ℕ) (n : ℕ) :
    ((getRandomType P ρ).run n).1 ∈ queryTypes := by
  rw [getRandomType_run]
  cases hc : weightedChoice (ρ n) P.randMax (weightedTypes P) with
  | some type => exact weightedTypes_type P ▸ weightedChoice_mem hc
  | none =>
    have hlt : ρ (n + 1) % queryTypes.length < queryTypes.length := Nat.mod_lt _ (by decide)
    rw [List.getD_eq_getElem _ _ hlt]
    exact List.getElem_mem hlt

theorem getRandomName_run (ρ : ℕ → ℕ) (name : List UInt8) (n : ℕ) :
    ∃ a ∈ charsetAlnum, ∃ b ∈ charsetAlnum, ∃ c ∈ charsetAlnum, ∃ d ∈ charsetAlnum,
      (getRandomName ρ name).run n = (overwrite name (comName a b c d), n + 2) := by
  have hmem : ∀ r, charsetAlnum.getD (r % charsetAlnum.length) 0 ∈ charsetAlnum := by
    intro r
    have hlt : r % charsetAlnum.length < charsetAlnum.length := Nat.mod_lt _ (by decide)
    rw [List.getD_eq_getElem _ _ hlt]
    exact List.getElem_mem hlt
  exact ⟨_, hmem _, _, hmem _, _, hmem _, _, hmem _, rfl⟩

inductive RandomQuestion (name : List UInt8) : List UInt8 → ℕ → Prop where
  | ptr {a b c d : ℕ} (ha : a < 256) (hb : b < 256) (hc : c < 256) (hd : d < 256) :
      RandomQuestion name (overwrite name (dottedQuad a b c d)) typePTR
  | com {a b c d : UInt8} {type : ℕ} (ha : a ∈ charsetAlnum) (hb : b ∈ charsetAlnum)
      (hc : c ∈ charsetAlnum) (hd : d ∈ charsetAlnum) (ht : type ∈ queryTypes)
      (hn : type ≠ typePTR) : RandomQuestion name (overwrite name (comName a b c d)) type

theorem getRandomQuestion_shape (P : Platform) (ρ : ℕ → ℕ) (name : List UInt8) (type n : ℕ) :
    RandomQuestion name ((getRandomQuestion P ρ name type).run n).1.1
      ((getRandomQuestion P ρ name type).run n).1.2 := by
  have hmem := getRandomType_mem P ρ n
  have hbind : (getRandomQuestion P ρ name type).run n =
      (if ((getRandomType P ρ).run n).1 = 12 then do
        let r1 ← rand ρ
        let r2 ← rand ρ
        let r3 ← rand ρ
        let r4 ← rand ρ
        return (overwrite name (dottedQuad (r1 % 256) (r2 % 256) (r3 % 256) (r4 % 256)),
          ((getRandomType P ρ).run n).1)
      else do
        let name ← getRandomName ρ name
        return (name, ((getRandomType P ρ).run n).1) : StateM ℕ (List UInt8 × ℕ)).run
          ((getRandomType P ρ).run n).2 := rfl
  rw [hbind]
  by_cases ht : ((getRandomType P ρ).run n).1 = 12
  · rw [if_pos ht, ht]
    exact .ptr (Nat.mod_lt _ (by decide)) (Nat.mod_lt _ (by decide))
      (Nat.mod_lt _ (by decide)) (Nat.mod_lt _ (by decide))
  · rw [if_neg ht]
    obtain ⟨a, ha, b, hb, c, hc, d, hd, hr⟩ :=
      getRandomName_run ρ name ((getRandomType P ρ).run n).2
    have hr' : (getRandomName ρ name).run ((getRandomType P ρ).run n).2 = _ := hr
    simp only [StateT.run_bind, hr']
    exact .com ha hb hc hd hmem ht

theorem cstring_overwrite {name s : List UInt8} (h : ∀ x ∈ s, x ≠ 0) :
    cstring (overwrite name s) = s := by
  unfold cstring overwrite
  rw [List.takeWhile_append_of_pos (by simpa using h)]
  simp

theorem charsetAlnum_plain : ∀ x ∈ charsetAlnum, x ≠ 0 ∧ x ≠ dot := by
  decide +kernel

theorem decimal_plain {n : ℕ} : ∀ x ∈ decimal n, x ≠ 0 ∧ x ≠ dot := by
  intro x hx
  obtain ⟨c, hc, rfl⟩ := List.mem_map.mp hx
  have hd := Nat.isDigit_of_mem_toDigits (by decide) (by decide) hc
  simp only [Char.isDigit, Bool.and_eq_true, decide_eq_true_eq, UInt32.le_iff_toNat_le] at hd
  have hl : 48 ≤ c.toNat := hd.1
  have hu : c.toNat ≤ 57 := hd.2
  have hv : (UInt8.ofNat c.toNat).toNat = c.toNat := by
    rw [UInt8.toNat_ofNat']
    omega
  constructor
  · intro hx
    rw [hx] at hv
    have hz : (0 : UInt8).toNat = 0 := rfl
    omega
  · intro hx
    rw [hx] at hv
    have hz : dot.toNat = 46 := rfl
    omega

theorem decimal_length {n : ℕ} (h : n < 256) :
    1 ≤ (decimal n).length ∧ (decimal n).length ≤ 3 := by
  have hpos := Nat.length_toDigits_pos (b := 10) (n := n)
  have hle : (Nat.toDigits 10 n).length ≤ 3 :=
    (Nat.length_toDigits_le_iff (by decide) (by decide)).mpr (by omega)
  rw [decimal, List.length_map]
  omega

theorem decimal_eq (n : ℕ) :
    decimal n = if n < 10 then [digit n] else decimal (n / 10) ++ [digit (n % 10)] := by
  have hchar : ∀ d < 10, UInt8.ofNat (Nat.digitChar d).toNat = digit d := by
    intro d hd
    rw [Nat.toNat_digitChar_of_lt_ten hd, digit]
  unfold decimal
  by_cases hn : n < 10
  · rw [if_pos hn, Nat.toDigits_of_lt_base hn, List.map_singleton, hchar n hn]
  · rw [if_neg hn, Nat.toDigits_of_base_le (by decide) (by omega), List.map_append,
      List.map_singleton, hchar _ (Nat.mod_lt _ (by decide))]

/-- "%d" prints a number without leading zeros, and a reader gets it back. -/
theorem decimal_plain_value (n : ℕ) : Plain (decimal n) ∧ value (decimal n) = n := by
  induction n using Nat.strong_induction_on with
  | _ n ih =>
    rw [decimal_eq]
    by_cases hn : n < 10
    · rw [if_pos hn]
      exact ⟨plain_digit hn, value_digit hn⟩
    · rw [if_neg hn]
      obtain ⟨hplain, hvalue⟩ := ih (n / 10) (by omega)
      have hlast : n % 10 < 10 := Nat.mod_lt _ (by decide)
      refine ⟨hplain.append_digit (by omega) hlast, ?_⟩
      rw [value_append_digit _ hlast, hvalue]
      omega

theorem dottedQuad_plain {a b c d : ℕ} : ∀ x ∈ dottedQuad a b c d, x ≠ 0 := by
  intro x hx
  simp only [dottedQuad, List.mem_append, List.mem_cons] at hx
  rcases hx with hx | rfl | hx | rfl | hx | rfl | hx
  · exact (decimal_plain x hx).1
  · decide
  · exact (decimal_plain x hx).1
  · decide
  · exact (decimal_plain x hx).1
  · decide
  · exact (decimal_plain x hx).1

theorem comName_plain {a b c d : UInt8} (ha : a ∈ charsetAlnum) (hb : b ∈ charsetAlnum)
    (hc : c ∈ charsetAlnum) (hd : d ∈ charsetAlnum) : ∀ x ∈ comName a b c d, x ≠ 0 := by
  simp [comName, (charsetAlnum_plain a ha).1, (charsetAlnum_plain b hb).1,
    (charsetAlnum_plain c hc).1, (charsetAlnum_plain d hd).1, dot]

theorem labels_comName {name : List UInt8} {a b c d : UInt8} (ha : a ∈ charsetAlnum)
    (hb : b ∈ charsetAlnum) (hc : c ∈ charsetAlnum) (hd : d ∈ charsetAlnum) :
    labels (overwrite name (comName a b c d)) = [[a, b, c, d], [99, 111, 109]] := by
  have hdot : dot ∉ [a, b, c, d] := by
    simp [(charsetAlnum_plain a ha).2.symm, (charsetAlnum_plain b hb).2.symm,
      (charsetAlnum_plain c hc).2.symm, (charsetAlnum_plain d hd).2.symm]
  rw [labels, cstring_overwrite (comName_plain ha hb hc hd)]
  change ([a, b, c, d] ++ dot :: [99, 111, 109]).splitOn dot = _
  rw [List.splitOn_append_cons_self_of_not_mem hdot]
  rfl

theorem labels_dottedQuad (name : List UInt8) (a b c d : ℕ) :
    labels (overwrite name (dottedQuad a b c d)) =
      [decimal a, decimal b, decimal c, decimal d] := by
  have hdot : ∀ n, dot ∉ decimal n := fun n hm => (decimal_plain _ hm).2 rfl
  rw [labels, cstring_overwrite dottedQuad_plain, dottedQuad,
    List.splitOn_append_cons_self_of_not_mem (hdot a),
    List.splitOn_append_cons_self_of_not_mem (hdot b),
    List.splitOn_append_cons_self_of_not_mem (hdot c), List.splitOn_eq_singleton (hdot d)]

structure ProperQuestion (name : List UInt8) (type : ℕ) : Prop where
  proper : ∀ l ∈ labels name, ProperLabel l
  short : wireLength (labels name) ≤ 255
  listed : type ∈ queryTypes

theorem RandomQuestion.isProper {name name' : List UInt8} {type : ℕ}
    (h : RandomQuestion name name' type) : ProperQuestion name' type := by
  cases h with
  | @ptr a b c d ha hb hc hd =>
    have ha' := decimal_length ha
    have hb' := decimal_length hb
    have hc' := decimal_length hc
    have hd' := decimal_length hd
    refine ⟨?_, ?_, by decide⟩
    · simp only [labels_dottedQuad, List.forall_mem_cons, ProperLabel]
      refine ⟨?_, ?_, ?_, ?_, by simp⟩ <;> omega
    · simp only [labels_dottedQuad, wireLength, List.map_cons, List.sum_cons,
        List.map_nil, List.sum_nil]
      omega
  | com ha hb hc hd ht hn =>
    refine ⟨?_, ?_, ht⟩
    · simp [labels_comName ha hb hc hd, ProperLabel]
    · simp [labels_comName ha hb hc hd, wireLength]

end BlastQuestion
