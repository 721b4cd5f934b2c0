import DnsBlast.BlastTypeChoice
import DnsBlast.MattblastMain

/-! get_question of mattblast_funcs.c, which has the weighted choice and the two name
generators of mattblast.c written out in one function. -/
namespace MattblastFuncs

open BlastHeader BlastQuestion WeightedDraws BlastTypeChoice MattblastMain

/-- The do-while over the table: a miss draws a type for the case that the table ends. -/
def weightedLoop (P : Platform) (ρ : ℕ → ℕ) (rnd : ℕ) (pos : ℤ) (type : ℕ) :
    List WeightedType → StateM ℕ ℕ
  | [] => return type
  | t :: ts => do
    let pos := pos - t.weight
    if (rnd : ℤ) > pos then return t.type
    else
      let r ← rand ρ
      weightedLoop P ρ rnd pos
        (((weightedTypes P).map WeightedType.type).getD (r % (weightedTypes P).length) 0) ts

/-- `type` is a parameter by value, and what is returned is always 0. -/
def getQuestion (P : Platform) (ρ : ℕ → ℕ) (name : List UInt8) (type : ℕ) :
    StateM ℕ (List UInt8 × ℕ) := do
  let rnd ← rand ρ
  let type ← weightedLoop P ρ rnd P.randMax type (weightedTypes P)
  if type = 12 then
    let octet1 ← rand ρ
    let octet2 ← rand ρ
    let octet3 ← rand ρ
    let octet4 ← rand ρ
    return (overwrite name
      (dottedQuad (octet1 % 256) (octet2 % 256) (octet3 % 256) (octet4 % 256)), 0)
  else
    let r1 ← rand ρ
    let r2 ← rand ρ
    let alnum (r : ℕ) : UInt8 := charsetAlnum.getD (r % charsetAlnum.length) 0
    return (overwrite name (comName (alnum r1) (alnum (r1 >>> 16)) (alnum r2) (alnum (r2 >>> 16))),
      0)

def nameFor (ρ : ℕ → ℕ) (name : List UInt8) (type : ℕ) : StateM ℕ (List UInt8) :=
  if type = 12 then getRandomPtr ρ name else getRandomName ρ name

section Runs
variable (P : Platform) (ρ : ℕ → ℕ) (name : List UInt8) (type n : ℕ)

theorem nameFor_draws :
    ((nameFor ρ name type).run n).2 = n + if type = 12 then 4 else 2 := by
  by_cases h : type = 12
  · rw [nameFor, if_pos h, if_pos h]
    rfl
  · rw [nameFor, if_neg h, if_neg h]
    rfl

theorem original_run : (MattblastMain.getQuestion P ρ name type).run n =
    let r := (getRandomType P ρ).run n
    let s := (nameFor ρ name r.1).run r.2
    ((s.1, r.1), s.2) := by
  rw [MattblastMain.getQuestion, draw_bind_run]
  by_cases h : ((getRandomType P ρ).run n).1 = 12
  · simp only [nameFor, if_pos h]
    rfl
  · simp only [nameFor, if_neg h]
    rfl

theorem refactored_run : (getQuestion P ρ name type).run n =
    let r := (weightedLoop P ρ (ρ n) P.randMax type (weightedTypes P)).run (n + 1)
    let s := (nameFor ρ name r.1).run r.2
    ((s.1, 0), s.2) := by
  rw [getQuestion, draw_bind_run, draw_bind_run, rand_run]
  by_cases h :
      ((weightedLoop P ρ (ρ n) P.randMax type (weightedTypes P)).run (n + 1)).1 = 12
  · simp only [nameFor, if_pos h]
    rfl
  · simp only [nameFor, if_neg h]
    rfl

/-- The loop draws once for every entry before the one that is chosen. -/
theorem weightedLoop_run (rnd : ℕ) (pos : ℤ) (ts : List WeightedType) :
    (∀ i, chosen rnd pos (weights ts) = some i →
      (weightedLoop P ρ rnd pos type ts).run n = ((types ts).getD i 0, n + i)) ∧
    (chosen rnd pos (weights ts) = none →
      ((weightedLoop P ρ rnd pos type ts).run n).2 = n + ts.length) := by
  induction ts generalizing pos type n with
  | nil =>
    constructor
    · intro i hi
      cases hi
    · intro _
      rfl
  | cons t ts ih =>
    have hweights : weights (t :: ts) = t.weight :: weights ts := rfl
    have htypes : types (t :: ts) = t.type :: types ts := rfl
    by_cases hd : (rnd : ℤ) > pos - t.weight
    · rw [hweights, chosen, if_pos hd, weightedLoop]
      simp only [if_pos hd]
      constructor
      · intro i hi
        cases hi
        rfl
      · intro hn
        cases hn
    · rw [hweights, chosen, if_neg hd, weightedLoop]
      simp only [if_neg hd, draw_bind_run, rand_run]
      obtain ⟨hsome, hnone⟩ := ih
        (((weightedTypes P).map WeightedType.type).getD (ρ n % (weightedTypes P).length) 0)
        (n + 1) (pos - t.weight)
      constructor
      · intro i hi
        obtain ⟨j, hj, rfl⟩ := Option.map_eq_some_iff.mp hi
        rw [hsome j hj, htypes, List.getD_cons_succ, Nat.add_right_comm, Nat.add_assoc]
      · intro hn
        rw [hnone (Option.map_eq_none_iff.mp hn), List.length_cons, Nat.add_right_comm,
          Nat.add_assoc]

end Runs

structure Agree (x y : (List UInt8 × ℕ) × ℕ) : Prop where
  type : x.1.2 = y.1.2
  name : x.1.1 = y.1.1
  draws : x.2 = y.2

theorem zero_not_listed : 0 ∉ queryTypes := by decide

/-- The refactored function never agrees, because it returns no type. It leaves the same
name with as many draws exactly when the first entry of the table is chosen. -/
theorem refactored_question_differs (P : Platform) (ρ : RandStream P) (name : List UInt8)
    (type n : ℕ) :
    let original := (MattblastMain.getQuestion P ρ.value name type).run n
    let refactored := (getQuestion P ρ.value name type).run n
    ¬ Agree original refactored ∧
      (original.1.1 = refactored.1.1 ∧ original.2 = refactored.2 ↔
        ρ.value n ∈ drawsOf P.randMax (weights (weightedTypes P)) (some 0)) := by
  rw [original_run, refactored_run]
  constructor
  · intro h
    have htype : ((getRandomType P ρ.value).run n).1 = 0 := h.type
    exact zero_not_listed (htype ▸ getRandomType_mem P ρ.value n)
  · obtain ⟨hsome, hnone⟩ := weightedLoop_run P ρ.value type (n + 1) (ρ.value n) P.randMax
      (weightedTypes P)
    rw [mem_drawsOf]
    cases hc : chosen (ρ.value n) P.randMax (weights (weightedTypes P)) with
    | none =>
      have hlength : (weightedTypes P).length = 6 := rfl
      have hdraws := hnone hc
      rw [getRandomType_fallback hc]
      apply iff_of_false
      · rintro ⟨-, h⟩
        simp only [nameFor_draws, hdraws] at h
        split_ifs at h <;> omega
      · simp
    | some i =>
      obtain ⟨hi, hrun⟩ := getRandomType_entry hc
      have hentry : (types (weightedTypes P)).getD i 0 = (weightedTypes P)[i].type := by
        rw [List.getD_eq_getElem?_getD, types_getElem hi]
        rfl
      rw [hrun, hsome i hc, hentry]
      constructor
      · rintro ⟨-, h⟩
        simp only [nameFor_draws] at h
        have hz : i = 0 := by omega
        exact ⟨ρ.le_randMax n, congrArg some hz⟩
      · rintro ⟨-, h⟩
        cases h
        exact ⟨rfl, rfl⟩

/-- With a first draw of RAND_MAX the question is one for an A record, and 0 is returned. -/
theorem refactored_question_returns_zero :
    let ρ := (constantStream glibc (2 ^ 31 - 1) (by decide)).value
    let original := (MattblastMain.getQuestion glibc ρ initialName 12).run 0
    let refactored := (getQuestion glibc ρ initialName 12).run 0
    original.1.2 = typeA ∧ refactored.1.2 = 0 ∧ ¬ Agree original refactored := by
  refine ⟨rfl, rfl, ?_⟩
  intro h
  have htype : typeA = 0 := h.type
  exact absurd htype (by decide)

end MattblastFuncs
