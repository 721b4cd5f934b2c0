import DnsBlast.BlastQuestion
import DnsBlast.WeightedDraws

/-! The weighted choice of get_random_type, counted over all first draws. -/
namespace BlastTypeChoice

open BlastHeader BlastQuestion WeightedDraws

def weights (table : List WeightedType) : List ℕ := table.map WeightedType.weight

def types (table : List WeightedType) : List ℕ := table.map WeightedType.type

def posValues (rnd : ℕ) (pos : ℤ) : List WeightedType → List ℤ
  | [] => []
  | t :: ts =>
    let pos := pos - t.weight
    if (rnd : ℤ) > pos then [pos] else pos :: posValues rnd pos ts

theorem posValues_eq (rnd : ℕ) (pos : ℤ) (table : List WeightedType) :
    posValues rnd pos table = thresholds rnd pos (weights table) := by
  induction table generalizing pos with
  | nil => rfl
  | cons t ts ih =>
    have hcons : weights (t :: ts) = t.weight :: weights ts := rfl
    rw [posValues, ih, hcons, thresholds]

theorem weightedChoice_eq (rnd : ℕ) (pos : ℤ) (table : List WeightedType) :
    weightedChoice rnd pos table =
      (chosen rnd pos (weights table)).bind fun i => (types table)[i]? := by
  induction table generalizing pos with
  | nil => rfl
  | cons t ts ih =>
    have hcons : weights (t :: ts) = t.weight :: weights ts := rfl
    rw [weightedChoice, ih, hcons, chosen]
    by_cases hd : (rnd : ℤ) > pos - t.weight
    · rw [if_pos hd, if_pos hd]
      rfl
    · rw [if_neg hd, if_neg hd, Option.bind_map]
      rfl

/-- What makes the loop of get_random_type an exact weighted choice: entry `i` returns its
type for exactly `weight` draws, and the rest falls through. -/
structure ExactChoice (M : ℕ) (table : List WeightedType) : Prop where
  pos_nonneg : ∀ rnd, ∀ pos ∈ posValues rnd M table, 0 ≤ pos
  returns : ∀ i (hi : i < table.length), ∀ rnd ∈ drawsOf M (weights table) (some i),
    weightedChoice rnd M table = some table[i].type
  count : ∀ i (hi : i < table.length),
    (drawsOf M (weights table) (some i)).card = table[i].weight
  disjoint : ∀ i j, i ≠ j →
    Disjoint (drawsOf M (weights table) (some i)) (drawsOf M (weights table) (some j))
  falls : ∀ rnd ≤ M, rnd ∈ drawsOf M (weights table) none ↔ weightedChoice rnd M table = none
  rest : (drawsOf M (weights table) none).card = M + 1 - (weights table).sum

theorem types_getElem {table : List WeightedType} {i : ℕ} (hi : i < table.length) :
    (types table)[i]? = some table[i].type := by
  rw [types, List.getElem?_map, List.getElem?_eq_getElem hi, Option.map_some]

theorem exactChoice {M : ℕ} {table : List WeightedType} (h : (weights table).sum ≤ M) :
    ExactChoice M table := by
  have hlength : (weights table).length = table.length := List.length_map _
  constructor
  · intro rnd pos hpos
    rw [posValues_eq] at hpos
    have := thresholds_bounds rnd M (weights table) pos hpos
    omega
  · intro i hi rnd hrnd
    rw [weightedChoice_eq, (mem_drawsOf.mp hrnd).2, Option.bind_some, types_getElem hi]
  · intro i hi
    rw [card_drawsOf_some h (hlength ▸ hi)]
    exact List.getElem_map _
  · intro i j hij
    apply drawsOf_disjoint
    simpa using hij
  · intro rnd hrnd
    rw [mem_drawsOf, weightedChoice_eq]
    constructor
    · rintro ⟨-, hc⟩
      rw [hc]
      rfl
    · intro hn
      refine ⟨hrnd, ?_⟩
      cases hc : chosen rnd M (weights table) with
      | none => rfl
      | some i =>
        have hi := ((chosen_eq_some (by omega) i).mp hc).1
        rw [hc, Option.bind_some, types_getElem (hlength ▸ hi)] at hn
        cases hn
  · exact card_drawsOf_none h

theorem weightedTypes_sum (P : Platform) : (weights (weightedTypes P)).sum ≤ P.randMax := by
  simp only [weights, weightedTypes, List.map_cons, List.map_nil, List.sum_cons, List.sum_nil]
  omega

theorem entry_eq_of_type {P : Platform} {i j : ℕ} {hi : i < (weightedTypes P).length}
    {hj : j < (weightedTypes P).length}
    (h : (weightedTypes P)[i].type = (weightedTypes P)[j].type) : i = j := by
  have hnodup : (types (weightedTypes P)).Nodup := by
    have hq : queryTypes.Nodup := by decide
    rwa [← weightedTypes_type P] at hq
  have hl : (types (weightedTypes P)).length = (weightedTypes P).length := List.length_map _
  apply (@List.Nodup.getElem_inj_iff _ _ hnodup i (hl ▸ hi) j (hl ▸ hj)).mp
  simpa [types] using h

/-- A draw that chooses an entry is the only one, and its type is returned. -/
theorem getRandomType_entry {P : Platform} {ρ : ℕ → ℕ} {n i : ℕ}
    (hc : chosen (ρ n) P.randMax (weights (weightedTypes P)) = some i) :
    ∃ hi : i < (weightedTypes P).length,
      (getRandomType P ρ).run n = ((weightedTypes P)[i].type, n + 1) := by
  have hi : i < (weightedTypes P).length := chosen_lt hc
  refine ⟨hi, ?_⟩
  rw [getRandomType_run, weightedChoice_eq, hc, Option.bind_some, types_getElem hi]

/-- A draw that chooses none is followed by a second one for a uniform choice. -/
theorem getRandomType_fallback {P : Platform} {ρ : ℕ → ℕ} {n : ℕ}
    (hc : chosen (ρ n) P.randMax (weights (weightedTypes P)) = none) :
    (getRandomType P ρ).run n =
      ((types (weightedTypes P)).getD (ρ (n + 1) % (weightedTypes P).length) 0, n + 2) := by
  rw [getRandomType_run, weightedChoice_eq, hc]
  rfl

/-- The draws that make get_random_type return an entry's type at once are as many as its
weight, for its own table and for any other that fits below RAND_MAX. -/
theorem getRandomType_exact :
    (∀ (M : ℕ) (table : List WeightedType), (weights table).sum ≤ M → ExactChoice M table) ∧
    ∀ P : Platform, ExactChoice P.randMax (weightedTypes P) ∧ ∀ (ρ : RandStream P) (n : ℕ),
      (∀ i (hi : i < (weightedTypes P).length),
        (getRandomType P ρ.value).run n = ((weightedTypes P)[i].type, n + 1) ↔
          ρ.value n ∈ drawsOf P.randMax (weights (weightedTypes P)) (some i)) ∧
      ((getRandomType P ρ.value).run n =
          ((types (weightedTypes P)).getD (ρ.value (n + 1) % (weightedTypes P).length) 0, n + 2) ↔
        ρ.value n ∈ drawsOf P.randMax (weights (weightedTypes P)) none) := by
  constructor
  · intro M table h
    exact exactChoice h
  · intro P
    refine ⟨exactChoice (weightedTypes_sum P), ?_⟩
    intro ρ n
    simp only [mem_drawsOf, ρ.le_randMax n, true_and]
    cases hc : chosen (ρ.value n) P.randMax (weights (weightedTypes P)) with
    | none =>
      rw [getRandomType_fallback hc]
      refine ⟨?_, iff_of_true rfl rfl⟩
      intro i hi
      apply iff_of_false
      · intro h
        exact absurd (congrArg Prod.snd h) (Nat.succ_ne_self _)
      · intro h
        cases h
    | some j =>
      obtain ⟨hj, hrun⟩ := getRandomType_entry hc
      rw [hrun]
      constructor
      · intro i hi
        constructor
        · intro h
          exact congrArg some (entry_eq_of_type (congrArg Prod.fst h))
        · intro h
          cases h
          rfl
      · apply iff_of_false
        · intro h
          exact absurd (congrArg Prod.snd h) (Nat.succ_ne_self _).symm
        · intro h
          cases h

/-- Two entries and five draws: 4 chooses the first, 2 and 3 the second, 0 and 1 none. -/
theorem getRandomType_exact_of_five :
    ((drawsOf 4 (weights [⟨1, typeA⟩, ⟨2, typePTR⟩]) (some 1)).card = 2) :=
  (getRandomType_exact.1 4 [⟨1, typeA⟩, ⟨2, typePTR⟩] (by decide)).count 1 (by decide)

end BlastTypeChoice
