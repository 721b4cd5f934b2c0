import Mathlib.Data.List.Chain
import Mathlib.Algebra.Order.Floor.Defs

/-! An action that is due again some time after it was last taken. A caller asks at
times that do not go back; the answers are compared across periods and units of time. -/
namespace PeriodicActions

def decisions (period last : ℕ) : List ℕ → List Bool
  | [] => []
  | t :: ts =>
    if t - last < period then false :: decisions period last ts
    else true :: decisions period t ts

theorem decisions_skip {period last t : ℕ} {ts : List ℕ} (h : t - last < period) :
    decisions period last (t :: ts) = false :: decisions period last ts := if_pos h

theorem decisions_act {period last t : ℕ} {ts : List ℕ} (h : period ≤ t - last) :
    decisions period last (t :: ts) = true :: decisions period t ts := if_neg (not_lt.mpr h)

/-- On a clock with `k` ticks where another has one, a period of at most `k` ticks is over
as soon as the other clock moves. -/
theorem decisions_scaled {period k : ℕ} (hp : 0 < period) (hk : period ≤ k) (last : ℕ)
    (ts : List ℕ) :
    decisions period (k * last) (ts.map (k * ·)) = decisions 1 last ts := by
  induction ts generalizing last with
  | nil => rfl
  | cons t ts ih =>
    have hscale : k * t - k * last = k * (t - last) := (Nat.mul_sub k t last).symm
    rw [List.map_cons]
    by_cases hmoved : t - last < 1
    · have hzero : k * t - k * last = 0 := by
        rw [hscale, Nat.lt_one_iff.mp hmoved, Nat.mul_zero]
      rw [decisions_skip (hzero ▸ hp), decisions_skip hmoved, ih]
    · have hlate : period ≤ k * t - k * last := by
        rw [hscale]
        exact hk.trans (Nat.le_mul_of_pos_right k (by omega))
      rw [decisions_act hlate, decisions_act (not_lt.mp hmoved), ih]

def Spaced (period : ℕ) (times : List ℕ) : Prop :=
  times.IsChain fun a b => a = b ∨ a + period ≤ b

instance (period : ℕ) (times : List ℕ) : Decidable (Spaced period times) :=
  inferInstanceAs (Decidable (times.IsChain _))

/-- A period does the same as the shortest one exactly on times that it spaces. -/
theorem decisions_eq_shortest_iff {period last : ℕ} (hp : 0 < period) {ts : List ℕ}
    (h : (last :: ts).IsChain (· ≤ ·)) :
    decisions 1 last ts = decisions period last ts ↔ Spaced period (last :: ts) := by
  induction ts generalizing last with
  | nil => simp [decisions, Spaced]
  | cons t ts ih =>
    obtain ⟨hle, hrest⟩ := List.isChain_cons_cons.mp h
    rw [Spaced, List.isChain_cons_cons]
    by_cases hstill : t = last
    · subst hstill
      rw [decisions_skip (by omega), decisions_skip (by omega), List.cons.injEq]
      simp only [true_or, true_and]
      exact ih hrest
    · rw [decisions_act (show 1 ≤ t - last by omega)]
      by_cases hlate : period ≤ t - last
      · rw [decisions_act hlate, List.cons.injEq]
        simp only [show last = t ∨ last + period ≤ t from Or.inr (by omega), true_and]
        exact ih hrest
      · rw [decisions_skip (by omega)]
        apply iff_of_false
        · simp
        · rintro ⟨hgap, -⟩
          omega

section Callers
variable {σ τ : Type*}

/-- The decisions of a sequence of calls. Between two calls the state may change by `other`. -/
inductive Calls (call : σ → τ → σ → Bool → Prop) (other : σ → σ → Prop) :
    σ → List τ → List Bool → Prop where
  | nil (s) : Calls call other s [] []
  | cons {s t u c cs b bs} : call s c t b → other t u → Calls call other u cs bs →
      Calls call other s (c :: cs) (b :: bs)

/-- A caller keeps the time of its last action and acts when the period is over. `I` is
what it keeps besides, `time` the reading of a call, `ok` what is promised of a call. -/
structure Periodic (call : σ → τ → σ → Bool → Prop) (other : σ → σ → Prop) (period : ℕ)
    (last : σ → ℕ) (time : τ → ℕ) (I : σ → Prop) (ok : τ → Prop) : Prop where
  skips : ∀ s c t b, I s → ok c → last s ≤ time c → time c - last s < period → call s c t b →
    b = false ∧ last t = last s ∧ I t
  acts : ∀ s c t b, I s → ok c → last s ≤ time c → period ≤ time c - last s → call s c t b →
    b = true ∧ last t = time c ∧ I t
  returns : ∀ s c, I s → ok c → last s ≤ time c → ∃ t b, call s c t b
  others : ∀ s t, other s t → last t = last s ∧ (I s → I t)
  still : ∀ s, other s s

variable {call : σ → τ → σ → Bool → Prop} {other : σ → σ → Prop} {period : ℕ} {last : σ → ℕ}
  {time : τ → ℕ} {I : σ → Prop} {ok : τ → Prop}

/-- Every call returns, and the decisions are those of the period. -/
theorem Periodic.decisions (h : Periodic call other period last time I ok) {s : σ} (hs : I s)
    {cs : List τ} (hok : ∀ c ∈ cs, ok c) (hchain : (last s :: cs.map time).IsChain (· ≤ ·)) :
    (∃ bs, Calls call other s cs bs) ∧
      ∀ bs, Calls call other s cs bs →
        bs = PeriodicActions.decisions period (last s) (cs.map time) := by
  induction cs generalizing s with
  | nil =>
    refine ⟨⟨[], .nil s⟩, ?_⟩
    intro bs hbs
    cases hbs
    rfl
  | cons c cs ih =>
    obtain ⟨hle, hrest⟩ := List.isChain_cons_cons.mp hchain
    have hc := hok c List.mem_cons_self
    have hcs : ∀ d ∈ cs, ok d := fun d hd => hok d (List.mem_cons_of_mem c hd)
    -- the next call is as late as this one, whether this one acts or not
    have hnext : ∀ {t b}, call s c t b → I t ∧ (last t :: cs.map time).IsChain (· ≤ ·) := by
      intro t b ht
      by_cases hdue : period ≤ time c - last s
      · obtain ⟨-, hlast, hi⟩ := h.acts s c t b hs hc hle hdue ht
        rw [hlast]
        exact ⟨hi, hrest⟩
      · obtain ⟨-, hlast, hi⟩ := h.skips s c t b hs hc hle (by omega) ht
        rw [hlast]
        exact ⟨hi, hrest.imp_head fun hx => hle.trans hx⟩
    constructor
    · obtain ⟨t, b, ht⟩ := h.returns s c hs hc hle
      obtain ⟨hi, hchain'⟩ := hnext ht
      obtain ⟨bs, hbs⟩ := (ih hi hcs hchain').1
      exact ⟨b :: bs, .cons ht (h.still t) hbs⟩
    · intro bs hbs
      cases hbs with
      | @cons _ t u _ _ b bs ht hu hbs =>
        obtain ⟨hi, hchain'⟩ := hnext ht
        obtain ⟨hsame, hkeep⟩ := h.others t u hu
        have hrest := (ih (hkeep hi) hcs (hsame ▸ hchain')).2 bs hbs
        rw [List.map_cons]
        by_cases hdue : period ≤ time c - last s
        · obtain ⟨rfl, hlast, -⟩ := h.acts s c t b hs hc hle hdue ht
          rw [decisions_act hdue, hrest, hsame, hlast]
        · obtain ⟨rfl, hlast, -⟩ := h.skips s c t b hs hc hle (by omega) ht
          rw [decisions_skip (by omega), hrest, hsame, hlast]

end Callers

end PeriodicActions
