import DnsBlast.LabelledRuns

/-! How long a run can be. A potential pays for every step; answers of a marked kind and
observed steps may raise it. -/
namespace AmortizedRuns

open LabelledRuns

variable {σ ε α : Type*} {next : σ → ε → Option σ} {ok : σ → ε → Prop}

section Bound
variable {s t : σ} {es : List ε} (Φ : σ → ℕ) (marked : ε → Bool) (note : σ → ε → Option α)
  (b c : ℕ)

/-- When each step takes one from the potential, a marked answer adds at most `b` to it and an
observed step at most `c`, then these and the first potential bound the number of steps. -/
theorem length_le (h : Execution next ok s es t)
    (step : ∀ es t e u, Execution next ok s es t → ok t e → next t e = some u →
      Φ u + 1 ≤ Φ t + (if marked e then b else 0) + c * (note t e).toList.length) :
    es.length + Φ t ≤ Φ s + b * es.countP marked + c * (observe next note s es).length := by
  induction h with
  | refl => simp [observe]
  | @tail t u es e h he hn ih =>
    have hone := step es t e u h he hn
    have hnotes : observe next note t [e] = (note t e).toList := by
      simp [observe, hn]
    have hmarked : b * (es ++ [e]).countP marked =
        b * es.countP marked + if marked e then b else 0 := by
      rw [List.countP_append, List.countP_singleton, Nat.mul_add]
      split <;> simp
    rw [h.observe_append, hnotes, List.length_append, List.length_append, List.length_singleton,
      hmarked, Nat.mul_add]
    omega

end Bound

end AmortizedRuns
