import Mathlib.Data.List.Basic
import Mathlib.Logic.Relation

/-! Deterministic systems driven by events. `next s e` is the state after the
environment answers `e`, or `none` when `s` does not wait for `e`; `ok s e` is what
the environment promises about its answers. Runs are finite, of any length. -/
namespace LabelledRuns

variable {σ ε α : Type*} {next : σ → ε → Option σ} {ok ok' : σ → ε → Prop}

/-- A run from `s`: the list of answers consumed, oldest first, and the state reached. -/
inductive Execution (next : σ → ε → Option σ) (ok : σ → ε → Prop) : σ → List ε → σ → Prop where
  | refl (s) : Execution next ok s [] s
  | tail {s t u es e} : Execution next ok s es t → ok t e → next t e = some u →
      Execution next ok s (es ++ [e]) u

def Free (_ : σ) (_ : ε) : Prop := True

theorem Execution.weaken (hok : ∀ s e, ok s e → ok' s e) {s t : σ} {es : List ε}
    (h : Execution next ok s es t) : Execution next ok' s es t := by
  induction h with
  | refl => exact .refl _
  | tail _ he hn ih => exact .tail ih (hok _ _ he) hn

/-- What holds at the start and is kept by every permitted step holds in every state reached. -/
theorem Execution.invariant {I : σ → Prop} {s t : σ} {es : List ε}
    (h : Execution next ok s es t) (start : I s)
    (step : ∀ s e t, I s → ok s e → next s e = some t → I t) : I t := by
  induction h with
  | refl => exact start
  | tail _ he hn ih => exact step _ _ _ ih he hn

/-- Forward simulation with stuttering: each step is matched by at most one abstract step. -/
theorem Execution.simulates {A : α → α → Prop} {R : σ → α → Prop} {s t : σ} {a : α}
    {es : List ε} (h : Execution next ok s es t) (start : R s a)
    (step : ∀ s e t a, R s a → ok s e → next s e = some t →
      R t a ∨ ∃ b, A a b ∧ R t b) :
    ∃ b, Relation.ReflTransGen A a b ∧ R t b := by
  induction h with
  | refl => exact ⟨a, .refl, start⟩
  | tail _ he hn ih =>
    obtain ⟨b, hab, hb⟩ := ih
    rcases step _ _ _ b hb he hn with hr | ⟨c, hbc, hc⟩
    · exact ⟨b, hab, hr⟩
    · exact ⟨c, hab.tail hbc, hc⟩

theorem Execution.trans {s t u : σ} {es fs : List ε} (h : Execution next ok s es t)
    (k : Execution next ok t fs u) : Execution next ok s (es ++ fs) u := by
  induction k with
  | refl => simpa using h
  | tail _ he hn ih =>
    rw [← List.append_assoc]
    exact ih.tail he hn

def observe (next : σ → ε → Option σ) (note : σ → ε → Option α) (s : σ) : List ε → List α
  | [] => []
  | e :: es => (note s e).toList ++ ((next s e).map fun t => observe next note t es).getD []

section Observed
variable {note : σ → ε → Option α} {s t : σ} {es : List ε}

theorem observe_single {e : ε} (h : next s e = some t) :
    observe next note s [e] = (note s e).toList := by
  rw [observe, h]
  exact List.append_nil _

theorem Execution.observe_append (h : Execution next ok s es t) (fs : List ε) :
    observe next note s (es ++ fs) = observe next note s es ++ observe next note t fs := by
  induction h generalizing fs with
  | refl => rfl
  | @tail t u es e _ _ hn ih =>
    have hone : ∀ gs, observe next note t (e :: gs) =
        (note t e).toList ++ observe next note u gs := by
      intro gs
      rw [observe, hn]
      rfl
    rw [List.append_assoc, List.singleton_append, ih, ih [e], hone, hone, observe,
      List.append_nil, List.append_assoc]

/-- What holds at the start of nothing noted, and is kept while the notes grow step by
step, holds in every state reached, of the notes up to it. -/
theorem Execution.observed {I : σ → List α → Prop} (h : Execution next ok s es t) (start : I s [])
    (step : ∀ s e t l, I s l → ok s e → next s e = some t → I t (l ++ (note s e).toList)) :
    I t (observe next note s es) := by
  induction h with
  | refl => exact start
  | @tail t u es e h he hn ih =>
    rw [h.observe_append, observe_single hn]
    exact step _ _ _ _ ih he hn

end Observed

def runTrace (next : σ → ε → Option σ) (s : σ) : List ε → Option σ
  | [] => some s
  | e :: es => (next s e).bind fun t => runTrace next t es

def ValidTrace (next : σ → ε → Option σ) (ok : σ → ε → Prop) (s : σ) : List ε → Prop
  | [] => True
  | e :: es => ok s e ∧ ∀ t, next s e = some t → ValidTrace next ok t es

theorem runTrace_execution {s t u : σ} {es fs : List ε} (h : Execution next ok s es t)
    (hv : ValidTrace next ok t fs) (hr : runTrace next t fs = some u) :
    Execution next ok s (es ++ fs) u := by
  induction fs generalizing t es with
  | nil =>
    cases hr
    simpa using h
  | cons e fs ih =>
    obtain ⟨v, hn, hr⟩ := Option.bind_eq_some_iff.mp hr
    simpa using ih (h.tail hv.1 hn) (hv.2 v hn) hr

theorem free_trace_execution {s t : σ} {es : List ε} (hr : runTrace next s es = some t) :
    Execution next Free s es t := by
  have hv : ∀ (fs : List ε) (u : σ), ValidTrace next Free u fs := by
    intro fs
    induction fs with
    | nil => intro u; trivial
    | cons e fs ih => intro u; exact ⟨trivial, fun t _ => ih t⟩
  simpa using runTrace_execution (.refl s) (hv es s) hr

end LabelledRuns
