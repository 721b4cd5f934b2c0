import DnsBlast.MattblastRate

/-! The packet budget of mattblast's throttled_receive. The product of the rate and the
nanoseconds since the start is taken on 64 bits: at high rates it wraps within the first
seconds, with the default rate at once, and the budget falls back. -/
namespace MattblastBudget

open WrappingIntegers LabelledRuns RateSchedules BlastHeader BlastQuery BlastSyscalls
  MattblastMain MattblastFirstPoll MattblastRate

structure Entry where
  now : ℕ
  maxPackets : ℕ
deriving DecidableEq

def entry : State → Event → Option Entry
  | (w, .wait (.throttle .now)), e => some ⟨e.time, budgetAt w e.time⟩
  | (w, .wait (.drain .now)), e => some ⟨e.time, budgetAt w e.time⟩
  | _, _ => none

/-- The number of packets due at `pps` packets a second since `begin`, or the largest
unsigned 64-bit value if that is smaller. -/
def Entry.Exact (pps begin : ℕ) (c : Entry) : Prop :=
  c.maxPackets = min (allowance 1000000000 pps (c.now - begin)) (2 ^ 64 - 1)

def Entry.Fits (pps begin : ℕ) (c : Entry) : Prop := pps * (c.now - begin) < 2 ^ 64

/-- The 64-bit product loses nothing exactly when it fits. -/
theorem maxPackets_exact_iff (pps elapsed : ℕ) :
    maxPackets pps elapsed = min (allowance 1000000000 pps elapsed) (2 ^ 64 - 1) ↔
      pps * elapsed < 2 ^ 64 := by
  rw [maxPackets, allowance]
  constructor
  · intro h
    by_contra hwide
    omega
  · intro hfits
    rw [Nat.mod_eq_of_lt hfits]
    omega

structure Entered (pps begin : ℕ) (s : State) (calls : List Entry) : Prop where
  startupDate : s.1.context.startupDate = begin
  rate : s.1.context.pps = pps
  representable : s.1.context.sentPackets < 2 ^ 64
  begun : begin ≤ s.1.time
  budget : ∀ c ∈ calls, c.maxPackets = maxPackets pps (c.now - begin)
  past : ∀ c ∈ calls, c.now ≤ s.1.time
  chronological : calls.Pairwise fun c d => c.now ≤ d.now

section Calls
variable {pps begin : ℕ} {s : State} {e : Event} {calls : List Entry}

theorem Entered.call (hs : Entered pps begin s calls) (he : Nondecreasing s e) {c : Entry}
    (hc : entry s e = some c) :
    c.now = e.time ∧ c.maxPackets = maxPackets pps (e.time - begin) := by
  have hstart : begin ≤ e.time := hs.begun.trans he.monotone
  have hbudget : budgetAt s.1 e.time = maxPackets pps (e.time - begin) := by
    rw [budgetAt, hs.startupDate, hs.rate, wrapSub_of_le hstart he.representable]
  unfold entry at hc
  split at hc
  · cases hc
    exact ⟨rfl, hbudget⟩
  · cases hc
    exact ⟨rfl, hbudget⟩
  · cases hc

theorem entered_step {P : Platform} {ρ : ℕ → ℕ} {t : State} (hs : Entered pps begin s calls)
    (he : Nondecreasing s e) (h : next P ρ s e = some t) :
    Entered pps begin t (calls ++ (entry s e).toList) := by
  obtain ⟨p, v, hp, hstep, ht⟩ := next_cases h
  obtain ⟨hstart, hrate, hsent⟩ := step_clock hs.representable hstep
  have htime : t.1.time = e.time := by rw [ht]
  have hmono : s.1.time ≤ t.1.time := htime ▸ he.monotone
  have hcall : ∀ c ∈ (entry s e).toList,
      c.now = e.time ∧ c.maxPackets = maxPackets pps (e.time - begin) := by
    intro c hc
    exact hs.call he (Option.mem_toList.mp hc)
  constructor
  · rw [ht]
    exact hstart.trans hs.startupDate
  · rw [ht]
    exact hrate.trans hs.rate
  · rw [ht]
    exact hsent
  · exact hs.begun.trans hmono
  · intro c hc
    rcases List.mem_append.mp hc with hc | hc
    · exact hs.budget c hc
    · rw [(hcall c hc).1]
      exact (hcall c hc).2
  · intro c hc
    rcases List.mem_append.mp hc with hc | hc
    · exact (hs.past c hc).trans hmono
    · rw [(hcall c hc).1, htime]
  · apply List.pairwise_append.mpr
    refine ⟨hs.chronological, ?_, ?_⟩
    · cases entry s e with
      | none => exact .nil
      | some c => exact List.pairwise_singleton _ c
    · intro c hc d hd
      rw [(hcall d hd).1]
      exact (hs.past c hc).trans he.monotone

end Calls

theorem execution_entered {P : Platform} {ρ : ℕ → ℕ} {a : Arguments} {begin : ℕ}
    {es : List Event} {s : State}
    (h : Execution (next P ρ) Nondecreasing (start a begin) es s) :
    Entered a.pps begin s (observe (next P ρ) entry (start a begin) es) := by
  apply h.observed
  · exact ⟨rfl, rfl, Nat.two_pow_pos 64, le_rfl, by simp, by simp, .nil⟩
  · intro s e t calls hs he hn
    exact entered_step hs he hn

/-- In a run with a clock that does not go back every budget is exact, and none is smaller
than one before it, exactly when every product fits into 64 bits. -/
theorem budgets_exact_iff {P : Platform} {ρ : RandStream P} {a : Arguments} {begin : ℕ}
    {es : List Event} {s : State}
    (h : Execution (next P ρ.value) Nondecreasing (start a begin) es s) :
    let calls := observe (next P ρ.value) entry (start a begin) es
    ((∀ c ∈ calls, c.Exact a.pps begin) ∧
        calls.Pairwise fun c d => c.maxPackets ≤ d.maxPackets) ↔
      ∀ c ∈ calls, c.Fits a.pps begin := by
  intro calls
  have hs : Entered a.pps begin s calls := execution_entered h
  have hexact : ∀ c ∈ calls, c.Exact a.pps begin ↔ c.Fits a.pps begin := by
    intro c hc
    rw [Entry.Exact, hs.budget c hc]
    exact maxPackets_exact_iff _ _
  constructor
  · rintro ⟨hall, -⟩ c hc
    exact (hexact c hc).mp (hall c hc)
  · intro hfits
    refine ⟨fun c hc => (hexact c hc).mpr (hfits c hc), ?_⟩
    apply hs.chronological.imp_of_mem
    intro c d hc hd hle
    rw [hs.budget c hc, hs.budget d hd, maxPackets_eq_allowance (hfits c hc),
      maxPackets_eq_allowance (hfits d hd)]
    exact allowance_mono (Nat.sub_le_sub_right hle begin)

/-- A sender of three a second calls throttled_receive 0.7 s after the start. -/
theorem budgets_exact_three_per_second : ∃ s,
    Execution (next glibc (constantStream glibc 0 (by decide)).value) Nondecreasing
      (start threePerSecond 0) [⟨0, .run⟩, ⟨0, .accepted⟩, ⟨700000000, .clock⟩] s ∧
    (∀ c ∈ [(⟨700000000, 2⟩ : Entry)], c.Exact 3 0) ∧
    [(⟨700000000, 2⟩ : Entry)].Pairwise fun c d => c.maxPackets ≤ d.maxPackets := by
  obtain ⟨s, h, hcalls⟩ : ∃ s,
      Execution (next glibc (constantStream glibc 0 (by decide)).value) Nondecreasing
        (start threePerSecond 0) [⟨0, .run⟩, ⟨0, .accepted⟩, ⟨700000000, .clock⟩] s ∧
      observe (next glibc (constantStream glibc 0 (by decide)).value) entry
        (start threePerSecond 0) [⟨0, .run⟩, ⟨0, .accepted⟩, ⟨700000000, .clock⟩] =
        [⟨700000000, 2⟩] :=
    ⟨_, runTrace_execution (.refl _) (nondecreasing_trace (by decide) (by decide)) rfl, rfl⟩
  refine ⟨s, h, ?_⟩
  rw [← hcalls]
  apply (budgets_exact_iff h).mpr
  intro c hc
  rw [hcalls] at hc
  cases List.mem_singleton.mp hc
  norm_num [Entry.Fits, threePerSecond]

/-- `mattblast HOST`. -/
def defaults : Arguments := ⟨2 ^ 64 - 1, 2 ^ 64 - 1, false, by decide, by decide, by decide⟩

/-- With the default rate the budget after a microsecond is a thousandth of what is due,
and one second after the start it is smaller still. -/
theorem default_budget_falls : ∃ es s,
    Execution (next glibc (constantStream glibc 0 (by decide)).value) Nondecreasing
      (start defaults 0) es s ∧
    observe (next glibc (constantStream glibc 0 (by decide)).value) entry (start defaults 0) es =
      [⟨1000, 18446744073⟩, ⟨1000000000, 18446744072⟩] ∧
    ¬ Entry.Exact defaults.pps 0 ⟨1000, 18446744073⟩ ∧
    ¬ [(⟨1000, 18446744073⟩ : Entry), ⟨1000000000, 18446744072⟩].Pairwise
      fun c d => c.maxPackets ≤ d.maxPackets := by
  refine ⟨[⟨0, .run⟩, ⟨0, .accepted⟩, ⟨1000, .clock⟩, ⟨1000, .nothing .EAGAIN⟩, ⟨1000, .clock⟩,
    ⟨1000, .timeout⟩, ⟨1000, .clock⟩, ⟨1000, .run⟩, ⟨1000, .accepted⟩, ⟨1000000000, .clock⟩], _,
    runTrace_execution (.refl _) (nondecreasing_trace (by decide) (by decide)) rfl, rfl, ?_,
    by decide⟩
  norm_num [Entry.Exact, allowance, defaults]

end MattblastBudget
