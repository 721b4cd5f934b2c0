import DnsBlast.RateSchedules
import DnsBlast.MattblastMain

/-! The timeout of the first poll of mattblast's throttled_receive. Behind schedule the
unsigned excess wraps to just under 2^64; whether the quotient by pps, times 1000, cut to
an int, is negative (and then clamped to 0) or a wait of days is a matter of arithmetic. -/
namespace MattblastFirstPoll

open WrappingIntegers LabelledRuns RateSchedules BlastHeader BlastQuery BlastSyscalls
  MattblastMain

def BeforePoll (s : State) (_ : Event) : Prop :=
  ∀ now timeout, s.2 ≠ .wait (.throttle (.poll now timeout))

/-- `timeout` milliseconds is no longer than a sender of `sent` packets is ahead of a
schedule of `max` packets at `pps` packets a second. -/
def NotOverlong (sent max pps : ℕ) (timeout : ℤ) : Prop :=
  (sent ≤ max → timeout = 0) ∧
  (max < sent → 1000 * (sent - max) / pps < 2 ^ 31 → timeout ≤ (1000 * (sent - max) / pps : ℕ))

/-- The product of a sender that is `max - sent` packets behind, cut to 32 bits. -/
def wrappedWait (sent max pps : ℕ) : ℕ := (2 ^ 64 - (max - sent)) / pps * 1000 % 2 ^ 32

theorem maxPackets_eq_allowance {pps elapsed : ℕ} (h : pps * elapsed < 2 ^ 64) :
    maxPackets pps elapsed = allowance 1000000000 pps elapsed := by
  rw [maxPackets, Nat.mod_eq_of_lt h, allowance]

theorem clamp_eq_max (x : ℤ) : (if x < 0 then 0 else x) = max 0 x := by
  split_ifs with h
  · rw [max_eq_left h.le]
  · rw [max_eq_right (not_lt.mp h)]

theorem firstTimeout_eq {c : Context} (hs : c.sending = true) (hpps : 0 < c.pps) (budget : ℕ) :
    firstTimeout c budget =
      some (max 0 (toSigned 32 (wrapSub 64 c.sentPackets budget / c.pps * 1000 : ℕ))) := by
  have hcut : ∀ x : ℕ, toSigned 32 ((x % 2 ^ 64 : ℕ) : ℤ) = toSigned 32 x := by
    intro x
    have hcast : ((x % 2 ^ 64 : ℕ) : ℤ) = (x : ℤ) % 2 ^ 64 := by norm_cast
    rw [hcast, toSigned_emod (by decide)]
  simp only [firstTimeout, if_neg hpps.ne', hs, Bool.not_true, Bool.false_eq_true, if_false, hcut]
  rw [← clamp_eq_max]
  split_ifs <;> rfl

/-- Ahead of schedule the wait is the whole seconds of the excess. -/
theorem firstTimeout_ahead {c : Context} (hs : c.sending = true) (hpps : 0 < c.pps) {budget : ℕ}
    (hsent : c.sentPackets < 2 ^ 64) (hb : budget ≤ c.sentPackets)
    (hfit : (c.sentPackets - budget) / c.pps * 1000 < 2 ^ 31) :
    firstTimeout c budget = some (((c.sentPackets - budget) / c.pps * 1000 : ℕ) : ℤ) := by
  rw [firstTimeout_eq hs hpps, wrapSub_of_le hb hsent, toSigned_of_range]
  · rw [max_eq_right (Int.natCast_nonneg _)]
  · exact le_trans (by decide) (Int.natCast_nonneg _)
  · exact_mod_cast hfit

theorem notOverlong_firstTimeout_iff {c : Context} (hs : c.sending = true) (hpps : 0 < c.pps)
    (hsent : c.sentPackets < 2 ^ 64) {budget : ℕ} (hb : budget < 2 ^ 64) {timeout : ℤ}
    (ht : firstTimeout c budget = some timeout) :
    NotOverlong c.sentPackets budget c.pps timeout ↔ budget ≤ c.sentPackets ∨
      wrappedWait c.sentPackets budget c.pps = 0 ∨
      2 ^ 31 ≤ wrappedWait c.sentPackets budget c.pps := by
  by_cases hle : budget ≤ c.sentPackets
  · refine ⟨fun _ => Or.inl hle, fun _ => ?_⟩
    constructor
    · intro heq
      have hzero : c.sentPackets - budget = 0 := by omega
      rw [firstTimeout_ahead hs hpps hsent hle (by simp [hzero]), hzero, Nat.zero_div] at ht
      exact (Option.some.inj ht).symm
    · intro _ hfit
      have hbound : (c.sentPackets - budget) / c.pps * 1000 ≤
          1000 * (c.sentPackets - budget) / c.pps := by
        rw [Nat.le_div_iff_mul_le hpps, Nat.mul_right_comm, Nat.mul_comm 1000]
        exact Nat.mul_le_mul_right _ (Nat.div_mul_le_self _ _)
      rw [firstTimeout_ahead hs hpps hsent hle (lt_of_le_of_lt hbound hfit)] at ht
      rw [← Option.some.inj ht]
      exact_mod_cast hbound
  · have hlt : c.sentPackets < budget := not_le.mp hle
    have hwrap : wrapSub 64 c.sentPackets budget = 2 ^ 64 - (budget - c.sentPackets) :=
      wrapSub_of_lt hlt hb.le
    rw [firstTimeout_eq hs hpps, hwrap] at ht
    have hiff := @toSigned_nonpos_iff 31 ((2 ^ 64 - (budget - c.sentPackets)) / c.pps * 1000)
    rw [← Option.some.inj ht, NotOverlong]
    constructor
    · intro h
      exact Or.inr (hiff.mp (max_eq_left_iff.mp (h.1 hlt.le)))
    · rintro (h | h)
      · exact absurd h hle
      · exact ⟨fun _ => max_eq_left (hiff.mpr h), fun h => absurd hlt (not_lt.mpr h.le)⟩

theorem firstTimeout_congr {u w : World} (h : u.pace = w.pace) (budget : ℕ) :
    firstTimeout u.context budget = firstTimeout w.context budget := by
  simp only [World.pace, Pace.mk.injEq] at h
  obtain ⟨-, hpps, hsent, -, hsending, -⟩ := h
  simp only [firstTimeout, hpps, hsent, hsending]

def budgetAt (w : World) (now : ℕ) : ℕ :=
  maxPackets w.context.pps (wrapSub 64 now w.context.startupDate)

def OnTheWay (w v : World) : Outcome ThrottlePos ℕ → Prop
  | .wait .now => v.pace = w.pace
  | .wait (.first _ now max) => v.pace = w.pace ∧ max = budgetAt w now
  | .wait (.poll now timeout) => firstTimeout w.context (budgetAt w now) = some timeout
  | .stop _ => True
  | _ => False

theorem onTheWay_beginPoll {u v w : World} {now max : ℕ} (hu : u.pace = w.pace)
    (hmax : max = budgetAt w now) : OnTheWay w v (beginPoll now max u).2 := by
  rcases beginPoll_cases now max u with ⟨timeout, ht, hpoll⟩ | ⟨-, hstop⟩
  · rw [hpoll]
    rwa [firstTimeout_congr hu, hmax] at ht
  · rw [hstop]
    trivial

theorem throttledReceive_onTheWay {P : Platform} {u v w : World} {q : ThrottlePos} {e : Event}
    {c : Outcome ThrottlePos ℕ} (hu : OnTheWay w u (.wait q))
    (hq : ∀ now timeout, q ≠ .poll now timeout) (h : throttledReceive P u q e = some (v, c)) :
    OnTheWay w v c := by
  have hbudget : ∀ now, u.pace = w.pace → budgetAt u now = budgetAt w now := by
    intro now hpace
    have hpps : u.context.pps = w.context.pps := congrArg Pace.pps hpace
    have hstart : u.context.startupDate = w.context.startupDate :=
      congrArg Pace.startupDate hpace
    rw [budgetAt, hpps, hstart, budgetAt]
  cases throttledReceive_step h with
  | behind hmax hd => exact ⟨hu, hmax.symm.trans (hbudget _ hu)⟩
  | ahead hmax hd => exact onTheWay_beginPoll hu (hmax.symm.trans (hbudget _ hu))
  | @first _ _ _ d now max hr =>
    obtain ⟨hpace, hmax⟩ := hu
    have hpace' := (emptyReceiveQueue_quiet hr).pace.trans hpace
    cases d with
    | wait r => exact ⟨hpace', hmax⟩
    | ret r => exact onTheWay_beginPoll hpace' hmax
    | stop k => trivial
  | timeout time now remainingTime => exact absurd rfl (hq now remainingTime)
  | ready time now remainingTime => exact absurd rfl (hq now remainingTime)
  | interrupted time now remainingTime => exact absurd rfl (hq now remainingTime)
  | failure time now remainingTime => exact absurd rfl (hq now remainingTime)
  | _ => cases hu

def Entering (w : World) (s : State) : Prop :=
  (∃ q, s.2 = .wait (.throttle q) ∧ OnTheWay w s.1 (.wait q)) ∨ ∃ k, s.2 = .stop k

theorem entering_step {P : Platform} {ρ : ℕ → ℕ} {w : World} {s t : State} {e : Event}
    (hs : Entering w s) (he : BeforePoll s e) (h : next P ρ s e = some t) : Entering w t := by
  obtain ⟨u, c⟩ := s
  obtain ⟨x, d⟩ := t
  obtain ⟨p, v, hp, hstep, hx⟩ := next_cases h
  cases hp
  cases hx
  rcases hs with ⟨q, hq, hway⟩ | ⟨k, hk⟩
  · cases hq
    have hnot : ∀ now timeout, q ≠ .poll now timeout := fun now timeout hq =>
      he now timeout (by rw [hq])
    have hway' : ∀ {v' c}, throttledReceive P u q e = some (v', c) → OnTheWay w v' c :=
      throttledReceive_onTheWay hway hnot
    cases hstep with
    | @throttle _ _ _ r ht =>
      refine Or.inl ⟨r, rfl, ?_⟩
      have hr := hway' ht
      cases r <;> exact hr
    | iterate ht => cases hway' ht
    | abort ht => exact Or.inr ⟨_, rfl⟩
    | noTime hp hv => rcases hp with hp | hp <;> cases hp
  · cases hk

/-- Any call of throttled_receive in the sending phase: its first poll waits no longer than
the sender is ahead exactly when the sender is not behind, or its wrapped product is zero
or negative as an int. -/
theorem first_poll_not_overlong_iff {P : Platform} {ρ : RandStream P} {w v : World}
    (hs : w.context.sending = true) (hpps : 1 ≤ w.context.pps)
    (hsent : w.context.sentPackets < 2 ^ 64) {es : List Event} {now : ℕ} {timeout : ℤ}
    (h : Execution (next P ρ.value) BeforePoll (w, .wait (.throttle .now)) es
      (v, .wait (.throttle (.poll now timeout))))
    (hbudget : w.context.pps * wrapSub 64 now w.context.startupDate < 2 ^ 64) :
    let max := allowance 1000000000 w.context.pps (wrapSub 64 now w.context.startupDate)
    NotOverlong w.context.sentPackets max w.context.pps timeout ↔
      max ≤ w.context.sentPackets ∨
      wrappedWait w.context.sentPackets max w.context.pps = 0 ∨
      2 ^ 31 ≤ wrappedWait w.context.sentPackets max w.context.pps := by
  have hentering : Entering w (v, .wait (.throttle (.poll now timeout))) :=
    h.invariant (Or.inl ⟨.now, rfl, rfl⟩) fun _ _ _ hi he hn => entering_step hi he hn
  rcases hentering with ⟨q, hq, hway⟩ | ⟨k, hk⟩
  · cases hq
    have ht : firstTimeout w.context (budgetAt w now) = some timeout := hway
    rw [budgetAt, maxPackets_eq_allowance hbudget] at ht
    exact notOverlong_firstTimeout_iff hs hpps hsent
      (lt_of_le_of_lt (Nat.div_le_self _ _) hbudget) ht
  · cases hk

/-- A sender of three a second that has sent one packet after 0.7 s, and gets no reply. -/
theorem one_packet_behind (ρ : ℕ → ℕ) {w : World} (hs : w.context.sending = true)
    (hpps : w.context.pps = 3) (hsent : w.context.sentPackets = 1)
    (hstart : w.context.startupDate = 0) (hstatus : w.context.lastStatusUpdate = 0) :
    ∃ v, Execution (next glibc ρ) BeforePoll (w, .wait (.throttle .now))
      [⟨700000000, .clock⟩, ⟨700000000, .nothing .EAGAIN⟩, ⟨700000000, .clock⟩,
        ⟨700000000, .clock⟩] (v, .wait (.throttle (.poll 700000000 1431655432))) := by
  let now := 700000000
  have helapsed : wrapSub 64 now 0 = now := by decide
  have hbudget : maxPackets 3 now = 2 := by decide
  have htimeout : ∀ u : World, u.pace = w.pace → firstTimeout u.context 2 = some 1431655432 := by
    intro u hu
    have hexcess : wrapSub 64 1 2 = 2 ^ 64 - 1 := by decide
    have hcut : toSigned 32 ((2 ^ 64 - 1) / 3 * 1000 % 2 ^ 64 : ℕ) = 1431655432 := by decide
    rw [firstTimeout_congr hu]
    simp only [firstTimeout, hpps, hsent, hs, hexcess, hcut]
    decide
  let u : World := { w with time := now }
  have henter : next glibc ρ (w, .wait (.throttle .now)) ⟨now, .clock⟩ =
      some (u, .wait (.throttle (.first .receive now 2))) := by
    simp [next, main, throttledReceive, call, hs, hpps, hsent, hstart, helapsed, hbudget, u]
  have hempty : next glibc ρ (u, .wait (.throttle (.first .receive now 2)))
      ⟨now, .nothing .EAGAIN⟩ = some (u, .wait (.throttle (.first (.status .now) now 2))) := rfl
  have hlate : updateStatusPeriod ≤ wrapSub 64 now u.context.lastStatusUpdate := by
    rw [show u.context.lastStatusUpdate = 0 from hstatus, helapsed]
    decide
  have hdue : next glibc ρ (u, .wait (.throttle (.first (.status .now) now 2))) ⟨now, .clock⟩ =
      some (u, .wait (.throttle (.first (.status (.update now)) now 2))) := by
    simp [next, main, throttledReceive, emptyReceiveQueue_due hlate, call, u]
  have hne : wrapSub 64 now u.context.startupDate ≠ 0 := by
    rw [show u.context.startupDate = 0 from hstart, helapsed]
    decide
  obtain ⟨v, hv, hpace, -⟩ := emptyReceiveQueue_done glibc hne
  have hpoll : next glibc ρ (u, .wait (.throttle (.first (.status (.update now)) now 2)))
      ⟨now, .clock⟩ = some ({ v with time := now }, .wait (.throttle (.poll now 1431655432))) := by
    simp [next, main, throttledReceive, call, hv, beginPoll, htimeout v hpace]
  refine ⟨_, ((((Execution.refl _).tail ?_ henter).tail ?_ hempty).tail ?_ hdue).tail ?_ hpoll⟩
  all_goals
    intro n timeout h
    cases h

def threePerSecond : Arguments := ⟨3, 3, false, by decide, by decide, by decide⟩

/-- Real runs get there: behind schedule by one packet, the process sleeps for 16 days. -/
theorem behind_schedule_sleeps : ∃ es w fs v now timeout,
    Execution (next glibc (constantStream glibc 0 (by decide)).value) Free
      (start threePerSecond 0) es (w, .wait (.throttle .now)) ∧
    w.context.sending = true ∧ 1 ≤ w.context.pps ∧ w.context.sentPackets < 2 ^ 64 ∧
    Execution (next glibc (constantStream glibc 0 (by decide)).value) BeforePoll
      (w, .wait (.throttle .now)) fs (v, .wait (.throttle (.poll now timeout))) ∧
    w.context.pps * wrapSub 64 now w.context.startupDate < 2 ^ 64 ∧
    ¬ NotOverlong w.context.sentPackets
      (allowance 1000000000 w.context.pps (wrapSub 64 now w.context.startupDate))
      w.context.pps timeout := by
  let ρ := constantStream glibc 0 (by decide)
  obtain ⟨w, hsend, hs, hpps, hsent, hstart, hstatus⟩ : ∃ w,
      Execution (next glibc ρ.value) Free (start threePerSecond 0) [⟨0, .run⟩, ⟨0, .accepted⟩]
        (w, .wait (.throttle .now)) ∧
      w.context.sending = true ∧ w.context.pps = 3 ∧ w.context.sentPackets = 1 ∧
      w.context.startupDate = 0 ∧ w.context.lastStatusUpdate = 0 :=
    ⟨_, free_trace_execution rfl, rfl, rfl, rfl, rfl, rfl⟩
  obtain ⟨v, hpoll⟩ := one_packet_behind ρ.value hs hpps hsent hstart hstatus
  have helapsed : wrapSub 64 700000000 w.context.startupDate = 700000000 := by
    rw [hstart]
    decide
  refine ⟨_, w, _, v, _, _, hsend, hs, by simp [hpps], by simp [hsent], hpoll, ?_, ?_⟩
  · rw [hpps, helapsed]
    norm_num
  · rw [hpps, hsent, helapsed]
    rintro ⟨hbehind, -⟩
    exact absurd (hbehind (by decide)) (by decide)

/-- Ahead of schedule by one packet of three a second, the first poll does not wait. -/
theorem first_poll_not_overlong_ahead : ∃ w v,
    Execution (next glibc (constantStream glibc 0 (by decide)).value) Free
      (start threePerSecond 0) [⟨0, .run⟩, ⟨0, .accepted⟩] (w, .wait (.throttle .now)) ∧
    Execution (next glibc (constantStream glibc 0 (by decide)).value) BeforePoll
      (w, .wait (.throttle .now)) [⟨0, .clock⟩] (v, .wait (.throttle (.poll 0 0))) ∧
    w.context.sentPackets = 1 ∧ NotOverlong w.context.sentPackets
      (allowance 1000000000 w.context.pps (wrapSub 64 0 w.context.startupDate))
      w.context.pps 0 := by
  let ρ := constantStream glibc 0 (by decide)
  obtain ⟨w, hsend, hs, hpps, hsent, hstart⟩ : ∃ w,
      Execution (next glibc ρ.value) Free (start threePerSecond 0) [⟨0, .run⟩, ⟨0, .accepted⟩]
        (w, .wait (.throttle .now)) ∧
      w.context.sending = true ∧ w.context.pps = 3 ∧ w.context.sentPackets = 1 ∧
      w.context.startupDate = 0 :=
    ⟨_, free_trace_execution rfl, rfl, rfl, rfl, rfl⟩
  have helapsed : wrapSub 64 0 w.context.startupDate = 0 := by
    rw [hstart]
    decide
  have htimeout : firstTimeout w.context 0 = some 0 := by
    rw [firstTimeout_ahead hs (by simp [hpps]) (by simp [hsent]) (Nat.zero_le _)
      (by simp [hpps, hsent])]
    simp [hpps, hsent]
  have hpoll : next glibc ρ.value (w, .wait (.throttle .now)) ⟨0, .clock⟩ =
      some ({ w with time := 0 }, .wait (.throttle (.poll 0 0))) := by
    simp [next, main, throttledReceive, call, maxPackets, helapsed, hsent, beginPoll, htimeout]
  have hwait : Execution (next glibc ρ.value) BeforePoll (w, .wait (.throttle .now))
      [⟨0, .clock⟩] ({ w with time := 0 }, .wait (.throttle (.poll 0 0))) :=
    (Execution.refl _).tail (fun now timeout h => by cases h) hpoll
  refine ⟨w, _, hsend, hwait, hsent, ?_⟩
  apply (first_poll_not_overlong_iff hs (by simp [hpps]) (by simp [hsent]) hwait
    (by simp [helapsed])).mpr
  left
  rw [helapsed, hsent, allowance, Nat.mul_zero]
  exact Nat.zero_le 1

end MattblastFirstPoll
