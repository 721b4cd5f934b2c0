import DnsBlast.BlastDrain

/-! The timeouts of the polls of the drain phase. The option is an unsigned long that is
stored into an int, and every round subtracts an unsigned difference of two readings of
the clock: above 2^31 - 1, or when the clock is set back, the result is not a wait that
the user asked for. -/
namespace BlastDrainTimeout

open WrappingIntegers LabelledRuns BlastHeader BlastQuery BlastSyscalls BlastReceive BlastMain
  BlastTraffic BlastTable BlastRealization BlastRate BlastDrain
open BlastLayout (Process Overwrites next_away next_option execution_invariant execution_inside)

structure Granted (timeout : ℕ) (remainingTime : ℤ) : Prop where
  nonneg : 0 ≤ remainingTime
  le : remainingTime ≤ timeout
  int : remainingTime < 2 ^ 31

/-- The option as an int is a wait that the user asked for unless its low bits are a
negative number. -/
theorem granted_option_iff (timeout : ℕ) :
    Granted timeout (toSigned 32 timeout) ↔ timeout % 2 ^ 32 < 2 ^ 31 := by
  obtain ⟨hlow, hhigh, hmod⟩ := toSigned_int timeout
  constructor
  · intro h
    have := h.nonneg
    have := h.le
    omega
  · intro h
    constructor
    · omega
    · omega
    · exact hhigh

/-- The difference of two readings, cut to 32 bits, takes the wait around the range of an
int and beyond the option's value. -/
def Overlong (timeout : ℕ) (remainingTime : ℤ) (now2 now : ℕ) : Prop :=
  2 ^ 31 + remainingTime < (wrapSub 64 now2 now % 2 ^ 32 : ℕ) ∧
    (wrapSub 64 now2 now % 2 ^ 32 : ℕ) + (timeout : ℤ) < 2 ^ 32 + remainingTime

/-- One round keeps to the option's value unless the clock takes it around. -/
theorem granted_round_iff {timeout now2 now : ℕ} {remainingTime : ℤ}
    (h : Granted timeout remainingTime) :
    (0 < lessElapsed remainingTime now2 now →
      Granted timeout (lessElapsed remainingTime now2 now)) ↔
      ¬ Overlong timeout remainingTime now2 now := by
  obtain ⟨hlow, hhigh, hmod⟩ := toSigned_int ((remainingTime - wrapSub 64 now2 now) % 2 ^ 64)
  have h0 := h.nonneg
  have h1 := h.le
  have h2 := h.int
  unfold lessElapsed Overlong
  constructor
  · rintro hround ⟨hpast, hbeyond⟩
    have := (hround (by omega)).le
    omega
  · intro hnot hpos
    constructor
    · exact hpos.le
    · omega
    · exact hhigh

/-- The readings and the option of a drain phase: the option is not negative as an int
when a call begins, and no round is taken around. -/
structure ClockInRange (s : State) (e : Event) : Prop where
  option : ∀ first, s.2 = .wait (.drain first .now) → s.1.context.timeout % 2 ^ 32 < 2 ^ 31
  round : ∀ first now remainingTime, s.2 = .wait (.drain first (.now2 now remainingTime)) →
    ¬ Overlong s.1.context.timeout remainingTime e.time now

def GrantedAt (timeout : ℕ) : ThrottlePos → Prop
  | .now => True
  | .poll _ remainingTime => Granted timeout remainingTime
  | .queue _ _ remainingTime => Granted timeout remainingTime
  | .now2 _ remainingTime => Granted timeout remainingTime
  | _ => False

def GrantedOutcome (timeout : ℕ) : Outcome ThrottlePos ℕ → Prop
  | .wait p => GrantedAt timeout p
  | _ => True

theorem GrantedAt.drains {timeout : ℕ} {p : ThrottlePos} (h : GrantedAt timeout p) :
    drains p := by
  cases p <;> trivial

theorem granted_pollAgain {timeout now : ℕ} {remainingTime : ℤ}
    (h : 0 < remainingTime → Granted timeout remainingTime) :
    GrantedOutcome timeout (pollAgain now remainingTime) := by
  unfold pollAgain
  split_ifs with hpos
  · exact h hpos
  · trivial

theorem drainStep_granted {P : Platform} {verbose : Bool} {w v : World} {p : ThrottlePos}
    {e : Event} {c : Outcome ThrottlePos ℕ} (h : DrainStep P verbose w p e v c)
    (hp : GrantedAt w.context.timeout p)
    (hoption : p = .now → w.context.timeout % 2 ^ 32 < 2 ^ 31)
    (hround : ∀ now remainingTime, p = .now2 now remainingTime →
      ¬ Overlong w.context.timeout remainingTime e.time now) :
    GrantedOutcome w.context.timeout c := by
  cases h with
  | enter now => exact (granted_option_iff _).mpr (hoption rfl)
  | timeout time now remainingTime => trivial
  | ready time now remainingTime => exact hp
  | interrupted time now remainingTime errno => exact granted_pollAgain fun _ => hp
  | failure time now remainingTime => trivial
  | @queue q e v c now remainingTime hq =>
    cases c with
    | wait q => exact hp
    | ret r => exact hp
    | stop k => trivial
  | again now remainingTime now2 =>
    exact granted_pollAgain ((granted_round_iff hp).mpr (hround now remainingTime rfl))

def GrantedState (timeout : ℕ) : State → Prop
  | (w, .wait (.drain _ p)) =>
    w.context.sending = false ∧ w.context.timeout = timeout ∧ GrantedAt timeout p
  | (w, .wait .drainStart) => w.context.sending = false ∧ w.context.timeout = timeout
  | (w, .wait (.drainTest _)) => w.context.sending = false ∧ w.context.timeout = timeout
  | (_, .wait .finalStatus) => True
  | (_, .wait _) => False
  | _ => True

theorem granted_drainLoop {timeout first : ℕ} {w : World} (hs : w.context.sending = false)
    (ht : w.context.timeout = timeout) : GrantedState timeout (w, drainLoop first w) := by
  rcases drainLoop_cases first w with hd | hd
  · rw [hd]
    exact ⟨hs, ht, trivial⟩
  · rw [hd]
    trivial

theorem granted_step {P : Platform} {ρ : ℕ → ℕ} {verbose : Bool} {timeout : ℕ} {s t : State}
    {e : Event} (hs : GrantedState timeout s) (hclock : ClockInRange s e)
    (h : next P ρ verbose s e = some t) : GrantedState timeout t := by
  obtain ⟨w, c⟩ := s
  obtain ⟨u, d⟩ := t
  obtain ⟨p, v, hp, hstep, ht⟩ := next_cases h
  cases hp
  cases ht
  cases hstep with
  | drainStart now => exact granted_drainLoop (w := { w with time := now }) hs.1 hs.2
  | @drain first p e v c ht =>
    obtain ⟨hsending, rfl, hat⟩ := hs
    have hdrain := throttledReceive_drainStep hsending hat.drains ht
    have hout : GrantedOutcome w.context.timeout c := drainStep_granted hdrain hat
      (by rintro rfl; exact hclock.option first rfl)
      (by rintro now remainingTime rfl; exact hclock.round first now remainingTime rfl)
    have hpace := (throttledReceive_quiet ht).pace
    have hsending' : v.context.sending = false := (congrArg Pace.sending hpace).trans hsending
    have htimeout : v.context.timeout = w.context.timeout := congrArg Pace.timeout hpace
    cases c with
    | wait q => exact ⟨hsending', htimeout, hout⟩
    | ret r => exact ⟨hsending', htimeout⟩
    | stop k => trivial
  | giveUp first now hlate => trivial
  | drainOn first now hlate =>
    exact granted_drainLoop (w := { w with time := now }) hs.1 hs.2
  | done now v hv => trivial
  | _ => exact hs.elim

section Layout
variable {slots : ContextSlot → Prop} {s t : State} {timeout : ℕ}

theorem granted_overwrites (hkept : ¬ slots .timeout) (h : Overwrites slots s t)
    (hs : GrantedState timeout s) : GrantedState timeout t := by
  have hsame := h.timeout.resolve_right hkept
  obtain ⟨⟨_, _, _, _, rfl⟩, -, -⟩ := h
  obtain ⟨w, c⟩ := s
  simp only at hsame
  subst hsame
  cases c with
  | wait p => cases p <;> exact hs
  | ret r => trivial
  | stop k => trivial

theorem clockInRange_overwrites {e : Event} (hkept : ¬ slots .timeout) (h : Overwrites slots s t)
    (he : ClockInRange s e) : ClockInRange t e := by
  have hsame := h.timeout.resolve_right hkept
  obtain ⟨⟨_, _, _, _, rfl⟩, -, -⟩ := h
  simp only at hsame
  subst hsame
  exact ⟨he.option, he.round⟩

end Layout

/-- The drain phase of the laid out process, main's copy of the option and context.timeout
being the same. -/
structure GrantedProcess (timeout : ℕ) (s : Process) : Prop where
  granted : GrantedState timeout s.state
  option : s.timeout = timeout
  kept : s.state.1.context.timeout = timeout

theorem granted_next {P : Platform} {ρ : ℕ → ℕ} {verbose : Bool} {timeout : ℕ} {s t : Process}
    {e : Event} (hs : GrantedProcess timeout s) (hclock : ClockInRange s.state e)
    (h : BlastLayout.next P ρ verbose s e = some t) : GrantedProcess timeout t := by
  have hpos : s.state.2 ≠ .wait .send := by
    obtain ⟨⟨w, c⟩, sock, option⟩ := s
    rintro hsend
    cases hsend
    exact hs.granted.elim
  obtain ⟨u, v, hbefore, hv, hafter, hoption⟩ := @next_away P ρ verbose (fun _ => False) s t e hpos
    (.inl (hs.option.trans hs.kept.symm)) h
  have hu := granted_step (granted_overwrites id hbefore hs.granted)
    (clockInRange_overwrites id hbefore hclock) hv
  refine ⟨granted_overwrites id hafter hu, hoption.trans hs.option, ?_⟩
  rw [hafter.timeout.resolve_right id, next_option hv, hbefore.timeout.resolve_right id, hs.kept]

/-- In a drain phase with the option and the clock in range every poll waits for at least
0 and at most as many milliseconds as the option says, as long as no call of blast has
stored into context.timeout. -/
theorem drain_polls_granted {P : Platform} {ρ : RandStream P} {o : Options} {sock now : ℕ}
    {es fs : List Event} {s t : Process} {first now' : ℕ} {remainingTime : ℤ}
    (h : Execution (BlastLayout.next P ρ.value o.verbose) Free (BlastLayout.start o sock now) es s)
    (hstart : s.state.2 = .wait .drainStart)
    (hcalls : s.state.1.calls.length ≤ maxUdpDataSize + 1)
    (k : Execution (BlastLayout.next P ρ.value o.verbose) (fun s e => ClockInRange s.state e) s
      fs t)
    (hpoll : t.state.2 = .wait (.drain first (.poll now' remainingTime))) :
    0 ≤ remainingTime ∧ remainingTime ≤ o.timeout := by
  have hmax : maxUdpDataSize = 65507 := rfl
  have hslots : ∀ i < maxUdpDataSize + 1, contextSlot i ≠ .timeout := by
    intro i hi
    unfold contextSlot
    split_ifs <;> first | omega | simp
  obtain ⟨hprogress, haligned⟩ := @execution_invariant P ρ.value (fun c => c ≠ .timeout)
    (Progressing o.sendCount) Free o sock now _ (by omega) hslots (progressing_start o now)
    progressing_overwrites (fun _ _ => trivial)
    (fun hs _ hn => progressing_step o.sendCount_lt hs hn) es s h hcalls
  have hkept : s.state.1.context.timeout = o.timeout := haligned.kept.resolve_right (by simp)
  have hs : GrantedProcess o.timeout s := by
    refine ⟨?_, haligned.option, hkept⟩
    obtain ⟨⟨w, c⟩, sock, timeout⟩ := s
    cases hstart
    have hp : Progress o.sendCount w .drainStart := hprogress
    exact ⟨hp.sending, hkept⟩
  have ht : GrantedProcess o.timeout t :=
    k.invariant hs fun _ _ _ hs hclock hn => granted_next hs hclock hn
  have hgranted := ht.granted
  obtain ⟨⟨v, c⟩, sock, timeout⟩ := t
  cases hpoll
  exact ⟨hgranted.2.2.nonneg, hgranted.2.2.le⟩

/-- The first poll of a drain phase that begins with answers missing. -/
theorem first_drain_poll {P : Platform} {ρ : ℕ → ℕ} {verbose : Bool} {w : World}
    (hs : w.context.sending = false) (hne : w.context.sentPackets ≠ w.context.receivedPackets) :
    ∃ u v, next P ρ verbose (w, .wait .drainStart) ⟨0, .clock⟩ =
        some (u, .wait (.drain 0 .now)) ∧ u.context = w.context ∧
      next P ρ verbose (u, .wait (.drain 0 .now)) ⟨0, .clock⟩ =
        some (v, .wait (.drain 0 (.poll 0 (toSigned 32 w.context.timeout)))) := by
  simp [next, main, drainLoop, hne, throttledReceive, call, hs, firstTimeout]

/-- Without replies every run of at most MAX_UDP_DATA_SIZE queries can come to this poll. -/
theorem first_drain_poll_reachable (P : Platform) (ρ : ℕ → ℕ) (o : Options) (sock : ℕ)
    (hfew : o.sendCount ≤ maxUdpDataSize) : ∃ es w u v,
    Execution (BlastLayout.next P ρ o.verbose) Free (BlastLayout.start o sock 0) es
      ⟨(w, .wait .drainStart), sock, o.timeout⟩ ∧ w.calls.length ≤ maxUdpDataSize ∧
    BlastLayout.next P ρ o.verbose ⟨(w, .wait .drainStart), sock, o.timeout⟩ ⟨0, .clock⟩ =
      some ⟨(u, .wait (.drain 0 .now)), sock, o.timeout⟩ ∧ u.context.timeout = o.timeout ∧
    BlastLayout.next P ρ o.verbose ⟨(u, .wait (.drain 0 .now)), sock, o.timeout⟩ ⟨0, .clock⟩ =
      some ⟨(v, .wait (.drain 0 (.poll 0 (toSigned 32 o.timeout)))), sock, o.timeout⟩ := by
  obtain ⟨es, w, h, hwire, hnone⟩ := drainStart_reachable P ρ o 0
  obtain ⟨hsending, hsent, hreceived⟩ := drainStart_facts h
  have hoption : w.context.timeout = o.timeout := execution_timeout h
  have hne : w.context.sentPackets ≠ w.context.receivedPackets := by
    rw [hsent, hwire, hreceived, hnone]
    exact o.sendCount_pos.ne'
  have hcalls : w.calls.length ≤ maxUdpDataSize := by
    rw [calls_length h rfl, handed_of_away (by simp), hwire]
    exact hfew
  obtain ⟨u, v, hn, hu, hpoll⟩ := @first_drain_poll P ρ o.verbose w hsending hne
  rw [hoption] at hpoll
  have hlaid := execution_inside sock h hcalls (by simp [hnone])
  let laid : State → Process := fun s => ⟨s, sock, o.timeout⟩
  exact ⟨es, w, u, v, hlaid, hcalls, congrArg (Option.map laid) hn,
    (congrArg Context.timeout hu).trans hoption, congrArg (Option.map laid) hpoll⟩

/-- With `-t 600` the first poll of the drain phase waits for 600 ms at most. -/
theorem drain_polls_granted_first : ∃ es s fs t,
    Execution (BlastLayout.next glibc (constantStream glibc 0 (by decide)).value oneQuery.verbose)
      Free (BlastLayout.start oneQuery 3 0) es s ∧ s.state.2 = .wait .drainStart ∧
    Execution (BlastLayout.next glibc (constantStream glibc 0 (by decide)).value oneQuery.verbose)
      (fun s e => ClockInRange s.state e) s fs t ∧
    pollTimeout t.state.2 = some 600 ∧ (0 ≤ (600 : ℤ) ∧ (600 : ℤ) ≤ oneQuery.timeout) := by
  let ρ := constantStream glibc 0 (by decide)
  obtain ⟨es, w, u, v, h, hcalls, hn, hoption, hpoll⟩ :=
    first_drain_poll_reachable glibc ρ.value oneQuery 3 (by decide)
  have hlimit : toSigned 32 oneQuery.timeout = 600 := by decide
  rw [hlimit] at hpoll
  have hinside : ClockInRange (u, .wait (.drain 0 .now)) ⟨0, .clock⟩ := by
    constructor
    · intro first _
      rw [hoption]
      decide
    · intro first now remainingTime hc
      cases hc
  have hbegin : ClockInRange (w, .wait .drainStart) ⟨0, .clock⟩ := by
    constructor
    · intro first hc
      cases hc
    · intro first now remainingTime hc
      cases hc
  have hrun : Execution (BlastLayout.next glibc ρ.value oneQuery.verbose)
      (fun s e => ClockInRange s.state e) ⟨(w, .wait .drainStart), 3, oneQuery.timeout⟩
      [⟨0, .clock⟩, ⟨0, .clock⟩] ⟨(v, .wait (.drain 0 (.poll 0 600))), 3, oneQuery.timeout⟩ := by
    refine ((Execution.refl _).tail ?_ hn).tail ?_ hpoll
    · exact hbegin
    · exact hinside
  exact ⟨es, _, _, _, h, rfl, hrun, rfl,
    drain_polls_granted h rfl (hcalls.trans (Nat.le_succ _)) hrun rfl⟩

/-- `-c 1 -s 1 -t 2147483648`. -/
def negativeOption : Options := { oneQuery with timeout := 2 ^ 31, timeout_lt := by norm_num }

/-- The option is the smallest int, which poll takes for a wait without limit. -/
theorem negative_option_polls_for_ever :
    ¬ ∀ (P : Platform) (ρ : RandStream P) (o : Options) (sock now : ℕ) (es : List Event)
      (s : Process) (first now' : ℕ) (remainingTime : ℤ),
      Execution (BlastLayout.next P ρ.value o.verbose) Free (BlastLayout.start o sock now) es s →
      s.state.2 = .wait (.drain first (.poll now' remainingTime)) →
      0 ≤ remainingTime ∧ remainingTime ≤ o.timeout := by
  intro hall
  let ρ := constantStream glibc 0 (by decide)
  obtain ⟨es, w, u, v, h, -, hn, -, hpoll⟩ :=
    first_drain_poll_reachable glibc ρ.value negativeOption 3 (by decide)
  have hrun := (h.tail trivial hn).tail trivial hpoll
  have hlimit : toSigned 32 negativeOption.timeout = -2 ^ 31 := by decide
  have hrange := (hall glibc ρ negativeOption 3 0 _ _ 0 0 _ hrun rfl).1
  rw [hlimit] at hrange
  exact absurd hrange (by decide)

end BlastDrainTimeout
