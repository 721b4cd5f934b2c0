import DnsBlast.MattblastFirstPoll

/-! The drain phase of mattblast. Its polls have no time limit: the remaining time is -1,
and the microseconds that an answer took are subtracted from it in unsigned arithmetic. -/
namespace MattblastDrain

open WrappingIntegers ByteStores LabelledRuns BlastHeader BlastQuery BlastSyscalls MattblastMain
  MattblastFirstPoll

/-- The microseconds, cut to 32 bits, take -1 below the smallest int. -/
def TakenAround (micros : ℕ) : Prop := 2 ^ 31 ≤ micros % 2 ^ 32 ∧ micros % 2 ^ 32 ≤ 2 ^ 32 - 2

/-- The clock reading after a reply of the drain phase: the time since the reading before
it does not take the remaining time around. -/
def NotAround (s : State) (e : Event) : Prop :=
  ∀ now remainingTime, s.2 = .wait (.drain (.now2 now remainingTime)) →
    ¬ TakenAround ((e.time - now) / 1000)

/-- -1 less a number of microseconds is again a wait exactly when it is taken around. -/
theorem lessElapsed_pos_iff {now now2 : ℕ} (hle : now ≤ now2) (hrep : now2 < 2 ^ 64) :
    0 < lessElapsed (-1) now2 now ↔ TakenAround ((now2 - now) / 1000) := by
  have hint := toSigned_int ((-1 - ((now2 - now) / 1000 : ℕ)) % 2 ^ 64)
  obtain ⟨hlow, hhigh, hmod⟩ := hint
  rw [lessElapsed, wrapSub_of_le hle hrep, TakenAround]
  constructor
  · intro hpos
    constructor <;> omega
  · rintro ⟨hleast, hgreatest⟩
    omega

def Unlimited (time : ℕ) : ThrottlePos → Prop
  | .now => True
  | .first .. => False
  | .poll now remainingTime => now ≤ time ∧ remainingTime = -1
  | .status _ => True
  | .queue _ now remainingTime => now ≤ time ∧ remainingTime = -1
  | .now2 now remainingTime => now ≤ time ∧ remainingTime = -1

def UnlimitedOutcome (time : ℕ) : Outcome ThrottlePos ℕ → Prop
  | .wait p => Unlimited time p
  | _ => True

theorem firstTimeout_drain {c : Context} (hs : c.sending = false) (hpps : c.pps ≠ 0)
    (maxPackets : ℕ) : firstTimeout c maxPackets = some (-1) := by
  simp only [firstTimeout, if_neg hpps, hs, Bool.not_false, if_true]

/-- A first poll of the drain phase waits with -1. -/
theorem beginPoll_unlimited {w : World} {q : ThrottlePos} {now max : ℕ}
    (hs : w.context.sending = false) (h : (beginPoll now max w).2 = .wait q) :
    q = .poll now (-1) := by
  rcases beginPoll_cases now max w with ⟨timeout, ht, hpoll⟩ | ⟨-, hstop⟩
  · have hpps : w.context.pps ≠ 0 := by
      intro hzero
      rw [firstTimeout, if_pos hzero] at ht
      cases ht
    rw [firstTimeout_drain hs hpps] at ht
    cases ht
    rw [hpoll] at h
    cases h
    rfl
  · rw [hstop] at h
    cases h

theorem unlimited_beginPoll {w : World} {now max time : ℕ} (hs : w.context.sending = false)
    (hle : now ≤ time) : UnlimitedOutcome time (beginPoll now max w).2 := by
  generalize hc : (beginPoll now max w).2 = c
  cases c with
  | wait q =>
    obtain rfl := beginPoll_unlimited hs hc
    exact ⟨hle, rfl⟩
  | ret r => trivial
  | stop k => trivial

theorem throttledReceive_unlimited {P : Platform} {w v : World} {p : ThrottlePos} {e : Event}
    {c : Outcome ThrottlePos ℕ} (hs : w.context.sending = false) (hmono : w.time ≤ e.time)
    (hrep : e.time < 2 ^ 64) (hp : Unlimited w.time p)
    (haround : ∀ now remainingTime, p = .now2 now remainingTime →
      ¬ TakenAround ((e.time - now) / 1000))
    (h : throttledReceive P w p e = some (v, c)) : UnlimitedOutcome e.time c := by
  cases throttledReceive_step h with
  | behind hmax hd => exact absurd hd.1 (by simp [hs])
  | ahead hmax hd => exact unlimited_beginPoll hs le_rfl
  | first now max hq => exact hp.elim
  | timeout time now remainingTime => trivial
  | ready time now remainingTime => exact ⟨hp.1.trans hmono, hp.2⟩
  | interrupted time now remainingTime errno he =>
    obtain ⟨-, rfl⟩ := hp
    trivial
  | failure time now remainingTime => trivial
  | @status _ _ _ d hq => cases d <;> trivial
  | @queue _ _ _ d now remainingTime hq =>
    obtain ⟨hle, rfl⟩ := hp
    cases d with
    | wait r => exact ⟨hle.trans hmono, rfl⟩
    | ret r => exact ⟨hle.trans hmono, rfl⟩
    | stop k => trivial
  | again now remainingTime now2 =>
    obtain ⟨hle, rfl⟩ := hp
    have hpos := (lessElapsed_pos_iff (hle.trans hmono) hrep).not.mpr (haround now (-1) rfl)
    rw [pollAgain, if_neg hpos]
    trivial

def Draining : State → Prop
  | (w, .wait (.drain p)) => w.context.sending = false ∧ Unlimited w.time p
  | (_, .wait .finalStatus) => True
  | (_, .wait _) => False
  | _ => True

theorem draining_drainLoop {w : World} (hs : w.context.sending = false) :
    Draining (w, drainLoop w) := by
  rcases drainLoop_cases w with hd | hd
  · rw [hd]
    exact ⟨hs, trivial⟩
  · rw [hd]
    trivial

theorem draining_step {P : Platform} {ρ : ℕ → ℕ} {s t : State} {e : Event} (hs : Draining s)
    (he : Nondecreasing s e) (haround : NotAround s e) (h : next P ρ s e = some t) :
    Draining t := by
  obtain ⟨w, c⟩ := s
  obtain ⟨u, d⟩ := t
  obtain ⟨p, v, hp, hstep, ht⟩ := next_cases h
  cases hp
  cases ht
  have hkept : ∀ {q v c}, Unlimited w.time q → w.context.sending = false → p = .drain q →
      throttledReceive P w q e = some (v, c) →
      v.context.sending = false ∧ UnlimitedOutcome e.time c := by
    rintro q v c hq hsending rfl ht
    have hpace := (throttledReceive_quiet ht).pace
    refine ⟨(congrArg Pace.sending hpace).trans hsending, ?_⟩
    exact throttledReceive_unlimited hsending he.monotone he.representable hq
      (by rintro now remainingTime rfl; exact haround now remainingTime rfl) ht
  cases hstep with
  | drain ht => exact hkept hs.2 hs.1 rfl ht
  | @drained q e v r ht =>
    exact draining_drainLoop (w := { v with time := e.time }) (hkept hs.2 hs.1 rfl ht).1
  | drainAbort ht => trivial
  | done hv => trivial
  | noTime hp hv => trivial
  | _ => exact hs.elim

section Reply
variable {P : Platform} {ρ : ℕ → ℕ} {w : World} {now now2 : ℕ} {remainingTime : ℤ}

theorem reply_returns (h : ¬ 0 < lessElapsed remainingTime now2 now) :
    next P ρ (w, .wait (.drain (.now2 now remainingTime))) ⟨now2, .clock⟩ =
      some ({ w with time := now2 }, drainLoop w) := by
  simp only [next, main, throttledReceive, pollAgain, gt_iff_lt, if_neg h, Option.map_some, call]

theorem reply_polls_again (h : 0 < lessElapsed remainingTime now2 now) :
    next P ρ (w, .wait (.drain (.now2 now remainingTime))) ⟨now2, .clock⟩ =
      some ({ w with time := now2 },
        .wait (.drain (.poll now2 (lessElapsed remainingTime now2 now)))) := by
  simp only [next, main, throttledReceive, pollAgain, gt_iff_lt, if_pos h, Option.map_some, call]

theorem reply_not_returns (h : 0 < lessElapsed remainingTime now2 now) :
    next P ρ (w, .wait (.drain (.now2 now remainingTime))) ⟨now2, .clock⟩ ≠
      some ({ w with time := now2 }, drainLoop w) := by
  rw [reply_polls_again h]
  intro heq
  rcases drainLoop_cases w with hd | hd
  · rw [hd] at heq
    cases heq
  · rw [hd] at heq
    cases heq

def answered (before after : ℕ) (d : Datagram) (stale : Memory) : List Event :=
  [⟨before, .clock⟩, ⟨after, .ready⟩, ⟨after, .received d stale⟩, ⟨after, .nothing .EAGAIN⟩,
    ⟨after, .clock⟩, ⟨after, .clock⟩]

theorem reply_emptied {before after : ℕ} (d : Datagram) (stale : Memory)
    (hs : w.context.sending = false) (hpps : w.context.pps ≠ 0) (hbefore : w.time ≤ before)
    (hafter : before ≤ after) (hrep : after < 2 ^ 64)
    (hlate : updateStatusPeriod ≤ wrapSub 64 after w.context.lastStatusUpdate)
    (helapsed : wrapSub 64 after w.context.startupDate ≠ 0) : ∃ v,
    Execution (next P ρ) (fun s e => Nondecreasing s e ∧ NotAround s e) (w, .wait (.drain .now))
      (answered before after d stale) (v, .wait (.drain (.now2 before (-1)))) ∧
    v.time = after := by
  let polling : World := { w with time := before }
  let u : World := { w with
    context := { w.context with receivedPackets := (w.context.receivedPackets + 1) % 2 ^ 64 }
    delivered := w.delivered ++ [d]
    time := after }
  have henter : next P ρ (w, .wait (.drain .now)) ⟨before, .clock⟩ =
      some (polling, .wait (.drain (.poll before (-1)))) := by
    simp [next, main, throttledReceive, call, hs, beginPoll, firstTimeout_drain hs hpps, polling]
  have hready : next P ρ (polling, .wait (.drain (.poll before (-1)))) ⟨after, .ready⟩ =
      some ({ polling with time := after }, .wait (.drain (.queue .receive before (-1)))) := rfl
  have hreceive : next P ρ ({ polling with time := after },
      .wait (.drain (.queue .receive before (-1)))) ⟨after, .received d stale⟩ =
      some (u, .wait (.drain (.queue .receive before (-1)))) := rfl
  have hempty : next P ρ (u, .wait (.drain (.queue .receive before (-1))))
      ⟨after, .nothing .EAGAIN⟩ =
      some (u, .wait (.drain (.queue (.status .now) before (-1)))) := rfl
  have hdue : next P ρ (u, .wait (.drain (.queue (.status .now) before (-1)))) ⟨after, .clock⟩ =
      some (u, .wait (.drain (.queue (.status (.update after)) before (-1)))) := by
    have hlate' : updateStatusPeriod ≤ wrapSub 64 after u.context.lastStatusUpdate := hlate
    simp only [next, main, throttledReceive, emptyReceiveQueue_due hlate']
    rfl
  obtain ⟨v, hv, -, -⟩ := @emptyReceiveQueue_done P u after helapsed
  have hupdate : next P ρ (u, .wait (.drain (.queue (.status (.update after)) before (-1))))
      ⟨after, .clock⟩ = some ({ v with time := after }, .wait (.drain (.now2 before (-1)))) := by
    simp [next, main, throttledReceive, call, hv]
  have hclock : ∀ {s : State} {answer : Answer}, s.1.time ≤ after →
      (∀ now remainingTime, s.2 ≠ .wait (.drain (.now2 now remainingTime))) →
      Nondecreasing s ⟨after, answer⟩ ∧ NotAround s ⟨after, answer⟩ := by
    intro s answer hmono hc
    exact ⟨⟨hmono, hrep⟩, fun now remainingTime h => absurd h (hc now remainingTime)⟩
  have hstart : Nondecreasing (w, .wait (.drain .now)) ⟨before, .clock⟩ ∧
      NotAround (w, .wait (.drain .now)) ⟨before, .clock⟩ := by
    refine ⟨⟨hbefore, hafter.trans_lt hrep⟩, ?_⟩
    intro now remainingTime h
    cases h
  have h₁ : Execution (next P ρ) (fun s e => Nondecreasing s e ∧ NotAround s e) _ _ _ :=
    (Execution.refl _).tail hstart henter
  have h₂ := h₁.tail (hclock hafter (by simp)) hready
  have h₃ := h₂.tail (hclock le_rfl (by simp)) hreceive
  have h₄ := h₃.tail (hclock le_rfl (by simp)) hempty
  have h₅ := h₄.tail (hclock le_rfl (by simp)) hdue
  exact ⟨_, h₅.tail (hclock le_rfl (by simp)) hupdate, rfl⟩

end Reply

/-- After a reply of the drain phase throttled_receive returns to the condition of main's
loop exactly when the microseconds since the clock reading before the poll do not take the
remaining time around. -/
theorem drain_returns_iff {P : Platform} {ρ : RandStream P} {w v : World} {es : List Event}
    {now now2 : ℕ} {remainingTime : ℤ} (hs : w.context.sending = false)
    (h : Execution (next P ρ.value) (fun s e => Nondecreasing s e ∧ NotAround s e)
      (w, .wait (.drain .now)) es (v, .wait (.drain (.now2 now remainingTime))))
    (hmono : v.time ≤ now2) (hrep : now2 < 2 ^ 64) :
    next P ρ.value (v, .wait (.drain (.now2 now remainingTime))) ⟨now2, .clock⟩ =
        some ({ v with time := now2 }, drainLoop v) ↔
      ¬ TakenAround ((now2 - now) / 1000) := by
  have hdraining : Draining (v, .wait (.drain (.now2 now remainingTime))) :=
    h.invariant ⟨hs, trivial⟩ fun _ _ _ hi he hn => draining_step hi he.1 he.2 hn
  obtain ⟨-, hle, rfl⟩ := hdraining
  rw [← lessElapsed_pos_iff (hle.trans hmono) hrep]
  constructor
  · intro heq hpos
    exact reply_not_returns hpos heq
  · exact reply_returns

def oneQuery : Arguments :=
  { threePerSecond with sendCount := 1, sendCount_pos := Nat.one_pos, sendCount_lt := one_lt_word }

/-- The first call of the drain phase, a nanosecond after the start and without a reply. -/
theorem oneQuery_drains : ∃ es w,
    Execution (next glibc (constantStream glibc 0 (by decide)).value) Free (start oneQuery 0) es
      (w, .wait (.drain .now)) ∧
    w.context.sending = false ∧ w.context.pps = 3 ∧ w.context.startupDate = 0 ∧
    w.context.lastStatusUpdate = 0 ∧ w.time = 1 := by
  refine ⟨[⟨0, .run⟩, ⟨0, .accepted⟩, ⟨0, .clock⟩, ⟨1, .timeout⟩, ⟨1, .clock⟩, ⟨1, .clock⟩],
    _, free_trace_execution rfl, rfl, rfl, rfl, rfl, rfl⟩

/-- A reply after a second ends the call. -/
theorem drain_returns_after_a_second : ∃ w v,
    w.context.sending = false ∧
    Execution (next glibc (constantStream glibc 0 (by decide)).value)
      (fun s e => Nondecreasing s e ∧ NotAround s e) (w, .wait (.drain .now))
      (answered 1 1000000000 ⟨[], Nat.zero_le _, some 0⟩ (fun _ => 0))
      (v, .wait (.drain (.now2 1 (-1)))) ∧
    next glibc (constantStream glibc 0 (by decide)).value (v, .wait (.drain (.now2 1 (-1))))
      ⟨1000000000, .clock⟩ = some ({ v with time := 1000000000 }, drainLoop v) := by
  let ρ := constantStream glibc 0 (by decide)
  obtain ⟨es, w, -, hs, hpps, hstart, hstatus, hclock⟩ := oneQuery_drains
  have helapsed : wrapSub 64 1000000000 0 = 1000000000 := by decide
  obtain ⟨v, h, hv⟩ := @reply_emptied glibc ρ.value w 1 1000000000 ⟨[], Nat.zero_le _, some 0⟩
    (fun _ => 0) hs (by simp [hpps]) hclock.le (by norm_num) (by norm_num)
    (by rw [hstatus, helapsed]; decide) (by rw [hstart, helapsed]; decide)
  refine ⟨w, v, hs, h, ?_⟩
  apply (drain_returns_iff hs h hv.le (by norm_num)).mpr
  simp [TakenAround]

/-- A reply after 2^31 microseconds: the process polls again, for 2^31 - 1 milliseconds. -/
theorem late_reply_polled_again :
    ¬ ∀ (P : Platform) (ρ : RandStream P) (a : Arguments) (begin : ℕ) (ds es : List Event)
      (w v : World) (now now2 : ℕ) (remainingTime : ℤ),
      Execution (next P ρ.value) Free (start a begin) ds (w, .wait (.drain .now)) →
      w.context.sending = false →
      Execution (next P ρ.value) Nondecreasing (w, .wait (.drain .now)) es
        (v, .wait (.drain (.now2 now remainingTime))) →
      v.time ≤ now2 → now2 < 2 ^ 64 →
      next P ρ.value (v, .wait (.drain (.now2 now remainingTime))) ⟨now2, .clock⟩ =
        some ({ v with time := now2 }, drainLoop v) := by
  intro hall
  let ρ := constantStream glibc 0 (by decide)
  let after := 2147483648001
  obtain ⟨ds, w, hbegin, hs, hpps, hstart, hstatus, hclock⟩ := oneQuery_drains
  have helapsed : wrapSub 64 after 0 = after := by decide
  obtain ⟨v, h, hv⟩ := @reply_emptied glibc ρ.value w 1 after ⟨[], Nat.zero_le _, some 0⟩
    (fun _ => 0) hs (by simp [hpps]) hclock.le (by norm_num [after]) (by norm_num [after])
    (by rw [hstatus, helapsed]; decide) (by rw [hstart, helapsed]; decide)
  have hreturns := hall glibc ρ oneQuery 0 ds _ w v 1 after (-1) hbegin hs
    (h.weaken fun _ _ h => h.1) hv.le (by norm_num [after])
  have haround : TakenAround ((after - 1) / 1000) := by norm_num [TakenAround, after]
  have hpos : 0 < lessElapsed (-1) after 1 :=
    (lessElapsed_pos_iff (by norm_num [after]) (by norm_num [after])).mpr haround
  exact reply_not_returns hpos hreturns

end MattblastDrain
