import DnsBlast.RateSchedules
import DnsBlast.BlastLayout

/-! The rate limit, with doubles taken as exact. throttled_receive waits until the time
at which the query just sent has used up its share; the wait is shortened by the time
that replies take, and neither they nor interrupted polls cut it below that time. -/
namespace BlastRate

open WrappingIntegers LabelledRuns RateSchedules BlastHeader BlastQuery BlastSyscalls
  BlastReceive BlastMain BlastTraffic BlastTable
open BlastLayout (Process Overwrites OffTable storeSlot storeSlot_cases withStarts next_clock
  execution_invariant execution_offTable)

def pollTimeout : Outcome MainPos ℕ → Option ℤ
  | .wait (.throttle _ (.poll _ remainingTime)) => some remainingTime
  | .wait (.drain _ (.poll _ remainingTime)) => some remainingTime
  | _ => none

/-- A clock that does not go back and runs for less than 2^31 ms, and a poll that times
out no earlier than it was told. -/
structure Timely (s : State) (e : Event) : Prop where
  monotone : s.1.time ≤ e.time
  elapsed : e.time < s.1.context.startupDate + 2 ^ 31
  representable : e.time < 2 ^ 64
  waits : ∀ timeout, pollTimeout s.2 = some timeout → 0 ≤ timeout → e.answer = .timeout →
    s.1.time + timeout ≤ e.time

/-- The time before which query `n + 1` must not be sent. -/
def dueTime (g : Pace) (n : ℕ) : ℕ := g.startupDate + deadline 1000 g.pps n

theorem truncate_clamped (x : ℚ) :
    (if truncate x < 0 then 0 else truncate x) = max 0 ⌊x⌋ := by
  unfold truncate
  by_cases hx : 0 ≤ x
  · have hfloor : 0 ≤ ⌊x⌋ := Int.floor_nonneg.mpr hx
    rw [if_pos hx, if_neg (not_lt.mpr hfloor), max_eq_right hfloor]
  · have hceil : ⌈x⌉ ≤ 0 := Int.ceil_le.mpr (by simpa using (not_le.mp hx).le)
    have hfloor : ⌊x⌋ ≤ 0 := (Int.floor_le_ceil x).trans hceil
    rw [if_neg hx, max_eq_left hfloor]
    split_ifs with h
    · rfl
    · exact le_antisymm hceil (not_lt.mp h)

/-- With exact doubles the first poll waits for the rest of the time until the deadline. -/
theorem firstTimeout_exact {P : Platform} (hP : ∀ x, P.round x = x) {c : Context}
    (hs : c.sending = true) (hpps : 0 < c.pps) {elapsed : ℕ} (he : elapsed < 2 ^ 31)
    (hd : deadline 1000 c.pps c.sentPackets ≤ elapsed + 1000) :
    firstTimeout P c (maxPackets P c.pps elapsed) =
      max 0 ((deadline 1000 c.pps c.sentPackets : ℤ) - elapsed) := by
  have hne : (c.pps : ℚ) ≠ 0 := by exact_mod_cast hpps.ne'
  let x : ℚ := (1000 * c.sentPackets : ℕ) / c.pps - elapsed
  have hx : (c.sentPackets - c.pps * elapsed / 1000) / c.pps * 1000 = x := by
    simp only [x]
    push_cast
    field_simp
  have hfloor : ⌊x⌋ = (deadline 1000 c.pps c.sentPackets : ℤ) - elapsed :=
    floor_deadline 1000 c.pps c.sentPackets elapsed
  have hrange : -2 ^ 31 ≤ truncate x ∧ truncate x < 2 ^ 31 := by
    have hceil := Int.ceil_le_floor_add_one x
    have hle := Int.floor_le_ceil x
    unfold truncate
    split_ifs <;> omega
  simp only [firstTimeout, maxPackets, doubleDiv, hP, if_neg hne, Option.map_some, hx, toInt,
    if_pos hrange, hs, Bool.not_true, Bool.false_eq_true, if_false]
  rw [truncate_clamped, hfloor]

/-- The first poll misses the time left until the deadline by at most `slack` ms, and does not
wait where the deadline is at least as long ago. -/
def FirstPollWithin (P : Platform) (slack : ℕ) : Prop :=
  ∀ (c : Context) (elapsed : ℕ), c.sending = true → 0 < c.pps → elapsed < 2 ^ 31 →
    deadline 1000 c.pps c.sentPackets ≤ elapsed + 1000 + slack →
    let left : ℤ := deadline 1000 c.pps c.sentPackets - elapsed
    let timeout := firstTimeout P c (maxPackets P c.pps elapsed)
    0 ≤ timeout ∧ left - slack ≤ timeout ∧ timeout ≤ max 0 (left + slack)

theorem exact_within {P : Platform} (hP : ∀ x, P.round x = x) : FirstPollWithin P 0 := by
  intro c elapsed hs hpps he hd
  simp only [firstTimeout_exact hP hs hpps he hd]
  omega

/-- The state of the do-while: waiting from `now` reaches the deadline of the last query but
for `slack` ms. -/
structure Waiting (slack : ℕ) (g : Pace) (time now : ℕ) (remainingTime : ℤ) : Prop where
  nonneg : 0 ≤ remainingTime
  le : remainingTime ≤ 1000 + 2 * slack
  begun : g.startupDate ≤ now
  past : now ≤ time
  reaches : (dueTime g g.sentPackets : ℤ) ≤ now + remainingTime + slack

def Paced (P : Platform) (slack : ℕ) (g : Pace) (time : ℕ) : ThrottlePos → Prop
  | .now => g.startupDate ≤ time ∧ dueTime g (g.sentPackets - 1) ≤ time + slack
  | .first _ now max => g.startupDate ≤ now ∧ now ≤ time ∧ now < g.startupDate + 2 ^ 31 ∧
      dueTime g (g.sentPackets - 1) ≤ now + slack ∧
      max = maxPackets P g.pps (now - g.startupDate)
  | .status _ => dueTime g g.sentPackets ≤ time + slack
  | .poll now remainingTime => Waiting slack g time now remainingTime
  | .queue _ now remainingTime => Waiting slack g time now remainingTime
  | .now2 now remainingTime => Waiting slack g time now remainingTime

def PacedOutcome (P : Platform) (slack : ℕ) (g : Pace) (time : ℕ) :
    Outcome ThrottlePos ℕ → Prop
  | .wait p => Paced P slack g time p
  | .ret _ => dueTime g g.sentPackets ≤ time + slack
  | .stop _ => True

section Within

variable {P : Platform} {slack : ℕ} {g : Pace} {time time' now now2 : ℕ} {remainingTime : ℤ}

theorem Waiting.later (h : Waiting slack g time now remainingTime)
    (ht : time ≤ time') : Waiting slack g time' now remainingTime :=
  ⟨h.nonneg, h.le, h.begun, h.past.trans ht, h.reaches⟩

theorem Paced.later {p : ThrottlePos} (h : Paced P slack g time p)
    (ht : time ≤ time') : Paced P slack g time' p := by
  cases p with
  | now => exact ⟨h.1.trans ht, h.2.trans (Nat.add_le_add_right ht slack)⟩
  | first q now max => exact ⟨h.1, h.2.1.trans ht, h.2.2⟩
  | status q => exact le_trans h (Nat.add_le_add_right ht slack)
  | poll now remainingTime => exact Waiting.later h ht
  | queue q now remainingTime => exact Waiting.later h ht
  | now2 now remainingTime => exact Waiting.later h ht

/-- One pass of the loop condition keeps the deadline, or finds it passed. -/
theorem paced_pollAgain (hle : remainingTime ≤ 1000 + 2 * slack)
    (hb : g.startupDate ≤ now) (hp : now ≤ time)
    (hr : (dueTime g g.sentPackets : ℤ) ≤ now + remainingTime + slack) :
    PacedOutcome P slack g time (pollAgain now remainingTime) := by
  unfold pollAgain
  split_ifs with hpos
  · exact ⟨hpos.le, hle, hb, hp, hr⟩
  · have hdue : dueTime g g.sentPackets ≤ time + slack := by omega
    exact hdue

/-- The first poll, from a clock reading not before the previous query's deadline. -/
theorem waiting_firstTimeout (hP : FirstPollWithin P slack) {w : World}
    (hs : w.context.sending = true) (hpps : 0 < w.context.pps) (hsent : 0 < w.context.sentPackets)
    (hb : w.context.startupDate ≤ now) (hp : now ≤ time)
    (hlt : now < w.context.startupDate + 2 ^ 31)
    (hd : dueTime w.pace (w.context.sentPackets - 1) ≤ now + slack) :
    Waiting slack w.pace time now (firstTimeout P w.context
      (maxPackets P w.context.pps (now - w.context.startupDate))) := by
  have hstep := @deadline_succ_le 1000 w.context.pps (w.context.sentPackets - 1) hpps
  rw [Nat.sub_add_cancel hsent] at hstep
  have hdue : w.context.startupDate +
      deadline 1000 w.context.pps (w.context.sentPackets - 1) ≤ now + slack := hd
  obtain ⟨hnonneg, hlow, hhigh⟩ := hP w.context (now - w.context.startupDate) hs hpps
    (by omega) (by omega)
  refine ⟨hnonneg, ?_, hb, hp, ?_⟩
  · omega
  · simp only [dueTime, World.pace]
    omega

/-- A reply takes from the wait exactly the time that has passed. -/
theorem Waiting.reply (hslack : slack < 2 ^ 20)
    (h : Waiting slack g time now remainingTime) (ht : time ≤ now2)
    (hlt : now2 < g.startupDate + 2 ^ 31) (hrep : now2 < 2 ^ 64) :
    PacedOutcome P slack g now2 (pollAgain now2 (lessElapsed remainingTime now2 now)) := by
  have hle : now ≤ now2 := le_trans h.past ht
  have hbegun := h.begun
  have hmost := h.le
  have hreaches := h.reaches
  rw [lessElapsed_of_lt h.nonneg (by omega) hle (by omega) hrep]
  apply paced_pollAgain
  · omega
  · omega
  · exact le_rfl
  · omega

end Within

theorem throttledReceive_paced {P : Platform} {slack : ℕ} (hP : FirstPollWithin P slack)
    (hslack : slack < 2 ^ 20) {verbose : Bool} {w v : World} {p : ThrottlePos} {e : Event}
    {c : Outcome ThrottlePos ℕ} {time : ℕ} (hs : w.context.sending = true)
    (hpps : 0 < w.context.pps) (hsent : 0 < w.context.sentPackets) (hmono : time ≤ e.time)
    (hlt : e.time < w.context.startupDate + 2 ^ 31) (hrep : e.time < 2 ^ 64)
    (hwait : ∀ now timeout, p = .poll now timeout → 0 ≤ timeout → e.answer = .timeout →
      time + timeout ≤ e.time)
    (hp : Paced P slack w.pace time p)
    (h : throttledReceive P verbose w p e = some (v, c)) :
    PacedOutcome P slack w.pace e.time c := by
  cases throttledReceive_step h with
  | @behind now max hmax hd =>
    have hb : w.context.startupDate ≤ now := hp.1.trans hmono
    rw [wrapSub_of_le hb hrep] at hmax
    exact ⟨hb, le_rfl, hlt, hp.2.trans (Nat.add_le_add_right hmono slack), hmax.symm⟩
  | @ahead now max hmax hd =>
    have hb : w.context.startupDate ≤ now := hp.1.trans hmono
    rw [wrapSub_of_le hb hrep] at hmax
    subst hmax
    exact waiting_firstTimeout hP hs hpps hsent hb le_rfl hlt
      (hp.2.trans (Nat.add_le_add_right hmono slack))
  | @first q _ _ d now max hq =>
    cases d with
    | wait r => exact Paced.later (p := .first r now max) hp hmono
    | ret r =>
      obtain ⟨hb, hn, hnlt, hd, rfl⟩ := hp
      have hpace := (emptyReceiveQueue_quiet hq).pace
      have hfields := hpace
      simp only [World.pace, Pace.mk.injEq] at hfields
      obtain ⟨hstart, hpps', hsent', -, hs', -⟩ := hfields
      rw [← hpace] at hd ⊢
      have hwaiting := waiting_firstTimeout hP (hs'.trans hs) (hpps' ▸ hpps)
        (hsent' ▸ hsent) (hstart ▸ hb) (hn.trans hmono) (hstart ▸ hnlt) hd
      exact hwaiting
    | stop k => trivial
  | timeout t now remainingTime =>
    have hwaited := hwait now remainingTime rfl hp.nonneg rfl
    have hreaches := hp.reaches
    have hpast := hp.past
    have hdue : dueTime w.pace w.pace.sentPackets ≤ t + slack := by
      simp only at hwaited
      omega
    exact hdue
  | missed t now remainingTime hsending => exact absurd hs (by simp [hsending])
  | ready t now remainingTime => exact Waiting.later hp hmono
  | interrupted t now remainingTime errno he =>
    exact paced_pollAgain hp.le hp.begun (hp.past.trans hmono) hp.reaches
  | failure t now remainingTime => trivial
  | @status _ _ _ d hq =>
    cases d with
    | wait r => exact le_trans hp (Nat.add_le_add_right hmono slack)
    | ret r => exact le_trans hp (Nat.add_le_add_right hmono slack)
    | stop k => trivial
  | @queue _ _ _ d now remainingTime hq =>
    cases d with
    | wait r => exact Waiting.later hp hmono
    | ret r => exact Waiting.later hp hmono
    | stop k => trivial
  | again now remainingTime now2 => exact Waiting.reply hslack hp hmono hlt hrep

def OnTime (P : Platform) (slack : ℕ) (w : World) (time : ℕ) : Outcome MainPos ℕ → Prop
  | .wait .send => dueTime w.pace w.context.sentPackets ≤ time + slack
  | .wait (.sendto _) => dueTime w.pace w.context.sentPackets ≤ time + slack
  | .wait (.throttle _ p) => 0 < w.context.sentPackets ∧ Paced P slack w.pace time p
  | _ => True

structure Scheduled (P : Platform) (slack pps begin : ℕ) (s : State) : Prop where
  startupDate : s.1.context.startupDate = begin
  pps : s.1.context.pps = pps
  begun : begin ≤ s.1.time
  onTime : OnTime P slack s.1 s.1.time s.2

section Within

variable {P : Platform} {slack : ℕ}

theorem OnTime.at_time {w : World} {time : ℕ} {c : Outcome MainPos ℕ}
    (h : OnTime P slack w time c) (time' : ℕ) :
    OnTime P slack { w with time := time' } time c := by
  cases c with
  | wait p => cases p <;> exact h
  | ret r => trivial
  | stop k => trivial

theorem endIteration_onTime {verbose : Bool} {before time : ℕ} {w : World}
    (h : dueTime w.pace w.context.sentPackets ≤ time + slack) :
    OnTime P slack (endIteration verbose before w).1 time
      (endIteration verbose before w).2 := by
  have hdue : dueTime (endIteration verbose before w).1.pace w.context.sentPackets ≤
      time + slack := h
  simp only [endIteration] at hdue ⊢
  by_cases hz : wrapSub 64 w.sendCount 1 > 0
  · rw [if_pos hz]
    exact hdue
  · rw [if_neg hz]
    trivial

theorem endBlast_paced {verbose : Bool} {w : World} {packetSize time : ℕ}
    (hsmall : w.context.sentPackets + 1 < 2 ^ 64) (hb : w.context.startupDate ≤ time)
    (hdue : dueTime w.pace w.context.sentPackets ≤ time + slack) :
    0 < (endBlast P verbose w packetSize).context.sentPackets ∧
      Paced P slack (endBlast P verbose w packetSize).pace time .now := by
  have hnext : (w.context.sentPackets + 1) % 2 ^ 64 = w.context.sentPackets + 1 :=
    Nat.mod_eq_of_lt hsmall
  refine ⟨?_, hb, ?_⟩
  · simp only [endBlast, hnext]
    omega
  · simp only [endBlast, World.pace, hnext, Nat.add_sub_cancel]
    exact hdue

theorem step_onTime (hP : FirstPollWithin P slack) (hslack : slack < 2 ^ 20) {ρ : ℕ → ℕ}
    {verbose : Bool} {n : ℕ} (hn : n < 2 ^ 64) {w v : World} {p : MainPos} {e : Event}
    {c : Outcome MainPos ℕ} (hpps : 0 < w.context.pps) (hprogress : Progress n w p)
    (he : Timely (w, .wait p) e) (hb : w.context.startupDate ≤ w.time)
    (ho : OnTime P slack w w.time (.wait p)) (h : Step P ρ verbose w p e v c) :
    OnTime P slack v e.time c := by
  have hlater : ∀ {due : ℕ}, due ≤ w.time + slack → due ≤ e.time + slack :=
    fun hdue => hdue.trans (Nat.add_le_add_right he.monotone slack)
  have hthrottle : ∀ {before q u d}, p = .throttle before q →
      throttledReceive P verbose w q e = some (u, d) →
      0 < u.context.sentPackets ∧ PacedOutcome P slack u.pace e.time d := by
    rintro before q u d rfl ht
    have hpaced := throttledReceive_paced hP hslack hprogress.sending hpps ho.1 he.monotone
      he.elapsed he.representable (fun now timeout hq => he.waits timeout (by subst hq; rfl)) ho.2
      ht
    have hpace := (throttledReceive_quiet ht).pace
    have hsame : u.context.sentPackets = w.context.sentPackets := congrArg Pace.sentPackets hpace
    exact ⟨hsame ▸ ho.1, hpace ▸ hpaced⟩
  cases h with
  | send hr hb =>
    subst hr hb
    simp only [beginBlast, buildPacket, storeStart]
    split_ifs
    · exact hlater ho
    · exact hlater ho
  | accept time packetSize =>
    have hcount : w.wire.length + w.sendCount = n := hprogress.count
    have hpos := hprogress.positive rfl
    have hsent := hprogress.sent
    exact endBlast_paced (by omega) (hb.trans he.monotone) (hlater ho)
  | retry time packetSize errno => exact hlater ho
  | fail time packetSize => trivial
  | throttle ht => exact hthrottle rfl ht
  | iterate ht => exact endIteration_onTime (hthrottle rfl ht).2
  | abort ht => trivial
  | sent now v hv => trivial
  | drainStart now => rcases drainLoop_cases now w with hd | hd <;> rw [hd] <;> trivial
  | @drain first q e v c ht => cases c <;> trivial
  | giveUp first now hn => trivial
  | drainOn first now hn => rcases drainLoop_cases first w with hd | hd <;> rw [hd] <;> trivial
  | done now v hv => trivial

theorem scheduled_step (hP : FirstPollWithin P slack) (hslack : slack < 2 ^ 20) {ρ : ℕ → ℕ}
    {o : Options} (hpps : 0 < o.pps) {now : ℕ} {s t : State} {e : Event}
    (h : Scheduled P slack o.pps now s ∧ Progressing o.sendCount s) (he : Timely s e)
    (hn : next P ρ o.verbose s e = some t) :
    Scheduled P slack o.pps now t ∧ Progressing o.sendCount t := by
  obtain ⟨hs, hp⟩ := h
  refine ⟨?_, progressing_step o.sendCount_lt hp hn⟩
  obtain ⟨w, c⟩ := s
  obtain ⟨u, d⟩ := t
  obtain ⟨p, v, hpos, hstep, ht⟩ := next_cases hn
  cases hpos
  cases ht
  have hb : w.context.startupDate ≤ w.time := hs.startupDate ▸ hs.begun
  have hpos : 0 < w.context.pps := hs.pps ▸ hpps
  obtain ⟨hstart, hrate, -⟩ := step_settings hstep
  have htime := step_onTime hP hslack o.sendCount_lt hpos hp he hb hs.onTime hstep
  exact ⟨hstart.trans hs.startupDate, hrate.trans hs.pps, hs.begun.trans he.monotone,
    htime.at_time _⟩

theorem execution_scheduled (hP : FirstPollWithin P slack) (hslack : slack < 2 ^ 20)
    {ρ : ℕ → ℕ} {o : Options} (hpps : 0 < o.pps) {now : ℕ} {es : List Event} {s : State}
    (h : Execution (next P ρ o.verbose) Timely (start o now) es s) :
    Scheduled P slack o.pps now s ∧ Progressing o.sendCount s := by
  apply h.invariant (I := fun s =>
    Scheduled P slack o.pps now s ∧ Progressing o.sendCount s)
  · refine ⟨⟨rfl, rfl, le_rfl, ?_⟩, progressing_start o now⟩
    simp only [OnTime, dueTime, World.pace, start, initContext, deadline_zero]
    omega
  · intro s e t hs he hn
    exact scheduled_step hP hslack hpps hs he hn

/-- What the deadlines say where main calls blast and where it polls. -/
theorem Scheduled.bounds {pps begin n : ℕ} {s : State} (hs : Scheduled P slack pps begin s)
    (hp : Progressing n s) :
    (∀ k, s.1.wire.length + 1 = k → s.2 = .wait .send →
      begin + 1000 * (k - 1) / pps ≤ s.1.time + slack) ∧
    ∀ timeout, pollTimeout s.2 = some timeout → s.1.context.sending = true →
      0 ≤ timeout ∧ timeout ≤ 1000 + 2 * slack := by
  obtain ⟨w, c⟩ := s
  have honTime := hs.onTime
  constructor
  · rintro k rfl hc
    cases hc
    have hdue : dueTime w.pace w.context.sentPackets ≤ w.time + slack := honTime
    rw [hp.sent.1] at hdue
    rw [Nat.add_sub_cancel, ← hs.startupDate, ← hs.pps]
    exact hdue
  · intro timeout ht hsending
    cases c with
    | wait p =>
      cases p with
      | throttle before q =>
        cases q with
        | poll now' remainingTime =>
          cases ht
          exact ⟨honTime.2.nonneg, honTime.2.le⟩
        | _ => cases ht
      | drain first q =>
        have hdrain : w.context.sending = false := Progress.sending hp
        rw [hdrain] at hsending
        cases hsending
      | _ => cases ht
    | ret r => cases ht
    | stop k => cases ht

end Within

/-- The deadlines do not depend on the timeout of the drain phase. -/
theorem Paced.with_timeout {P : Platform} {slack time : ℕ} {g : Pace} {p : ThrottlePos}
    (h : Paced P slack g time p) (timeout : ℕ) : Paced P slack { g with timeout } time p := by
  have hwaiting : ∀ {now remainingTime}, Waiting slack g time now remainingTime →
      Waiting slack { g with timeout } time now remainingTime :=
    fun h => ⟨h.nonneg, h.le, h.begun, h.past, h.reaches⟩
  cases p with
  | poll now remainingTime => exact hwaiting h
  | queue q now remainingTime => exact hwaiting h
  | now2 now remainingTime => exact hwaiting h
  | _ => exact h

theorem progressing_overwrites {slots : ContextSlot → Prop} {n : ℕ} {s t : State}
    (h : Overwrites slots s t) (hp : Progressing n s) : Progressing n t := by
  obtain ⟨⟨_, _, _, _, rfl⟩, -, -⟩ := h
  obtain ⟨w, c⟩ := s
  cases c with
  | wait p =>
    have hp : Progress n w p := hp
    exact ⟨hp.sent, hp.count, hp.positive, hp.small, hp.sending⟩
  | ret r => exact hp
  | stop k => exact hp

/-- Nothing that the rate limit rests on lies behind the table before the shared word. -/
theorem scheduled_overwrites {P : Platform} {slack pps begin n : ℕ} {slots : ContextSlot → Prop}
    {s t : State} (h : Overwrites slots s t)
    (hs : Scheduled P slack pps begin s ∧ Progressing n s) :
    Scheduled P slack pps begin t ∧ Progressing n t := by
  obtain ⟨⟨hstart, hrate, hbegun, honTime⟩, hp⟩ := hs
  refine ⟨?_, progressing_overwrites h hp⟩
  obtain ⟨⟨_, _, _, _, rfl⟩, -, -⟩ := h
  obtain ⟨w, c⟩ := s
  refine ⟨hstart, hrate, hbegun, ?_⟩
  cases c with
  | wait p =>
    cases p with
    | throttle before q => exact ⟨honTime.1, honTime.2.with_timeout _⟩
    | _ => exact honTime
  | ret r => trivial
  | stop k => trivial

theorem timely_overwrites {slots : ContextSlot → Prop} {s t : State} {e : Event}
    (h : Overwrites slots s t) (he : Timely s e) : Timely t e := by
  obtain ⟨⟨_, _, _, _, rfl⟩, -, -⟩ := h
  exact ⟨he.monotone, he.elapsed, he.representable, he.waits⟩

/-- A run of less than 2^31 ms in which a system call returns in the millisecond in which it
is made, an interrupted poll too. Any other poll may wait until its timeout is over, and
times out just then. -/
structure Prompt (s : State) (e : Event) : Prop where
  monotone : s.1.time ≤ e.time
  elapsed : e.time < s.1.context.startupDate + 2 ^ 31
  representable : e.time < 2 ^ 64
  instant : (∀ timeout, pollTimeout s.2 = some timeout →
    ∃ errno, e.answer = .pollFailed errno) → e.time = s.1.time
  waits : ∀ timeout, pollTimeout s.2 = some timeout → 0 ≤ timeout →
    (e.time : ℤ) ≤ s.1.time + timeout ∧
      (e.answer = .timeout → (e.time : ℤ) = s.1.time + timeout)

theorem Prompt.timely {s : State} {e : Event} (h : Prompt s e) : Timely s e :=
  ⟨h.monotone, h.elapsed, h.representable,
    fun timeout ht h0 ha => ((h.waits timeout ht h0).2 ha).ge⟩

theorem Prompt.same_time {s : State} {e : Event} (h : Prompt s e)
    (hpoll : pollTimeout s.2 = none) : e.time = s.1.time := by
  apply h.instant
  intro timeout ht
  rw [hpoll] at ht
  cases ht

theorem prompt_iff (s : State) (e : Event) : Prompt s e ↔
    s.1.time ≤ e.time ∧ e.time < s.1.context.startupDate + 2 ^ 31 ∧ e.time < 2 ^ 64 ∧
      ((∀ timeout, pollTimeout s.2 = some timeout → ∃ errno, e.answer = .pollFailed errno) →
        e.time = s.1.time) ∧
      ∀ timeout, pollTimeout s.2 = some timeout → 0 ≤ timeout →
        (e.time : ℤ) ≤ s.1.time + timeout ∧
          (e.answer = .timeout → (e.time : ℤ) = s.1.time + timeout) :=
  ⟨fun h => ⟨h.monotone, h.elapsed, h.representable, h.instant, h.waits⟩,
    fun ⟨hmono, hlt, hrep, hinstant, hwaits⟩ => ⟨hmono, hlt, hrep, hinstant, hwaits⟩⟩

/-- A silent process that started at `begin` with `n` queries sent and `left` to go, at `time`,
no status line being overdue. -/
structure Sending (pps begin n left time : ℕ) (w : World) : Prop where
  sending : w.context.sending = true
  startupDate : w.context.startupDate = begin
  reported : w.context.lastStatusUpdate ≤ time
  early : time < w.context.lastStatusUpdate + updateStatusPeriod
  pps : w.context.pps = pps
  sent : w.context.sentPackets = n
  sendCount : w.sendCount = left
  time : w.time = time
  wire : w.wire.length = n

theorem sending_start (o : Options) (now : ℕ) :
    Sending o.pps now 0 o.sendCount now (start o now).1 :=
  ⟨rfl, rfl, le_rfl, Nat.lt_add_of_pos_right (by decide), rfl, rfl, rfl, rfl, rfl⟩

def waitBehind (P : Platform) (pps n elapsed : ℕ) : ℤ :=
  firstTimeout P { initContext 0 false with pps := pps, sentPackets := n }
    (maxPackets P pps elapsed)

theorem firstTimeout_waitBehind {P : Platform} {c : Context} (hs : c.sending = true)
    (elapsed : ℕ) : firstTimeout P c (maxPackets P c.pps elapsed) =
      waitBehind P c.pps c.sentPackets elapsed := by
  simp [firstTimeout, waitBehind, hs, initContext]

theorem beginBlast_sending {P : Platform} {ρ : ℕ → ℕ} {w : World} {pps begin n left time : ℕ}
    (h : Sending pps begin n left time w) :
    Sending pps begin n left time { (beginBlast P ρ w time).1 with time := time } := by
  obtain ⟨hpace, -, hwire⟩ := beginBlast_keeps P ρ w time
  have hreported := (beginBlast_reports P ρ w time).1
  simp only [World.pace, Pace.mk.injEq] at hpace
  obtain ⟨hstart, hpps, hsent, -, hsending, hcount⟩ := hpace
  exact ⟨hsending.trans h.sending, hstart.trans h.startupDate, hreported.le.trans h.reported,
    h.early.trans_eq (congrArg (· + updateStatusPeriod) hreported.symm), hpps.trans h.pps,
    hsent.trans h.sent, hcount.trans h.sendCount, rfl, (congrArg List.length hwire).trans h.wire⟩

/-- The end of an iteration in which a call of periodically_update_status returned. -/
theorem sending_endIteration {w : World} {pps begin n left time : ℕ} (verbose : Bool)
    (before : ℕ) (h : Sending pps begin n (left + 1) time w) (hleft : left + 1 < 2 ^ 64) :
    Sending pps begin n left time (endIteration verbose before w).1 ∧
      (endIteration verbose before w).2 = .wait (if left > 0 then .send else .status) := by
  have hless : wrapSub 64 (left + 1) 1 = left := wrapSub_of_le (Nat.le_add_left 1 left) hleft
  simp only [endIteration, h.sendCount, hless]
  exact ⟨⟨h.sending, h.startupDate, h.reported, h.early, h.pps, h.sent, rfl, h.time, h.wire⟩,
    trivial⟩

theorem prompt_clock {w : World} {before time : ℕ} {q : ThrottlePos}
    (hq : pollTimeout (.wait (.throttle before q)) = none) (htime : w.time = time)
    (hlt : time < w.context.startupDate + 2 ^ 31) (hrep : time < 2 ^ 64) :
    Prompt (w, .wait (.throttle before q)) ⟨time, .clock⟩ ∧
      OffTable (w, .wait (.throttle before q)) ⟨time, .clock⟩ := by
  refine ⟨⟨htime.le, hlt, hrep, fun _ => htime.symm, ?_⟩, by simp, by simp, rfl⟩
  intro timeout ht
  rw [hq] at ht
  cases ht

/-- A wait that nothing disturbs. -/
theorem silent_wait {P : Platform} (ρ : ℕ → ℕ) (verbose : Bool) {w : World}
    {pps begin n left time wait : ℕ} (before : ℕ) (h : Sending pps begin n (left + 1) time w)
    (hwait : waitBehind P pps n (time - begin) = wait)
    (hahead : ¬ P.round n ≤ maxPackets P pps (time - begin)) (hbegin : begin ≤ time)
    (hshort : wait < updateStatusPeriod) (hlt : time + wait < begin + 2 ^ 31)
    (hrep : time + wait < 2 ^ 64) (hleft : left + 1 < 2 ^ 64) : ∃ es v,
    Execution (next P ρ verbose) (fun s e => Prompt s e ∧ OffTable s e)
      (w, .wait (.throttle before .now)) es (v, .wait (if left > 0 then .send else .status)) ∧
    Sending pps begin n left (time + wait) v := by
  have hlimit : updateStatusPeriod = 2000 := rfl
  have hread : wrapSub 64 time begin = time - begin := wrapSub_of_le hbegin (by omega)
  have hfirst : firstTimeout P w.context (maxPackets P pps (time - begin)) = wait := by
    have hsame := firstTimeout_waitBehind (P := P) h.sending (time - begin)
    rw [h.pps, h.sent, hwait] at hsame
    exact hsame
  have hpoll : next P ρ verbose (w, .wait (.throttle before .now)) ⟨time, .clock⟩ =
      some ({ w with time := time }, .wait (.throttle before (.poll time wait))) := by
    simp [next, main, throttledReceive, call, h.startupDate, h.pps, h.sent, hread, hfirst, hahead]
  let u : World := { w with time := time + wait }
  have htimeout : next P ρ verbose
      ({ w with time := time }, .wait (.throttle before (.poll time wait)))
      ⟨time + wait, .timeout⟩ = some (u, .wait (.throttle before (.status .now))) := by
    simp [next, main, throttledReceive, call, h.sending, u]
  have hstart : w.context.startupDate = begin := h.startupDate
  have hpolled : Execution (next P ρ verbose) (fun s e => Prompt s e ∧ OffTable s e)
      (w, .wait (.throttle before .now)) [⟨time, .clock⟩, ⟨time + wait, .timeout⟩]
      (u, .wait (.throttle before (.status .now))) := by
    refine ((Execution.refl _).tail ?_ hpoll).tail ⟨?_, by simp, by simp, rfl⟩ htimeout
    · exact prompt_clock rfl h.time (by omega) (by omega)
    · rw [prompt_iff]
      simp [pollTimeout, hstart]
      omega
  have hlast : ∀ {x : World}, Sending pps begin n (left + 1) (time + wait) x →
      Sending pps begin n left (time + wait)
        { (endIteration verbose before x).1 with time := time + wait } ∧
      (endIteration verbose before x).2 = .wait (if left > 0 then .send else .status) := by
    intro x hx
    obtain ⟨hv, hpos⟩ := sending_endIteration verbose before hx hleft
    exact ⟨⟨hv.sending, hv.startupDate, hv.reported, hv.early, hv.pps, hv.sent, hv.sendCount, rfl,
      hv.wire⟩, hpos⟩
  have hreported := h.reported
  have hearly := h.early
  have hsince : wrapSub 64 (time + wait) w.context.lastStatusUpdate =
      time + wait - w.context.lastStatusUpdate := wrapSub_of_le (by omega) hrep
  by_cases hdue : time + wait < w.context.lastStatusUpdate + updateStatusPeriod
  · have hnext : next P ρ verbose (u, .wait (.throttle before (.status .now)))
        ⟨time + wait, .clock⟩ =
        some ({ (endIteration verbose before u).1 with time := time + wait },
          (endIteration verbose before u).2) := by
      have hsoon : time + wait - w.context.lastStatusUpdate < updateStatusPeriod := by omega
      simp [next, main, throttledReceive, call, periodicallyUpdateStatus, u, hsince, hsoon,
        endIteration]
    obtain ⟨hv, hpos⟩ := hlast (x := u) ⟨h.sending, hstart, by simp only [u]; omega, hdue, h.pps,
      h.sent, h.sendCount, rfl, h.wire⟩
    rw [hpos] at hnext
    exact ⟨_, _, hpolled.tail (prompt_clock rfl rfl (hstart ▸ hlt) hrep) hnext, hv⟩
  · let x : World := updateStatus P verbose u (time + wait)
    let y : World := { x with context := { x.context with lastStatusUpdate := time + wait } }
    have hbegun : next P ρ verbose (u, .wait (.throttle before (.status .now)))
        ⟨time + wait, .clock⟩ =
        some (u, .wait (.throttle before (.status (.update (time + wait))))) := by
      have hlate : ¬ time + wait - w.context.lastStatusUpdate < updateStatusPeriod := by omega
      simp [next, main, throttledReceive, call, periodicallyUpdateStatus, u, hsince, hlate]
    have hnext : next P ρ verbose
        (u, .wait (.throttle before (.status (.update (time + wait))))) ⟨time + wait, .clock⟩ =
        some ({ (endIteration verbose before y).1 with time := time + wait },
          (endIteration verbose before y).2) := rfl
    obtain ⟨hv, hpos⟩ := hlast (x := y) ⟨h.sending, hstart, le_rfl,
      Nat.lt_add_of_pos_right (by decide), h.pps, h.sent, h.sendCount, rfl, h.wire⟩
    rw [hpos] at hnext
    exact ⟨_, _, (hpolled.tail (prompt_clock rfl rfl (hstart ▸ hlt) hrep) hbegun).tail
      (prompt_clock rfl rfl (hstart ▸ hlt) hrep) hnext, hv⟩

/-- A packet that sendto takes at once, and the wait behind it. -/
theorem silent_iteration {P : Platform} (ρ : ℕ → ℕ) (verbose : Bool) {w : World}
    {pps begin n left time wait : ℕ} (size : ℕ) (h : Sending pps begin n (left + 1) time w)
    (hwait : waitBehind P pps (n + 1) (time - begin) = wait)
    (hahead : ¬ P.round (n + 1 : ℕ) ≤ maxPackets P pps (time - begin)) (hbegin : begin ≤ time)
    (hshort : wait < updateStatusPeriod) (hlt : time + wait < begin + 2 ^ 31)
    (hrep : time + wait < 2 ^ 64) (hn : n + 1 < 2 ^ 64) (hleft : left + 1 < 2 ^ 64) : ∃ es v,
    Execution (next P ρ verbose) (fun s e => Prompt s e ∧ OffTable s e)
      (w, .wait (.sendto size)) es (v, .wait (if left > 0 then .send else .status)) ∧
    Sending pps begin (n + 1) left (time + wait) v := by
  have hstart : w.context.startupDate = begin := h.startupDate
  have hsent : Sending pps begin (n + 1) (left + 1) time
      { endBlast P verbose w size with time := time } := by
    refine ⟨h.sending, hstart, h.reported, h.early, h.pps, ?_, h.sendCount, rfl, ?_⟩
    · simp only [endBlast, h.sent, Nat.mod_eq_of_lt hn]
    · simp only [endBlast, List.length_append, h.wire, List.length_singleton]
  have haccept : Execution (next P ρ verbose) (fun s e => Prompt s e ∧ OffTable s e)
      (w, .wait (.sendto size)) [⟨time, .accepted⟩]
      ({ endBlast P verbose w size with time := time },
        .wait (.throttle w.context.receivedPackets .now)) := by
    refine (Execution.refl _).tail ⟨?_, by simp, by simp, rfl⟩ rfl
    rw [prompt_iff]
    simp [pollTimeout, h.time, hstart]
    omega
  obtain ⟨es, v, hrun, hv⟩ := silent_wait ρ verbose w.context.receivedPackets hsent hwait hahead
    hbegin hshort hlt hrep hleft
  exact ⟨_, v, haccept.trans hrun, hv⟩

/-- What a store before the shared word leaves alone. -/
theorem sending_storeSlot {P : Platform} {w v : World} {pps begin n left time i id : ℕ} (now : ℕ)
    {question question' : ByteStores.Memory} (hi : i < maxUdpDataSize + 3)
    (h : Sending pps begin n left time w) (hcount : v.sendCount = w.sendCount)
    (hwire : v.wire = w.wire) (hcontext : v.context = { storeSlot P i now
      { w.context with question := question, id := id } with question := question' }) :
    Sending pps begin n left time { v with time := time } ∧ v.context.id = id ∧
      v.context.timeout = (storeSlot P i now w.context).timeout := by
  obtain ⟨hsending, hstart, hreported, hearly, hpps, hsent, hleft, -, hlength⟩ := h
  rcases storeSlot_cases (P := P) now hi with hs | ⟨-, hs⟩ | ⟨-, hs⟩ | hs
  all_goals
    rw [hs] at hcontext ⊢
    refine ⟨⟨?_, ?_, ?_, ?_, ?_, ?_, hcount.trans hleft, rfl, ?_⟩, ?_, ?_⟩
    all_goals simp only [hcontext, hwire]
    all_goals assumption

structure AtQuery (pps begin n left time : ℕ) (s : Process) : Prop where
  pos : s.state.2 = .wait .send
  sending : Sending pps begin n left time s.state.1
  id : s.state.1.context.id = n
  calls : s.state.1.calls.length = n

theorem atQuery_start (o : Options) (sock now : ℕ) :
    AtQuery o.pps now 0 o.sendCount now (BlastLayout.start o sock now) :=
  ⟨rfl, sending_start o now, rfl, rfl⟩

/-- A query that sendto takes at once, and the wait behind it that nothing disturbs, as long as
its send time is stored before the shared word. -/
theorem silent_query {P : Platform} (ρ : ℕ → ℕ) (verbose : Bool) {s : Process}
    {pps begin n left time wait : ℕ} (h : AtQuery pps begin n (left + 2) time s)
    (hn : n < maxUdpDataSize + 3) (hwait : waitBehind P pps (n + 1) (time - begin) = wait)
    (hahead : ¬ P.round (n + 1 : ℕ) ≤ maxPackets P pps (time - begin)) (hbegin : begin ≤ time)
    (hshort : wait < updateStatusPeriod) (hlt : time + wait < begin + 2 ^ 31)
    (hrep : time + wait < 2 ^ 64) (hleft : left + 2 < 2 ^ 64) : ∃ es t,
    Execution (BlastLayout.next P ρ verbose) (fun s e => Timely s.state e) s es t ∧
    AtQuery pps begin (n + 1) (left + 1) (time + wait) t ∧ t.sock = s.sock ∧
    t.state.1.context.timeout = (storeSlot P n time s.state.1.context).timeout := by
  have hmax : maxUdpDataSize = 65507 := rfl
  obtain ⟨asked, hasked, -, hlaid⟩ := @next_clock P ρ verbose s time h.pos
    (h.id.trans h.calls.symm) (h.calls ▸ hn.le)
  obtain ⟨name, type, draws, hasked⟩ := hasked
  rw [h.calls] at hlaid
  let laid := buildPacket P ρ (storeSlot P n time) asked
  obtain ⟨hcalls, hcount, hwire, question, question', hcontext⟩ :=
    buildPacket_keeps P ρ (storeSlot P n time) asked
  have hid : (asked.context.id + 1) % 2 ^ 16 = n + 1 := by
    rw [hasked]
    simp only [h.id]
    exact Nat.mod_eq_of_lt (by omega)
  have hlength : laid.1.calls.length = n + 1 := by
    rw [hcalls, hasked]
    exact congrArg (· + 1) h.calls
  have hasking : Sending pps begin n (left + 2) time asked := by
    obtain ⟨h1, h2, h3, h4, h5, h6, h7, h8, h9⟩ := h.sending
    rw [hasked]
    exact ⟨h1, h2, h3, h4, h5, h6, h7, h8, h9⟩
  obtain ⟨hsending, hnext, hoption⟩ :=
    sending_storeSlot (P := P) time hn hasking hcount hwire hcontext
  have hslot : ¬ contextSlot n = .sockIdFuzzSending := by
    unfold contextSlot
    split_ifs <;> first | omega | simp
  obtain ⟨es, v, hrun, hv⟩ := silent_iteration (P := P) ρ verbose laid.2 hsending hwait hahead
    hbegin hshort hlt hrep (by omega) hleft
  obtain ⟨⟨hsame, hkept, hheld, -⟩, hlift⟩ := execution_offTable hrun
  have hclock : Execution (BlastLayout.next P ρ verbose) (fun s e => Prompt s.state e) s
      [⟨time, .clock⟩]
      { s with state := ({ laid.1 with time := time }, .wait (.sendto laid.2)) } := by
    refine (Execution.refl _).tail ?_ (hlaid.trans ?_)
    · rw [prompt_iff]
      simp [h.pos, pollTimeout, h.sending.time, h.sending.startupDate]
      omega
    · rw [if_neg hslot]
  have hall : Execution (BlastLayout.next P ρ verbose) (fun s e => Timely s.state e) s
      ([⟨time, .clock⟩] ++ es)
      ⟨(v, .wait (if left + 1 > 0 then .send else .status)), s.sock, s.timeout⟩ :=
    (hclock.trans (hlift s.sock s.timeout)).weaken fun s e he => he.timely
  refine ⟨_, _, hall, ⟨?_, hv, ?_, ?_⟩, rfl, ?_⟩
  · rfl
  · exact hsame.trans (hnext.trans hid)
  · exact (congrArg List.length hkept).trans hlength
  · refine hheld.trans (hoption.trans ?_)
    rw [hasked]

/-- The rate limit: as long as blast has been called at most 65510 times, query `k` is not
sent before its share of the time since the start has passed, and no poll of the sending
phase waits for more than a second. -/
theorem sends_on_schedule {P : Platform} (hP : ∀ x, P.round x = x) {ρ : RandStream P} {o : Options}
    (hpps : 1 ≤ o.pps) {sock now : ℕ} {es : List Event} {s : Process}
    (h : Execution (BlastLayout.next P ρ.value o.verbose) (fun s e => Timely s.state e)
      (BlastLayout.start o sock now) es s)
    (hcalls : s.state.1.calls.length ≤ maxUdpDataSize + 3) :
    (∀ k, s.state.1.wire.length + 1 = k → s.state.2 = .wait .send →
      now + 1000 * (k - 1) / o.pps ≤ s.state.1.time) ∧
    ∀ timeout, pollTimeout s.state.2 = some timeout → s.state.1.context.sending = true →
      0 ≤ timeout ∧ timeout ≤ 1000 := by
  have hslack : (0 : ℕ) < 2 ^ 20 := Nat.two_pow_pos 20
  obtain ⟨hs, -⟩ := @execution_invariant P ρ.value (fun _ => True)
    (fun s => Scheduled P 0 o.pps now s ∧ Progressing o.sendCount s) Timely o sock now _ le_rfl
    (fun _ _ => trivial)
    (execution_scheduled (ρ := ρ.value) (exact_within hP) hslack hpps (.refl _))
    scheduled_overwrites timely_overwrites
    (fun hs he hn => scheduled_step (exact_within hP) hslack hpps hs he hn) es s h hcalls
  exact hs.1.bounds hs.2

theorem waitBehind_onePerSecond {n : ℕ} (hn : 1000 * n < 2 ^ 31) :
    waitBehind glibc 1 (n + 1) (1000 * n) = (1000 : ℕ) := by
  have hexact := @firstTimeout_exact glibc (fun _ => rfl)
    { initContext 0 false with pps := 1, sentPackets := n + 1 } rfl Nat.one_pos (1000 * n) hn
    (by simp only [deadline]; omega)
  refine hexact.trans ?_
  simp only [deadline]
  omega

theorem ahead_onePerSecond (n : ℕ) :
    ¬ glibc.round (n + 1 : ℕ) ≤ maxPackets glibc 1 (1000 * n) := by
  simp [maxPackets, glibc]

/-- A second of one query per second, with no reply. -/
theorem silent_second (ρ : ℕ → ℕ) (verbose : Bool) {s : Process} {begin n : ℕ} (left : ℕ)
    (h : AtQuery 1 begin n (left + 2) (begin + 1000 * n) s) (hn : n < maxUdpDataSize + 3)
    (hrep : begin + 1000 * (n + 1) < 2 ^ 64) (hleft : left + 2 < 2 ^ 64) : ∃ es t,
    Execution (BlastLayout.next glibc ρ verbose) (fun s e => Timely s.state e) s es t ∧
    AtQuery 1 begin (n + 1) (left + 1) (begin + 1000 * (n + 1)) t ∧ t.sock = s.sock ∧
    t.state.1.context.timeout =
      (storeSlot glibc n (begin + 1000 * n) s.state.1.context).timeout := by
  have hmax : maxUdpDataSize = 65507 := rfl
  have helapsed : begin + 1000 * n - begin = 1000 * n := Nat.add_sub_cancel_left _ _
  have hnext : begin + 1000 * (n + 1) = begin + 1000 * n + 1000 := by ring
  have hwait := waitBehind_onePerSecond (show 1000 * n < 2 ^ 31 by omega)
  have hahead := ahead_onePerSecond n
  have hshort : (1000 : ℕ) < updateStatusPeriod := by decide
  rw [← helapsed] at hwait hahead
  rw [hnext] at hrep ⊢
  exact silent_query ρ verbose h hn hwait hahead (Nat.le_add_right _ _) hshort (by omega) hrep hleft

/-- The second query of one per second leaves when the second is over. -/
theorem sends_on_schedule_one_per_second : ∃ es s,
    Execution (BlastLayout.next glibc (constantStream glibc 0 (by decide)).value slow.verbose)
      (fun s e => Timely s.state e) (BlastLayout.start slow 3 0) es s ∧
    s.state.1.wire.length = 1 ∧ s.state.2 = .wait .send ∧ s.state.1.time = 1000 ∧
    0 + 1000 * (2 - 1) / slow.pps ≤ s.state.1.time := by
  let ρ := constantStream glibc 0 (by decide)
  obtain ⟨es, s, h, hs, -, -⟩ := silent_second ρ.value slow.verbose 0
    (atQuery_start slow 3 0) (by decide) (by decide) (by decide)
  have hcalls : s.state.1.calls.length ≤ maxUdpDataSize + 3 := by
    rw [hs.calls]
    decide
  exact ⟨es, s, h, hs.sending.wire, hs.pos, hs.sending.time,
    (sends_on_schedule (fun _ => rfl) le_rfl h hcalls).1 2 (by rw [hs.sending.wire]) hs.pos⟩

/-- `-c 65512 -s 1`. -/
def pastTheWord : Options :=
  { slow with sendCount := 65512, sendCount_pos := by decide, sendCount_lt := by decide }

/-- The clock reading of call 65511: its low word is 3, descriptor 3 of the socket, and its
bytes that fall on fuzz and sending are 0. -/
def sharedReading : ℕ := 408 * 2 ^ 32 + 3

/-- Up to call 65511 without a reply; call 65509 has stored its reading into context.timeout. -/
theorem pastTheWord_waits (ρ : ℕ → ℕ) (begin : ℕ) {n : ℕ} (hn : n ≤ maxUdpDataSize + 3)
    (hrep : begin + 1000 * n < 2 ^ 64) : ∃ es s,
    Execution (BlastLayout.next glibc ρ pastTheWord.verbose) (fun s e => Timely s.state e)
      (BlastLayout.start pastTheWord 3 begin) es s ∧
    AtQuery 1 begin n (65512 - n) (begin + 1000 * n) s ∧ s.sock = 3 ∧
    (maxUdpDataSize + 1 < n →
      s.state.1.context.timeout = begin + 1000 * (maxUdpDataSize + 1)) := by
  have hmax : maxUdpDataSize = 65507 := rfl
  induction n with
  | zero => exact ⟨[], _, .refl _, atQuery_start pastTheWord 3 begin, rfl, fun h => by omega⟩
  | succ n ih =>
    obtain ⟨es, s, h, hs, hsock, hkept⟩ := ih (by omega) (by omega)
    obtain ⟨left, hleft⟩ : ∃ left, 65512 - n = left + 2 := ⟨65510 - n, by omega⟩
    rw [hleft] at hs
    obtain ⟨fs, t, k, ht, hsame, hoption⟩ := silent_second ρ pastTheWord.verbose left hs (by omega)
      hrep (by omega)
    refine ⟨_, t, h.trans k, ?_, hsame.trans hsock, ?_⟩
    · have hless : 65512 - (n + 1) = left + 1 := by omega
      rw [hless]
      exact ht
    · intro hpast
      rw [hoption]
      by_cases hlast : n = maxUdpDataSize + 1
      · have hslot : contextSlot n = .timeout := hlast ▸ by decide
        rw [storeSlot, hslot, hlast]
      · have hslot : contextSlot n = .rate := by
          have hrate : n = maxUdpDataSize + 2 := by omega
          rw [hrate]
          decide
        rw [storeSlot, hslot]
        exact hkept (by omega)

/-- Where sending is cleared, a reply that is there at once ends the wait. -/
theorem answered_at_once (ρ : ℕ → ℕ) (verbose : Bool) {w : World} (before time sock timeout : ℕ)
    (htime : w.time = time) (hsending : w.context.sending = false)
    (hoption : toSigned 32 w.context.timeout ≤ 0)
    (hstatus : wrapSub 64 time w.context.lastStatusUpdate < updateStatusPeriod)
    (hleft : 0 < wrapSub 64 w.sendCount 1) (hlt : time < w.context.startupDate + 2 ^ 31)
    (hrep : time < 2 ^ 64) : ∃ es t,
    Execution (BlastLayout.next glibc ρ verbose) (fun s e => Timely s.state e)
      ⟨(w, .wait (.throttle before .now)), sock, timeout⟩ es t ∧
    t.state.2 = .wait .send ∧ t.state.1.time = time ∧ t.state.1.wire = w.wire ∧
    t.sock = sock := by
  let remainingTime := toSigned 32 w.context.timeout
  have htimely : ∀ {u : State} (answer : Answer), u.1.time = time →
      u.1.context.startupDate = w.context.startupDate → answer ≠ .timeout →
      Timely u ⟨time, answer⟩ := fun _ hu hstart hanswer =>
    ⟨hu.le, hstart ▸ hlt, hrep, fun _ _ _ h => absurd h hanswer⟩
  have hpoll : BlastLayout.next glibc ρ verbose
      ⟨(w, .wait (.throttle before .now)), sock, timeout⟩ ⟨time, .clock⟩ =
      some ⟨({ w with time := time }, .wait (.throttle before (.poll time remainingTime))),
        sock, timeout⟩ := by
    simp [BlastLayout.next, next, main, throttledReceive, call, hsending, firstTimeout,
      remainingTime]
  obtain ⟨v, hreply, hv, hsame, hwire, hcount⟩ : ∃ v : World,
      Execution (BlastLayout.next glibc ρ verbose) (fun s e => Timely s.state e)
        ⟨(w, .wait (.throttle before .now)), sock, timeout⟩
        [⟨time, .clock⟩, ⟨time, .ready⟩,
          ⟨time, .received ⟨[0, 0], by decide, some 0⟩ fun _ => 0⟩, ⟨time, .clock⟩,
          ⟨time, .nothing .EAGAIN⟩]
        ⟨(v, .wait (.throttle before (.queue (.status .now) time remainingTime))), sock,
          timeout⟩ ∧
      v.time = time ∧ v.context = { w.context with receivedPackets := v.context.receivedPackets } ∧
      v.wire = w.wire ∧ v.sendCount = w.sendCount := by
    have hpolled : Execution (BlastLayout.next glibc ρ verbose) (fun s e => Timely s.state e)
        ⟨(w, .wait (.throttle before .now)), sock, timeout⟩ [⟨time, .clock⟩]
        ⟨({ w with time := time }, .wait (.throttle before (.poll time remainingTime))),
          sock, timeout⟩ :=
      (Execution.refl _).tail (htimely .clock htime rfl (by simp)) hpoll
    have hready := hpolled.tail (htimely .ready rfl rfl (by simp)) rfl
    have hreceived := hready.tail
      (htimely (.received ⟨[0, 0], by decide, some 0⟩ fun _ => 0) rfl rfl (by simp)) rfl
    have hcounted := hreceived.tail (htimely .clock rfl rfl (by simp)) rfl
    exact ⟨_, hcounted.tail (htimely (.nothing .EAGAIN) rfl rfl (by simp)) rfl,
      rfl, rfl, rfl, rfl⟩
  have hstart : v.context.startupDate = w.context.startupDate := by rw [hsame]
  have hskipped : BlastLayout.next glibc ρ verbose
      ⟨(v, .wait (.throttle before (.queue (.status .now) time remainingTime))), sock, timeout⟩
      ⟨time, .clock⟩ =
      some ⟨({ v with time := time }, .wait (.throttle before (.now2 time remainingTime))),
        sock, timeout⟩ := by
    have hearly : wrapSub 64 time v.context.lastStatusUpdate < updateStatusPeriod := by
      rw [hsame]
      exact hstatus
    simp [BlastLayout.next, next, main, throttledReceive, call, emptyReceiveQueue,
      periodicallyUpdateStatus, hearly]
  have hover : ¬ 0 < lessElapsed remainingTime time time := by
    have hunchanged : lessElapsed remainingTime time time = remainingTime := by
      rw [lessElapsed, toSigned_emod (by decide), wrapSub_self]
      simp [remainingTime, toSigned]
    rw [hunchanged]
    exact not_lt.mpr hoption
  have hnext : BlastLayout.next glibc ρ verbose
      ⟨({ v with time := time }, .wait (.throttle before (.now2 time remainingTime))), sock,
        timeout⟩ ⟨time, .clock⟩ =
      some ⟨({ (endIteration verbose before { v with time := time }).1 with time := time },
        .wait .send), sock, timeout⟩ := by
    have hmore : 0 < wrapSub 64 v.sendCount 1 := hcount ▸ hleft
    simp [BlastLayout.next, next, main, throttledReceive, call, pollAgain, hover, endIteration,
      hmore]
  exact ⟨_, _, (hreply.tail (htimely .clock hv hstart (by simp)) hskipped).tail
    (htimely .clock rfl hstart (by simp)) hnext, rfl, rfl, hwire, rfl⟩

/-- Call 65511 stores its reading into the shared word and clears sending. A reply then ends the
wait at once, and blast is called for the 65512th time almost a second early. -/
theorem cleared_sending_sends_early : ∃ es s,
    Execution (BlastLayout.next glibc (constantStream glibc 0 (by decide)).value
      pastTheWord.verbose) (fun s e => Timely s.state e)
      (BlastLayout.start pastTheWord 3 (sharedReading - 65510000)) es s ∧ s.sock = 3 ∧
    s.state.1.wire.length + 1 = 65512 ∧ s.state.2 = .wait .send ∧
    ¬ sharedReading - 65510000 + 1000 * (65512 - 1) / pastTheWord.pps ≤ s.state.1.time := by
  let ρ := constantStream glibc 0 (by decide)
  have hmax : maxUdpDataSize = 65507 := rfl
  have hreading : sharedReading - 65510000 + 1000 * (maxUdpDataSize + 3) = sharedReading := by
    decide
  obtain ⟨es, s, h, hs, hsock, hkept⟩ := pastTheWord_waits ρ.value
    (sharedReading - 65510000) (le_refl (maxUdpDataSize + 3)) (by decide)
  rw [hreading] at hs
  obtain ⟨asked, ⟨name, type, draws, rfl⟩, -, hlaid⟩ := @next_clock glibc ρ.value
    pastTheWord.verbose s sharedReading hs.pos (hs.id.trans hs.calls.symm) hs.calls.le
  have hslot : contextSlot (maxUdpDataSize + 3) = .sockIdFuzzSending := by decide
  rw [hs.calls, if_pos hslot] at hlaid
  let asked : World := { s.state.1 with name := name, type := type, draws := draws }
  let laid := buildPacket glibc ρ.value (storeSlot glibc (maxUdpDataSize + 3) sharedReading) asked
  obtain ⟨-, hcount, hwire, question, question', hcontext⟩ :=
    buildPacket_keeps glibc ρ.value (storeSlot glibc (maxUdpDataSize + 3) sharedReading) asked
  rw [storeSlot, hslot] at hcontext
  have hstart : laid.1.context.startupDate = sharedReading - 65510000 := by
    rw [hcontext]
    exact hs.sending.startupDate
  have hcleared : laid.1.context.sending = false := by
    rw [hcontext]
    rfl
  have hoption : laid.1.context.timeout = sharedReading - 2000 := by
    rw [hcontext]
    exact (hkept (by decide)).trans (by decide)
  have hstatus : wrapSub 64 sharedReading laid.1.context.lastStatusUpdate < updateStatusPeriod := by
    have hreported : laid.1.context.lastStatusUpdate = s.state.1.context.lastStatusUpdate := by
      rw [hcontext]
    have hpast := hs.sending.reported
    have hearly := hs.sending.early
    rw [hreported, wrapSub_of_le hpast (by decide)]
    omega
  have hleft : laid.1.sendCount = 2 := hcount.trans hs.sending.sendCount
  have hclock : Execution (BlastLayout.next glibc ρ.value pastTheWord.verbose)
      (fun s e => Timely s.state e) s [⟨sharedReading, .clock⟩]
      { s with
        state := ({ laid.1 with time := sharedReading }, .wait (.sendto laid.2))
        sock := BlastLayout.wordField glibc sharedReading 0 4 } := by
    refine (Execution.refl _).tail ⟨hs.sending.time.le, ?_, by decide, ?_⟩ hlaid
    · rw [hs.sending.startupDate]
      decide
    · intro timeout ht
      rw [hs.pos] at ht
      cases ht
  let sent : World :=
    { endBlast glibc pastTheWord.verbose laid.1 laid.2 with time := sharedReading }
  have haccepted : Execution (BlastLayout.next glibc ρ.value pastTheWord.verbose)
      (fun s e => Timely s.state e)
      ⟨({ laid.1 with time := sharedReading }, .wait (.sendto laid.2)),
        BlastLayout.wordField glibc sharedReading 0 4, s.timeout⟩ [⟨sharedReading, .accepted⟩]
      ⟨(sent, .wait (.throttle laid.1.context.receivedPackets .now)),
        BlastLayout.wordField glibc sharedReading 0 4, s.timeout⟩ := by
    refine (Execution.refl _).tail ⟨le_rfl, ?_, by decide, fun _ _ _ h => by cases h⟩ rfl
    rw [hstart]
    decide
  obtain ⟨fs, t, k, hpos, htime, hwired, hdescriptor⟩ := answered_at_once ρ.value
    pastTheWord.verbose (w := sent) laid.1.context.receivedPackets sharedReading
    (BlastLayout.wordField glibc sharedReading 0 4) s.timeout rfl hcleared
    (show toSigned 32 laid.1.context.timeout ≤ 0 by rw [hoption]; decide) hstatus
    (show 0 < wrapSub 64 laid.1.sendCount 1 by rw [hleft]; decide)
    (show sharedReading < laid.1.context.startupDate + 2 ^ 31 by rw [hstart]; decide) (by decide)
  refine ⟨_, t, ((h.trans hclock).trans haccepted).trans k, ?_, ?_, hpos, ?_⟩
  · rw [hdescriptor]
    decide
  · have hsent : laid.1.wire.length = maxUdpDataSize + 3 :=
      (congrArg List.length hwire).trans hs.sending.wire
    rw [hwired]
    simp only [sent, endBlast, List.length_append, List.length_singleton, hsent, hmax]
  · rw [htime]
    decide

end BlastRate
