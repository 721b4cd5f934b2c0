import DnsBlast.BlastLatency
import DnsBlast.BlastDoubles

/-! The schedule met. The rate limit says that no query leaves before its time, or with real
doubles not by more than a millisecond; on a host where only polls take time, and none
longer than it was told, none leaves after it either. Replies may come at any time. -/
namespace BlastSchedule

open WrappingIntegers LabelledRuns RateSchedules BlastHeader BlastQuery BlastSyscalls
  BlastReceive BlastMain BlastTraffic BlastTable BlastLatency BlastRate BinaryFloats BlastDoubles

structure Ending (slack : ℕ) (g : Pace) (time now : ℕ) (remainingTime : ℤ) : Prop where
  inTime : time ≤ now + remainingTime
  due : now + remainingTime ≤ dueTime g g.sentPackets + slack

def InTime (slack : ℕ) (g : Pace) (time : ℕ) : ThrottlePos → Prop
  | .now => time ≤ dueTime g (g.sentPackets - 1) + slack
  | .first _ now _ => now = time ∧ time ≤ dueTime g (g.sentPackets - 1) + slack
  | .status _ => time ≤ dueTime g g.sentPackets + slack
  | .poll now remainingTime => now = time ∧ Ending slack g time now remainingTime
  | .queue _ now remainingTime => Ending slack g time now remainingTime
  | .now2 now remainingTime => Ending slack g time now remainingTime

def InTimeOutcome (slack : ℕ) (g : Pace) (time : ℕ) : Outcome ThrottlePos ℕ → Prop
  | .wait p => InTime slack g time p
  | .ret _ => time ≤ dueTime g g.sentPackets + slack
  | .stop _ => True

section Within

variable {P : Platform} {slack : ℕ} {g : Pace} {time now now2 : ℕ} {remainingTime : ℤ}

theorem inTime_pollAgain (h0 : 0 ≤ remainingTime)
    (hdue : time + remainingTime ≤ dueTime g g.sentPackets + slack) :
    InTimeOutcome slack g time (pollAgain time remainingTime) := by
  unfold pollAgain
  split_ifs with hpos
  · exact ⟨rfl, by omega, hdue⟩
  · have hlate : time ≤ dueTime g g.sentPackets + slack := by omega
    exact hlate

/-- From a reading that is not late, the first poll ends in time. -/
theorem inTime_firstTimeout (hP : FirstPollWithin P slack) {w : World}
    (hs : w.context.sending = true) (hpps : 0 < w.context.pps) (hsent : 0 < w.context.sentPackets)
    (hb : w.context.startupDate ≤ now) (hlt : now < w.context.startupDate + 2 ^ 31)
    (hreached : dueTime w.pace (w.context.sentPackets - 1) ≤ now + slack)
    (hd : now ≤ dueTime w.pace (w.context.sentPackets - 1) + slack) :
    Ending slack w.pace now now (firstTimeout P w.context
      (maxPackets P w.context.pps (now - w.context.startupDate))) := by
  have hstep := @deadline_succ_le 1000 w.context.pps (w.context.sentPackets - 1) hpps
  rw [Nat.sub_add_cancel hsent] at hstep
  have hmono := @deadline_mono 1000 w.context.pps _ _ (Nat.sub_le w.context.sentPackets 1)
  simp only [dueTime, World.pace] at hreached hd
  obtain ⟨hnonneg, hlow, hhigh⟩ := hP w.context (now - w.context.startupDate) hs hpps
    (by omega) (by omega)
  constructor
  · omega
  · simp only [dueTime, World.pace]
    omega

/-- A reply leaves the end of the wait where it was. -/
theorem Ending.reply (hslack : slack < 2 ^ 20) (h : Ending slack g time now remainingTime)
    (hw : Waiting slack g time now remainingTime) (ht : now2 = time)
    (hlt : now2 < g.startupDate + 2 ^ 31) (hrep : now2 < 2 ^ 64) :
    InTimeOutcome slack g now2 (pollAgain now2 (lessElapsed remainingTime now2 now)) := by
  have hpast := hw.past
  have hbegun := hw.begun
  have hmost := hw.le
  have hinTime := h.inTime
  have hdue := h.due
  rw [lessElapsed_of_lt hw.nonneg (by omega) (by omega) (by omega) hrep]
  apply inTime_pollAgain
  · omega
  · omega

end Within

theorem throttledReceive_inTime {P : Platform} {slack : ℕ} (hP : FirstPollWithin P slack)
    (hslack : slack < 2 ^ 20) {verbose : Bool} {w v : World} {p : ThrottlePos} {e : Event}
    {c : Outcome ThrottlePos ℕ} (hs : w.context.sending = true) (hpps : 0 < w.context.pps)
    (hsent : 0 < w.context.sentPackets) (hlt : e.time < w.context.startupDate + 2 ^ 31)
    (hrep : e.time < 2 ^ 64)
    (hinstant : (∀ now timeout, p ≠ .poll now timeout) ∨ (∃ errno, e.answer = .pollFailed errno) →
      e.time = w.time)
    (hwait : ∀ now timeout, p = .poll now timeout → 0 ≤ timeout → (e.time : ℤ) ≤ w.time + timeout)
    (hpaced : Paced P slack w.pace w.time p) (hp : InTime slack w.pace w.time p)
    (h : throttledReceive P verbose w p e = some (v, c)) : InTimeOutcome slack w.pace e.time c := by
  have haway : (∀ now timeout, p ≠ .poll now timeout) → e.time = w.time :=
    fun hp => hinstant (Or.inl hp)
  cases throttledReceive_step h with
  | @behind now max hmax hd =>
    have hsame : now = w.time := haway (by simp)
    exact ⟨rfl, hsame ▸ hp⟩
  | @ahead now max hmax hd =>
    have hsame : now = w.time := haway (by simp)
    have hb : w.context.startupDate ≤ now := hsame ▸ hpaced.1
    rw [wrapSub_of_le hb hrep] at hmax
    subst hmax hsame
    exact ⟨rfl, inTime_firstTimeout hP hs hpps hsent hb hlt hpaced.2 hp⟩
  | @first q _ _ d now max hq =>
    have hsame : e.time = w.time := haway (by simp)
    rw [hsame]
    cases d with
    | wait r => exact hp
    | ret r =>
      obtain ⟨hb, -, hnlt, hdue, rfl⟩ := hpaced
      obtain ⟨rfl, hinTime⟩ := hp
      have hpace := (emptyReceiveQueue_quiet hq).pace
      have hfields := hpace
      simp only [World.pace, Pace.mk.injEq] at hfields
      obtain ⟨hstart, hpps', hsent', -, hs', -⟩ := hfields
      rw [← hpace] at hdue hinTime ⊢
      refine ⟨rfl, ?_⟩
      exact inTime_firstTimeout hP (hs'.trans hs) (hpps' ▸ hpps) (hsent' ▸ hsent) (hstart ▸ hb)
        (hstart ▸ hnlt) hdue hinTime
    | stop k => trivial
  | timeout t now remainingTime =>
    have hlate := hwait now remainingTime rfl hpaced.nonneg
    have hnow : now = w.time := hp.1
    have hdue := hp.2.due
    have hinTime : t ≤ dueTime w.pace w.pace.sentPackets + slack := by
      simp only at hlate
      omega
    exact hinTime
  | missed t now remainingTime hsending => exact absurd hs (by simp [hsending])
  | ready t now remainingTime =>
    have hlate := hwait now remainingTime rfl hpaced.nonneg
    obtain ⟨rfl, hend⟩ := hp
    exact ⟨hlate, hend.due⟩
  | interrupted t now remainingTime errno he =>
    have hsame : t = w.time := hinstant (Or.inr ⟨errno, rfl⟩)
    obtain ⟨rfl, hend⟩ := hp
    rw [← hsame]
    exact inTime_pollAgain hpaced.nonneg (hsame ▸ hend.due)
  | failure t now remainingTime => trivial
  | @status _ _ _ d hq =>
    have hsame : e.time = w.time := haway (by simp)
    rw [hsame]
    cases d with
    | wait r => exact hp
    | ret r => exact hp
    | stop k => trivial
  | @queue _ _ _ d now remainingTime hq =>
    have hsame : e.time = w.time := haway (by simp)
    rw [hsame]
    cases d with
    | wait r => exact hp
    | ret r => exact hp
    | stop k => trivial
  | again now remainingTime now2 =>
    exact Ending.reply hslack hp hpaced (haway (by simp)) hlt hrep

structure Close (slack : ℕ) (w : World) (time : ℕ) : Prop where
  reached : dueTime w.pace w.context.sentPackets ≤ time + slack
  inTime : time ≤ dueTime w.pace w.context.sentPackets + slack

def OnSchedule (slack : ℕ) (w : World) (time : ℕ) : Outcome MainPos ℕ → Prop
  | .wait .send => Close slack w time
  | .wait (.sendto _) => Close slack w time
  | .wait (.throttle _ p) => InTime slack w.pace time p
  | .wait .status => Close slack w time
  | _ => True

section Within

variable {P : Platform} {slack : ℕ}

theorem OnSchedule.at_time {w : World} {time : ℕ} {c : Outcome MainPos ℕ}
    (h : OnSchedule slack w time c) (time' : ℕ) :
    OnSchedule slack { w with time := time' } time c := by
  cases c with
  | wait p =>
    cases p with
    | send => exact ⟨h.reached, h.inTime⟩
    | sendto size => exact ⟨h.reached, h.inTime⟩
    | status => exact ⟨h.reached, h.inTime⟩
    | _ => exact h
  | ret r => trivial
  | stop k => trivial

theorem endIteration_onSchedule {verbose : Bool} {before time : ℕ} {w : World}
    (h : Close slack w time) :
    OnSchedule slack (endIteration verbose before w).1 time
      (endIteration verbose before w).2 := by
  have hclose : Close slack (endIteration verbose before w).1 time := ⟨h.reached, h.inTime⟩
  simp only [endIteration] at hclose ⊢
  by_cases hz : wrapSub 64 w.sendCount 1 > 0
  · rw [if_pos hz]
    exact hclose
  · rw [if_neg hz]
    exact hclose

theorem step_onSchedule (hP : FirstPollWithin P slack) (hslack : slack < 2 ^ 20) {ρ : ℕ → ℕ}
    {verbose : Bool} {n : ℕ} (hn : n < 2 ^ 64) {w v : World} {p : MainPos} {e : Event}
    {c : Outcome MainPos ℕ} (hpps : 0 < w.context.pps) (hprogress : Progress n w p)
    (he : Prompt (w, .wait p) e) (honTime : OnTime P slack w w.time (.wait p))
    (ho : OnSchedule slack w w.time (.wait p)) (h : Step P ρ verbose w p e v c) :
    OnSchedule slack v e.time c := by
  have hthrottle : ∀ {before q u d}, p = .throttle before q →
      throttledReceive P verbose w q e = some (u, d) →
      PacedOutcome P slack u.pace e.time d ∧ InTimeOutcome slack u.pace e.time d := by
    rintro before q u d rfl ht
    have hpaced := throttledReceive_paced hP hslack hprogress.sending hpps honTime.1 he.monotone
      he.elapsed he.representable
      (fun now timeout hq => he.timely.waits timeout (by subst hq; rfl)) honTime.2 ht
    have hinTime := throttledReceive_inTime hP hslack hprogress.sending hpps honTime.1 he.elapsed
      he.representable (fun hq => he.instant ?_)
      (fun now timeout hq h0 => (he.waits timeout (by subst hq; rfl) h0).1) honTime.2 ho ht
    · have hpace := (throttledReceive_quiet ht).pace
      rw [hpace]
      exact ⟨hpaced, hinTime⟩
    · intro timeout hpoll
      rcases hq with haway | herrno
      · cases q with
        | poll now remainingTime => exact absurd rfl (haway now remainingTime)
        | _ => cases hpoll
      · exact herrno
  cases h with
  | @send now _ _ hr hb =>
    subst hr hb
    have hsame : now = w.time := he.same_time rfl
    subst hsame
    have hclose : Close slack w w.time := ho
    simp only [beginBlast, buildPacket, storeStart]
    split_ifs
    · exact ⟨hclose.reached, hclose.inTime⟩
    · exact ⟨hclose.reached, hclose.inTime⟩
  | accept time packetSize =>
    have hsame : time = w.time := he.same_time rfl
    have hcount : w.wire.length + w.sendCount = n := hprogress.count
    have hpos := hprogress.positive rfl
    have hsent := hprogress.sent
    have hnext : (w.context.sentPackets + 1) % 2 ^ 64 = w.context.sentPackets + 1 :=
      Nat.mod_eq_of_lt (by omega)
    have hinTime : w.time ≤ dueTime w.pace w.context.sentPackets + slack := ho.inTime
    simp only [OnSchedule, InTime, endBlast, World.pace, hnext, Nat.add_sub_cancel]
    exact hsame.le.trans hinTime
  | retry time packetSize errno =>
    have hsame : time = w.time := he.same_time rfl
    subst hsame
    exact ho
  | fail time packetSize => trivial
  | throttle ht => exact (hthrottle rfl ht).2
  | iterate ht =>
    obtain ⟨hreached, hinTime⟩ := hthrottle rfl ht
    exact endIteration_onSchedule ⟨hreached, hinTime⟩
  | abort ht => trivial
  | sent now v hv => trivial
  | drainStart now => rcases drainLoop_cases now w with hd | hd <;> rw [hd] <;> trivial
  | @drain first q e v c ht => cases c <;> trivial
  | giveUp first now hn => trivial
  | drainOn first now hn => rcases drainLoop_cases first w with hd | hd <;> rw [hd] <;> trivial
  | done now v hv => trivial

theorem execution_onSchedule (hP : FirstPollWithin P slack) (hslack : slack < 2 ^ 20) {ρ : ℕ → ℕ}
    {o : Options} (hpps : 0 < o.pps) {now : ℕ} {es : List Event} {s : State}
    (h : Execution (next P ρ o.verbose) Prompt (start o now) es s) :
    Scheduled P slack o.pps now s ∧ Progressing o.sendCount s ∧
      OnSchedule slack s.1 s.1.time s.2 := by
  induction h with
  | refl =>
    obtain ⟨hs, hp⟩ := execution_scheduled (ρ := ρ) hP hslack hpps (.refl (start o now))
    refine ⟨hs, hp, ?_, ?_⟩
    · simp [dueTime, World.pace, start, initContext]
    · simp [dueTime, World.pace, start, initContext]
  | @tail s t es e h he hn ih =>
    obtain ⟨hs, hp, ho⟩ := ih
    obtain ⟨hs', hp'⟩ := execution_scheduled hP hslack hpps
      ((h.tail he hn).weaken fun _ _ h => h.timely)
    refine ⟨hs', hp', ?_⟩
    obtain ⟨w, c⟩ := s
    obtain ⟨u, d⟩ := t
    obtain ⟨p, v, hpos, hstep, ht⟩ := next_cases hn
    cases hpos
    cases ht
    have hrate : 0 < w.context.pps := hs.pps ▸ hpps
    exact (step_onSchedule hP hslack o.sendCount_lt hrate hp he hs.onTime ho hstep).at_time _

end Within

def Met (slack pps begin n time : ℕ) : Prop :=
  begin + 1000 * n / pps ≤ time + slack ∧ time ≤ begin + 1000 * n / pps + slack

section Within

variable {P : Platform} {slack : ℕ} {ρ : RandStream P} {o : Options} {now : ℕ} {es : List Event}
  {s : State}

theorem Close.met (hs : Scheduled P slack o.pps now s) (h : Close slack s.1 s.1.time) :
    Met slack o.pps now s.1.context.sentPackets s.1.time := by
  have hreached := h.reached
  have hinTime := h.inTime
  simp only [dueTime, deadline, World.pace, hs.startupDate, hs.pps] at hreached hinTime
  exact ⟨hreached, hinTime⟩

theorem sendTimes_met (hP : FirstPollWithin P slack) (hslack : slack < 2 ^ 20) (hpps : 0 < o.pps)
    (h : Execution (next P ρ.value o.verbose) Prompt (start o now) es s) :
    List.Forall₂ (Met slack o.pps now) (List.range s.1.calls.length)
      (sendTimes P ρ.value o.verbose (start o now) es) := by
  rw [← (execution_tabled h).length_eq]
  induction h with
  | refl => exact .nil
  | @tail s t es e h he hn ih =>
    rw [sendTimes] at ih ⊢
    rw [h.observe_append, observe, hn, Option.map_some, Option.getD_some, observe,
      List.append_nil]
    cases hnote : sendTime s e with
    | none =>
      rw [Option.toList_none, List.append_nil]
      exact ih
    | some time =>
      obtain ⟨hsend, rfl⟩ := sendTime_send hnote
      obtain ⟨hs, hp, ho⟩ := execution_onSchedule hP hslack hpps h
      have hlength := (execution_tabled h).length_eq
      have hcalls := calls_length h hsend
      obtain ⟨w, c⟩ := s
      cases hsend
      have hcount : (sendTimes P ρ.value o.verbose (start o now) es).length = w.wire.length :=
        hlength.trans hcalls
      rw [sendTimes] at hcount
      have hsame : e.time = w.time := he.same_time rfl
      have hmet := Close.met hs ho
      rw [hp.sent.1, ← hsame] at hmet
      rw [Option.toList_some, List.length_append, List.length_singleton, List.range_succ]
      refine List.rel_append ih (.cons ?_ .nil)
      rw [hcount]
      exact hmet

theorem send_loop_met (hP : FirstPollWithin P slack) (hslack : slack < 2 ^ 20) (hpps : 0 < o.pps)
    (h : Execution (next P ρ.value o.verbose) Prompt (start o now) es s)
    (hc : s.2 = .wait .status) : Met slack o.pps now o.sendCount s.1.time := by
  obtain ⟨hs, hp, ho⟩ := execution_onSchedule hP hslack hpps h
  have hall := hp.all_sent (hc ▸ rfl : LeftSendLoop s.2)
  have hsent := hp.sent.1
  obtain ⟨w, c⟩ := s
  cases hc
  have hmet := Close.met hs ho
  rw [hsent, hall] at hmet
  exact hmet

end Within

/-- The rate limit with IEEE doubles, under the same clock and the same polls: no query leaves
more than a millisecond before its share of the time is used up, and no poll of the sending
phase waits for more than 1002 ms. -/
theorem sends_a_millisecond_early {P : Platform} (hP : P.round = double.round) {ρ : RandStream P}
    {o : Options} (hpps : 1 ≤ o.pps) {now : ℕ} {es : List Event} {s : State}
    (h : Execution (next P ρ.value o.verbose) Timely (start o now) es s) :
    (∀ k, s.1.wire.length + 1 = k → s.2 = .wait .send →
      now + 1000 * (k - 1) / o.pps ≤ s.1.time + 1) ∧
    ∀ timeout, pollTimeout s.2 = some timeout → s.1.context.sending = true →
      0 ≤ timeout ∧ timeout ≤ 1002 := by
  obtain ⟨hs, hp⟩ := execution_scheduled (doubles_within hP) (by norm_num) hpps h
  exact hs.bounds hp

/-- A call of blast, and the wait behind its packet that nothing disturbs. -/
theorem silent_call {P : Platform} (ρ : ℕ → ℕ) (verbose : Bool) {w : World}
    {pps n time : ℕ} (left wait : ℕ) (h : Sending pps 0 n (left + 2) time w)
    (hwait : waitBehind P pps (n + 1) time = wait)
    (hahead : ¬ P.round (n + 1 : ℕ) ≤ maxPackets P pps time) (hshort : wait < updateStatusPeriod)
    (hlt : time + wait < 2 ^ 31) (hn : n + 1 < 2 ^ 64) (hleft : left + 2 < 2 ^ 64) : ∃ es v,
    Execution (next P ρ verbose) Prompt (w, .wait .send) es (v, .wait .send) ∧
    Sending pps 0 (n + 1) (left + 1) (time + wait) v := by
  let r := (ask P ρ w.name w.type).run w.draws
  let asked : World := { w with name := r.1.1, type := r.1.2, draws := r.2 }
  have hasked : Sending pps 0 n (left + 2) time asked :=
    ⟨h.sending, h.startupDate, h.reported, h.early, h.pps, h.sent, h.sendCount, h.time, h.wire⟩
  let u : World := { (beginBlast P ρ asked time).1 with time := time }
  have hcall : next P ρ verbose (w, .wait .send) ⟨time, .clock⟩ =
      some (u, .wait (.sendto (beginBlast P ρ asked time).2)) := rfl
  have hprompt : Prompt (w, .wait .send) ⟨time, .clock⟩ := by
    rw [prompt_iff]
    simp [pollTimeout, h.time, h.startupDate]
    omega
  obtain ⟨es, v, hrun, hv⟩ := silent_iteration ρ verbose (beginBlast P ρ asked time).2
    (beginBlast_sending (ρ := ρ) (P := P) hasked) hwait hahead (Nat.zero_le _) hshort (by omega)
    (by omega) hn hleft
  exact ⟨_, v, ((Execution.refl _).tail hprompt hcall).trans (hrun.weaken fun _ _ he => he.1), hv⟩

/-- `-c 7 -s 6`. -/
def six : Options :=
  { slow with
    pps := 6
    sendCount := 7
    pps_lt := Nat.lt_two_pow_self.trans_le
      (Nat.pow_le_pow_right Nat.two_pos (Nat.le_add_right 6 58))
    sendCount_pos := Nat.succ_pos 6
    sendCount_lt := Nat.lt_two_pow_self.trans_le
      (Nat.pow_le_pow_right Nat.two_pos (Nat.le_add_right 7 57)) }

/-- The first six waits at six a second with IEEE doubles; the last is a millisecond short. -/
theorem six_waits (ρ : ℕ → ℕ) : ∃ es v, Execution (next doubles ρ six.verbose) Prompt
    (start six 0) es (v, .wait .send) ∧ Sending 6 0 6 1 999 v := by
  obtain ⟨_, t, h1, ht⟩ := silent_call (P := doubles) ρ six.verbose 5 166
    (sending_start six 0) (by decide +kernel) (by decide +kernel) (by decide) (by decide)
    (by decide) (by decide)
  obtain ⟨_, u, h2, hu⟩ := silent_call (P := doubles) ρ six.verbose 4 167 ht
    (by decide +kernel) (by decide +kernel) (by decide) (by decide) (by decide) (by decide)
  obtain ⟨_, v, h3, hv⟩ := silent_call (P := doubles) ρ six.verbose 3 167 hu
    (by decide +kernel) (by decide +kernel) (by decide) (by decide) (by decide) (by decide)
  obtain ⟨_, w, h4, hw⟩ := silent_call (P := doubles) ρ six.verbose 2 166 hv
    (by decide +kernel) (by decide +kernel) (by decide) (by decide) (by decide) (by decide)
  obtain ⟨_, x, h5, hx⟩ := silent_call (P := doubles) ρ six.verbose 1 167 hw
    (by decide +kernel) (by decide +kernel) (by decide) (by decide) (by decide) (by decide)
  obtain ⟨_, y, h6, hy⟩ := silent_call (P := doubles) ρ six.verbose 0 166 hx
    (by decide +kernel) (by decide +kernel) (by decide) (by decide) (by decide) (by decide)
  exact ⟨_, y, ((((h1.trans h2).trans h3).trans h4).trans h5).trans h6, hy⟩

/-- The bound is reached: at six queries a second the seventh leaves after 999 ms. -/
theorem sends_a_millisecond_early_seven : ∃ es s,
    Execution (next doubles (constantStream doubles 0 (by decide)).value six.verbose) Timely
      (start six 0) es s ∧ s.1.wire.length + 1 = 7 ∧ s.2 = .wait .send ∧ s.1.time = 999 ∧
    0 + 1000 * (7 - 1) / six.pps ≤ s.1.time + 1 := by
  obtain ⟨es, v, h, hv⟩ := six_waits (constantStream doubles 0 (by decide)).value
  refine ⟨es, _, h.weaken fun _ _ h => h.timely, ?_, rfl, hv.time, ?_⟩
  · rw [hv.wire]
  · have hwire : v.wire.length + 1 = 7 := by rw [hv.wire]
    exact (sends_a_millisecond_early rfl (by decide) (h.weaken fun _ _ h => h.timely)).1 7 hwire rfl

/-- When only polls take time, every query leaves within a millisecond of its deadline,
whatever replies come, and the send loop ends within one of the last. -/
theorem sends_within_a_millisecond {P : Platform} (hP : P.round = double.round)
    {ρ : RandStream P} {o : Options} (hpps : 1 ≤ o.pps) {now : ℕ} {es : List Event} {s : State}
    (h : Execution (next P ρ.value o.verbose) Prompt (start o now) es s) :
    List.Forall₂ (Met 1 o.pps now) (List.range s.1.calls.length)
        (sendTimes P ρ.value o.verbose (start o now) es) ∧
      (s.2 = .wait .status → Met 1 o.pps now o.sendCount s.1.time) :=
  ⟨sendTimes_met (doubles_within hP) (by norm_num) hpps h,
    send_loop_met (doubles_within hP) (by norm_num) hpps h⟩

/-- One more call of blast behind a silent wait. -/
theorem send_again {P : Platform} {ρ : ℕ → ℕ} (o : Options) {w : World} {pps n left time : ℕ}
    {es : List Event} (h : Execution (next P ρ o.verbose) Prompt (start o 0) es (w, .wait .send))
    (hw : Sending pps 0 n left time w) (htime : time < 2 ^ 31) : ∃ u size,
    Execution (next P ρ o.verbose) Prompt (start o 0) (es ++ [⟨time, .clock⟩])
      (u, .wait (.sendto size)) ∧ u.calls.length = n + 1 := by
  have hprompt : Prompt (w, .wait .send) ⟨time, .clock⟩ := by
    rw [prompt_iff]
    simp [pollTimeout, hw.time, hw.startupDate]
    omega
  obtain ⟨u, size, hsend, hwire⟩ : ∃ u size, next P ρ o.verbose (w, .wait .send)
      ⟨time, .clock⟩ = some (u, .wait (.sendto size)) ∧ u.wire = w.wire :=
    ⟨_, _, rfl, (beginBlast_keeps _ _ _ _).2.2⟩
  have hrun := h.tail hprompt hsend
  refine ⟨u, size, hrun, ?_⟩
  rw [calls_length hrun rfl, handed, List.length_append, hwire, hw.wire]
  rfl

theorem sends_within_a_millisecond_seven : ∃ es s,
    Execution (next doubles (constantStream doubles 0 (by decide)).value six.verbose) Prompt
      (start six 0) es s ∧ s.1.calls.length = 7 ∧
    List.Forall₂ (Met 1 six.pps 0) (List.range 7)
      (sendTimes doubles (constantStream doubles 0 (by decide)).value six.verbose (start six 0)
        es) := by
  let ρ := constantStream doubles 0 (by decide)
  obtain ⟨es, v, hwaits, hv⟩ := six_waits ρ.value
  obtain ⟨u, size, h, hcalls⟩ := send_again six hwaits hv (by decide)
  refine ⟨_, _, h, hcalls, ?_⟩
  have hmet := (sends_within_a_millisecond rfl (by decide) h).1
  rw [hcalls] at hmet
  exact hmet

/-- When only polls take time and doubles are exact, query `k` leaves at its deadline exactly,
whatever replies come, and the send loop ends when the share of the whole count is used up. -/
theorem sends_exactly_on_schedule {P : Platform} (hP : ∀ x, P.round x = x) {ρ : RandStream P}
    {o : Options} (hpps : 1 ≤ o.pps) {now : ℕ} {es : List Event} {s : State}
    (h : Execution (next P ρ.value o.verbose) Prompt (start o now) es s) :
    sendTimes P ρ.value o.verbose (start o now) es =
        (List.range s.1.calls.length).map (fun k => now + 1000 * k / o.pps) ∧
      (s.2 = .wait .status → s.1.time = now + 1000 * o.sendCount / o.pps) := by
  constructor
  · have hmet := sendTimes_met (exact_within hP) (by norm_num) hpps h
    have hsame := hmet.imp fun n time h => (le_antisymm h.1 h.2 : now + 1000 * n / o.pps = time)
    rw [← List.forall₂_map_left_iff (f := fun k => now + 1000 * k / o.pps),
      List.forall₂_eq_eq_eq] at hsame
    exact hsame.symm
  · intro hc
    have hmet := send_loop_met (exact_within hP) (by norm_num) hpps h hc
    exact le_antisymm hmet.2 hmet.1

/-- At one query per second the two queries leave at 0 and 1000 ms. -/
theorem sends_exactly_on_schedule_two_queries : ∃ es s,
    Execution (next glibc (constantStream glibc 0 (by decide)).value slow.verbose) Prompt
      (start slow 0) es s ∧ s.1.calls.length = 2 ∧
    sendTimes glibc (constantStream glibc 0 (by decide)).value slow.verbose (start slow 0) es =
      [0, 1000] := by
  let ρ := constantStream glibc 0 (by decide)
  obtain ⟨es, v, hwait, hv⟩ := silent_call ρ.value slow.verbose 0 1000 (sending_start slow 0)
    (waitBehind_onePerSecond (n := 0) (by decide)) (ahead_onePerSecond 0) (by decide) (by decide)
    (by decide) (by decide)
  obtain ⟨u, size, h, hcalls⟩ := send_again slow hwait hv (by decide)
  refine ⟨_, _, h, hcalls, ?_⟩
  rw [(sends_exactly_on_schedule (fun _ => rfl) le_rfl h).1, hcalls]
  rfl

end BlastSchedule
