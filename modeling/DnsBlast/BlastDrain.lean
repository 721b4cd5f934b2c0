import DnsBlast.BlastRate
import DnsBlast.BlastReplies

/-! The drain phase. main calls throttled_receive until every query is answered or the
timeout is over; throttled_receive itself counts the timeout down and does not look at
the numbers of queries and answers. -/
namespace BlastDrain

open WrappingIntegers LabelledRuns BlastHeader BlastQuery BlastSyscalls BlastReceive BlastMain
  BlastTraffic BlastTable BlastReplies BlastRate
open BlastLayout (Process Overwrites Inside withStarts next_away next_inside execution_invariant)

def drains : ThrottlePos → Prop
  | .first .. => False
  | .status _ => False
  | _ => True

def queueOutcome (now : ℕ) (remainingTime : ℤ) : Outcome QueuePos Unit → Outcome ThrottlePos ℕ
  | .wait q => .wait (.queue q now remainingTime)
  | .ret _ => .wait (.now2 now remainingTime)
  | .stop k => .stop k

inductive DrainStep (P : Platform) (verbose : Bool) (w : World) :
    ThrottlePos → Event → World → Outcome ThrottlePos ℕ → Prop where
  | enter (now) : DrainStep P verbose w .now ⟨now, .clock⟩ w
      (.wait (.poll now (toSigned 32 w.context.timeout)))
  | timeout (time now remainingTime) : DrainStep P verbose w (.poll now remainingTime)
      ⟨time, .timeout⟩ { w with context := { w.context with
        failedPackets := (w.context.failedPackets + 1) % 2 ^ 64 } } (.ret 1)
  | ready (time now remainingTime) : DrainStep P verbose w (.poll now remainingTime)
      ⟨time, .ready⟩ w (.wait (.queue (.receive .recv) now remainingTime))
  | interrupted (time now remainingTime errno) : DrainStep P verbose w (.poll now remainingTime)
      ⟨time, .pollFailed errno⟩ w (pollAgain now remainingTime)
  | failure (time now remainingTime) : DrainStep P verbose w (.poll now remainingTime)
      ⟨time, .pollFailed .other⟩ w (.stop .failure)
  | queue {q e v c} (now remainingTime) (hq : emptyReceiveQueue P verbose w q e = some (v, c)) :
      DrainStep P verbose w (.queue q now remainingTime) e v (queueOutcome now remainingTime c)
  | again (now remainingTime now2) : DrainStep P verbose w (.now2 now remainingTime)
      ⟨now2, .clock⟩ w (pollAgain now2 (lessElapsed remainingTime now2 now))

section Steps
variable {P : Platform} {verbose : Bool} {w v : World} {e : Event}

theorem throttledReceive_drainStep {p : ThrottlePos} {c : Outcome ThrottlePos ℕ}
    (hs : w.context.sending = false) (hp : drains p)
    (h : throttledReceive P verbose w p e = some (v, c)) : DrainStep P verbose w p e v c := by
  cases throttledReceive_step h with
  | behind hmax hd => exact absurd hd.1 (by simp [hs])
  | @ahead now max hmax hd =>
    have hunlimited : firstTimeout P w.context max = toSigned 32 w.context.timeout := by
      simp only [firstTimeout, hs, Bool.not_false, if_true]
    rw [hunlimited]
    exact .enter now
  | first now max hq => exact hp.elim
  | timeout time now remainingTime hsending => exact absurd hsending (by simp [hs])
  | missed time now remainingTime => exact .timeout time now remainingTime
  | ready time now remainingTime => exact .ready time now remainingTime
  | interrupted time now remainingTime errno he =>
    exact .interrupted time now remainingTime errno
  | failure time now remainingTime => exact .failure time now remainingTime
  | status hq => exact hp.elim
  | @queue _ _ _ d now remainingTime hq =>
    have hqueue := DrainStep.queue now remainingTime hq
    cases d <;> exact hqueue
  | again now remainingTime now2 => exact .again now remainingTime now2

def arrivals : Answer → ℕ
  | .received .. => 1
  | _ => 0

theorem periodicallyUpdateStatus_counts {p : StatusPos} {c : Outcome StatusPos ℕ}
    (h : periodicallyUpdateStatus P verbose w p e = some (v, c)) :
    v.context.failedPackets = w.context.failedPackets ∧
      v.context.receivedPackets = w.context.receivedPackets ∧ arrivals e.answer = 0 := by
  unfold periodicallyUpdateStatus at h
  split at h
  · split_ifs at h
    · cases h
      exact ⟨rfl, rfl, rfl⟩
    · cases h
      exact ⟨rfl, rfl, rfl⟩
  · cases h
    exact ⟨rfl, rfl, rfl⟩
  · cases h

theorem receive_failed {p : ReceivePos} {c : Outcome ReceivePos ℕ}
    (h : receive verbose w p e = some (v, c)) :
    v.context.failedPackets = w.context.failedPackets := by
  unfold receive at h
  split at h
  all_goals cases h
  all_goals rfl

theorem emptyReceiveQueue_failed {p : QueuePos} {c : Outcome QueuePos Unit}
    (h : emptyReceiveQueue P verbose w p e = some (v, c)) :
    v.context.failedPackets = w.context.failedPackets := by
  cases p with
  | receive p =>
    obtain ⟨d, hr, -⟩ := call_outcome h fun _ _ => rfl
    exact receive_failed hr
  | status p =>
    obtain ⟨d, hr, -⟩ := call_outcome h fun _ _ => rfl
    exact (periodicallyUpdateStatus_counts hr).1

/-- A failure is counted by a call that returns, after sending is over. -/
theorem throttledReceive_failed {p : ThrottlePos} {c : Outcome ThrottlePos ℕ}
    (h : throttledReceive P verbose w p e = some (v, c)) :
    v.context.failedPackets = w.context.failedPackets ∨
      w.context.sending = false ∧ c = .ret 1 ∧
        v.context.failedPackets = (w.context.failedPackets + 1) % 2 ^ 64 := by
  cases throttledReceive_step h with
  | first now max hq => exact Or.inl (emptyReceiveQueue_failed hq)
  | missed time now remainingTime hs => exact Or.inr ⟨hs, rfl, rfl⟩
  | status hq => exact Or.inl (periodicallyUpdateStatus_counts hq).1
  | queue now remainingTime hq => exact Or.inl (emptyReceiveQueue_failed hq)
  | _ => exact Or.inl rfl

theorem receive_counts {p : ReceivePos} {c : Outcome ReceivePos ℕ}
    (hsmall : w.context.receivedPackets + p.pending.toNat < 2 ^ 64)
    (h : receive verbose w p e = some (v, c)) :
    w.context.receivedPackets ≤ v.context.receivedPackets ∧
      v.context.receivedPackets + (c.holds ReceivePos.pending).toNat =
        w.context.receivedPackets + p.pending.toNat + arrivals e.answer := by
  unfold receive at h
  split at h
  all_goals cases h
  · exact ⟨le_rfl, rfl⟩
  · exact ⟨le_rfl, rfl⟩
  · exact ⟨le_rfl, rfl⟩
  · exact ⟨le_rfl, rfl⟩
  · simp only [ReceivePos.pending, Bool.toNat_true] at hsmall
    simp only [Outcome.holds, ReceivePos.pending, Bool.toNat_true, Bool.toNat_false, arrivals,
      Nat.mod_eq_of_lt hsmall]
    exact ⟨by omega, trivial⟩

/-- Answers counted or being counted grow by those that arrive. -/
theorem emptyReceiveQueue_counts {p : QueuePos} {c : Outcome QueuePos Unit}
    (hsmall : w.context.receivedPackets + p.pending.toNat < 2 ^ 64)
    (h : emptyReceiveQueue P verbose w p e = some (v, c)) :
    w.context.receivedPackets ≤ v.context.receivedPackets ∧
      v.context.receivedPackets + (c.holds QueuePos.pending).toNat =
        w.context.receivedPackets + p.pending.toNat + arrivals e.answer := by
  cases p with
  | receive p =>
    obtain ⟨d, hr, rfl⟩ := call_outcome h fun _ _ => rfl
    have hcounts := receive_counts hsmall hr
    cases d with
    | wait q => exact hcounts
    | ret r =>
      simp only [Outcome.andThen]
      split_ifs
      · exact hcounts
      · exact hcounts
    | stop k => exact hcounts
  | status p =>
    obtain ⟨d, hr, rfl⟩ := call_outcome h fun _ _ => rfl
    obtain ⟨-, hsame, ha⟩ := periodicallyUpdateStatus_counts hr
    refine ⟨hsame.ge, ?_⟩
    rw [hsame, ha]
    cases d <;> rfl

end Steps

/-- A drain in which `n` answers are awaited altogether, and no more than these come. -/
structure Awaits (n : ℕ) (pending : Bool) (c : Context) : Prop where
  sending : c.sending = false
  sent : c.sentPackets = n
  received : c.receivedPackets + pending.toNat ≤ n

def MissingAt (n : ℕ) (c : Context) : ThrottlePos → Prop
  | .now => c.receivedPackets < n
  | .poll .. => c.receivedPackets < n
  | .queue .. => True
  | .now2 .. => True
  | _ => False

def AwaitsOutcome (n : ℕ) (c : Context) : Outcome ThrottlePos ℕ → Prop
  | .wait p => Awaits n p.pending c ∧ MissingAt n c p
  | _ => Awaits n false c

def Draining (n : ℕ) : State → Prop
  | (w, .wait (.drain _ p)) => Awaits n p.pending w.context ∧ MissingAt n w.context p
  | (w, .wait (.drainTest _)) => Awaits n false w.context
  | (w, .wait .finalStatus) => Awaits n false w.context
  | (_, .wait _) => False
  | (w, _) => Awaits n false w.context

/-- No datagrams arrive but answers that are still missing. -/
def MissingOnly (s : State) (e : Event) : Prop :=
  s.1.context.receivedPackets + (s.2.holds mainPending).toNat + arrivals e.answer ≤
    s.1.context.sentPackets

/-- When the condition of the do-while is evaluated with every query answered, the
remaining time has just run out. -/
def WaitUsedUp (s : State) (e : Event) : Prop :=
  ∀ first now remainingTime, s.2 = .wait (.drain first (.now2 now remainingTime)) →
    s.1.context.receivedPackets = s.1.context.sentPackets →
    lessElapsed remainingTime e.time now ≤ 0

/-- No poll of the drain phase times out while an answer is missing. -/
def NoneMissed (s : State) (e : Event) : Prop :=
  s.1.context.sending = false → s.1.context.receivedPackets ≠ s.1.context.sentPackets →
    e.answer ≠ .timeout

/-- An environment that answers no query twice and every query in time. -/
def AnswersInTime (s : Process) (e : Event) : Prop :=
  MissingOnly s.state e ∧ WaitUsedUp s.state e ∧ NoneMissed s.state e

structure Counts (n : ℕ) (e : Event) (c d : Context) : Prop where
  received : c.receivedPackets ≤ d.receivedPackets
  failed : c.receivedPackets = n ∨ e.answer ≠ .timeout → d.failedPackets = c.failedPackets

theorem Counts.refl (n : ℕ) (e : Event) (c : Context) : Counts n e c c := ⟨le_rfl, fun _ => rfl⟩

theorem awaits_pollAgain {n : ℕ} {c : Context} {now : ℕ} {remainingTime : ℤ}
    (hw : Awaits n false c) (hmissing : 0 < remainingTime → c.receivedPackets < n) :
    AwaitsOutcome n c (pollAgain now remainingTime) := by
  unfold pollAgain
  split_ifs with hpos
  · exact ⟨hw, hmissing hpos⟩
  · exact hw

theorem DrainStep.awaits {P : Platform} {verbose : Bool} {w v : World} {p : ThrottlePos}
    {e : Event} {c : Outcome ThrottlePos ℕ} {n : ℕ} (hn : n < 2 ^ 64)
    (h : DrainStep P verbose w p e v c) (hw : Awaits n p.pending w.context)
    (hat : MissingAt n w.context p)
    (hmissing : w.context.receivedPackets + p.pending.toNat + arrivals e.answer ≤ n)
    (hused : ∀ now remainingTime, p = .now2 now remainingTime → w.context.receivedPackets = n →
      lessElapsed remainingTime e.time now ≤ 0) :
    AwaitsOutcome n v.context c ∧ Counts n e w.context v.context := by
  cases h with
  | enter now => exact ⟨⟨hw, hat⟩, .refl _ _ _⟩
  | timeout time now remainingTime =>
    refine ⟨⟨hw.sending, hw.sent, hw.received⟩, le_rfl, ?_⟩
    rintro (hr | hr)
    · exact absurd hr (Nat.ne_of_lt hat)
    · exact absurd rfl hr
  | ready time now remainingTime => exact ⟨⟨hw, trivial⟩, .refl _ _ _⟩
  | interrupted time now remainingTime errno =>
    exact ⟨awaits_pollAgain hw fun _ => hat, .refl _ _ _⟩
  | failure time now remainingTime => exact ⟨hw, .refl _ _ _⟩
  | @queue q e v c now remainingTime hq =>
    have hpace := (emptyReceiveQueue_quiet hq).pace
    simp only [World.pace, Pace.mk.injEq] at hpace
    obtain ⟨-, -, hsent, -, hsending, -⟩ := hpace
    have hpending : q.pending = (ThrottlePos.queue q now remainingTime).pending := rfl
    obtain ⟨hle, hcount⟩ := emptyReceiveQueue_counts (by rw [hpending]; omega) hq
    rw [hpending] at hcount
    have hv : Awaits n (c.holds QueuePos.pending) v.context :=
      ⟨hsending.trans hw.sending, hsent.trans hw.sent, by omega⟩
    refine ⟨?_, hle, fun _ => emptyReceiveQueue_failed hq⟩
    cases c with
    | wait q => exact ⟨hv, trivial⟩
    | ret r => exact ⟨hv, trivial⟩
    | stop k => exact hv
  | again now remainingTime now2 =>
    refine ⟨awaits_pollAgain hw ?_, .refl _ _ _⟩
    intro hpos
    have hle : w.context.receivedPackets ≤ n := hw.received
    by_contra hnot
    have hout : lessElapsed remainingTime now2 now ≤ 0 := hused now remainingTime rfl (by omega)
    omega

theorem MissingAt.drains {n : ℕ} {c : Context} {p : ThrottlePos} (h : MissingAt n c p) :
    drains p := by
  cases p <;> trivial

theorem draining_drainLoop {n first : ℕ} {w : World} (hw : Awaits n false w.context) :
    Draining n (w, drainLoop first w) := by
  unfold drainLoop
  split_ifs with hne
  · have hle : w.context.receivedPackets ≤ n := hw.received
    have hsent := hw.sent
    exact ⟨hw, show w.context.receivedPackets < n by omega⟩
  · exact hw

theorem draining_step {P : Platform} {ρ : ℕ → ℕ} {verbose : Bool} {n : ℕ} (hn : n < 2 ^ 64)
    {s t : State} {e : Event} (hs : Draining n s) (hmissing : MissingOnly s e)
    (hused : WaitUsedUp s e) (h : next P ρ verbose s e = some t) :
    Draining n t ∧ Counts n e s.1.context t.1.context := by
  obtain ⟨w, c⟩ := s
  obtain ⟨u, d⟩ := t
  obtain ⟨p, v, hp, hstep, ht⟩ := next_cases h
  cases hp
  cases ht
  cases hstep with
  | @drain first p e v c ht =>
    obtain ⟨hw, hat⟩ := hs
    have hdrain := throttledReceive_drainStep hw.sending hat.drains ht
    obtain ⟨hc, hcounts⟩ := hdrain.awaits hn hw hat (hw.sent ▸ hmissing) (by
      rintro now remainingTime rfl heq
      exact hused first now remainingTime rfl (heq.trans hw.sent.symm))
    refine ⟨?_, hcounts⟩
    cases c with
    | wait q => exact hc
    | ret r => exact hc
    | stop k => exact hc
  | giveUp first now hlate => exact ⟨hs, .refl _ _ _⟩
  | drainOn first now hlate =>
    exact ⟨draining_drainLoop (w := { w with time := now }) hs, .refl _ _ _⟩
  | done now v hv =>
    subst hv
    exact ⟨⟨hs.sending, hs.sent, hs.received⟩, le_rfl, fun _ => rfl⟩
  | _ => exact hs.elim

theorem Draining.awaits {n : ℕ} {s : State} (hs : Draining n s) :
    Awaits n false s.1.context := by
  obtain ⟨w, c⟩ := s
  cases c with
  | wait p =>
    cases p with
    | drain first p =>
      exact ⟨hs.1.sending, hs.1.sent, (Nat.le_add_right _ _).trans hs.1.received⟩
    | drainTest first => exact hs
    | finalStatus => exact hs
    | _ => exact hs.elim
  | ret r => exact hs
  | stop k => exact hs

/-- What is known of the process when its drain phase begins. -/
theorem drainStart_facts {P : Platform} {ρ : ℕ → ℕ} {o : Options} {now : ℕ}
    {es : List Event} {w : World}
    (h : Execution (next P ρ o.verbose) Free (start o now) es (w, .wait .drainStart)) :
    w.context.sending = false ∧ w.context.sentPackets = w.wire.length ∧
      w.context.receivedPackets = w.delivered.length % 2 ^ 64 := by
  have hprogress : Progress o.sendCount w .drainStart := execution_progressing h
  obtain ⟨-, hcount⟩ : Counted false w.replies := execution_replies counted_receive
    ⟨Nat.zero_le _, rfl⟩ h
  exact ⟨hprogress.sending, hprogress.sent, hcount⟩

section Layout
variable {slots : ContextSlot → Prop} {s t : State} {e : Event}

end Layout

/-- `-c 1 -s 1`, with the default timeout. -/
def oneQuery : Options :=
  { slow with sendCount := 1, sendCount_pos := Nat.one_pos, sendCount_lt := one_lt_word }

/-- The wait behind the only query, and main's way into the drain loop. -/
theorem drains_unanswered (ρ : ℕ → ℕ) {w : World} (before : ℕ) (h : Sending 1 0 1 1 0 w)
    (hreceived : w.context.receivedPackets = 0) : ∃ es v,
    Execution (BlastLayout.next glibc ρ oneQuery.verbose) AnswersInTime
      ⟨(w, .wait (.throttle before .now)), 3, 600⟩ es ⟨(v, .wait (.drain 1000 .now)), 3, 600⟩ ∧
    v.context.sending = false ∧ v.context.receivedPackets = 0 ∧ v.context.sentPackets = 1 ∧
    v.context.timeout = w.context.timeout ∧ v.context.lastStatusUpdate = 0 ∧
    v.context.failedPackets = w.context.failedPackets ∧ v.calls = w.calls := by
  have hstatus : w.context.lastStatusUpdate = 0 := Nat.le_zero.mp h.reported
  have hfirst : firstTimeout glibc w.context (maxPackets glibc 1 0) = 1000 := by
    have hsame := firstTimeout_waitBehind (P := glibc) h.sending 0
    rw [h.pps, h.sent, waitBehind_onePerSecond (n := 0) (by decide)] at hsame
    exact hsame
  have hahead : ¬ glibc.round 1 ≤ maxPackets glibc 1 0 := by simpa using ahead_onePerSecond 0
  have hlate : wrapSub 64 1000 0 = 1000 := by decide
  let es : List Event := [⟨0, .clock⟩, ⟨1000, .timeout⟩, ⟨1000, .clock⟩, ⟨1000, .clock⟩,
    ⟨1000, .clock⟩]
  have hv : ValidTrace (BlastLayout.next glibc ρ oneQuery.verbose) AnswersInTime
      ⟨(w, .wait (.throttle before .now)), 3, 600⟩ es := by
    simp [es, ValidTrace, BlastLayout.next, next, main, throttledReceive, call, h.sending, h.sent,
      h.startupDate, h.pps, hfirst, hahead, periodicallyUpdateStatus, hstatus, hlate,
      updateStatusPeriod, endIteration, h.sendCount, updateStatus, hreceived, AnswersInTime,
      MissingOnly, WaitUsedUp, NoneMissed, arrivals, Outcome.holds, mainPending,
      ThrottlePos.pending]
  obtain ⟨v, hrun, hfacts⟩ : ∃ v, runTrace (BlastLayout.next glibc ρ oneQuery.verbose)
      ⟨(w, .wait (.throttle before .now)), 3, 600⟩ es =
        some ⟨(v, .wait (.drain 1000 .now)), 3, 600⟩ ∧
      v.context.sending = false ∧ v.context.receivedPackets = 0 ∧ v.context.sentPackets = 1 ∧
      v.context.timeout = w.context.timeout ∧ v.context.lastStatusUpdate = 0 ∧
      v.context.failedPackets = w.context.failedPackets ∧ v.calls = w.calls := by
    simp [es, runTrace, BlastLayout.next, next, main, throttledReceive, call, h.sending, h.sent,
      h.startupDate, h.pps, hfirst, hahead, periodicallyUpdateStatus, hstatus, hlate,
      updateStatusPeriod, endIteration, h.sendCount, updateStatus, drainLoop, hreceived]
  exact ⟨es, v, runTrace_execution (.refl _) hv hrun, hfacts⟩

/-- The run with one query up to its drain phase, with no reply yet. -/
theorem oneQuery_drains : ∃ es w,
    Execution (BlastLayout.next glibc (constantStream glibc 0 (by decide)).value oneQuery.verbose)
      AnswersInTime (BlastLayout.start oneQuery 3 0) es ⟨(w, .wait (.drain 1000 .now)), 3, 600⟩ ∧
    w.context.sending = false ∧ w.context.receivedPackets = 0 ∧ w.context.sentPackets = 1 ∧
    w.context.timeout = 600 ∧ w.context.lastStatusUpdate = 0 ∧ w.context.failedPackets = 0 ∧
    w.calls.length = 1 := by
  let ρ := constantStream glibc 0 (by decide)
  obtain ⟨w, size, hsend, hsending, hreceived, htimeout, hfailed, hcalls⟩ : ∃ w size,
      next glibc ρ.value oneQuery.verbose (start oneQuery 0) ⟨0, .clock⟩ =
        some (w, .wait (.sendto size)) ∧ Sending 1 0 0 1 0 w ∧ w.context.receivedPackets = 0 ∧
      w.context.timeout = 600 ∧ w.context.failedPackets = 0 ∧ w.calls.length = 1 :=
    ⟨_, _, rfl, ⟨rfl, rfl, le_rfl, Nat.lt_add_of_pos_right (by decide), rfl, rfl, rfl, rfl, rfl⟩,
      rfl, rfl, rfl, rfl⟩
  have hstart : AnswersInTime (BlastLayout.start oneQuery 3 0) ⟨0, .clock⟩ := by
    simp [AnswersInTime, MissingOnly, WaitUsedUp, NoneMissed, BlastLayout.start, start,
      initContext, arrivals, Outcome.holds, mainPending]
  have hinside : Inside (BlastLayout.start oneQuery 3 0) ⟨0, .clock⟩ :=
    ⟨fun _ => by decide, fun _ _ => rfl, fun d hd => by cases hd⟩
  have hpacket : AnswersInTime ⟨(w, .wait (.sendto size)), 3, 600⟩ ⟨0, .accepted⟩ := by
    simp [AnswersInTime, MissingOnly, WaitUsedUp, NoneMissed, hsending.sending, hreceived, arrivals,
      Outcome.holds, mainPending]
  have hblast := ((Execution.refl _).tail hstart
    ((next_inside hinside).trans (congrArg (Option.map _) hsend))).tail hpacket rfl
  have hsent : Sending 1 0 1 1 0 { endBlast glibc oneQuery.verbose w size with time := 0 } :=
    ⟨hsending.sending, hsending.startupDate, hsending.reported, hsending.early, hsending.pps,
      by simp [endBlast, hsending.sent], hsending.sendCount, rfl,
      by simp [endBlast, hsending.wire]⟩
  obtain ⟨es, v, hwait, hv, hnone, hone, hoption, hstatus, hkept, hsame⟩ :=
    drains_unanswered ρ.value w.context.receivedPackets hsent hreceived
  exact ⟨_, v, hblast.trans hwait, hv, hnone, hone, hoption.trans htimeout, hstatus,
    hkept.trans hfailed, (congrArg List.length hsame).trans hcalls⟩

end BlastDrain
