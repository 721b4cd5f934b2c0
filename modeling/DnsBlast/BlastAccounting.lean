import DnsBlast.BlastDatagram
import DnsBlast.BlastDrain
import DnsBlast.BlastLatency

/-! The books of a run without fuzzing that has left the send loop: what sendto has
accepted, the ids on the wire, and the two counters. -/
namespace BlastAccounting

open WrappingIntegers LabelledRuns BlastHeader BlastQuery BlastSyscalls BlastReceive BlastMain
  BlastTraffic BlastRealization BlastReplies BlastLatency BlastDatagram BlastDrain

structure IdsInOrder (P : Platform) (wire : List (List UInt8)) : Prop where
  carries : ∀ k (hk : k < wire.length), wire[k].take 2 = hostU16 P (k % 2 ^ 16)
  differ : ∀ i j (hi : i < wire.length) (hj : j < wire.length), i < j → j < i + 65536 →
    wire[i].take 2 ≠ wire[j].take 2

theorem idsInOrder {P : Platform} {wire : List (List UInt8)}
    (h : ∀ k (hk : k < wire.length), wire[k].take 2 = hostU16 P (k % 2 ^ 16)) :
    IdsInOrder P wire := by
  refine ⟨h, ?_⟩
  intro i j hi hj hlt hnear heq
  rw [h i hi, h j hj] at heq
  have hid := hostU16_injOn (Nat.mod_lt i (by decide)) (Nat.mod_lt j (by decide)) heq
  omega

/-- A run that has left the send loop has had its whole count accepted, in order of ids, and
has counted what it sent; received_packets counts the datagrams received modulo 2^64, but
for one that receive is still at. -/
theorem send_accounting {P : Platform} {ρ : RandStream P} {o : Options} {now : ℕ}
    {es : List Event} {s : State} (hfuzz : o.fuzz = false)
    (h : Execution (next P ρ.value o.verbose) Free (start o now) es s) (hl : LeftSendLoop s.2) :
    let pending := (s.2.holds mainPending).toNat
    s.1.wire.length = o.sendCount ∧ s.1.context.sentPackets = o.sendCount ∧
      IdsInOrder P s.1.wire ∧
      s.1.context.receivedPackets = (s.1.delivered.length - pending) % 2 ^ 64 := by
  have hprogress := execution_progressing h
  have hall := hprogress.all_sent hl
  obtain ⟨-, hcount⟩ : Counted (s.2.holds mainPending) s.1.replies :=
    execution_replies counted_receive ⟨Nat.zero_le _, rfl⟩ h
  refine ⟨hall, hprogress.sent.1.trans hall, idsInOrder ?_, hcount⟩
  intro k hk
  exact execution_ids hfuzz h k hk

/-- Two queries without a reply, whose ids are 0 and 1. -/
theorem send_accounting_two_queries : ∃ es s,
    Execution (next glibc (constantStream glibc 0 (by decide)).value slow.verbose) Free
      (start slow 0) es s ∧ s.1.wire.length = 2 ∧ s.1.context.sentPackets = 2 ∧
    s.1.context.receivedPackets = 0 ∧ IdsInOrder glibc s.1.wire := by
  let ρ := constantStream glibc 0 (by decide)
  obtain ⟨es, w, h, -, hnone⟩ := drainStart_reachable glibc ρ.value slow 0
  obtain ⟨hall, hsent, hids, hreceived⟩ := @send_accounting glibc ρ slow 0 es _ rfl h rfl
  rw [hnone] at hreceived
  exact ⟨es, _, h, hall, hsent, hreceived, hids⟩

section Wrapped
variable (P : Platform) (ρ : ℕ → ℕ) (verbose : Bool)

/-- The queue is empty, no status line is due, and what is left of the wait passes. -/
theorem queue_may_end {w : World} (hw : w.context.sending = true) (before now : ℕ)
    (remainingTime : ℤ) : ∃ es time, Execution (next P ρ verbose) Free
      (w, .wait (.throttle before (.queue (.receive .recv) now remainingTime))) es
      ({ (endIteration verbose before w).1 with time := time },
        (endIteration verbose before w).2) := by
  let last := w.context.lastStatusUpdate
  let left := lessElapsed remainingTime last now
  have hempty : Execution (next P ρ verbose) Free
      (w, .wait (.throttle before (.queue (.receive .recv) now remainingTime)))
      [⟨0, .nothing .EAGAIN⟩, ⟨last, .clock⟩]
      ({ w with time := last }, .wait (.throttle before (.now2 now remainingTime))) := by
    apply free_trace_execution
    simp [runTrace, next, main, throttledReceive, emptyReceiveQueue, receive, call,
      periodicallyUpdateStatus, updateStatusPeriod, last]
  by_cases hleft : left > 0
  · have hpoll : Execution (next P ρ verbose) Free
        ({ w with time := last }, .wait (.throttle before (.now2 now remainingTime)))
        [⟨last, .clock⟩] ({ w with time := last }, .wait (.throttle before (.poll last left))) := by
      apply free_trace_execution
      simp [runTrace, next, main, throttledReceive, pollAgain, call, left, hleft]
    obtain ⟨es, time, hend⟩ :=
      poll_may_time_out P ρ verbose (w := { w with time := last }) hw before last left
    exact ⟨_, time, (hempty.trans hpoll).trans hend⟩
  · have hend : Execution (next P ρ verbose) Free
        ({ w with time := last }, .wait (.throttle before (.now2 now remainingTime)))
        [⟨last, .clock⟩] ({ (endIteration verbose before w).1 with time := last },
          (endIteration verbose before w).2) := by
      apply free_trace_execution
      simp [runTrace, next, main, throttledReceive, pollAgain, call, endIteration, left, hleft]
    exact ⟨_, last, hempty.trans hend⟩

end Wrapped

/-- With one query and 2^64 datagrams received behind it, received_packets is zero when the
send loop is left. -/
theorem received_packets_wraps : ∃ es s,
    Execution (next glibc (constantStream glibc 0 (by decide)).value oneQuery.verbose) Free
      (start oneQuery 0) es s ∧ s.2 = .wait .status ∧
    s.1.delivered.length = 2 ^ 64 ∧ s.1.context.receivedPackets = 0 := by
  let ρ := constantStream glibc 0 (by decide)
  let answer : Datagram := ⟨[0, 0], by decide, some 0⟩
  obtain ⟨es, ⟨w, c⟩, h, hdelivered, hwire, before, now, remainingTime, hpos⟩ :=
    arrivals_possible glibc ρ.value oneQuery 0 (List.replicate (2 ^ 64) answer)
  cases hpos
  have hprogress : Progress oneQuery.sendCount w
      (.throttle before (.queue (.receive .recv) now remainingTime)) := execution_progressing h
  have hone : w.sendCount = 1 := by
    have hcount : w.wire.length + (w.sendCount - 1) = 1 := hprogress.count
    have hpositive := hprogress.positive rfl
    simp only at hwire
    omega
  obtain ⟨fs, time, hend⟩ := queue_may_end glibc ρ.value oneQuery.verbose hprogress.sending before
    now remainingTime
  obtain ⟨-, hcount⟩ : Counted false w.replies :=
    execution_replies counted_receive ⟨Nat.zero_le _, rfl⟩ h
  have hmany : w.delivered.length = 2 ^ 64 :=
    (congrArg List.length hdelivered).trans List.length_replicate
  have hzero : w.context.receivedPackets = 0 := by
    simpa [World.replies, hmany] using hcount
  refine ⟨_, _, h.trans hend, ?_, hmany, hzero⟩
  simp [endIteration, hone]

end BlastAccounting
