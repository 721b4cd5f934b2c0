import DnsBlast.BlastTraffic

/-! The other direction: whatever the generator produces within the count of the command
line, some run of the process hands to sendto. In that run no reply arrives. -/
namespace BlastRealization

open WrappingIntegers LabelledRuns BlastHeader BlastQuery BlastSyscalls BlastReceive BlastMain
  BlastTraffic

section Realized
variable (P : Platform) (ρ : ℕ → ℕ) (verbose : Bool)

theorem poll_may_time_out {w : World} (hw : w.context.sending = true) (before now : ℕ)
    (remainingTime : ℤ) : ∃ es time, Execution (next P ρ verbose) Free
      (w, .wait (.throttle before (.poll now remainingTime))) es
      ({ (endIteration verbose before w).1 with time := time },
        (endIteration verbose before w).2) := by
  refine ⟨[⟨0, .timeout⟩, ⟨w.context.lastStatusUpdate, .clock⟩], w.context.lastStatusUpdate,
    free_trace_execution ?_⟩
  simp [runTrace, next, main, throttledReceive, call, hw, periodicallyUpdateStatus,
    updateStatusPeriod, endIteration]

theorem poll_may_begin {w : World} (hw : w.context.sending = true) (before : ℕ) :
    ∃ es time now remainingTime, Execution (next P ρ verbose) Free
      (w, .wait (.throttle before .now)) es
      ({ w with time := time }, .wait (.throttle before (.poll now remainingTime))) := by
  let max := maxPackets P w.context.pps (wrapSub 64 0 w.context.startupDate)
  let remainingTime := firstTimeout P w.context max
  by_cases hb : P.round w.context.sentPackets ≤ max
  · refine ⟨[⟨0, .clock⟩, ⟨0, .nothing .EAGAIN⟩, ⟨w.context.lastStatusUpdate, .clock⟩],
      w.context.lastStatusUpdate, 0, remainingTime, free_trace_execution ?_⟩
    simp [runTrace, next, main, throttledReceive, emptyReceiveQueue, receive, call, hw, hb,
      periodicallyUpdateStatus, updateStatusPeriod, remainingTime, max]
  · refine ⟨[⟨0, .clock⟩], 0, 0, remainingTime, free_trace_execution ?_⟩
    simp [runTrace, next, main, throttledReceive, call, hw, hb, remainingTime, max]

theorem accepted_may_poll {w : World} (hw : w.context.sending = true) (packetSize : ℕ) :
    ∃ es time now remainingTime, Execution (next P ρ verbose) Free
      (w, .wait (.sendto packetSize)) es
      ({ endBlast P verbose w packetSize with time := time },
        .wait (.throttle w.context.receivedPackets (.poll now remainingTime))) := by
  have haccept : Execution (next P ρ verbose) Free (w, .wait (.sendto packetSize))
      [⟨0, .accepted⟩] ({ endBlast P verbose w packetSize with time := 0 },
        .wait (.throttle w.context.receivedPackets .now)) := free_trace_execution rfl
  obtain ⟨es, time, now, remainingTime, hpoll⟩ := poll_may_begin P ρ verbose
    (w := { endBlast P verbose w packetSize with time := 0 }) hw w.context.receivedPackets
  exact ⟨_, time, now, remainingTime, haccept.trans hpoll⟩

/-- An iteration in which sendto accepts the packet and nothing arrives. -/
theorem iteration_possible {w : World} (hw : w.context.sending = true) (packetSize : ℕ) :
    ∃ es t, Execution (next P ρ verbose) Free (w, .wait (.sendto packetSize)) es t ∧
      t.1.wire = w.wire ++ [packet w packetSize] ∧ t.1.delivered = w.delivered ∧
      t.2 = .wait (if wrapSub 64 w.sendCount 1 > 0 then .send else .status) := by
  obtain ⟨es, time, now, remainingTime, hpoll⟩ := accepted_may_poll P ρ verbose hw packetSize
  obtain ⟨fs, time', hend⟩ := poll_may_time_out P ρ verbose
    (w := { endBlast P verbose w packetSize with time := time }) hw w.context.receivedPackets
    now remainingTime
  exact ⟨_, _, hpoll.trans hend, rfl, rfl, rfl⟩

theorem send_possible (w : World) : ∃ v packetSize, Execution (next P ρ verbose) Free
    (w, .wait .send) [⟨0, .clock⟩] (v, .wait (.sendto packetSize)) ∧ v.wire = w.wire ∧
    v.delivered = w.delivered ∧ v.context.sending = w.context.sending := by
  obtain ⟨hpace, hreplies, hwire⟩ := beginBlast_keeps P ρ { w with
    name := ((ask P ρ w.name w.type).run w.draws).1.1
    type := ((ask P ρ w.name w.type).run w.draws).1.2
    draws := ((ask P ρ w.name w.type).run w.draws).2 } 0
  exact ⟨_, _, free_trace_execution rfl, hwire, congrArg Replies.delivered hreplies,
    congrArg Pace.sending hpace⟩

/-- Any number of packets within the count, while nothing arrives. -/
theorem packet_reachable (o : Options) (now : ℕ) {n : ℕ} (hn : n < o.sendCount) :
    ∃ es w packetSize, Execution (next P ρ o.verbose) Free (start o now) es
      (w, .wait (.sendto packetSize)) ∧ w.wire.length = n ∧ w.delivered = [] := by
  induction n with
  | zero =>
    obtain ⟨v, packetSize, h, hwire, hdelivered, -⟩ :=
      send_possible P ρ o.verbose (start o now).1
    exact ⟨_, v, packetSize, h, congrArg List.length hwire, hdelivered⟩
  | succ n ih =>
    obtain ⟨es, w, packetSize, h, hlen, hnone⟩ := ih (by omega)
    have hprogress : Progress o.sendCount w (.sendto packetSize) := execution_progressing h
    have hcount : w.wire.length + w.sendCount = o.sendCount := hprogress.count
    obtain ⟨fs, ⟨u, c⟩, hi, hwire, hdelivered, hpos⟩ :=
      iteration_possible P ρ o.verbose hprogress.sending packetSize
    have hleft : wrapSub 64 w.sendCount 1 = w.sendCount - 1 :=
      wrapSub_of_le (hprogress.positive rfl) hprogress.small
    rw [hleft, if_pos (by omega)] at hpos
    cases hpos
    obtain ⟨v, size, hs, hv, hdelivered', -⟩ := send_possible P ρ o.verbose u
    refine ⟨_, v, size, (h.trans hi).trans hs, ?_, ?_⟩
    · rw [hv, hwire, List.length_append, hlen]
      rfl
    · rw [hdelivered', hdelivered, hnone]

/-- All packets of the count are sent and no reply has come when the drain phase begins. -/
theorem drainStart_reachable (o : Options) (now : ℕ) :
    ∃ es w, Execution (next P ρ o.verbose) Free (start o now) es (w, .wait .drainStart) ∧
      w.wire.length = o.sendCount ∧ w.delivered = [] := by
  have hpos := o.sendCount_pos
  obtain ⟨es, w, packetSize, h, hlen, hnone⟩ := packet_reachable P ρ o now
    (show o.sendCount - 1 < o.sendCount by omega)
  have hprogress : Progress o.sendCount w (.sendto packetSize) := execution_progressing h
  have hcount : w.wire.length + w.sendCount = o.sendCount := hprogress.count
  have hone : w.sendCount = 1 := by omega
  obtain ⟨fs, ⟨u, c⟩, hi, hwire, hdelivered, hc⟩ :=
    iteration_possible P ρ o.verbose hprogress.sending packetSize
  rw [hone, wrapSub_self, if_neg (by decide)] at hc
  cases hc
  obtain ⟨v, hs, hvwire, hvdelivered⟩ : ∃ v, Execution (next P ρ o.verbose) Free
      (u, .wait .status) [⟨0, .clock⟩] (v, .wait .drainStart) ∧ v.wire = u.wire ∧
      v.delivered = u.delivered := ⟨_, free_trace_execution rfl, rfl, rfl⟩
  refine ⟨_, v, (h.trans hi).trans hs, ?_, ?_⟩
  · rw [hvwire, hwire, List.length_append, List.length_singleton, hlen]
    omega
  · rw [hvdelivered, hdelivered, hnone]

/-- Datagrams received one after the other, once poll has reported the socket ready. -/
theorem arrivals_while_emptying (before now : ℕ) (remainingTime : ℤ) (ds : List Datagram)
    (w : World) : ∃ es v, Execution (next P ρ verbose) Free
      (w, .wait (.throttle before (.queue (.receive .recv) now remainingTime))) es
      (v, .wait (.throttle before (.queue (.receive .recv) now remainingTime))) ∧
      v.delivered = w.delivered ++ ds ∧ v.wire = w.wire := by
  induction ds generalizing w with
  | nil => exact ⟨[], w, .refl _, (List.append_nil _).symm, rfl⟩
  | cons d ds ih =>
    obtain ⟨u, hu, hdelivered, hwire⟩ : ∃ u, Execution (next P ρ verbose) Free
        (w, .wait (.throttle before (.queue (.receive .recv) now remainingTime)))
        [⟨0, .received d fun _ => 0⟩, ⟨0, .clock⟩]
        (u, .wait (.throttle before (.queue (.receive .recv) now remainingTime))) ∧
        u.delivered = w.delivered ++ [d] ∧ u.wire = w.wire :=
      ⟨_, free_trace_execution rfl, rfl, rfl⟩
    obtain ⟨es, v, hv, hdelivered', hwire'⟩ := ih u
    refine ⟨_, v, hu.trans hv, ?_, hwire'.trans hwire⟩
    rw [hdelivered', hdelivered, List.append_assoc]
    rfl

/-- Any datagrams may arrive behind the first query. -/
theorem arrivals_possible (o : Options) (now : ℕ) (ds : List Datagram) :
    ∃ es s, Execution (next P ρ o.verbose) Free (start o now) es s ∧ s.1.delivered = ds ∧
      s.1.wire.length = 1 ∧ ∃ before now' remainingTime,
        s.2 = .wait (.throttle before (.queue (.receive .recv) now' remainingTime)) := by
  obtain ⟨w, size, hsend, hwire, hdelivered, hsending⟩ :=
    send_possible P ρ o.verbose (start o now).1
  obtain ⟨es, time, now', remainingTime, hpoll⟩ := accepted_may_poll P ρ o.verbose hsending size
  obtain ⟨u, hready, hu⟩ : ∃ u, Execution (next P ρ o.verbose) Free
      ({ endBlast P o.verbose w size with time := time },
        .wait (.throttle w.context.receivedPackets (.poll now' remainingTime))) [⟨0, .ready⟩]
      (u, .wait (.throttle w.context.receivedPackets
        (.queue (.receive .recv) now' remainingTime))) ∧
      u.delivered = w.delivered ∧ u.wire = w.wire ++ [packet w size] :=
    ⟨_, free_trace_execution rfl, rfl, rfl⟩
  obtain ⟨fs, v, hv, hds, hvwire⟩ := arrivals_while_emptying P ρ o.verbose
    w.context.receivedPackets now' remainingTime ds u
  refine ⟨_, _, ((hsend.trans hpoll).trans hready).trans hv, ?_, ?_, _, _, _, rfl⟩
  · rw [hds, hu.1, hdelivered]
    rfl
  · rw [hvwire, hu.2, hwire]
    rfl

/-- Every datagram of the generator is handed to sendto in some run. -/
theorem traffic_realized (o : Options) (now : ℕ) {n : ℕ} (hn : n < o.sendCount) :
    ∃ es s, Execution (next P ρ o.verbose) Free (start o now) es s ∧
      let g := traffic P ρ (ask P ρ) (firstSender o.fuzz) (n + 1)
      handed s = g.sent ∧ s.1.sender = g.sender := by
  obtain ⟨es, w, packetSize, h, hlen, -⟩ := packet_reachable P ρ o now hn
  obtain ⟨m, hm⟩ := execution_emits h
  have hhanded := hm.running _ rfl
  have hmn : m = n + 1 := by
    have hl := congrArg List.length hhanded
    rw [traffic_length, handed, List.length_append, hlen] at hl
    exact hl
  subst hmn
  exact ⟨es, _, h, hhanded.symm, hm.sender.symm⟩

end Realized

end BlastRealization
