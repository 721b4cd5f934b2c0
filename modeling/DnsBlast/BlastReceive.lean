import DnsBlast.BlastSyscalls

/-! The receive path of dnsblast.c: receive, the status line, and throttled_receive.
Doubles are rationals rounded after every operation; `none` is an infinity or a NaN. -/
namespace BlastReceive

open WrappingIntegers ByteStores BlastHeader BlastQuery BlastSyscalls

def doubleDiv (P : Platform) (x y : ℚ) : Option ℚ :=
  if y = 0 then none else some (P.round (x / y))

def truncate (x : ℚ) : ℤ := if 0 ≤ x then ⌊x⌋ else ⌈x⌉

def toInt (P : Platform) : Option ℚ → ℤ
  | some x => if -2 ^ 31 ≤ truncate x ∧ truncate x < 2 ^ 31 then truncate x else P.invalidInt
  | none => P.invalidInt

def toUnsignedLong (P : Platform) : Option ℚ → ℕ
  | some x =>
    if 0 ≤ truncate x ∧ truncate x < 2 ^ 64 then (truncate x).toNat else P.invalidUnsignedLong
  | none => P.invalidUnsignedLong

inductive ReceivePos where
  | recv
  | clock (recvv receivedId start : ℕ)

/-- The table entry is read when the datagram arrives, before the clock. -/
def receive (verbose : Bool) (w : World) :
    ReceivePos → Event → Option (World × Outcome ReceivePos ℕ)
  | .recv, ⟨_, .received d stale⟩ =>
    let recvv := d.bytes.length
    let buf := Function.update (applyStores stale (storesAt 0 d.bytes)) recvv 0
    let receivedId := (buf 1).toNat <<< 8 + (buf 0).toNat
    some ({ w with tableLoads := w.tableLoads ++ [receivedId]
                   delivered := w.delivered ++ [d] },
      .wait (.clock recvv receivedId (w.context.datagramStart receivedId)))
  | .recv, ⟨_, .nothing .EAGAIN⟩ => some (w, .ret 1)
  | .recv, ⟨_, .nothing .EINTR⟩ => some (w, .wait .recv)
  | .recv, ⟨_, .nothing .other⟩ => some (w, .stop .abort)
  | .clock recvv receivedId start, ⟨now, .clock⟩ =>
    let elapsed := wrapSub 64 now start
    some ({ w with
      context := { w.context with receivedPackets := (w.context.receivedPackets + 1) % 2 ^ 64 }
      console := w.console ++
        if verbose then [.answer (receivedId + 1) recvv elapsed, .newline] else [] }, .ret 0)
  | _, _ => none

def updateStatus (P : Platform) (verbose : Bool) (w : World) (now : ℕ) : World :=
  let c := w.context
  let elapsed := wrapSub 64 now c.startupDate
  let rate := if c.sending then
      toUnsignedLong P (doubleDiv P (P.round (P.round c.receivedPackets * 1000))
        (P.round elapsed))
    else c.rate
  let ratio := doubleDiv P (P.round (P.round c.receivedPackets * 100)) (P.round c.sentPackets)
  { w with
    context := { c with rate := rate }
    console := w.console ++ if !verbose || !c.sending then
      [.status c.sentPackets c.receivedPackets rate ratio] else [] }

inductive StatusPos where
  | now
  | update (now : ℕ)

def periodicallyUpdateStatus (P : Platform) (verbose : Bool) (w : World) :
    StatusPos → Event → Option (World × Outcome StatusPos ℕ)
  | .now, ⟨now, .clock⟩ =>
    if wrapSub 64 now w.context.lastStatusUpdate < updateStatusPeriod then some (w, .ret 1)
    else some (w, .wait (.update now))
  | .update now, ⟨time, .clock⟩ =>
    let w := updateStatus P verbose w time
    some ({ w with context := { w.context with lastStatusUpdate := now } }, .ret 0)
  | _, _ => none

inductive QueuePos where
  | receive (p : ReceivePos)
  | status (p : StatusPos)

def emptyReceiveQueue (P : Platform) (verbose : Bool) (w : World) :
    QueuePos → Event → Option (World × Outcome QueuePos Unit)
  | .receive p, e => (receive verbose w p e).map <| call .receive fun w r =>
      (w, .wait (if r = 0 then .receive .recv else .status .now))
  | .status p, e => (periodicallyUpdateStatus P verbose w p e).map <| call .status fun w _ =>
      (w, .ret ())

inductive ThrottlePos where
  | now
  | first (p : QueuePos) (now : ℕ) (maxPackets : ℚ)
  | poll (now : ℕ) (remainingTime : ℤ)
  | status (p : StatusPos)
  | queue (p : QueuePos) (now : ℕ) (remainingTime : ℤ)
  | now2 (now : ℕ) (remainingTime : ℤ)

def maxPackets (P : Platform) (pps elapsed : ℕ) : ℚ :=
  P.round (P.round (P.round pps * P.round elapsed) / 1000)

def firstTimeout (P : Platform) (c : Context) (maxPackets : ℚ) : ℤ :=
  let excess := P.round (P.round c.sentPackets - maxPackets)
  let timeToWait := doubleDiv P excess (P.round c.pps)
  let remainingTime := toInt P (timeToWait.map fun t => P.round (t * 1000))
  if !c.sending then toSigned 32 c.timeout
  else if remainingTime < 0 then 0
  else remainingTime

/-- `remaining_time -= now2 - now`, computed in unsigned long long. -/
def lessElapsed (remainingTime : ℤ) (now2 now : ℕ) : ℤ :=
  toSigned 32 ((remainingTime - wrapSub 64 now2 now) % 2 ^ 64)

theorem lessElapsed_of_lt {remainingTime : ℤ} {now now2 : ℕ} (h0 : 0 ≤ remainingTime)
    (h1 : remainingTime < 2 ^ 31) (hle : now ≤ now2) (hlt : now2 < now + 2 ^ 31)
    (hrep : now2 < 2 ^ 64) : lessElapsed remainingTime now2 now = remainingTime - (now2 - now) := by
  rw [lessElapsed, toSigned_emod (by decide), wrapSub_of_le hle hrep, toSigned_of_range]
  all_goals omega

/-- The condition of the do-while; a `continue` in its body also leads here. -/
def pollAgain (now : ℕ) (remainingTime : ℤ) : Outcome ThrottlePos ℕ :=
  if remainingTime > 0 then .wait (.poll now remainingTime) else .ret 0

def throttledReceive (P : Platform) (verbose : Bool) (w : World) :
    ThrottlePos → Event → Option (World × Outcome ThrottlePos ℕ)
  | .now, ⟨now, .clock⟩ =>
    let elapsed := wrapSub 64 now w.context.startupDate
    let max := maxPackets P w.context.pps elapsed
    if w.context.sending ∧ P.round w.context.sentPackets ≤ max then
      some (w, .wait (.first (.receive .recv) now max))
    else some (w, .wait (.poll now (firstTimeout P w.context max)))
  | .first p now max, e => (emptyReceiveQueue P verbose w p e).map <|
      call (.first · now max) fun w _ => (w, .wait (.poll now (firstTimeout P w.context max)))
  | .poll now remainingTime, ⟨_, answer⟩ =>
    match answer with
    | .timeout =>
      if w.context.sending then some (w, .wait (.status .now))
      else some ({ w with context := { w.context with
        failedPackets := (w.context.failedPackets + 1) % 2 ^ 64 } }, .ret 1)
    | .pollFailed .other => some (w, .stop .failure)
    | .pollFailed _ => some (w, pollAgain now remainingTime)
    | .ready => some (w, .wait (.queue (.receive .recv) now remainingTime))
    | _ => none
  | .status p, e => (periodicallyUpdateStatus P verbose w p e).map <|
      call .status fun w _ => (w, .ret 0)
  | .queue p now remainingTime, e => (emptyReceiveQueue P verbose w p e).map <|
      call (.queue · now remainingTime) fun w _ => (w, .wait (.now2 now remainingTime))
  | .now2 now remainingTime, ⟨now2, .clock⟩ =>
    some (w, pollAgain now2 (lessElapsed remainingTime now2 now))
  | _, _ => none

def Reports (w v : World) : Prop :=
  ∃ lastStatusUpdate failedPackets rate console,
    v = { w with
      context := { w.context with lastStatusUpdate, failedPackets, rate }
      console := console }

theorem Reports.refl (w : World) : Reports w w := ⟨_, _, _, _, rfl⟩

theorem Reports.quiet {w v : World} (h : Reports w v) : Quiet w v := by
  obtain ⟨_, _, _, _, rfl⟩ := h
  exact ⟨rfl, rfl, rfl, rfl, rfl⟩

theorem periodicallyUpdateStatus_reports {P : Platform} {verbose : Bool} {w v : World}
    {p : StatusPos} {e : Event} {c : Outcome StatusPos ℕ}
    (h : periodicallyUpdateStatus P verbose w p e = some (v, c)) : Reports w v := by
  unfold periodicallyUpdateStatus at h
  split at h
  · split_ifs at h
    · cases h
      exact .refl w
    · cases h
      exact .refl w
  · cases h
    exact ⟨_, _, _, _, rfl⟩
  · cases h

inductive ThrottleStep (P : Platform) (verbose : Bool) (w : World) :
    ThrottlePos → Event → World → Outcome ThrottlePos ℕ → Prop where
  | behind {now max}
      (hmax : maxPackets P w.context.pps (wrapSub 64 now w.context.startupDate) = max)
      (hd : w.context.sending ∧ P.round w.context.sentPackets ≤ max) :
      ThrottleStep P verbose w .now ⟨now, .clock⟩ w (.wait (.first (.receive .recv) now max))
  | ahead {now max}
      (hmax : maxPackets P w.context.pps (wrapSub 64 now w.context.startupDate) = max)
      (hd : ¬ (w.context.sending ∧ P.round w.context.sentPackets ≤ max)) :
      ThrottleStep P verbose w .now ⟨now, .clock⟩ w
        (.wait (.poll now (firstTimeout P w.context max)))
  | first {q e v c} (now max) (hq : emptyReceiveQueue P verbose w q e = some (v, c)) :
      ThrottleStep P verbose w (.first q now max) e v
        (c.andThen (.first · now max) fun _ => .wait (.poll now (firstTimeout P v.context max)))
  | timeout (time now remainingTime) (hs : w.context.sending = true) :
      ThrottleStep P verbose w (.poll now remainingTime) ⟨time, .timeout⟩ w (.wait (.status .now))
  | missed (time now remainingTime) (hs : w.context.sending = false) :
      ThrottleStep P verbose w (.poll now remainingTime) ⟨time, .timeout⟩
        { w with context := { w.context with
          failedPackets := (w.context.failedPackets + 1) % 2 ^ 64 } } (.ret 1)
  | ready (time now remainingTime) : ThrottleStep P verbose w (.poll now remainingTime)
      ⟨time, .ready⟩ w (.wait (.queue (.receive .recv) now remainingTime))
  | interrupted (time now remainingTime errno) (he : errno ≠ .other) :
      ThrottleStep P verbose w (.poll now remainingTime) ⟨time, .pollFailed errno⟩ w
        (pollAgain now remainingTime)
  | failure (time now remainingTime) : ThrottleStep P verbose w (.poll now remainingTime)
      ⟨time, .pollFailed .other⟩ w (.stop .failure)
  | status {q e v c} (hq : periodicallyUpdateStatus P verbose w q e = some (v, c)) :
      ThrottleStep P verbose w (.status q) e v (c.andThen .status fun _ => .ret 0)
  | queue {q e v c} (now remainingTime) (hq : emptyReceiveQueue P verbose w q e = some (v, c)) :
      ThrottleStep P verbose w (.queue q now remainingTime) e v
        (c.andThen (.queue · now remainingTime) fun _ => .wait (.now2 now remainingTime))
  | again (now remainingTime now2) : ThrottleStep P verbose w (.now2 now remainingTime)
      ⟨now2, .clock⟩ w (pollAgain now2 (lessElapsed remainingTime now2 now))

theorem throttledReceive_step {P : Platform} {verbose : Bool} {w v : World} {p : ThrottlePos}
    {e : Event} {c : Outcome ThrottlePos ℕ} (h : throttledReceive P verbose w p e = some (v, c)) :
    ThrottleStep P verbose w p e v c := by
  cases p with
  | now =>
    obtain ⟨now, answer⟩ := e
    cases answer <;> try cases h
    simp only [throttledReceive] at h
    split_ifs at h with hd
    · cases h
      exact .behind rfl hd
    · cases h
      exact .ahead rfl hd
  | first q now max =>
    obtain ⟨d, hq, rfl⟩ := call_outcome h fun _ _ => rfl
    exact .first now max hq
  | poll now remainingTime =>
    obtain ⟨time, answer⟩ := e
    cases answer with
    | timeout =>
      simp only [throttledReceive] at h
      split_ifs at h with hs
      · cases h
        exact .timeout time now remainingTime hs
      · cases h
        exact .missed time now remainingTime (Bool.eq_false_iff.mpr hs)
    | ready =>
      cases h
      exact .ready time now remainingTime
    | pollFailed errno =>
      cases errno <;> cases h
      · exact .interrupted time now remainingTime .EAGAIN (by decide)
      · exact .interrupted time now remainingTime .EINTR (by decide)
      · exact .failure time now remainingTime
    | _ => cases h
  | status q =>
    obtain ⟨d, hq, rfl⟩ := call_outcome h fun _ _ => rfl
    exact .status hq
  | queue q now remainingTime =>
    obtain ⟨d, hq, rfl⟩ := call_outcome h fun _ _ => rfl
    exact .queue now remainingTime hq
  | now2 now remainingTime =>
    obtain ⟨time, answer⟩ := e
    cases answer <;> cases h
    exact .again now remainingTime time

def ReceivePos.pending : ReceivePos → Bool
  | .recv => false
  | .clock .. => true

def QueuePos.pending : QueuePos → Bool
  | .receive p => p.pending
  | .status _ => false

def ThrottlePos.pending : ThrottlePos → Bool
  | .first p _ _ => p.pending
  | .queue p _ _ => p.pending
  | _ => false

section Invariants
variable {P : Platform} {verbose : Bool} {e : Event} {I : Bool → World → Prop} {w v : World}

/-- What receive and the reports keep, emptying the queue keeps. -/
theorem emptyReceiveQueue_invariant
    (hreceive : ∀ {w v p c}, I p.pending w → receive verbose w p e = some (v, c) →
      I (c.holds ReceivePos.pending) v)
    (hreports : ∀ {w v}, I false w → Reports w v → I false v)
    {p : QueuePos} {c : Outcome QueuePos Unit} (hi : I p.pending w)
    (h : emptyReceiveQueue P verbose w p e = some (v, c)) :
    I (c.holds QueuePos.pending) v := by
  cases p with
  | receive p =>
    obtain ⟨d, hr, rfl⟩ := call_outcome h fun _ _ => rfl
    have hd := hreceive hi hr
    cases d with
    | wait q => exact hd
    | ret r =>
      simp only [Outcome.andThen]
      split_ifs
      · exact hd
      · exact hd
    | stop k => exact hd
  | status p =>
    obtain ⟨d, hr, rfl⟩ := call_outcome h fun _ _ => rfl
    have hv := hreports hi (periodicallyUpdateStatus_reports hr)
    cases d <;> exact hv

theorem throttledReceive_invariant
    (hreceive : ∀ {w v p c}, I p.pending w → receive verbose w p e = some (v, c) →
      I (c.holds ReceivePos.pending) v)
    (hreports : ∀ {w v}, I false w → Reports w v → I false v)
    {p : ThrottlePos} {c : Outcome ThrottlePos ℕ} (hi : I p.pending w)
    (h : throttledReceive P verbose w p e = some (v, c)) :
    I (c.holds ThrottlePos.pending) v := by
  have hagain : ∀ now remainingTime,
      (pollAgain now remainingTime).holds ThrottlePos.pending = false := by
    intro now remainingTime
    unfold pollAgain
    split_ifs <;> rfl
  cases throttledReceive_step h with
  | behind hmax hd => exact hi
  | ahead hmax hd => exact hi
  | @first _ _ _ d now max hq =>
    have hv := emptyReceiveQueue_invariant hreceive hreports hi hq
    cases d <;> exact hv
  | timeout time now remainingTime hs => exact hi
  | missed time now remainingTime hs => exact hreports hi ⟨_, _, _, _, rfl⟩
  | ready time now remainingTime => exact hi
  | interrupted time now remainingTime errno he => exact hagain now remainingTime ▸ hi
  | failure time now remainingTime => exact hi
  | @status _ _ _ d hq =>
    have hv := hreports hi (periodicallyUpdateStatus_reports hq)
    cases d <;> exact hv
  | @queue _ _ _ d now remainingTime hq =>
    have hv := emptyReceiveQueue_invariant hreceive hreports hi hq
    cases d <;> exact hv
  | again now remainingTime now2 => exact hagain now2 _ ▸ hi

end Invariants

theorem receive_quiet {verbose : Bool} {w v : World} {p : ReceivePos} {e : Event}
    {c : Outcome ReceivePos ℕ} (h : receive verbose w p e = some (v, c)) : Quiet w v := by
  unfold receive at h
  split at h
  all_goals cases h
  all_goals exact ⟨rfl, rfl, rfl, rfl, rfl⟩

/-- Nothing on the receive path touches what the next datagram is built from. -/
theorem throttledReceive_quiet {P : Platform} {verbose : Bool} {w v : World}
    {p : ThrottlePos} {e : Event} {c : Outcome ThrottlePos ℕ}
    (h : throttledReceive P verbose w p e = some (v, c)) : Quiet w v :=
  throttledReceive_invariant (I := fun _ u => Quiet w u)
    (fun hi hr => hi.trans (receive_quiet hr)) (fun hi hr => hi.trans hr.quiet) (.refl w) h

theorem emptyReceiveQueue_quiet {P : Platform} {verbose : Bool} {w v : World}
    {p : QueuePos} {e : Event} {c : Outcome QueuePos Unit}
    (h : emptyReceiveQueue P verbose w p e = some (v, c)) : Quiet w v :=
  emptyReceiveQueue_invariant (I := fun _ u => Quiet w u)
    (fun hi hr => hi.trans (receive_quiet hr)) (fun hi hr => hi.trans hr.quiet) (.refl w) h

end BlastReceive
