import DnsBlast.LabelledRuns
import DnsBlast.BlastReceive

/-! mattblast.c where it differs from dnsblast.c: a nanosecond clock, integer pacing, no
table of send times, and a drain loop without a time limit. -/
namespace MattblastMain

open WrappingIntegers ByteStores LabelledRuns BlastHeader BlastQuestion BlastQuery BlastSyscalls
  BlastReceive

def getRandomPtr (ρ : ℕ → ℕ) (name : List UInt8) : StateM ℕ (List UInt8) := do
  let octet1 ← rand ρ
  let octet2 ← rand ρ
  let octet3 ← rand ρ
  let octet4 ← rand ρ
  return overwrite name (dottedQuad (octet1 % 256) (octet2 % 256) (octet3 % 256) (octet4 % 256))

/-- The type passed in is overwritten before it is read. -/
def getQuestion (P : Platform) (ρ : ℕ → ℕ) (name : List UInt8) (_type : ℕ) :
    StateM ℕ (List UInt8 × ℕ) := do
  let type ← getRandomType P ρ
  if type = 12 then
    let name ← getRandomPtr ρ name
    return (name, type)
  else
    let name ← getRandomName ρ name
    return (name, type)

/-- The contents of the datagram are not looked at. -/
def receive (w : World) : Event → Option (World × Outcome Unit ℕ)
  | ⟨_, .received d _⟩ =>
    some ({ w with
      context := { w.context with receivedPackets := (w.context.receivedPackets + 1) % 2 ^ 64 }
      delivered := w.delivered ++ [d] }, .ret 0)
  | ⟨_, .nothing .EAGAIN⟩ => some (w, .ret 1)
  | ⟨_, .nothing .EINTR⟩ => some (w, .wait ())
  | ⟨_, .nothing .other⟩ => some (w, .stop .abort)
  | _ => none

/-- update_status with its clock reading; `none` is a division by zero. -/
def updateStatus (P : Platform) (w : World) (now : ℕ) : Option World :=
  let c := w.context
  let elapsed := wrapSub 64 now c.startupDate
  if elapsed = 0 then none
  else
    let rate := c.receivedPackets * 1000000000 % 2 ^ 64 / elapsed
    let rate := if rate > c.pps then c.pps else rate
    let ratio := doubleDiv P (P.round (P.round c.receivedPackets * 100)) (P.round c.sentPackets)
    some { w with console := w.console ++ [.status c.sentPackets c.receivedPackets rate ratio] }

def periodicallyUpdateStatus (P : Platform) (w : World) :
    StatusPos → Event → Option (World × Outcome StatusPos ℕ)
  | .now, ⟨now, .clock⟩ =>
    if wrapSub 64 now w.context.lastStatusUpdate < updateStatusPeriod then some (w, .ret 1)
    else some (w, .wait (.update now))
  | .update now, ⟨time, .clock⟩ =>
    match updateStatus P w time with
    | none => some (w, .stop .divideByZero)
    | some w => some ({ w with context := { w.context with lastStatusUpdate := now } }, .ret 0)
  | _, _ => none

inductive QueuePos where
  | receive
  | status (p : StatusPos)

def emptyReceiveQueue (P : Platform) (w : World) :
    QueuePos → Event → Option (World × Outcome QueuePos Unit)
  | .receive, e => (receive w e).map <| call (fun _ => .receive) fun w r =>
      (w, .wait (if r = 0 then .receive else .status .now))
  | .status p, e => (periodicallyUpdateStatus P w p e).map <| call .status fun w _ => (w, .ret ())

inductive ThrottlePos where
  | now
  | first (p : QueuePos) (now maxPackets : ℕ)
  | poll (now : ℕ) (remainingTime : ℤ)
  | status (p : StatusPos)
  | queue (p : QueuePos) (now : ℕ) (remainingTime : ℤ)
  | now2 (now : ℕ) (remainingTime : ℤ)

def maxPackets (pps elapsed : ℕ) : ℕ := pps * elapsed % 2 ^ 64 / 1000000000

/-- The timeout of the first poll; `none` is a division by zero. -/
def firstTimeout (c : Context) (maxPackets : ℕ) : Option ℤ :=
  if c.pps = 0 then none
  else
    let excess := wrapSub 64 c.sentPackets maxPackets
    let timeToWait := excess / c.pps
    let remainingTime := toSigned 32 (timeToWait * 1000 % 2 ^ 64 : ℕ)
    if !c.sending then some (-1)
    else if remainingTime < 0 then some 0
    else some remainingTime

def beginPoll (now maxPackets : ℕ) (w : World) : World × Outcome ThrottlePos ℕ :=
  match firstTimeout w.context maxPackets with
  | some remainingTime => (w, .wait (.poll now remainingTime))
  | none => (w, .stop .divideByZero)

/-- `remaining_time -= (now2 - now) / 1000`. -/
def lessElapsed (remainingTime : ℤ) (now2 now : ℕ) : ℤ :=
  toSigned 32 ((remainingTime - (wrapSub 64 now2 now / 1000 : ℕ)) % 2 ^ 64)

/-- The condition of the do-while; a `continue` in its body also leads here. -/
def pollAgain (now : ℕ) (remainingTime : ℤ) : Outcome ThrottlePos ℕ :=
  if remainingTime > 0 then .wait (.poll now remainingTime) else .ret 0

def throttledReceive (P : Platform) (w : World) :
    ThrottlePos → Event → Option (World × Outcome ThrottlePos ℕ)
  | .now, ⟨now, .clock⟩ =>
    let max := maxPackets w.context.pps (wrapSub 64 now w.context.startupDate)
    if w.context.sending ∧ w.context.sentPackets ≤ max then
      some (w, .wait (.first .receive now max))
    else some (beginPoll now max w)
  | .first p now max, e => (emptyReceiveQueue P w p e).map <|
      call (.first · now max) fun w _ => beginPoll now max w
  | .poll now remainingTime, ⟨_, answer⟩ =>
    match answer with
    | .timeout => some (w, .wait (.status .now))
    | .pollFailed .other => some (w, .stop .failure)
    | .pollFailed _ => some (w, pollAgain now remainingTime)
    | .ready => some (w, .wait (.queue .receive now remainingTime))
    | _ => none
  | .status p, e => (periodicallyUpdateStatus P w p e).map <| call .status fun w _ => (w, .ret 0)
  | .queue p now remainingTime, e => (emptyReceiveQueue P w p e).map <|
      call (.queue · now remainingTime) fun w _ => (w, .wait (.now2 now remainingTime))
  | .now2 now remainingTime, ⟨now2, .clock⟩ =>
    some (w, pollAgain now2 (lessElapsed remainingTime now2 now))
  | _, _ => none

def ask (P : Platform) (ρ : ℕ → ℕ) (name : List UInt8) (type : ℕ) :
    StateM ℕ (List UInt8 × ℕ) := do
  let r ← rand ρ
  if r > repeatedNameProbability P then getQuestion P ρ name type
  else return (name, type)

def beginBlast (P : Platform) (ρ : ℕ → ℕ) (w : World) : World × ℕ :=
  let called := w.context.id
  let query := queryStores P called w.name w.type
  let context := { w.context with
    question := applyStores w.context.question query.1
    id := (w.context.id + 1) % 2 ^ 16 }
  let w := { w with context := context }
  if w.context.fuzz then
    let r := (fuzz P ρ query.2).run w.draws
    ({ w with
      context := { w.context with question := applyStores context.question r.1 }
      draws := r.2
      calls := w.calls ++ [⟨called, w.name, w.type, r.1.map Prod.fst⟩] }, query.2)
  else ({ w with calls := w.calls ++ [⟨called, w.name, w.type, []⟩] }, query.2)

def endBlast (w : World) (packetSize : ℕ) : World :=
  { w with
    context := { w.context with sentPackets := (w.context.sentPackets + 1) % 2 ^ 64 }
    wire := w.wire ++ [readBytes w.context.question 0 packetSize] }

/-- Where main waits. There is no system call between the head of its loop and sendto;
`send` is the head of the loop. -/
inductive MainPos where
  | send
  | sendto (packetSize : ℕ)
  | throttle (p : ThrottlePos)
  | status
  | drain (p : ThrottlePos)
  | finalStatus

def endIteration (w : World) : World × Outcome MainPos ℕ :=
  let sendCount := wrapSub 64 w.sendCount 1
  ({ w with sendCount := sendCount }, .wait (if sendCount > 0 then .send else .status))

def drainLoop (w : World) : Outcome MainPos ℕ :=
  .wait (if w.context.sentPackets ≠ w.context.receivedPackets then .drain .now else .finalStatus)

theorem drainLoop_cases (w : World) :
    drainLoop w = .wait (.drain .now) ∨ drainLoop w = .wait .finalStatus := by
  by_cases h : w.context.sentPackets ≠ w.context.receivedPackets
  · left
    rw [drainLoop, if_pos h]
  · right
    rw [drainLoop, if_neg h]

def main (P : Platform) (ρ : ℕ → ℕ) (w : World) :
    MainPos → Event → Option (World × Outcome MainPos ℕ)
  | .send, ⟨_, .run⟩ =>
    let r := (ask P ρ w.name w.type).run w.draws
    let b := beginBlast P ρ { w with
      name := r.1.1
      type := r.1.2
      draws := r.2
      console := w.console ++ [.asked r.1.2 r.1.1] }
    some (b.1, .wait (.sendto b.2))
  | .sendto packetSize, ⟨_, .accepted⟩ => some (endBlast w packetSize, .wait (.throttle .now))
  | .sendto _, ⟨_, .refused .other⟩ => some (w, .stop .failure)
  | .sendto packetSize, ⟨_, .refused _⟩ => some (w, .wait (.sendto packetSize))
  | .throttle p, e => (throttledReceive P w p e).map <| call .throttle fun w _ => endIteration w
  | .status, ⟨now, .clock⟩ =>
    match updateStatus P w now with
    | none => some (w, .stop .divideByZero)
    | some w =>
      let w := { w with context := { w.context with sending := false } }
      some (w, drainLoop w)
  | .drain p, e => (throttledReceive P w p e).map <| call .drain fun w _ => (w, drainLoop w)
  | .finalStatus, ⟨now, .clock⟩ =>
    match updateStatus P w now with
    | none => some (w, .stop .divideByZero)
    | some w => some ({ w with console := w.console ++ [.newline] }, .ret 0)
  | _, _ => none

abbrev State := World × Outcome MainPos ℕ

def next (P : Platform) (ρ : ℕ → ℕ) : State → Event → Option State
  | (w, .wait p), e => (main P ρ w p e).map fun r => ({ r.1 with time := e.time }, r.2)
  | _, _ => none

structure Nondecreasing (s : State) (e : Event) : Prop where
  monotone : s.1.time ≤ e.time
  representable : e.time < 2 ^ 64

/-- The arguments after parsing; `assert(send_count > 0UL)` has passed. -/
structure Arguments where
  pps : ℕ
  sendCount : ℕ
  fuzz : Bool
  pps_lt : pps < 2 ^ 64
  sendCount_pos : 0 < sendCount
  sendCount_lt : sendCount < 2 ^ 64

def start (a : Arguments) (now : ℕ) : State :=
  ({ context := { initContext now a.fuzz with pps := a.pps }
     name := initialName
     type := 12
     sendCount := a.sendCount
     draws := 0
     console := []
     time := now
     wire := []
     tableStores := []
     tableLoads := []
     delivered := []
     calls := [] }, .wait .send)

inductive Step (P : Platform) (ρ : ℕ → ℕ) (w : World) :
    MainPos → Event → World → Outcome MainPos ℕ → Prop where
  | send {time r b} (hr : (ask P ρ w.name w.type).run w.draws = r)
      (hb : beginBlast P ρ { w with
        name := r.1.1
        type := r.1.2
        draws := r.2
        console := w.console ++ [.asked r.1.2 r.1.1] } = b) :
      Step P ρ w .send ⟨time, .run⟩ b.1 (.wait (.sendto b.2))
  | accept (time packetSize) : Step P ρ w (.sendto packetSize) ⟨time, .accepted⟩
      (endBlast w packetSize) (.wait (.throttle .now))
  | retry (time packetSize errno) (he : errno ≠ .other) : Step P ρ w (.sendto packetSize)
      ⟨time, .refused errno⟩ w (.wait (.sendto packetSize))
  | fail (time packetSize) : Step P ρ w (.sendto packetSize) ⟨time, .refused .other⟩ w
      (.stop .failure)
  | throttle {p e v c} (ht : throttledReceive P w p e = some (v, .wait c)) :
      Step P ρ w (.throttle p) e v (.wait (.throttle c))
  | iterate {p e v r} (ht : throttledReceive P w p e = some (v, .ret r)) :
      Step P ρ w (.throttle p) e (endIteration v).1 (endIteration v).2
  | abort {p e v k} (ht : throttledReceive P w p e = some (v, .stop k)) :
      Step P ρ w (.throttle p) e v (.stop k)
  | sent {now v} (hv : updateStatus P w now = some v) : Step P ρ w .status ⟨now, .clock⟩
      { v with context := { v.context with sending := false } }
      (drainLoop { v with context := { v.context with sending := false } })
  | drain {p e v c} (ht : throttledReceive P w p e = some (v, .wait c)) :
      Step P ρ w (.drain p) e v (.wait (.drain c))
  | drained {p e v r} (ht : throttledReceive P w p e = some (v, .ret r)) :
      Step P ρ w (.drain p) e v (drainLoop v)
  | drainAbort {p e v k} (ht : throttledReceive P w p e = some (v, .stop k)) :
      Step P ρ w (.drain p) e v (.stop k)
  | done {now v} (hv : updateStatus P w now = some v) : Step P ρ w .finalStatus ⟨now, .clock⟩
      { v with console := v.console ++ [.newline] } (.ret 0)
  | noTime {p now} (hp : p = .status ∨ p = .finalStatus) (hv : updateStatus P w now = none) :
      Step P ρ w p ⟨now, .clock⟩ w (.stop .divideByZero)

theorem main_step {P : Platform} {ρ : ℕ → ℕ} {w v : World} {p : MainPos} {e : Event}
    {c : Outcome MainPos ℕ} (h : main P ρ w p e = some (v, c)) : Step P ρ w p e v c := by
  cases p with
  | throttle p =>
    rcases call_cases h with ⟨q, hr, rfl⟩ | ⟨u, r, hr, hk⟩ | ⟨k, hr, rfl⟩
    · exact .throttle hr
    · have hv : v = (endIteration u).1 := congrArg Prod.fst hk.symm
      have hc : c = (endIteration u).2 := congrArg Prod.snd hk.symm
      exact hv ▸ hc ▸ .iterate hr
    · exact .abort hr
  | drain p =>
    rcases call_cases h with ⟨q, hr, rfl⟩ | ⟨u, r, hr, hk⟩ | ⟨k, hr, rfl⟩
    · exact .drain hr
    · cases hk
      exact .drained hr
    · exact .drainAbort hr
  | send =>
    obtain ⟨now, answer⟩ := e
    cases answer <;> cases h
    exact .send rfl rfl
  | sendto packetSize =>
    obtain ⟨now, answer⟩ := e
    cases answer with
    | accepted =>
      cases h
      exact .accept now packetSize
    | refused errno =>
      cases errno <;> cases h
      · exact .retry now packetSize .EAGAIN (by decide)
      · exact .retry now packetSize .EINTR (by decide)
      · exact .fail now packetSize
    | _ => cases h
  | status =>
    obtain ⟨now, answer⟩ := e
    cases answer <;> try cases h
    simp only [main] at h
    cases hu : updateStatus P w now with
    | none =>
      rw [hu] at h
      cases h
      exact .noTime (Or.inl rfl) hu
    | some u =>
      rw [hu] at h
      cases h
      exact .sent hu
  | finalStatus =>
    obtain ⟨now, answer⟩ := e
    cases answer <;> try cases h
    simp only [main] at h
    cases hu : updateStatus P w now with
    | none =>
      rw [hu] at h
      cases h
      exact .noTime (Or.inr rfl) hu
    | some u =>
      rw [hu] at h
      cases h
      exact .done hu

theorem next_cases {P : Platform} {ρ : ℕ → ℕ} {s t : State} {e : Event}
    (h : next P ρ s e = some t) :
    ∃ p v, s.2 = .wait p ∧ Step P ρ s.1 p e v t.2 ∧ t.1 = { v with time := e.time } := by
  obtain ⟨w, c⟩ := s
  cases c with
  | wait p =>
    obtain ⟨⟨v, d⟩, hm, rfl⟩ := Option.map_eq_some_iff.mp h
    exact ⟨p, v, rfl, main_step hm, rfl⟩
  | ret r => cases h
  | stop k => cases h

theorem nondecreasing_trace {P : Platform} {ρ : ℕ → ℕ} {s : State} {es : List Event}
    (h : (s.1.time :: es.map Event.time).IsChain (· ≤ ·)) (hrep : ∀ e ∈ es, e.time < 2 ^ 64) :
    ValidTrace (next P ρ) Nondecreasing s es := by
  induction es generalizing s with
  | nil => trivial
  | cons e es ih =>
    obtain ⟨hle, hrest⟩ := List.isChain_cons_cons.mp h
    refine ⟨⟨hle, hrep e List.mem_cons_self⟩, ?_⟩
    intro t hn
    obtain ⟨p, v, hp, hstep, ht⟩ := next_cases hn
    apply ih
    · rw [ht]
      exact hrest
    · intro f hf
      exact hrep f (List.mem_cons_of_mem e hf)

theorem receive_quiet {w v : World} {e : Event} {c : Outcome Unit ℕ}
    (h : receive w e = some (v, c)) : Quiet w v := by
  unfold receive at h
  split at h
  all_goals cases h
  all_goals exact ⟨rfl, rfl, rfl, rfl, rfl⟩

theorem updateStatus_quiet {P : Platform} {w v : World} {now : ℕ}
    (h : updateStatus P w now = some v) : Quiet w v := by
  obtain ⟨-, hv⟩ := Option.ite_none_left_eq_some.mp h
  cases hv
  exact ⟨rfl, rfl, rfl, rfl, rfl⟩

theorem periodicallyUpdateStatus_quiet {P : Platform} {w v : World} {p : StatusPos} {e : Event}
    {c : Outcome StatusPos ℕ} (h : periodicallyUpdateStatus P w p e = some (v, c)) :
    Quiet w v := by
  unfold periodicallyUpdateStatus at h
  split at h
  · split_ifs at h
    · cases h
      exact .refl w
    · cases h
      exact .refl w
  · split at h
    · cases h
      exact .refl w
    · rename_i hu
      cases h
      exact (updateStatus_quiet hu).trans ⟨rfl, rfl, rfl, rfl, rfl⟩
  · cases h

theorem periodicallyUpdateStatus_due {P : Platform} {w : World} {now : ℕ}
    (h : updateStatusPeriod ≤ wrapSub 64 now w.context.lastStatusUpdate) :
    periodicallyUpdateStatus P w .now ⟨now, .clock⟩ = some (w, .wait (.update now)) :=
  if_neg (not_lt.mpr h)

theorem periodicallyUpdateStatus_done (P : Platform) {w : World} {now : ℕ}
    (h : wrapSub 64 now w.context.startupDate ≠ 0) :
    ∃ v, periodicallyUpdateStatus P w (.update now) ⟨now, .clock⟩ = some (v, .ret 0) ∧
      v.pace = w.pace ∧ v.context.lastStatusUpdate = now := by
  obtain ⟨u, hu⟩ : ∃ u, updateStatus P w now = some u := ⟨_, if_neg h⟩
  refine ⟨{ u with context := { u.context with lastStatusUpdate := now } }, ?_, ?_, rfl⟩
  · simp only [periodicallyUpdateStatus, hu]
  · exact (updateStatus_quiet hu).pace

/-- An emptied queue goes on to the status update when that is due, and then returns. -/
theorem emptyReceiveQueue_due {P : Platform} {w : World} {now : ℕ}
    (h : updateStatusPeriod ≤ wrapSub 64 now w.context.lastStatusUpdate) :
    emptyReceiveQueue P w (.status .now) ⟨now, .clock⟩ =
      some (w, .wait (.status (.update now))) := by
  rw [emptyReceiveQueue, periodicallyUpdateStatus_due h]
  rfl

theorem emptyReceiveQueue_done (P : Platform) {w : World} {now : ℕ}
    (h : wrapSub 64 now w.context.startupDate ≠ 0) :
    ∃ v, emptyReceiveQueue P w (.status (.update now)) ⟨now, .clock⟩ = some (v, .ret ()) ∧
      v.pace = w.pace ∧ v.context.lastStatusUpdate = now := by
  obtain ⟨v, hv, hpace, hlast⟩ := periodicallyUpdateStatus_done P h
  refine ⟨v, ?_, hpace, hlast⟩
  rw [emptyReceiveQueue, hv]
  rfl

theorem emptyReceiveQueue_quiet {P : Platform} {w v : World} {p : QueuePos} {e : Event}
    {c : Outcome QueuePos Unit} (h : emptyReceiveQueue P w p e = some (v, c)) : Quiet w v := by
  cases p with
  | receive =>
    obtain ⟨d, hr, -⟩ := call_outcome h fun _ _ => rfl
    exact receive_quiet hr
  | status p =>
    obtain ⟨d, hr, -⟩ := call_outcome h fun _ _ => rfl
    exact periodicallyUpdateStatus_quiet hr

theorem beginPoll_world (now maxPackets : ℕ) (w : World) : (beginPoll now maxPackets w).1 = w := by
  unfold beginPoll
  split <;> rfl

theorem beginPoll_cases (now maxPackets : ℕ) (w : World) :
    (∃ timeout, firstTimeout w.context maxPackets = some timeout ∧
      (beginPoll now maxPackets w).2 = .wait (.poll now timeout)) ∨
    firstTimeout w.context maxPackets = none ∧
      (beginPoll now maxPackets w).2 = .stop .divideByZero := by
  unfold beginPoll
  cases firstTimeout w.context maxPackets with
  | some timeout => exact Or.inl ⟨timeout, rfl, rfl⟩
  | none => exact Or.inr ⟨rfl, rfl⟩

inductive ThrottleStep (P : Platform) (w : World) :
    ThrottlePos → Event → World → Outcome ThrottlePos ℕ → Prop where
  | behind {now max} (hmax : maxPackets w.context.pps (wrapSub 64 now w.context.startupDate) = max)
      (hd : w.context.sending ∧ w.context.sentPackets ≤ max) :
      ThrottleStep P w .now ⟨now, .clock⟩ w (.wait (.first .receive now max))
  | ahead {now max} (hmax : maxPackets w.context.pps (wrapSub 64 now w.context.startupDate) = max)
      (hd : ¬ (w.context.sending ∧ w.context.sentPackets ≤ max)) :
      ThrottleStep P w .now ⟨now, .clock⟩ w (beginPoll now max w).2
  | first {q e v c} (now max) (hq : emptyReceiveQueue P w q e = some (v, c)) :
      ThrottleStep P w (.first q now max) e v
        (c.andThen (.first · now max) fun _ => (beginPoll now max v).2)
  | timeout (time now remainingTime) : ThrottleStep P w (.poll now remainingTime)
      ⟨time, .timeout⟩ w (.wait (.status .now))
  | ready (time now remainingTime) : ThrottleStep P w (.poll now remainingTime)
      ⟨time, .ready⟩ w (.wait (.queue .receive now remainingTime))
  | interrupted (time now remainingTime errno) (he : errno ≠ .other) :
      ThrottleStep P w (.poll now remainingTime) ⟨time, .pollFailed errno⟩ w
        (pollAgain now remainingTime)
  | failure (time now remainingTime) : ThrottleStep P w (.poll now remainingTime)
      ⟨time, .pollFailed .other⟩ w (.stop .failure)
  | status {q e v c} (hq : periodicallyUpdateStatus P w q e = some (v, c)) :
      ThrottleStep P w (.status q) e v (c.andThen .status fun _ => .ret 0)
  | queue {q e v c} (now remainingTime) (hq : emptyReceiveQueue P w q e = some (v, c)) :
      ThrottleStep P w (.queue q now remainingTime) e v
        (c.andThen (.queue · now remainingTime) fun _ => .wait (.now2 now remainingTime))
  | again (now remainingTime now2) : ThrottleStep P w (.now2 now remainingTime)
      ⟨now2, .clock⟩ w (pollAgain now2 (lessElapsed remainingTime now2 now))

theorem throttledReceive_step {P : Platform} {w v : World} {p : ThrottlePos} {e : Event}
    {c : Outcome ThrottlePos ℕ} (h : throttledReceive P w p e = some (v, c)) :
    ThrottleStep P w p e v c := by
  have hbegin : ∀ now max u, beginPoll now max u = (u, (beginPoll now max u).2) :=
    fun now max u => Prod.ext (beginPoll_world now max u) rfl
  cases p with
  | now =>
    obtain ⟨now, answer⟩ := e
    cases answer <;> try cases h
    simp only [throttledReceive] at h
    split_ifs at h with hd
    · cases h
      exact .behind rfl hd
    · rw [hbegin] at h
      cases h
      exact .ahead rfl hd
  | first q now max =>
    obtain ⟨d, hq, rfl⟩ := call_outcome h fun u _ => hbegin now max u
    exact .first now max hq
  | poll now remainingTime =>
    obtain ⟨time, answer⟩ := e
    cases answer with
    | pollFailed errno =>
      cases errno <;> cases h
      · exact .interrupted time now remainingTime .EAGAIN (by decide)
      · exact .interrupted time now remainingTime .EINTR (by decide)
      · exact .failure time now remainingTime
    | timeout =>
      cases h
      exact .timeout time now remainingTime
    | ready =>
      cases h
      exact .ready time now remainingTime
    | _ => cases h
  | status q =>
    obtain ⟨d, hq, rfl⟩ := call_outcome h fun _ _ => rfl
    exact .status hq
  | queue q now remainingTime =>
    obtain ⟨d, hq, rfl⟩ := call_outcome h fun _ _ => rfl
    exact .queue now remainingTime hq
  | now2 now remainingTime =>
    obtain ⟨time, answer⟩ := e
    cases answer <;> cases h
    exact .again now remainingTime time

/-- Nothing on the receive path touches what the next datagram is built from. -/
theorem throttledReceive_quiet {P : Platform} {w v : World} {p : ThrottlePos} {e : Event}
    {c : Outcome ThrottlePos ℕ} (h : throttledReceive P w p e = some (v, c)) : Quiet w v := by
  cases throttledReceive_step h with
  | first now max hq => exact emptyReceiveQueue_quiet hq
  | status hq => exact periodicallyUpdateStatus_quiet hq
  | queue now remainingTime hq => exact emptyReceiveQueue_quiet hq
  | _ => exact .refl w

end MattblastMain
