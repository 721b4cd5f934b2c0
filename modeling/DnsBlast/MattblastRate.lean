import DnsBlast.MattblastFirstPoll

/-! The rate limit of mattblast. The wait of throttled_receive is in milliseconds, and each
reply takes from it the microseconds that passed since the last clock reading. -/
namespace MattblastRate

open WrappingIntegers ByteStores LabelledRuns RateSchedules BlastHeader BlastQuery BlastSyscalls
  MattblastMain MattblastFirstPoll

def pollTimeout : Outcome MainPos ℕ → Option ℤ
  | .wait (.throttle (.poll _ remainingTime)) => some remainingTime
  | .wait (.drain (.poll _ remainingTime)) => some remainingTime
  | _ => none

/-- A nanosecond clock that does not go back, products with pps that fit, and a poll that
times out no earlier than it was told. -/
structure Timely (s : State) (e : Event) : Prop where
  monotone : s.1.time ≤ e.time
  representable : e.time < 2 ^ 64
  budget : s.1.context.pps * (e.time - s.1.context.startupDate) < 2 ^ 64
  waits : ∀ timeout, pollTimeout s.2 = some timeout → 0 ≤ timeout → e.answer = .timeout →
    s.1.time + 1000000 * timeout ≤ e.time

/-- At clock reading `time` the sender is at most a second ahead of its schedule. -/
def WithinSecond (g : Pace) (time : ℕ) : Prop :=
  g.sentPackets ≤ allowance 1000000000 g.pps (time - g.startupDate) + g.pps

/-- The clock reading after a reply: no wait was left, or less than a microsecond of it has
passed, or the schedule has come within a second of the sender. -/
def Unhurried (s : State) (e : Event) : Prop :=
  ∀ now remainingTime, s.2 = .wait (.throttle (.now2 now remainingTime)) →
    remainingTime ≤ 0 ∨ e.time < now + 1000 ∨ WithinSecond s.1.pace e.time

/-- The state of the do-while: unless the sender is already within a second of its
schedule, the wait from `now` lasts until it is. -/
structure Waiting (g : Pace) (time now : ℕ) (remainingTime : ℤ) : Prop where
  past : now ≤ time
  reaches : WithinSecond g time ∨ ∃ wait : ℕ, remainingTime = wait ∧ 0 < wait ∧ wait < 2 ^ 31 ∧
    WithinSecond g (now + 1000000 * wait)

def Paced (g : Pace) (time : ℕ) : ThrottlePos → Prop
  | .now => g.startupDate ≤ time ∧
      g.sentPackets ≤ allowance 1000000000 g.pps (time - g.startupDate) + g.pps + 1
  | .first _ now _ => now ≤ time ∧ WithinSecond g time
  | .status _ => WithinSecond g time
  | .poll now remainingTime => Waiting g time now remainingTime
  | .queue _ now remainingTime => Waiting g time now remainingTime
  | .now2 now remainingTime => Waiting g time now remainingTime

def PacedOutcome (g : Pace) (time : ℕ) : Outcome ThrottlePos ℕ → Prop
  | .wait p => Paced g time p
  | .ret _ => WithinSecond g time
  | .stop _ => True

theorem WithinSecond.later {g : Pace} {time time' : ℕ} (h : WithinSecond g time)
    (ht : time ≤ time') : WithinSecond g time' :=
  le_trans h (Nat.add_le_add_right (allowance_mono (Nat.sub_le_sub_right ht _)) _)

theorem Waiting.later {g : Pace} {time time' now : ℕ} {remainingTime : ℤ}
    (h : Waiting g time now remainingTime) (ht : time ≤ time') :
    Waiting g time' now remainingTime :=
  ⟨h.past.trans ht, h.reaches.imp_left fun hw => hw.later ht⟩

/-- A poll that times out has waited until the sender is within a second. -/
theorem Waiting.elapsed {g : Pace} {time time' now : ℕ} {remainingTime : ℤ}
    (h : Waiting g time now remainingTime) (ht : time ≤ time')
    (hwait : 0 ≤ remainingTime → time + 1000000 * remainingTime ≤ time') :
    WithinSecond g time' := by
  rcases h.reaches with hw | ⟨wait, rfl, -, -, hw⟩
  · exact hw.later ht
  · have hover := hwait (Int.natCast_nonneg wait)
    have hpast := h.past
    apply hw.later
    omega

theorem Waiting.pollAgain {g : Pace} {time now : ℕ} {remainingTime : ℤ}
    (h : Waiting g time now remainingTime) : PacedOutcome g time (pollAgain now remainingTime) := by
  unfold MattblastMain.pollAgain
  split_ifs with hpos
  · exact h
  · rcases h.reaches with hw | ⟨wait, rfl, hwait, -⟩
    · exact hw
    · exact absurd (Int.natCast_pos.mpr hwait) hpos

/-- Less than a microsecond takes nothing from the wait. -/
theorem lessElapsed_soon {wait now now2 : ℕ} (hwait : wait < 2 ^ 31) (hle : now ≤ now2)
    (hsoon : now2 < now + 1000) (hrep : now2 < 2 ^ 64) : lessElapsed wait now2 now = wait := by
  have hzero : (now2 - now) / 1000 = 0 := Nat.div_eq_of_lt (by omega)
  rw [lessElapsed, wrapSub_of_le hle hrep, hzero, toSigned_emod (by decide), toSigned_of_range]
  all_goals omega

/-- Who is a second and one packet ahead first waits for at least a second. -/
theorem waiting_firstTimeout {w : World} {now : ℕ} {timeout : ℤ}
    (hs : w.context.sending = true) (hpps : 0 < w.context.pps)
    (hsent : w.context.sentPackets < 2 ^ 64)
    (hlimit : w.context.sentPackets ≤ allowance 1000000000 w.context.pps
      (now - w.context.startupDate) + w.context.pps + 1)
    (hstart : w.context.startupDate ≤ now)
    (ht : firstTimeout w.context (allowance 1000000000 w.context.pps
      (now - w.context.startupDate)) = some timeout) :
    Waiting w.pace now now timeout := by
  refine ⟨le_rfl, ?_⟩
  by_cases hw : WithinSecond w.pace now
  · exact Or.inl hw
  · right
    let budget := allowance 1000000000 w.context.pps (now - w.context.startupDate)
    let seconds := (w.context.sentPackets - budget) / w.context.pps
    have hover : budget + w.context.pps < w.context.sentPackets := not_le.mp hw
    have hexcess : w.context.sentPackets - budget = w.context.pps + 1 := by
      have hlimit' : w.context.sentPackets ≤ budget + w.context.pps + 1 := hlimit
      omega
    have hone : 1 ≤ seconds := by
      simp only [seconds, hexcess]
      exact (Nat.one_le_div_iff hpps).mpr (Nat.le_succ _)
    have htwo : seconds ≤ 2 := by
      simp only [seconds, hexcess]
      apply Nat.div_le_of_le_mul
      omega
    have hfirst : firstTimeout w.context budget = some ((seconds * 1000 : ℕ) : ℤ) :=
      firstTimeout_ahead hs hpps hsent (by omega) (by simp only [seconds] at htwo; omega)
    refine ⟨seconds * 1000, Option.some.inj (ht.symm.trans hfirst), by omega, by omega, ?_⟩
    have hnext : budget + w.context.pps ≤ allowance 1000000000 w.context.pps
        (now + 1000000 * (seconds * 1000) - w.context.startupDate) := by
      rw [← allowance_add_unit (by decide)]
      apply allowance_mono
      omega
    have hgoal : w.context.sentPackets ≤ allowance 1000000000 w.context.pps
        (now + 1000000 * (seconds * 1000) - w.context.startupDate) + w.context.pps := by
      omega
    exact hgoal

/-- A reply that comes soon enough, or late enough, keeps the wait long enough. -/
theorem Waiting.reply {g : Pace} {time now now2 : ℕ} {remainingTime : ℤ}
    (h : Waiting g time now remainingTime) (ht : time ≤ now2) (hrep : now2 < 2 ^ 64)
    (hu : remainingTime ≤ 0 ∨ now2 < now + 1000 ∨ WithinSecond g now2) :
    Waiting g now2 now2 (lessElapsed remainingTime now2 now) := by
  have hle : now ≤ now2 := h.past.trans ht
  refine ⟨le_rfl, ?_⟩
  rcases h.reaches with hw | ⟨wait, rfl, hpos, hfit, hw⟩
  · exact Or.inl (hw.later ht)
  · rcases hu with hzero | hsoon | hnow
    · omega
    · right
      rw [lessElapsed_soon hfit hle hsoon hrep]
      exact ⟨wait, rfl, hpos, hfit, hw.later (Nat.add_le_add_right hle _)⟩
    · exact Or.inl hnow

theorem paced_beginPoll {g : Pace} {w : World} {now max time : ℕ}
    (hw : ∀ timeout, firstTimeout w.context max = some timeout → Waiting g time now timeout) :
    PacedOutcome g time (beginPoll now max w).2 := by
  rcases beginPoll_cases now max w with ⟨timeout, ht, hpoll⟩ | ⟨-, hstop⟩
  · rw [hpoll]
    exact hw timeout ht
  · rw [hstop]
    trivial

theorem throttledReceive_paced {P : Platform} {w v : World} {p : ThrottlePos} {e : Event}
    {c : Outcome ThrottlePos ℕ} (hs : w.context.sending = true) (hpps : 0 < w.context.pps)
    (hsent : w.context.sentPackets < 2 ^ 64)
    (he : Timely (w, .wait (.throttle p)) e) (hu : Unhurried (w, .wait (.throttle p)) e)
    (hp : Paced w.pace w.time p) (h : throttledReceive P w p e = some (v, c)) :
    PacedOutcome v.pace e.time c := by
  rw [(throttledReceive_quiet h).pace]
  have hmono := he.monotone
  -- at the call the sender is at most a second and one packet ahead of its budget
  have hlimit : p = .now → w.context.startupDate ≤ e.time ∧
      w.context.sentPackets ≤ allowance 1000000000 w.context.pps
        (e.time - w.context.startupDate) + w.context.pps + 1 ∧
      maxPackets w.context.pps (wrapSub 64 e.time w.context.startupDate) =
        allowance 1000000000 w.context.pps (e.time - w.context.startupDate) := by
    rintro rfl
    obtain ⟨hbegun, hahead⟩ := hp
    have hstart : w.context.startupDate ≤ e.time := hbegun.trans hmono
    refine ⟨hstart, ?_, ?_⟩
    · exact hahead.trans (Nat.succ_le_succ (Nat.add_le_add_right
        (allowance_mono (Nat.sub_le_sub_right hmono _)) _))
    · rw [wrapSub_of_le hstart he.representable, maxPackets_eq_allowance he.budget]
  cases throttledReceive_step h with
  | behind hmax hd =>
    obtain ⟨-, -, hbudget⟩ := hlimit rfl
    exact ⟨le_rfl, (hbudget ▸ hmax ▸ hd.2).trans (Nat.le_add_right _ _)⟩
  | ahead hmax hd =>
    obtain ⟨hstart, hahead, hbudget⟩ := hlimit rfl
    subst hmax
    rw [hbudget]
    apply paced_beginPoll
    intro timeout ht
    exact waiting_firstTimeout hs hpps hsent hahead hstart ht
  | @first _ _ _ d now max hq =>
    obtain ⟨hpast, hw⟩ := hp
    cases d with
    | wait r => exact ⟨hpast.trans hmono, hw.later hmono⟩
    | ret r =>
      apply paced_beginPoll
      intro _ _
      exact ⟨hpast.trans hmono, Or.inl (hw.later hmono)⟩
    | stop k => trivial
  | timeout time now remainingTime =>
    have hp' : Waiting w.pace w.time now remainingTime := hp
    exact hp'.elapsed hmono fun hpos => he.waits remainingTime rfl hpos rfl
  | ready time now remainingTime => exact Waiting.later hp hmono
  | interrupted time now remainingTime errno herrno => exact (Waiting.later hp hmono).pollAgain
  | failure time now remainingTime => trivial
  | @status _ _ _ d hq =>
    have hw : WithinSecond w.pace w.time := hp
    cases d with
    | wait r => exact hw.later hmono
    | ret r => exact hw.later hmono
    | stop k => trivial
  | @queue _ _ _ d now remainingTime hq =>
    have hp' : Waiting w.pace w.time now remainingTime := hp
    cases d with
    | wait r => exact hp'.later hmono
    | ret r => exact hp'.later hmono
    | stop k => trivial
  | again now remainingTime now2 =>
    apply Waiting.pollAgain
    exact Waiting.reply hp hmono he.representable (hu now remainingTime rfl)

def OnTime (w : World) (time : ℕ) : Outcome MainPos ℕ → Prop
  | .wait .send => w.context.sending = true ∧ WithinSecond w.pace time
  | .wait (.sendto _) => w.context.sending = true ∧ WithinSecond w.pace time
  | .wait (.throttle p) => w.context.sending = true ∧ Paced w.pace time p
  | _ => True

structure Scheduled (pps begin : ℕ) (s : State) : Prop where
  startupDate : s.1.context.startupDate = begin
  pps : s.1.context.pps = pps
  representable : s.1.context.sentPackets < 2 ^ 64
  begun : begin ≤ s.1.time
  onTime : OnTime s.1 s.1.time s.2

theorem endIteration_onTime {w : World} {time : ℕ} (hs : w.context.sending = true)
    (hw : WithinSecond w.pace time) : OnTime (endIteration w).1 time (endIteration w).2 := by
  have hw' : WithinSecond (endIteration w).1.pace time := hw
  simp only [endIteration] at hw' ⊢
  by_cases hz : wrapSub 64 w.sendCount 1 > 0
  · rw [if_pos hz]
    exact ⟨hs, hw'⟩
  · rw [if_neg hz]
    trivial

theorem beginBlast_pace (P : Platform) (ρ : ℕ → ℕ) (w : World) :
    (beginBlast P ρ w).1.pace = w.pace := by
  simp only [beginBlast]
  split_ifs <;> rfl

theorem endBlast_paced {w : World} {packetSize time : ℕ} (hstart : w.context.startupDate ≤ time)
    (hw : WithinSecond w.pace time) : Paced (endBlast w packetSize).pace time .now := by
  refine ⟨hstart, ?_⟩
  calc (w.context.sentPackets + 1) % 2 ^ 64 ≤ w.context.sentPackets + 1 := Nat.mod_le _ _
    _ ≤ _ := Nat.succ_le_succ hw

theorem OnTime.at_time {w : World} {time : ℕ} {c : Outcome MainPos ℕ} (h : OnTime w time c)
    (time' : ℕ) : OnTime { w with time := time' } time c := by
  cases c with
  | wait p => cases p <;> exact h
  | ret r => trivial
  | stop k => trivial

theorem step_onTime {P : Platform} {ρ : ℕ → ℕ} {w v : World} {p : MainPos} {e : Event}
    {c : Outcome MainPos ℕ} (hpps : 0 < w.context.pps) (hsent : w.context.sentPackets < 2 ^ 64)
    (hstart : w.context.startupDate ≤ w.time) (he : Timely (w, .wait p) e)
    (hu : Unhurried (w, .wait p) e) (ho : OnTime w w.time (.wait p)) (h : Step P ρ w p e v c) :
    OnTime v e.time c := by
  have hmono := he.monotone
  have hthrottle : ∀ {q u d}, p = .throttle q → throttledReceive P w q e = some (u, d) →
      u.context.sending = true ∧ PacedOutcome u.pace e.time d := by
    rintro q u d rfl ht
    have hpaced := throttledReceive_paced ho.1 hpps hsent he hu ho.2 ht
    exact ⟨(congrArg Pace.sending (throttledReceive_quiet ht).pace).trans ho.1, hpaced⟩
  cases h with
  | send hr hb =>
    subst hr hb
    have hpace := beginBlast_pace P ρ { w with
      name := ((ask P ρ w.name w.type).run w.draws).1.1
      type := ((ask P ρ w.name w.type).run w.draws).1.2
      draws := ((ask P ρ w.name w.type).run w.draws).2
      console := w.console ++ [.asked ((ask P ρ w.name w.type).run w.draws).1.2
        ((ask P ρ w.name w.type).run w.draws).1.1] }
    refine ⟨(congrArg Pace.sending hpace).trans ho.1, ?_⟩
    rw [hpace]
    exact ho.2.later hmono
  | accept time packetSize =>
    exact ⟨ho.1, endBlast_paced (hstart.trans hmono) (ho.2.later hmono)⟩
  | retry time packetSize errno => exact ⟨ho.1, ho.2.later hmono⟩
  | fail time packetSize => trivial
  | throttle ht => exact hthrottle rfl ht
  | iterate ht =>
    obtain ⟨hsending, hw⟩ := hthrottle rfl ht
    exact endIteration_onTime hsending hw
  | abort ht => trivial
  | sent hv => rcases drainLoop_cases _ with hd | hd <;> rw [hd] <;> trivial
  | drain ht => trivial
  | drained ht => rcases drainLoop_cases v with hd | hd <;> rw [hd] <;> trivial
  | drainAbort ht => trivial
  | done hv => trivial
  | noTime hp hv => trivial

theorem step_clock {P : Platform} {ρ : ℕ → ℕ} {w v : World} {p : MainPos} {e : Event}
    {c : Outcome MainPos ℕ} (hsent : w.context.sentPackets < 2 ^ 64) (h : Step P ρ w p e v c) :
    v.context.startupDate = w.context.startupDate ∧ v.context.pps = w.context.pps ∧
      v.context.sentPackets < 2 ^ 64 := by
  have hkept : ∀ {u : World}, u.pace = w.pace → u.context.startupDate = w.context.startupDate ∧
      u.context.pps = w.context.pps ∧ u.context.sentPackets < 2 ^ 64 := by
    intro u hu
    have hsame : u.context.sentPackets = w.context.sentPackets := congrArg Pace.sentPackets hu
    exact ⟨congrArg Pace.startupDate hu, congrArg Pace.pps hu, hsame ▸ hsent⟩
  cases h with
  | send hr hb =>
    subst hb
    exact hkept (beginBlast_pace _ _ _)
  | accept time packetSize => exact ⟨rfl, rfl, Nat.mod_lt _ (Nat.two_pow_pos 64)⟩
  | retry time packetSize errno => exact ⟨rfl, rfl, hsent⟩
  | fail time packetSize => exact ⟨rfl, rfl, hsent⟩
  | throttle ht => exact hkept (throttledReceive_quiet ht).pace
  | iterate ht =>
    have hv := hkept (throttledReceive_quiet ht).pace
    exact hv
  | abort ht => exact hkept (throttledReceive_quiet ht).pace
  | sent hv =>
    have hv := hkept (updateStatus_quiet hv).pace
    exact hv
  | drain ht => exact hkept (throttledReceive_quiet ht).pace
  | drained ht => exact hkept (throttledReceive_quiet ht).pace
  | drainAbort ht => exact hkept (throttledReceive_quiet ht).pace
  | done hv =>
    have hv := hkept (updateStatus_quiet hv).pace
    exact hv
  | noTime hp hv => exact ⟨rfl, rfl, hsent⟩

theorem execution_scheduled {P : Platform} {ρ : ℕ → ℕ} {a : Arguments} (hpps : 0 < a.pps)
    {now : ℕ} {es : List Event} {s : State}
    (h : Execution (next P ρ) (fun s e => Timely s e ∧ Unhurried s e) (start a now) es s) :
    Scheduled a.pps now s := by
  apply h.invariant
  · exact ⟨rfl, rfl, Nat.two_pow_pos 64, le_rfl, rfl, Nat.zero_le _⟩
  · rintro ⟨w, c⟩ e ⟨u, d⟩ hs ⟨he, hu⟩ hn
    obtain ⟨p, v, hp, hstep, ht⟩ := next_cases hn
    cases hp
    cases ht
    have hpos : 0 < w.context.pps := hs.pps ▸ hpps
    have hbegun : w.context.startupDate ≤ w.time := hs.startupDate ▸ hs.begun
    obtain ⟨hstart, hrate, hsent⟩ := step_clock hs.representable hstep
    have htime := step_onTime hpos hs.representable hbegun he hu hs.onTime hstep
    exact ⟨hstart.trans hs.startupDate, hrate.trans hs.pps, hsent, hs.begun.trans he.monotone,
      htime.at_time _⟩

/-- The rate limit, in every run in which no reply shortens a wait while the sender is more
than a second ahead: then it never begins a query so far ahead. Interrupts do no harm. -/
theorem ahead_by_at_most_a_second {P : Platform} {ρ : RandStream P} {a : Arguments}
    (hpps : 1 ≤ a.pps) {now : ℕ} {es : List Event} {s : State}
    (h : Execution (next P ρ.value) (fun s e => Timely s e ∧ Unhurried s e) (start a now) es s)
    (hc : s.2 = .wait .send) :
    s.1.context.sentPackets ≤ a.pps * (s.1.time - now) / 1000000000 + a.pps := by
  have hs := execution_scheduled hpps h
  obtain ⟨w, c⟩ := s
  cases hc
  have hw : WithinSecond w.pace w.time := hs.onTime.2
  rw [← hs.startupDate, ← hs.pps]
  exact hw

/-- A sender of one a second since clock reading 0, in its first second: it has sent `n`
queries, has `left` to send, and the clock reads `time`. -/
structure FirstSecond (w : World) (n left time : ℕ) : Prop where
  sending : w.context.sending = true
  startupDate : w.context.startupDate = 0
  pps : w.context.pps = 1
  sentPackets : w.context.sentPackets = n
  sendCount : w.sendCount = left
  lastStatusUpdate : w.context.lastStatusUpdate ≤ time
  clock : w.time = time
  early : time < 1000000000

theorem timely_early {s : State} {e : Event} (hpps : s.1.context.pps = 1)
    (hmono : s.1.time ≤ e.time) (hearly : e.time ≤ 1000000000) (ha : e.answer ≠ .timeout) :
    Timely s e := by
  refine ⟨hmono, by omega, ?_, fun _ _ _ h => absurd h ha⟩
  rw [hpps]
  omega

theorem unhurried_elsewhere {s : State} {e : Event}
    (h : ∀ now remainingTime, s.2 ≠ .wait (.throttle (.now2 now remainingTime))) :
    Unhurried s e := fun now remainingTime hc => absurd hc (h now remainingTime)

theorem send_early (ρ : ℕ → ℕ) {w : World} {n left time : ℕ} (hw : FirstSecond w n left time)
    (hn : n + 1 < 2 ^ 64) : ∃ v,
    Execution (next glibc ρ) (fun s e => Timely s e ∧ Unhurried s e) (w, .wait .send)
      [⟨time, .run⟩, ⟨time, .accepted⟩] (v, .wait (.throttle .now)) ∧
    FirstSecond v (n + 1) left time := by
  let r := (ask glibc ρ w.name w.type).run w.draws
  let asked : World := { w with
    name := r.1.1
    type := r.1.2
    draws := r.2
    console := w.console ++ [.asked r.1.2 r.1.1] }
  let b := beginBlast glibc ρ asked
  have hpace : b.1.pace = w.pace := beginBlast_pace glibc ρ asked
  have hstatus : b.1.context.lastStatusUpdate = w.context.lastStatusUpdate := by
    simp only [b, beginBlast]
    split_ifs <;> rfl
  have hsent : b.1.context.sentPackets = n :=
    (congrArg Pace.sentPackets hpace).trans hw.sentPackets
  have hpps : b.1.context.pps = 1 := (congrArg Pace.pps hpace).trans hw.pps
  have hrun : Execution (next glibc ρ) (fun s e => Timely s e ∧ Unhurried s e) (w, .wait .send)
      [⟨time, .run⟩] ({ b.1 with time := time }, .wait (.sendto b.2)) := by
    refine (Execution.refl _).tail ⟨?_, ?_⟩ rfl
    · exact timely_early hw.pps hw.clock.le hw.early.le (by simp)
    · exact unhurried_elsewhere (by simp)
  refine ⟨{ endBlast { b.1 with time := time } b.2 with time := time }, ?_, ?_⟩
  · refine hrun.tail ⟨?_, ?_⟩ rfl
    · exact timely_early hpps le_rfl hw.early.le (by simp)
    · exact unhurried_elsewhere (by simp)
  · exact {
      sending := (congrArg Pace.sending hpace).trans hw.sending
      startupDate := (congrArg Pace.startupDate hpace).trans hw.startupDate
      pps := hpps
      sentPackets := by simp only [endBlast, hsent, Nat.mod_eq_of_lt hn]
      sendCount := (congrArg Pace.sendCount hpace).trans hw.sendCount
      lastStatusUpdate := hstatus.le.trans hw.lastStatusUpdate
      clock := rfl
      early := hw.early }

/-- The first wait after query `n` is of `n` whole seconds. -/
theorem poll_early (ρ : ℕ → ℕ) {w : World} {n left time : ℕ} (hw : FirstSecond w n left time)
    (hn : 0 < n) (hfit : n * 1000 < 2 ^ 31) :
    next glibc ρ (w, .wait (.throttle .now)) ⟨time, .clock⟩ =
      some (w, .wait (.throttle (.poll time (n * 1000 : ℕ)))) := by
  have hearly := hw.early
  have htimeout : firstTimeout w.context 0 = some ((n * 1000 : ℕ) : ℤ) := by
    have hsent := hw.sentPackets
    have hpps := hw.pps
    have h : firstTimeout w.context 0 =
        some (((w.context.sentPackets - 0) / w.context.pps * 1000 : ℕ) : ℤ) := by
      apply firstTimeout_ahead hw.sending
      · omega
      · omega
      · omega
      · rw [hpps, hsent, Nat.div_one]
        exact hfit
    rwa [hpps, hsent, Nat.div_one, Nat.sub_zero] at h
  have hbudget : maxPackets 1 time = 0 := by
    have hdiv : time / 1000000000 = 0 := Nat.div_eq_of_lt hearly
    rw [maxPackets, Nat.mod_eq_of_lt (by omega), Nat.one_mul, hdiv]
  have helapsed : wrapSub 64 time 0 = time := wrapSub_of_le (Nat.zero_le _) (by omega)
  have hclock : { w with time := time } = w := by rw [← hw.clock]
  simp only [next, main, throttledReceive, call, hw.startupDate, hw.pps, hw.sentPackets, helapsed,
    hbudget, Nat.le_zero, hn.ne', and_false, if_false, beginPoll, htimeout, Option.map_some, hclock]

def answered (after : ℕ) (d : Datagram) (stale : Memory) : List Event :=
  [⟨after, .ready⟩, ⟨after, .received d stale⟩, ⟨after, .nothing .EAGAIN⟩, ⟨after, .clock⟩,
    ⟨after, .clock⟩]

theorem reply_received (ρ : ℕ → ℕ) {w : World} {now after : ℕ} {wait : ℤ} (d : Datagram)
    (stale : Memory) (hpps : w.context.pps = 1) (hmono : w.time ≤ after)
    (hearly : after < 1000000000)
    (hlate : updateStatusPeriod ≤ wrapSub 64 after w.context.lastStatusUpdate)
    (helapsed : wrapSub 64 after w.context.startupDate ≠ 0) : ∃ v,
    Execution (next glibc ρ) Timely (w, .wait (.throttle (.poll now wait)))
      (answered after d stale) (v, .wait (.throttle (.now2 now wait))) ∧
    v.pace = w.pace ∧ v.context.lastStatusUpdate = after ∧ v.time = after := by
  let u : World := { w with
    context := { w.context with receivedPackets := (w.context.receivedPackets + 1) % 2 ^ 64 }
    delivered := w.delivered ++ [d]
    time := after }
  have hready : next glibc ρ (w, .wait (.throttle (.poll now wait))) ⟨after, .ready⟩ =
      some ({ w with time := after }, .wait (.throttle (.queue .receive now wait))) := rfl
  have hreceive : next glibc ρ ({ w with time := after },
      .wait (.throttle (.queue .receive now wait))) ⟨after, .received d stale⟩ =
      some (u, .wait (.throttle (.queue .receive now wait))) := rfl
  have hempty : next glibc ρ (u, .wait (.throttle (.queue .receive now wait)))
      ⟨after, .nothing .EAGAIN⟩ =
      some (u, .wait (.throttle (.queue (.status .now) now wait))) := rfl
  have hdue : next glibc ρ (u, .wait (.throttle (.queue (.status .now) now wait)))
      ⟨after, .clock⟩ =
      some (u, .wait (.throttle (.queue (.status (.update after)) now wait))) := by
    have hlate' : updateStatusPeriod ≤ wrapSub 64 after u.context.lastStatusUpdate := hlate
    simp only [next, main, throttledReceive, emptyReceiveQueue_due hlate']
    rfl
  obtain ⟨v, hv, hpace, hlast⟩ := @emptyReceiveQueue_done glibc u after helapsed
  have hupdate : next glibc ρ (u, .wait (.throttle (.queue (.status (.update after)) now wait)))
      ⟨after, .clock⟩ = some ({ v with time := after }, .wait (.throttle (.now2 now wait))) := by
    simp [next, main, throttledReceive, call, hv]
  have h₁ := (Execution.refl _).tail (timely_early hpps hmono hearly.le (by simp)) hready
  have h₂ := h₁.tail (timely_early hpps le_rfl hearly.le (by simp)) hreceive
  have h₃ := h₂.tail (timely_early hpps le_rfl hearly.le (by simp)) hempty
  have h₄ := h₃.tail (timely_early hpps le_rfl hearly.le (by simp)) hdue
  have h₅ := h₄.tail (timely_early hpps le_rfl hearly.le (by simp)) hupdate
  exact ⟨_, h₅, hpace, hlast, rfl⟩

theorem endIteration_send {w : World} {left : ℕ} (hcount : w.sendCount = left + 2)
    (hleft : left + 2 < 2 ^ 64) :
    endIteration w = ({ w with sendCount := left + 1 }, .wait .send) := by
  have hnext : wrapSub 64 (left + 2) 1 = left + 1 := wrapSub_of_le (by omega) hleft
  rw [endIteration, hcount, hnext, if_pos (Nat.succ_pos left)]

/-- Query `n + 1` leaves, and the wait of `n + 1` seconds for the next one is over when a
reply comes after `n + 1` milliseconds. -/
theorem reply_ends_wait (ρ : ℕ → ℕ) {w : World} {n left time : ℕ} (d : Datagram) (stale : Memory)
    (hw : FirstSecond w n (left + 2) time) (hleft : left + 2 < 2 ^ 64)
    (hearly : time + 1000000 * (n + 1) < 1000000000) : ∃ v,
    Execution (next glibc ρ) Timely (w, .wait .send)
      ([⟨time, .run⟩, ⟨time, .accepted⟩] ++ ([⟨time, .clock⟩] ++
        (answered (time + 1000000 * (n + 1)) d stale ++
          [⟨time + 1000000 * (n + 1), .clock⟩]))) (v, .wait .send) ∧
    FirstSecond v (n + 1) (left + 1) (time + 1000000 * (n + 1)) := by
  let after := time + 1000000 * (n + 1)
  have hrep : after < 2 ^ 64 := by omega
  have hahead : after < 1000000000 := hearly
  obtain ⟨u, hsend, hu⟩ := send_early ρ hw (by omega)
  have hlast := hu.lastStatusUpdate
  have hpoll := poll_early ρ hu (Nat.succ_pos n) (by omega)
  have hlate : updateStatusPeriod ≤ wrapSub 64 after u.context.lastStatusUpdate := by
    rw [wrapSub_of_le (by omega) hrep, updateStatusPeriod]
    omega
  have helapsed : wrapSub 64 after u.context.startupDate ≠ 0 := by
    rw [hu.startupDate, wrapSub_of_le (Nat.zero_le _) hrep]
    omega
  obtain ⟨x, hreply, hpace, hstatus, hclock⟩ := reply_received ρ d stale hu.pps
    (by rw [hu.clock]; omega) hahead hlate helapsed
  have hcount : x.sendCount = left + 2 := (congrArg Pace.sendCount hpace).trans hu.sendCount
  have hpps : x.context.pps = 1 := (congrArg Pace.pps hpace).trans hu.pps
  -- the nanoseconds since the poll began, divided by 1000, are the milliseconds to wait
  have hover : lessElapsed ((n + 1) * 1000 : ℕ) after time = 0 := by
    have hquotient : (after - time) / 1000 = (n + 1) * 1000 := by omega
    rw [lessElapsed, wrapSub_of_le (by omega) hrep, hquotient, sub_self]
    rfl
  have hreturn : next glibc ρ (x, .wait (.throttle (.now2 time ((n + 1) * 1000 : ℕ))))
      ⟨after, .clock⟩ = some ({ x with sendCount := left + 1, time := after }, .wait .send) := by
    simp only [next, main, throttledReceive, hover, pollAgain, lt_irrefl, if_false,
      Option.map_some, call, endIteration_send hcount hleft]
  refine ⟨{ x with sendCount := left + 1, time := after }, ?_, ?_⟩
  · apply (hsend.weaken fun _ _ h => h.1).trans
    have hbegun : Timely (u, .wait (.throttle .now)) ⟨time, .clock⟩ :=
      timely_early hu.pps hu.clock.le hu.early.le (by simp)
    apply ((Execution.refl _).tail hbegun hpoll).trans
    exact hreply.tail (timely_early hpps hclock.le hahead.le (by simp)) hreturn
  · exact {
      sending := (congrArg Pace.sending hpace).trans hu.sending
      startupDate := (congrArg Pace.startupDate hpace).trans hu.startupDate
      pps := hpps
      sentPackets := (congrArg Pace.sentPackets hpace).trans hu.sentPackets
      sendCount := rfl
      lastStatusUpdate := hstatus.le
      clock := rfl
      early := hahead }

def onePerSecond : Arguments := { threePerSecond with pps := 1, pps_lt := one_lt_word }

theorem firstSecond_start : FirstSecond (start onePerSecond 0).1 0 3 0 :=
  ⟨rfl, rfl, rfl, rfl, rfl, le_rfl, rfl, by norm_num⟩

def reply (k : ℕ) : Datagram := ⟨[], Nat.zero_le _, some k⟩

def Uninterrupted (es : List Event) : Prop :=
  ∀ e ∈ es, e.answer ≠ .refused .EINTR ∧ e.answer ≠ .nothing .EINTR ∧ e.answer ≠ .pollFailed .EINTR

/-- The limit fails: with replies after 1 and 2 ms the third query of a sender of one a
second leaves after 3 ms. -/
theorem replies_run_ahead : ∃ es s,
    Execution (next glibc (constantStream glibc 0 (by decide)).value) Timely
      (start onePerSecond 0) es s ∧ Uninterrupted es ∧ s.2 = .wait .send ∧
    ¬ s.1.context.sentPackets ≤
      onePerSecond.pps * (s.1.time - 0) / 1000000000 + onePerSecond.pps := by
  let ρ := constantStream glibc 0 (by decide)
  obtain ⟨w, hfirst, hw⟩ := reply_ends_wait ρ.value (reply 0) (fun _ => 0) firstSecond_start
    (by norm_num) (by norm_num)
  obtain ⟨v, hsecond, hv⟩ := reply_ends_wait ρ.value (reply 1) (fun _ => 0) hw (by norm_num)
    (by norm_num)
  refine ⟨_, _, hfirst.trans hsecond, ?_, rfl, ?_⟩
  · simp [Uninterrupted, answered]
  · rw [hv.sentPackets, hv.clock]
    decide

/-- Without replies the second query leaves when the second is over. -/
theorem ahead_by_at_most_a_second_unanswered : ∃ es s,
    Execution (next glibc (constantStream glibc 0 (by decide)).value)
      (fun s e => Timely s e ∧ Unhurried s e) (start onePerSecond 0) es s ∧
    s.2 = .wait .send ∧ s.1.context.sentPackets = 1 ∧ s.1.time = 1000000000 ∧
    s.1.context.sentPackets ≤
      onePerSecond.pps * (s.1.time - 0) / 1000000000 + onePerSecond.pps := by
  let ρ := constantStream glibc 0 (by decide)
  obtain ⟨u, hsend, hu⟩ := send_early ρ.value firstSecond_start (by norm_num)
  have hpoll := poll_early ρ.value hu (by norm_num) (by norm_num)
  let w : World := { u with time := 1000000000 }
  have htimeout : next glibc ρ.value (u, .wait (.throttle (.poll 0 ((0 + 1) * 1000 : ℕ))))
      ⟨1000000000, .timeout⟩ = some (w, .wait (.throttle (.status .now))) := rfl
  have hlate : updateStatusPeriod ≤ wrapSub 64 1000000000 w.context.lastStatusUpdate := by
    rw [show w.context.lastStatusUpdate = 0 from Nat.le_zero.mp hu.lastStatusUpdate]
    decide
  have hdue : next glibc ρ.value (w, .wait (.throttle (.status .now))) ⟨1000000000, .clock⟩ =
      some (w, .wait (.throttle (.status (.update 1000000000)))) := by
    simp only [next, main, throttledReceive, periodicallyUpdateStatus_due hlate]
    rfl
  have helapsed : wrapSub 64 1000000000 w.context.startupDate ≠ 0 := by
    rw [show w.context.startupDate = 0 from hu.startupDate]
    decide
  obtain ⟨x, hx, hpace, -⟩ := periodicallyUpdateStatus_done glibc helapsed
  have hcount : x.sendCount = 1 + 2 := (congrArg Pace.sendCount hpace).trans hu.sendCount
  have hreturn : next glibc ρ.value (w, .wait (.throttle (.status (.update 1000000000))))
      ⟨1000000000, .clock⟩ =
      some ({ x with sendCount := 2, time := 1000000000 }, .wait .send) := by
    simp only [next, main, throttledReceive, hx, Option.map_some, call,
      endIteration_send hcount (by norm_num)]
  have hwaited : Timely (u, .wait (.throttle (.poll 0 ((0 + 1) * 1000 : ℕ))))
      ⟨1000000000, .timeout⟩ := by
    refine ⟨hu.clock.le.trans (Nat.zero_le _), by norm_num, by simp [hu.pps, hu.startupDate], ?_⟩
    rintro timeout ht - -
    cases ht
    rw [hu.clock]
    norm_num
  have h₁ := hsend.tail ⟨timely_early hu.pps hu.clock.le hu.early.le (by simp),
    unhurried_elsewhere (by simp)⟩ hpoll
  have h₂ := h₁.tail ⟨hwaited, unhurried_elsewhere (by simp)⟩ htimeout
  have h₃ := h₂.tail ⟨timely_early hu.pps le_rfl le_rfl (by simp),
    unhurried_elsewhere (by simp)⟩ hdue
  have h₄ := h₃.tail ⟨timely_early hu.pps le_rfl le_rfl (by simp),
    unhurried_elsewhere (by simp)⟩ hreturn
  have hsent : x.context.sentPackets = 1 := (congrArg Pace.sentPackets hpace).trans hu.sentPackets
  exact ⟨_, _, h₄, rfl, hsent, rfl, ahead_by_at_most_a_second le_rfl h₄ rfl⟩

end MattblastRate
