import DnsBlast.BlastDrainTimeout

/-! How long the drain phase waits. Each call of throttled_receive polls toward one
deadline, its first clock reading plus the timeout, by the clock readings of its loop:
replies do not move it, an interrupted poll is repeated with all of its timeout. main
looks at the time only between two calls. -/
namespace BlastDrainDeadline

open WrappingIntegers LabelledRuns BlastHeader BlastQuery BlastSyscalls BlastReceive BlastMain
  BlastTraffic BlastRealization BlastRate BlastDrain BlastDrainTimeout
open BlastLayout (execution_offTable)

def noteCall (s : State) (e : Event) : Option ℕ :=
  match s.2 with
  | .wait (.drain _ .now) => some e.time
  | _ => none

def drainCalls (P : Platform) (ρ : ℕ → ℕ) (verbose : Bool) (s : State) (es : List Event) :
    List ℕ :=
  observe (next P ρ verbose) noteCall s es

structure Pending (timeout called time now : ℕ) (remainingTime : ℤ) : Prop where
  nonneg : 0 ≤ remainingTime
  le : remainingTime ≤ timeout
  deadline : now + remainingTime = called + timeout
  past : now ≤ time

def PendingAt (timeout called time : ℕ) : ThrottlePos → Prop
  | .poll now remainingTime => Pending timeout called time now remainingTime
  | .queue _ now remainingTime => Pending timeout called time now remainingTime
  | .now2 now remainingTime => Pending timeout called time now remainingTime
  | _ => False

def PendingOutcome (timeout called time : ℕ) : Outcome ThrottlePos ℕ → Prop
  | .wait p => PendingAt timeout called time p
  | .ret _ => called + timeout ≤ time
  | .stop _ => True

theorem PendingAt.drains {timeout called time : ℕ} {p : ThrottlePos}
    (h : PendingAt timeout called time p) : drains p := by
  cases p <;> trivial

theorem Pending.later {timeout called time time' now : ℕ} {remainingTime : ℤ}
    (h : Pending timeout called time now remainingTime) (ht : time ≤ time') :
    Pending timeout called time' now remainingTime :=
  ⟨h.nonneg, h.le, h.deadline, h.past.trans ht⟩

/-- The condition of the do-while lets a call go on only before its deadline. -/
theorem pending_pollAgain {timeout called time now : ℕ} {remainingTime : ℤ}
    (hle : remainingTime ≤ timeout) (hdeadline : now + remainingTime = called + timeout)
    (hpast : now ≤ time) : PendingOutcome timeout called time (pollAgain now remainingTime) := by
  unfold pollAgain
  split_ifs with hpos
  · exact ⟨hpos.le, hle, hdeadline, hpast⟩
  · have hover : called + timeout ≤ now := by omega
    exact hover.trans hpast

/-- A reply takes from the wait the time that has passed since the last reading. -/
theorem Pending.reply {timeout called time now now2 begin : ℕ} {remainingTime : ℤ}
    (h : Pending timeout called time now remainingTime) (hint : timeout < 2 ^ 31)
    (hbegin : begin ≤ called) (ht : time ≤ now2) (hlt : now2 < begin + 2 ^ 31)
    (hrep : now2 < 2 ^ 64) :
    PendingOutcome timeout called now2 (pollAgain now2 (lessElapsed remainingTime now2 now)) := by
  have hle : now ≤ now2 := h.past.trans ht
  have hmost := h.le
  have hdeadline := h.deadline
  rw [lessElapsed_of_lt h.nonneg (by omega) hle (by omega) hrep]
  apply pending_pollAgain
  · omega
  · omega
  · exact le_rfl

section Steps
variable {P : Platform} {verbose : Bool} {w v : World} {e : Event}

theorem drainStep_pending {p : ThrottlePos} {c : Outcome ThrottlePos ℕ} {called begin : ℕ}
    (h : DrainStep P verbose w p e v c) (hp : PendingAt w.context.timeout called w.time p)
    (hint : w.context.timeout < 2 ^ 31) (hbegin : begin ≤ called) (hmono : w.time ≤ e.time)
    (hlt : e.time < begin + 2 ^ 31) (hrep : e.time < 2 ^ 64)
    (hwait : ∀ now timeout, p = .poll now timeout → 0 ≤ timeout → e.answer = .timeout →
      w.time + timeout ≤ e.time) :
    PendingOutcome w.context.timeout called e.time c := by
  cases h with
  | enter now => exact hp.elim
  | timeout time now remainingTime =>
    have hlate : (w.time : ℤ) + remainingTime ≤ time := hwait now remainingTime rfl hp.nonneg rfl
    have hdeadline := hp.deadline
    have hpast := hp.past
    have hover : called + w.context.timeout ≤ time := by omega
    exact hover
  | ready time now remainingTime => exact Pending.later hp hmono
  | interrupted time now remainingTime errno =>
    exact pending_pollAgain hp.le hp.deadline (hp.past.trans hmono)
  | failure time now remainingTime => trivial
  | @queue _ _ _ c now remainingTime hq =>
    cases c with
    | wait q => exact Pending.later hp hmono
    | ret r => exact Pending.later hp hmono
    | stop k => trivial
  | again now remainingTime now2 => exact Pending.reply hp hint hbegin hmono hlt hrep

end Steps

structure CallsOver (timeout first : ℕ) (w : World) (l : List ℕ) : Prop where
  spaced : first + timeout * l.length ≤ w.time
  failed : w.context.failedPackets ≤ l.length

def CallOpen (timeout first : ℕ) (w : World) (p : ThrottlePos) (l : List ℕ) : Prop :=
  ∃ before called, l = before ++ [called] ∧ before.length ≤ 1 ∧
    first + timeout * before.length ≤ called ∧ w.context.failedPackets ≤ before.length ∧
    PendingAt timeout called w.time p

structure FewCalls (w : World) (l : List ℕ) : Prop where
  length_le : l.length ≤ 2
  failed : w.context.failedPackets ≤ l.length

def DrainPaced (timeout begin : ℕ) : State → List ℕ → Prop
  | (w, .wait (.drain first .now)), l => begin ≤ first ∧ l.length ≤ 1 ∧ CallsOver timeout first w l
  | (w, .wait (.drain first p)), l => begin ≤ first ∧ CallOpen timeout first w p l
  | (w, .wait (.drainTest first)), l =>
    begin ≤ first ∧ l.length ≤ 2 ∧ CallsOver timeout first w l
  | (w, .wait .finalStatus), l => FewCalls w l
  | (w, .wait _), l => l = [] ∧ w.context.failedPackets = 0
  | (w, _), l => FewCalls w l

structure DrainClock (n timeout begin : ℕ) (s : State) (l : List ℕ) : Prop where
  progress : Progressing n s
  startupDate : s.1.context.startupDate = begin
  option : s.1.context.timeout = timeout
  begun : begin ≤ s.1.time
  paced : DrainPaced timeout begin s l

theorem paced_drainLoop {timeout begin first : ℕ} {w : World} {l : List ℕ} (hb : begin ≤ first)
    (hl : l.length ≤ 1) (h : CallsOver timeout first w l) :
    DrainPaced timeout begin (w, drainLoop first w) l := by
  rcases drainLoop_cases first w with hd | hd
  · rw [hd]
    exact ⟨hb, hl, h⟩
  · rw [hd]
    exact ⟨hl.trans (by decide), h.failed⟩

theorem drainPaced_of_open {timeout begin first : ℕ} {w : World} {p : ThrottlePos} {l : List ℕ}
    (hp : drains p) (hb : begin ≤ first) (hopen : CallOpen timeout first w p l) :
    DrainPaced timeout begin (w, .wait (.drain first p)) l := by
  cases p with
  | now =>
    obtain ⟨_, _, _, _, _, _, hat⟩ := hopen
    exact hat.elim
  | first q now max => exact hp.elim
  | status q => exact hp.elim
  | poll now remainingTime => exact ⟨hb, hopen⟩
  | queue q now remainingTime => exact ⟨hb, hopen⟩
  | now2 now remainingTime => exact ⟨hb, hopen⟩

/-- What a call under way comes to in one step. -/
theorem drainPaced_call {timeout begin first failed called time : ℕ} {before : List ℕ}
    {v : World} {c : Outcome ThrottlePos ℕ} (hb : begin ≤ first) (hbefore : before.length ≤ 1)
    (hspaced : first + timeout * before.length ≤ called) (hfailed : failed ≤ before.length)
    (hv : v.context.failedPackets = failed ∨
      c = .ret 1 ∧ v.context.failedPackets = (failed + 1) % 2 ^ 64)
    (h : PendingOutcome timeout called time c) :
    DrainPaced timeout begin ({ v with time := time }, drainOutcome first c)
      (before ++ [called]) := by
  have hlength : (before ++ [called]).length = before.length + 1 := List.length_append
  have hover : v.context.failedPackets ≤ before.length + 1 := by omega
  cases c with
  | wait q =>
    have hsame : v.context.failedPackets = failed := by
      rcases hv with hv | ⟨hret, -⟩
      · exact hv
      · cases hret
    exact drainPaced_of_open h.drains hb
      ⟨before, called, rfl, hbefore, hspaced, hsame ▸ hfailed, h⟩
  | ret r =>
    refine ⟨hb, by omega, ?_, hlength ▸ hover⟩
    have hlate : called + timeout ≤ time := h
    rw [hlength, Nat.mul_succ]
    exact (show first + (timeout * before.length + timeout) ≤ time by omega)
  | stop k => exact ⟨by omega, hlength ▸ hover⟩

/-- A call begins: its deadline is the reading plus the option. -/
theorem paced_enter {P : Platform} {ρ : ℕ → ℕ} {verbose : Bool} {begin first : ℕ} {w v : World}
    {e : Event} {c : Outcome MainPos ℕ} {l : List ℕ} (hint : w.context.timeout < 2 ^ 31)
    (hsending : w.context.sending = false) (hmono : w.time ≤ e.time)
    (hpaced : DrainPaced w.context.timeout begin (w, .wait (.drain first .now)) l)
    (h : Step P ρ verbose w (.drain first .now) e v c) :
    DrainPaced w.context.timeout begin ({ v with time := e.time }, c) (l ++ [e.time]) := by
  obtain ⟨hb, hl, hover⟩ := hpaced
  have hdrains : drains .now := trivial
  have hlimit : toSigned 32 (w.context.timeout : ℤ) = w.context.timeout :=
    toSigned_of_range (by omega) (by exact_mod_cast hint)
  cases h with
  | drain ht =>
    cases throttledReceive_drainStep hsending hdrains ht with
    | enter now =>
      refine ⟨hb, l, now, rfl, hl, hover.spaced.trans hmono, hover.failed, ?_⟩
      rw [hlimit]
      exact ⟨Int.natCast_nonneg _, le_rfl, rfl, le_rfl⟩

theorem paced_step {P : Platform} {ρ : ℕ → ℕ} {verbose : Bool} {n begin : ℕ} {w v : World}
    {p : MainPos} {e : Event} {c : Outcome MainPos ℕ} {l : List ℕ}
    (hpos : 0 < w.context.timeout) (hint : w.context.timeout < 2 ^ 31)
    (hs : DrainClock n w.context.timeout begin (w, .wait p) l) (he : Timely (w, .wait p) e)
    (haway : ∀ first, p ≠ .drain first .now) (h : Step P ρ verbose w p e v c) :
    DrainPaced w.context.timeout begin ({ v with time := e.time }, c) l := by
  obtain ⟨hprogress, hstart, -, hbegun, hpaced⟩ := hs
  have hmono : w.time ≤ e.time := he.monotone
  have hlt : e.time < begin + 2 ^ 31 := hstart ▸ he.elapsed
  have hsending : w.context.sending = inSendPhase p := Progress.sending hprogress
  have hthrottle : ∀ {before q u d}, p = .throttle before q →
      throttledReceive P verbose w q e = some (u, d) →
      u.context.failedPackets = w.context.failedPackets := by
    rintro before q u d rfl ht
    rcases throttledReceive_failed ht with hf | ⟨hover, -⟩
    · exact hf
    · rw [hsending] at hover
      cases hover
  cases h with
  | send hr hb =>
    subst hb
    exact ⟨hpaced.1, (beginBlast_reports _ _ _ _).2.trans hpaced.2⟩
  | accept time packetSize => exact hpaced
  | retry time packetSize errno => exact hpaced
  | fail time packetSize =>
    obtain ⟨rfl, hfailed⟩ := hpaced
    exact ⟨Nat.zero_le _, hfailed.le⟩
  | throttle ht => exact ⟨hpaced.1, (hthrottle rfl ht).trans hpaced.2⟩
  | @iterate before q e u r ht =>
    have hu : l = [] ∧ u.context.failedPackets = 0 := ⟨hpaced.1, (hthrottle rfl ht).trans hpaced.2⟩
    simp only [endIteration]
    split_ifs
    all_goals exact hu
  | abort ht =>
    obtain ⟨rfl, hfailed⟩ := hpaced
    exact ⟨Nat.zero_le _, ((hthrottle rfl ht).trans hfailed).le⟩
  | sent now v hv =>
    subst hv
    exact hpaced
  | drainStart now =>
    obtain ⟨rfl, hfailed⟩ := hpaced
    exact paced_drainLoop (w := { w with time := now }) (hbegun.trans hmono) (Nat.zero_le _)
      ⟨le_rfl, hfailed.le⟩
  | @drain first q e v c ht =>
    obtain ⟨hb, before, called, rfl, hbefore, hspaced, hfailed, hat⟩ :
        begin ≤ first ∧ CallOpen w.context.timeout first w q l := by
      cases q with
      | now => exact absurd rfl (haway first)
      | _ => exact hpaced
    have hcalled : begin ≤ called := by omega
    have hout := drainStep_pending (throttledReceive_drainStep hsending hat.drains ht) hat hint
      hcalled hmono hlt he.representable fun now timeout hq =>
        he.waits timeout (by subst hq; rfl)
    refine drainPaced_call hb hbefore hspaced hfailed ?_ hout
    rcases throttledReceive_failed ht with hf | ⟨-, hret, hf⟩
    · exact Or.inl hf
    · exact Or.inr ⟨hret, hf⟩
  | giveUp first now hn => exact ⟨hpaced.2.1, hpaced.2.2.failed⟩
  | drainOn first now hn =>
    obtain ⟨hb, hl, hspaced, hfailed⟩ := hpaced
    have hsooner : first ≤ now := (Nat.le_add_right _ _).trans (hspaced.trans hmono)
    rw [wrapSub_of_le hsooner he.representable] at hn
    -- two calls would have taken twice the timeout
    have hone : l.length ≤ 1 := by
      by_contra hnot
      have htwice := Nat.mul_le_mul_left w.context.timeout (show 2 ≤ l.length by omega)
      have hmono' : w.time ≤ now := hmono
      omega
    exact paced_drainLoop (w := { w with time := now }) hb hone ⟨hspaced.trans hmono, hfailed⟩
  | done now v hv =>
    subst hv
    exact ⟨hpaced.length_le, hpaced.failed⟩

theorem drainClock_step {P : Platform} {ρ : ℕ → ℕ} {verbose : Bool} {n timeout begin : ℕ}
    (hn : n < 2 ^ 64) (hpos : 0 < timeout) (hint : timeout < 2 ^ 31) {s t : State} {e : Event}
    {l : List ℕ} (hs : DrainClock n timeout begin s l) (he : Timely s e)
    (h : next P ρ verbose s e = some t) :
    DrainClock n timeout begin t (l ++ (noteCall s e).toList) := by
  obtain ⟨w, c⟩ := s
  obtain ⟨u, d⟩ := t
  obtain ⟨p, v, hp, hstep, ht⟩ := next_cases h
  cases hp
  cases ht
  have hoption : w.context.timeout = timeout := hs.option
  refine ⟨progressing_step hn hs.progress h, (step_settings hstep).1.trans hs.startupDate,
    (step_settings hstep).2.2.trans hoption, hs.begun.trans he.monotone, ?_⟩
  subst hoption
  by_cases hcall : ∃ first, p = .drain first .now
  · obtain ⟨first, rfl⟩ := hcall
    have hsending : w.context.sending = false := Progress.sending hs.progress
    exact paced_enter hint hsending he.monotone hs.paced hstep
  · have haway : ∀ first, p ≠ .drain first .now := fun first hp => hcall ⟨first, hp⟩
    have hnone : noteCall (w, .wait p) e = none := by
      unfold noteCall
      split
      · rename_i first hp
        cases hp
        exact absurd rfl (haway first)
      · rfl
    rw [hnone, Option.toList_none, List.append_nil]
    exact paced_step hpos hint hs he haway hstep

theorem DrainPaced.few {timeout begin : ℕ} {s : State} {l : List ℕ}
    (h : DrainPaced timeout begin s l) : FewCalls s.1 l := by
  have hopen : ∀ {first p}, CallOpen timeout first s.1 p l → FewCalls s.1 l := by
    rintro first p ⟨before, called, rfl, hbefore, -, hfailed, -⟩
    have hlength : (before ++ [called]).length = before.length + 1 := List.length_append
    exact ⟨by omega, by omega⟩
  have hnone : l = [] ∧ s.1.context.failedPackets = 0 → FewCalls s.1 l := by
    rintro ⟨rfl, hfailed⟩
    exact ⟨Nat.zero_le _, hfailed.le⟩
  obtain ⟨w, c⟩ := s
  cases c with
  | wait p =>
    cases p with
    | drain first q =>
      cases q with
      | now => exact ⟨h.2.1.trans (by decide), h.2.2.failed⟩
      | _ => exact hopen h.2
    | drainTest first => exact ⟨h.2.1, h.2.2.failed⟩
    | finalStatus => exact h
    | _ => exact hnone h
  | ret r => exact h
  | stop k => exact h

theorem execution_drainClock {P : Platform} {ρ : ℕ → ℕ} {o : Options} {now : ℕ}
    {es : List Event} {s : State} (hpos : 0 < o.timeout) (hint : o.timeout < 2 ^ 31)
    (h : Execution (next P ρ o.verbose) Timely (start o now) es s) :
    DrainClock o.sendCount o.timeout now s (drainCalls P ρ o.verbose (start o now) es) :=
  h.observed ⟨progressing_start o now, rfl, rfl, le_rfl, rfl, rfl⟩
    fun _ _ _ _ hs he hn => drainClock_step o.sendCount_lt hpos hint hs he hn

/-- With a timeout between 1 and 2^31 - 1 ms, main calls throttled_receive at most twice in
the drain phase and counts at most one failure a call. The last clock reading of a call's
loop and the timeout that it then passes to poll add up to its first reading plus the
timeout, however many replies there are. -/
theorem drain_calls_bounded {P : Platform} {ρ : RandStream P} {o : Options} {now : ℕ}
    {es : List Event} {s : State} (hpos : 0 < o.timeout) (hint : o.timeout < 2 ^ 31)
    (h : Execution (next P ρ.value o.verbose) Timely (start o now) es s) :
    let calls := drainCalls P ρ.value o.verbose (start o now) es
    calls.length ≤ 2 ∧ s.1.context.failedPackets ≤ calls.length ∧
      ∀ first now' remainingTime, s.2 = .wait (.drain first (.poll now' remainingTime)) →
        ∃ called, calls.getLast? = some called ∧ first + o.timeout * (calls.length - 1) ≤ called ∧
          now' + remainingTime = called + o.timeout := by
  have hclock := execution_drainClock hpos hint h
  obtain ⟨hfew, hfailed⟩ := hclock.paced.few
  refine ⟨hfew, hfailed, ?_⟩
  intro first now' remainingTime hpoll
  obtain ⟨w, c⟩ := s
  cases hpoll
  obtain ⟨-, before, called, hcalls, -, hspaced, -, hat⟩ := hclock.paced
  rw [hcalls]
  refine ⟨called, List.getLast?_concat, ?_, hat.deadline⟩
  rw [List.length_append, List.length_singleton, Nat.add_sub_cancel]
  exact hspaced

theorem timely_iff (s : State) (e : Event) : Timely s e ↔
    s.1.time ≤ e.time ∧ e.time < s.1.context.startupDate + 2 ^ 31 ∧ e.time < 2 ^ 64 ∧
      ∀ timeout, pollTimeout s.2 = some timeout → 0 ≤ timeout → e.answer = .timeout →
        s.1.time + timeout ≤ e.time :=
  ⟨fun h => ⟨h.monotone, h.elapsed, h.representable, h.waits⟩,
    fun ⟨hmono, hlt, hrep, hwaits⟩ => ⟨hmono, hlt, hrep, hwaits⟩⟩

/-- A call whose poll times out when it was told to. -/
theorem unanswered_call (P : Platform) (ρ : ℕ → ℕ) (verbose : Bool) {w : World}
    (first called : ℕ) (hsending : w.context.sending = false) (hstart : w.context.startupDate = 0)
    (htime : w.time = called) (hlt : called + 600 < 2 ^ 31) (htimeout : w.context.timeout = 600)
    (hfailed : w.context.failedPackets + 1 < 2 ^ 64) : ∃ es,
    Execution (next P ρ verbose) Timely (w, .wait (.drain first .now)) es
      ({ w with
          context := { w.context with failedPackets := w.context.failedPackets + 1 }
          time := called + 600 }, .wait (.drainTest first)) ∧
    observe (next P ρ verbose) noteCall (w, .wait (.drain first .now)) es = [called] := by
  have hlimit : toSigned 32 600 = 600 := by decide
  have hpoll : next P ρ verbose (w, .wait (.drain first .now)) ⟨called, .clock⟩ =
      some ({ w with time := called }, .wait (.drain first (.poll called 600))) := by
    simp [next, main, throttledReceive, call, hsending, firstTimeout, htimeout, hlimit]
  have hmissed : next P ρ verbose
      ({ w with time := called }, .wait (.drain first (.poll called 600)))
      ⟨called + 600, .timeout⟩ =
      some ({ w with
          context := { w.context with failedPackets := w.context.failedPackets + 1 }
          time := called + 600 }, .wait (.drainTest first)) := by
    have hmod := Nat.mod_eq_of_lt hfailed
    simp [next, main, throttledReceive, call, hsending, -Nat.reducePow, hmod]
  have hcalled : Timely (w, .wait (.drain first .now)) ⟨called, .clock⟩ :=
    ⟨htime.le, by simp only [hstart]; omega, by simp only; omega, fun _ _ _ h => by cases h⟩
  have hwaited : Timely ({ w with time := called }, .wait (.drain first (.poll called 600)))
      ⟨called + 600, .timeout⟩ := by
    refine ⟨Nat.le_add_right _ _, by simp only [hstart]; omega, by simp only; omega, ?_⟩
    intro timeout ht _ _
    cases ht
    rfl
  refine ⟨_, ((Execution.refl _).tail hcalled hpoll).tail hwaited hmissed, ?_⟩
  simp [observe, noteCall, hpoll, hmissed]

/-- Two polls that time out when they were told to. -/
theorem unanswered_drain (P : Platform) (ρ : ℕ → ℕ) (verbose : Bool) {w : World}
    (hsending : w.context.sending = false) (hstart : w.context.startupDate = 0)
    (htime : w.time = 1000) (htimeout : w.context.timeout = 600)
    (hmissing : w.context.sentPackets ≠ w.context.receivedPackets)
    (hfailed : w.context.failedPackets = 0) : ∃ es v,
    Execution (next P ρ verbose) Timely (w, .wait .drainStart) es (v, .wait .finalStatus) ∧
    observe (next P ρ verbose) noteCall (w, .wait .drainStart) es = [1000, 1600] ∧
    v.time = 2200 ∧ v.context.failedPackets = 2 := by
  have hbegin : next P ρ verbose (w, .wait .drainStart) ⟨1000, .clock⟩ =
      some ({ w with time := 1000 }, .wait (.drain 1000 .now)) := by
    simp [next, main, drainLoop, hmissing]
  have hbegun : Timely (w, .wait .drainStart) ⟨1000, .clock⟩ :=
    ⟨htime.le, by rw [hstart]; decide, by decide, fun _ _ _ h => by cases h⟩
  obtain ⟨es, hfirst, hone⟩ := unanswered_call P ρ verbose (w := { w with time := 1000 }) 1000
    1000 hsending hstart rfl (by decide) htimeout (by simp only [hfailed]; decide)
  let u : World := { w with
    context := { w.context with failedPackets := w.context.failedPackets + 1 }
    time := 1600 }
  have hagain : next P ρ verbose (u, .wait (.drainTest 1000)) ⟨1600, .clock⟩ =
      some (u, .wait (.drain 1000 .now)) := by
    have hread : wrapSub 64 1600 1000 = 600 := by decide
    simp [next, main, drainLoop, hmissing, htimeout, hread, u]
  have htested : Timely (u, .wait (.drainTest 1000)) ⟨1600, .clock⟩ :=
    ⟨le_rfl, by simp only [u, hstart]; decide, by decide, fun _ _ _ h => by cases h⟩
  obtain ⟨fs, hsecond, htwo⟩ := unanswered_call P ρ verbose (w := u) 1000 1600 hsending hstart
    rfl (by decide) htimeout (by simp only [u, hfailed]; decide)
  let v : World := { u with
    context := { u.context with failedPackets := u.context.failedPackets + 1 }
    time := 2200 }
  have hover : next P ρ verbose (v, .wait (.drainTest 1000)) ⟨2200, .clock⟩ =
      some (v, .wait .finalStatus) := by
    have hread : wrapSub 64 2200 1000 = 1200 := by decide
    simp [next, main, htimeout, hread, u, v]
  have hended : Timely (v, .wait (.drainTest 1000)) ⟨2200, .clock⟩ :=
    ⟨le_rfl, by simp only [u, v, hstart]; decide, by decide, fun _ _ _ h => by cases h⟩
  have hentered : Execution (next P ρ verbose) Timely (w, .wait .drainStart) [⟨1000, .clock⟩]
      ({ w with time := 1000 }, .wait (.drain 1000 .now)) :=
    (Execution.refl _).tail hbegun hbegin
  have hrepeated := (hentered.trans hfirst).tail htested hagain
  have h := (hrepeated.trans hsecond).tail hended hover
  refine ⟨_, v, h, ?_, rfl, ?_⟩
  · rw [(hrepeated.trans hsecond).observe_append, hrepeated.observe_append,
      (hentered.trans hfirst).observe_append, hentered.observe_append, observe_single hbegin,
      observe_single hagain, observe_single hover, hone, htwo]
    rfl
  · simp only [u, v, hfailed]

/-- One query at one per second that no reply answers. -/
theorem unanswered_run : ∃ es s,
    Execution (next glibc (constantStream glibc 0 (by decide)).value oneQuery.verbose) Timely
      (start oneQuery 0) es s ∧
    drainCalls glibc (constantStream glibc 0 (by decide)).value oneQuery.verbose
      (start oneQuery 0) es = [1000, 1600] ∧
    s.2 = .wait .finalStatus ∧ s.1.time = 2200 ∧ s.1.context.failedPackets = 2 := by
  let ρ := constantStream glibc 0 (by decide)
  obtain ⟨w, size, hsend, hnone, hsending⟩ : ∃ w size,
      next glibc ρ.value oneQuery.verbose (start oneQuery 0) ⟨0, .clock⟩ =
        some (w, .wait (.sendto size)) ∧ w.delivered = [] ∧ Sending 1 0 0 1 0 w :=
    ⟨_, _, rfl, rfl, rfl, rfl, le_rfl, Nat.lt_add_of_pos_right (by decide), rfl, rfl, rfl, rfl,
      rfl⟩
  have hclock : Timely (start oneQuery 0) ⟨0, .clock⟩ := by
    simp [timely_iff, start, initContext, pollTimeout]
  obtain ⟨es, v, hquery, hv⟩ := silent_iteration ρ.value oneQuery.verbose size hsending
    (waitBehind_onePerSecond (n := 0) (by decide)) (ahead_onePerSecond 0) le_rfl (by decide)
    (by decide) (by decide) (by decide) (by decide)
  obtain ⟨⟨-, -, -, hkept⟩, -⟩ := execution_offTable hquery
  let x : World := { updateStatus glibc oneQuery.verbose v 1000 with time := 1000 }
  let y : World := { x with context := { x.context with sending := false } }
  have htimely : Timely (v, .wait .status) ⟨1000, .clock⟩ := by
    simp [timely_iff, hv.time, hv.startupDate, pollTimeout]
  have hrun : Execution (next glibc ρ.value oneQuery.verbose) Timely (start oneQuery 0)
      (([⟨0, .clock⟩] ++ es) ++ [⟨1000, .clock⟩]) (y, .wait .drainStart) :=
    ((((Execution.refl _).tail hclock hsend).trans
      (hquery.weaken fun _ _ he => he.1.timely)).tail htimely rfl)
  have hpaced := execution_drainClock (o := oneQuery) (by decide) (by decide) hrun
  obtain ⟨hbefore, hnever⟩ := hpaced.paced
  obtain ⟨hover, hsent, hreceived⟩ := drainStart_facts (hrun.weaken fun _ _ _ => trivial)
  have hmissing : y.context.sentPackets ≠ y.context.receivedPackets := by
    have hone : y.wire.length = 1 := hv.wire
    have hzero : y.delivered = [] := hkept.trans hnone
    rw [hsent, hreceived, hone, hzero]
    decide
  obtain ⟨fs, z, hdrain, hcalls, hend, hfailed⟩ := unanswered_drain glibc ρ.value
    oneQuery.verbose hover hpaced.startupDate rfl hpaced.option hmissing hnever
  have h := hrun.trans hdrain
  refine ⟨_, _, h, ?_, rfl, hend, hfailed⟩
  rw [drainCalls, hrun.observe_append fs, hcalls]
  exact congrArg (· ++ [1000, 1600]) hbefore

/-- Both calls of its drain phase fail, the second one at 2200 ms. -/
theorem drain_calls_bounded_unanswered : ∃ es s,
    Execution (next glibc (constantStream glibc 0 (by decide)).value oneQuery.verbose) Timely
      (start oneQuery 0) es s ∧
    drainCalls glibc (constantStream glibc 0 (by decide)).value oneQuery.verbose
      (start oneQuery 0) es = [1000, 1600] ∧
    s.2 = .wait .finalStatus ∧ s.1.time = 2200 ∧ s.1.context.failedPackets = 2 ∧
    s.1.context.failedPackets ≤ 2 := by
  obtain ⟨es, s, h, hcalls, hend, htime, hfailed⟩ := unanswered_run
  refine ⟨es, s, h, hcalls, hend, htime, hfailed, ?_⟩
  obtain ⟨hfew, hmost, -⟩ := drain_calls_bounded (o := oneQuery) (by decide) (by decide) h
  exact hmost.trans hfew

end BlastDrainDeadline
