import DnsBlast.MattblastRate

/-! The integer divisions of mattblast: by pps in throttled_receive and by the nanoseconds
since the start in update_status. The periodic status updates come two microseconds after
the start at the earliest; nothing checks pps, nor the clock at main's own two updates. -/
namespace MattblastDivision

open WrappingIntegers LabelledRuns BlastHeader BlastQuery BlastSyscalls MattblastMain
  MattblastFirstPoll MattblastRate
open BlastReceive (StatusPos)

def statusUpdate : StatusPos → Option ℕ
  | .now => none
  | .update now => some now

def queueUpdate : QueuePos → Option ℕ
  | .receive => none
  | .status p => statusUpdate p

def throttleUpdate : ThrottlePos → Option ℕ
  | .first p _ _ => queueUpdate p
  | .status p => statusUpdate p
  | .queue p _ _ => queueUpdate p
  | _ => none

def mainUpdate : MainPos → Option ℕ
  | .throttle p => throttleUpdate p
  | .drain p => throttleUpdate p
  | _ => none

/-- No zero was divided by, and an update that is due is later than the start. -/
def Sound {π r : Type} (update : π → Option ℕ) (begin time : ℕ) : Outcome π r → Prop
  | .wait p => ∀ now ∈ update p, begin < now ∧ now ≤ time
  | .ret _ => True
  | .stop k => k ≠ .divideByZero

structure Clocked (begin : ℕ) (w : World) (time : ℕ) : Prop where
  startupDate : w.context.startupDate = begin
  begun : begin ≤ w.context.lastStatusUpdate
  past : w.context.lastStatusUpdate ≤ time

theorem Clocked.later {begin time time' : ℕ} {w : World} (h : Clocked begin w time)
    (hle : time ≤ time') : Clocked begin w time' :=
  ⟨h.startupDate, h.begun, h.past.trans hle⟩

theorem updateStatus_eq_none {P : Platform} {w : World} {now : ℕ}
    (hle : w.context.startupDate ≤ now) (hrep : now < 2 ^ 64) :
    updateStatus P w now = none ↔ now = w.context.startupDate := by
  simp only [updateStatus, wrapSub_of_le hle hrep]
  by_cases hz : now - w.context.startupDate = 0
  · rw [if_pos hz]
    simp only [true_iff]
    omega
  · rw [if_neg hz]
    simp only [reduceCtorEq, false_iff]
    omega

theorem updateStatus_keeps {P : Platform} {w v : World} {now : ℕ}
    (h : updateStatus P w now = some v) :
    v.context.startupDate = w.context.startupDate ∧
      v.context.lastStatusUpdate = w.context.lastStatusUpdate := by
  obtain ⟨-, hv⟩ := Option.ite_none_left_eq_some.mp h
  cases hv
  exact ⟨rfl, rfl⟩

section Steps
variable {P : Platform} {begin : ℕ} {w v : World} {e : Event}

/-- An update is due two thousand nanoseconds after the last one, so after the start. -/
theorem periodicallyUpdateStatus_sound {p : StatusPos} {c : Outcome StatusPos ℕ}
    (hw : Clocked begin w e.time) (hrep : e.time < 2 ^ 64)
    (hp : ∀ now ∈ statusUpdate p, begin < now ∧ now ≤ e.time)
    (h : periodicallyUpdateStatus P w p e = some (v, c)) :
    Clocked begin v e.time ∧ Sound statusUpdate begin e.time c := by
  obtain ⟨time, answer⟩ := e
  cases p with
  | now =>
    cases answer <;> try cases h
    simp only [periodicallyUpdateStatus] at h
    by_cases hdue : wrapSub 64 time w.context.lastStatusUpdate < updateStatusPeriod
    · rw [if_pos hdue] at h
      cases h
      exact ⟨hw, trivial⟩
    · rw [if_neg hdue] at h
      cases h
      refine ⟨hw, ?_⟩
      intro now hnow
      cases hnow
      have hbegun := hw.begun
      have hpast : w.context.lastStatusUpdate ≤ time := hw.past
      rw [wrapSub_of_le hpast hrep, updateStatusPeriod] at hdue
      exact ⟨by omega, le_rfl⟩
  | update now =>
    obtain ⟨hlate, hle⟩ := hp now rfl
    cases answer <;> try cases h
    have hstart := hw.startupDate
    have hsome : updateStatus P w time ≠ none := by
      intro hnone
      rw [updateStatus_eq_none (by omega) hrep] at hnone
      omega
    obtain ⟨u, hu⟩ := Option.ne_none_iff_exists'.mp hsome
    simp only [periodicallyUpdateStatus, hu] at h
    cases h
    obtain ⟨hdate, -⟩ := updateStatus_keeps hu
    exact ⟨⟨hdate.trans hstart, hlate.le, hle⟩, trivial⟩

theorem receive_sound {c : Outcome Unit ℕ} (hw : Clocked begin w e.time)
    (h : receive w e = some (v, c)) :
    Clocked begin v e.time ∧ Sound (fun _ => none) begin e.time c := by
  obtain ⟨time, answer⟩ := e
  cases answer with
  | received d stale =>
    cases h
    exact ⟨⟨hw.startupDate, hw.begun, hw.past⟩, trivial⟩
  | nothing errno =>
    cases errno <;> cases h
    · exact ⟨hw, trivial⟩
    · exact ⟨hw, by simp [Sound]⟩
    · exact ⟨hw, by simp [Sound]⟩
  | _ => cases h

theorem emptyReceiveQueue_sound {p : QueuePos}
    {c : Outcome QueuePos Unit} (hw : Clocked begin w e.time)
    (hrep : e.time < 2 ^ 64) (hp : ∀ now ∈ queueUpdate p, begin < now ∧ now ≤ e.time)
    (h : emptyReceiveQueue P w p e = some (v, c)) :
    Clocked begin v e.time ∧ Sound queueUpdate begin e.time c := by
  cases p with
  | receive =>
    obtain ⟨d, hr, rfl⟩ := call_outcome h fun _ _ => rfl
    obtain ⟨hv, hd⟩ := receive_sound hw hr
    refine ⟨hv, ?_⟩
    cases d with
    | wait q => exact hd
    | ret r =>
      by_cases hz : r = 0
      · simp [Outcome.andThen, Sound, queueUpdate, hz]
      · simp [Outcome.andThen, Sound, queueUpdate, statusUpdate, hz]
    | stop k => exact hd
  | status p =>
    obtain ⟨d, hr, rfl⟩ := call_outcome h fun _ _ => rfl
    obtain ⟨hv, hd⟩ := periodicallyUpdateStatus_sound hw hrep hp hr
    refine ⟨hv, ?_⟩
    cases d <;> exact hd

theorem beginPoll_sound {now max time : ℕ} (hpps : w.context.pps ≠ 0) :
    Sound throttleUpdate begin time (beginPoll now max w).2 := by
  rcases beginPoll_cases now max w with ⟨timeout, -, hpoll⟩ | ⟨hnone, -⟩
  · simp [hpoll, Sound, throttleUpdate]
  · simp only [firstTimeout, if_neg hpps] at hnone
    split_ifs at hnone

theorem throttledReceive_sound {p : ThrottlePos} {c : Outcome ThrottlePos ℕ}
    (hw : Clocked begin w e.time) (hrep : e.time < 2 ^ 64) (hpps : w.context.pps ≠ 0)
    (hp : ∀ now ∈ throttleUpdate p, begin < now ∧ now ≤ e.time)
    (h : throttledReceive P w p e = some (v, c)) :
    Clocked begin v e.time ∧ Sound throttleUpdate begin e.time c := by
  have hagain : ∀ now remainingTime,
      Sound throttleUpdate begin e.time (pollAgain now remainingTime) := by
    intro now remainingTime
    unfold pollAgain
    split_ifs <;> simp [Sound, throttleUpdate]
  have hrate : v.context.pps ≠ 0 :=
    (congrArg Pace.pps (throttledReceive_quiet h).pace).trans_ne hpps
  cases throttledReceive_step h with
  | behind hmax hd => exact ⟨hw, by simp [Sound, throttleUpdate, queueUpdate]⟩
  | ahead hmax hd => exact ⟨hw, beginPoll_sound hpps⟩
  | @first q _ _ d now max hq =>
    obtain ⟨hv, hd⟩ := emptyReceiveQueue_sound hw hrep hp hq
    cases d with
    | wait r => exact ⟨hv, hd⟩
    | ret r => exact ⟨hv, beginPoll_sound hrate⟩
    | stop k => exact ⟨hv, hd⟩
  | timeout time now remainingTime => exact ⟨hw, by simp [Sound, throttleUpdate, statusUpdate]⟩
  | ready time now remainingTime => exact ⟨hw, by simp [Sound, throttleUpdate, queueUpdate]⟩
  | interrupted time now remainingTime errno he => exact ⟨hw, hagain now remainingTime⟩
  | failure time now remainingTime => exact ⟨hw, by simp [Sound]⟩
  | @status q _ _ d hq =>
    obtain ⟨hv, hd⟩ := periodicallyUpdateStatus_sound hw hrep hp hq
    cases d with
    | wait r => exact ⟨hv, hd⟩
    | ret r => exact ⟨hv, trivial⟩
    | stop k => exact ⟨hv, hd⟩
  | @queue q _ _ d now remainingTime hq =>
    obtain ⟨hv, hd⟩ := emptyReceiveQueue_sound hw hrep hp hq
    cases d with
    | wait r => exact ⟨hv, hd⟩
    | ret r => exact ⟨hv, by simp [Outcome.andThen, Sound, throttleUpdate]⟩
    | stop k => exact ⟨hv, hd⟩
  | again now remainingTime now2 => exact ⟨hw, hagain now2 _⟩

theorem beginBlast_clocked {ρ : ℕ → ℕ} {time : ℕ} (hw : Clocked begin w time) :
    Clocked begin (beginBlast P ρ w).1 time := by
  simp only [beginBlast]
  split_ifs
  · exact ⟨hw.startupDate, hw.begun, hw.past⟩
  · exact ⟨hw.startupDate, hw.begun, hw.past⟩

end Steps

/-- The condition on one answer: no packet is followed by a division by a rate of zero, and
the clock has moved when main itself updates the status. -/
structure NonzeroDivisors (pps begin : ℕ) (s : State) (e : Event) : Prop where
  rate : s.2 = .wait (.throttle .now) → pps ≠ 0
  elapsed : s.2 = .wait .status ∨ s.2 = .wait .finalStatus → e.time ≠ begin

def Undivided (w : World) : Outcome MainPos ℕ → Prop
  | .wait .send => w.context.sentPackets = 0
  | .wait (.sendto _) => w.context.sentPackets = 0
  | .wait (.throttle .now) => w.context.sentPackets = 1
  | .stop k => k ≠ .divideByZero
  | _ => False

structure Guarded (pps begin : ℕ) (s : State) : Prop where
  clocked : Clocked begin s.1 s.1.time
  rate : s.1.context.pps = pps
  representable : s.1.context.sentPackets < 2 ^ 64
  sound : Sound mainUpdate begin s.1.time s.2
  undivided : pps = 0 → Undivided s.1 s.2

theorem drainLoop_sound (begin time : ℕ) (w : World) :
    Sound mainUpdate begin time (drainLoop w) := by
  rcases drainLoop_cases w with hd | hd
  · simp [hd, Sound, mainUpdate, throttleUpdate]
  · simp [hd, Sound, mainUpdate]

section Runs
variable {P : Platform} {ρ : ℕ → ℕ} {pps begin : ℕ} {w v : World} {e : Event} {p : MainPos}
  {c : Outcome MainPos ℕ}

/-- Past the first call of throttled_receive the rate is not zero. -/
theorem Guarded.rate_ne_zero (hs : Guarded pps begin (w, .wait p))
    (hd : NonzeroDivisors pps begin (w, .wait p) e)
    (hp : ∀ n, p ≠ .send ∧ p ≠ .sendto n) : w.context.pps ≠ 0 := by
  have hrate : w.context.pps = pps := hs.rate
  rw [hrate]
  intro hz
  have hu : Undivided w (.wait p) := hs.undivided hz
  cases p with
  | send => exact (hp 0).1 rfl
  | sendto n => exact (hp n).2 rfl
  | throttle q =>
    cases q with
    | now => exact hd.rate rfl hz
    | _ => exact hu
  | _ => exact hu

theorem step_guarded (hs : Guarded pps begin (w, .wait p)) (he : Nondecreasing (w, .wait p) e)
    (hd : NonzeroDivisors pps begin (w, .wait p) e) (h : Step P ρ w p e v c) :
    Clocked begin v e.time ∧ Sound mainUpdate begin e.time c ∧ (pps = 0 → Undivided v c) := by
  have hw : Clocked begin w e.time := hs.clocked.later he.monotone
  have hrep := he.representable
  have hrate : w.context.pps = pps := hs.rate
  have hlater : ∀ now ∈ mainUpdate p, begin < now ∧ now ≤ e.time := by
    intro now hnow
    obtain ⟨hlate, hle⟩ := hs.sound now hnow
    exact ⟨hlate, hle.trans he.monotone⟩
  -- a step that needs the rate is taken with a rate other than zero
  have hdone : w.context.pps ≠ 0 → pps = 0 → Undivided v c := by
    intro hne hz
    exact absurd (hrate.trans hz) hne
  cases h with
  | send hr hb =>
    subst hb
    refine ⟨beginBlast_clocked ⟨hw.startupDate, hw.begun, hw.past⟩, by simp [Sound, mainUpdate], ?_⟩
    intro hz
    have hsent : w.context.sentPackets = 0 := hs.undivided hz
    exact (congrArg Pace.sentPackets (beginBlast_pace _ _ _)).trans hsent
  | accept time packetSize =>
    refine ⟨⟨hw.startupDate, hw.begun, hw.past⟩, by simp [Sound, mainUpdate, throttleUpdate], ?_⟩
    intro hz
    have hsent : w.context.sentPackets = 0 := hs.undivided hz
    simp [Undivided, endBlast, hsent]
  | retry time packetSize errno => exact ⟨hw, by simp [Sound, mainUpdate], hs.undivided⟩
  | fail time packetSize => exact ⟨hw, by simp [Sound], by simp [Undivided]⟩
  | throttle ht =>
    have hne := hs.rate_ne_zero hd (by simp)
    obtain ⟨hv, hc⟩ := throttledReceive_sound hw hrep hne hlater ht
    exact ⟨hv, hc, hdone hne⟩
  | @iterate q e u r ht =>
    have hne := hs.rate_ne_zero hd (by simp)
    obtain ⟨hv, -⟩ := throttledReceive_sound hw hrep hne hlater ht
    refine ⟨⟨hv.startupDate, hv.begun, hv.past⟩, ?_, hdone hne⟩
    simp only [endIteration]
    split_ifs <;> simp [Sound, mainUpdate]
  | abort ht =>
    have hne := hs.rate_ne_zero hd (by simp)
    obtain ⟨hv, hc⟩ := throttledReceive_sound hw hrep hne hlater ht
    exact ⟨hv, hc, hdone hne⟩
  | sent hv =>
    obtain ⟨hstart, hlast⟩ := updateStatus_keeps hv
    refine ⟨⟨hstart.trans hw.startupDate, ?_, ?_⟩, drainLoop_sound _ _ _,
      hdone (hs.rate_ne_zero hd (by simp))⟩
    · exact hlast ▸ hw.begun
    · exact hlast ▸ hw.past
  | drain ht =>
    have hne := hs.rate_ne_zero hd (by simp)
    obtain ⟨hv, hc⟩ := throttledReceive_sound hw hrep hne hlater ht
    exact ⟨hv, hc, hdone hne⟩
  | drained ht =>
    have hne := hs.rate_ne_zero hd (by simp)
    obtain ⟨hv, -⟩ := throttledReceive_sound hw hrep hne hlater ht
    exact ⟨hv, drainLoop_sound _ _ _, hdone hne⟩
  | drainAbort ht =>
    have hne := hs.rate_ne_zero hd (by simp)
    obtain ⟨hv, hc⟩ := throttledReceive_sound hw hrep hne hlater ht
    exact ⟨hv, hc, hdone hne⟩
  | done hv =>
    obtain ⟨hstart, hlast⟩ := updateStatus_keeps hv
    refine ⟨⟨hstart.trans hw.startupDate, ?_, ?_⟩, trivial,
      hdone (hs.rate_ne_zero hd (by simp))⟩
    · exact hlast ▸ hw.begun
    · exact hlast ▸ hw.past
  | @noTime p now hp hv =>
    have hstart := hw.startupDate
    have hle := hw.begun.trans hw.past
    rw [updateStatus_eq_none (hstart.trans_le hle) hrep, hstart] at hv
    have helapsed := hd.elapsed (hp.imp (congrArg Outcome.wait) (congrArg Outcome.wait))
    exact absurd hv helapsed

theorem next_guarded {s t : State} (hs : Guarded pps begin s) (he : Nondecreasing s e)
    (hd : NonzeroDivisors pps begin s e) (h : next P ρ s e = some t) : Guarded pps begin t := by
  obtain ⟨w, c⟩ := s
  obtain ⟨u, d⟩ := t
  obtain ⟨p, v, hp, hstep, ht⟩ := next_cases h
  cases hp
  cases ht
  obtain ⟨hclocked, hsound, hundivided⟩ := step_guarded hs he hd hstep
  obtain ⟨-, hrate, hsent⟩ := step_clock hs.representable hstep
  refine ⟨⟨hclocked.startupDate, hclocked.begun, hclocked.past⟩, hrate.trans hs.rate, hsent,
    hsound, ?_⟩
  intro hz
  have hu : Undivided v d := hundivided hz
  revert hu
  unfold Undivided
  split <;> exact id

/-- With a rate of zero and one packet sent none is due, and the division follows at once. -/
theorem zero_rate_divides {d : Outcome ThrottlePos ℕ} (hrate : w.context.pps = 0)
    (hsent : w.context.sentPackets = 1) (h : throttledReceive P w .now e = some (v, d)) :
    d = .stop .divideByZero := by
  obtain ⟨time, answer⟩ := e
  cases answer <;> try cases h
  simp only [throttledReceive, maxPackets, hrate, hsent, Nat.zero_mul, Nat.zero_mod, Nat.zero_div,
    Nat.le_zero_eq, one_ne_zero, and_false, if_false, beginPoll, firstTimeout, if_true] at h
  cases h
  rfl

/-- An answer that does not make the program divide by zero met the condition. -/
theorem nonzero_of_step (hs : Guarded pps begin (w, .wait p)) (he : Nondecreasing (w, .wait p) e)
    (h : Step P ρ w p e v c) (hc : c ≠ .stop .divideByZero) :
    NonzeroDivisors pps begin (w, .wait p) e := by
  constructor
  · rintro hp hz
    cases hp
    have hdivides : ∀ {u d}, throttledReceive P w .now e = some (u, d) →
        d = .stop .divideByZero :=
      fun ht => zero_rate_divides (hs.rate.trans hz) (hs.undivided hz) ht
    cases h with
    | throttle ht => cases hdivides ht
    | iterate ht => cases hdivides ht
    | abort ht =>
      cases hdivides ht
      exact hc rfl
    | noTime hp _ => rcases hp with hp | hp <;> cases hp
  · intro hp hz
    have hw := hs.clocked.later he.monotone
    have hle := hw.startupDate.trans_le (hw.begun.trans hw.past)
    have hnone : updateStatus P w e.time = none :=
      (updateStatus_eq_none hle he.representable).mpr (hz.trans hw.startupDate.symm)
    rcases hp with hp | hp
    · cases hp
      cases h with
      | sent hv => cases hnone.symm.trans hv
      | noTime _ _ => exact hc rfl
    · cases hp
      cases h with
      | done hv => cases hnone.symm.trans hv
      | noTime _ _ => exact hc rfl

end Runs

theorem guarded_start (a : Arguments) (begin : ℕ) : Guarded a.pps begin (start a begin) :=
  ⟨⟨rfl, le_rfl, le_rfl⟩, rfl, Nat.two_pow_pos 64, by simp [start, Sound, mainUpdate],
    fun _ => rfl⟩

/-- A run divides by zero exactly when one of its answers fails the condition: every
division of a periodic update is safe. -/
theorem no_division_by_zero_iff {P : Platform} {ρ : RandStream P} {a : Arguments} {begin : ℕ}
    {es : List Event} {s : State}
    (h : Execution (next P ρ.value) Nondecreasing (start a begin) es s) :
    s.2 ≠ .stop .divideByZero ↔
      Execution (next P ρ.value) (fun s e => Nondecreasing s e ∧ NonzeroDivisors a.pps begin s e)
        (start a begin) es s := by
  have hguarded : ∀ {es s}, Execution (next P ρ.value)
      (fun s e => Nondecreasing s e ∧ NonzeroDivisors a.pps begin s e) (start a begin) es s →
      Guarded a.pps begin s := by
    intro es s h
    apply h.invariant (guarded_start a begin)
    intro s e t hs he hn
    exact next_guarded hs he.1 he.2 hn
  constructor
  · induction h with
    | refl =>
      intro _
      exact .refl _
    | @tail t u es e _ he hn ih =>
      intro hu
      obtain ⟨w, d⟩ := t
      obtain ⟨p, v, hp, hstep, -⟩ := next_cases hn
      cases hp
      have ht := ih (by simp)
      exact ht.tail ⟨he, nonzero_of_step (hguarded ht) he hstep hu⟩ hn
  · intro hrun hzero
    have hsound := (hguarded hrun).sound
    rw [hzero] at hsound
    exact hsound rfl

/-- A sender of three a second, 0.7 s after the start. -/
theorem no_division_by_zero_three_per_second : ∃ s, s.2 ≠ .stop .divideByZero ∧
    Execution (next glibc (constantStream glibc 0 (by decide)).value)
      (fun s e => Nondecreasing s e ∧ NonzeroDivisors threePerSecond.pps 0 s e)
      (start threePerSecond 0) [⟨0, .run⟩, ⟨0, .accepted⟩, ⟨700000000, .clock⟩] s := by
  obtain ⟨s, h, hs⟩ : ∃ s, Execution (next glibc (constantStream glibc 0 (by decide)).value)
      Nondecreasing (start threePerSecond 0)
      [⟨0, .run⟩, ⟨0, .accepted⟩, ⟨700000000, .clock⟩] s ∧
      ∃ p, s.2 = .wait p :=
    ⟨_, runTrace_execution (.refl _) (nondecreasing_trace (by decide) (by decide)) rfl, _, rfl⟩
  obtain ⟨p, hp⟩ := hs
  have hs : s.2 ≠ .stop .divideByZero := by simp [hp]
  exact ⟨s, hs, (no_division_by_zero_iff h).mp hs⟩

/-- `mattblast HOST 3 0` and `mattblast HOST 1 3`. -/
def zeroRate : Arguments := { threePerSecond with pps := 0, pps_lt := Nat.two_pow_pos 64 }
def onePacket : Arguments :=
  { threePerSecond with sendCount := 1, sendCount_pos := one_pos, sendCount_lt := one_lt_word }

/-- Both kinds of division by zero happen: after the first packet at a rate of zero, and in
main's first update_status when the last packet leaves in the microsecond of the start. -/
theorem divides_by_zero :
    (∃ es s, Execution (next glibc (constantStream glibc 0 (by decide)).value) Nondecreasing
      (start zeroRate 0) es s ∧ s.2 = .stop .divideByZero) ∧
    ∃ es s, Execution (next glibc (constantStream glibc 0 (by decide)).value) Nondecreasing
      (start onePacket 0) es s ∧ s.2 = .stop .divideByZero := by
  constructor
  · exact ⟨[⟨0, .run⟩, ⟨0, .accepted⟩, ⟨1000, .clock⟩], _,
      runTrace_execution (.refl _) (nondecreasing_trace (by decide) (by decide)) rfl, rfl⟩
  · exact ⟨[⟨0, .run⟩, ⟨0, .accepted⟩, ⟨0, .clock⟩, ⟨0, .timeout⟩, ⟨0, .clock⟩, ⟨0, .clock⟩], _,
      runTrace_execution (.refl _) (nondecreasing_trace (by decide) (by decide)) rfl, rfl⟩

end MattblastDivision
