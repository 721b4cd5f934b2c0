import DnsBlast.BlastTermination
import DnsBlast.MattblastNetwork
import DnsBlast.MattblastRate

/-! Where mattblast.c gets stuck. Its send loop ends, and so does its drain loop as long as
replies come; only a drain poll, which has no limit, can wait for ever. -/
namespace MattblastTermination

open WrappingIntegers LabelledRuns AmortizedRuns BlastHeader BlastSyscalls MattblastMain
  MattblastNetwork
open BlastReceive (StatusPos)
open BlastTermination (disturbs fails outcomeCost statusCost andThen_cost Accepts)
open MattblastRate (pollTimeout beginBlast_pace)
open MattblastDrain (oneQuery beginPoll_unlimited)

/-- A poll without limit does not time out. -/
def Patient (s : State) (e : Event) : Prop :=
  ∀ remainingTime, pollTimeout s.2 = some remainingTime → remainingTime < 0 →
    e.answer ≠ .timeout

def charge (e : Event) : ℕ := if disturbs e.answer then 9 else 0

def queueCost : QueuePos → ℕ
  | .receive => 3
  | .status p => statusCost p

def throttleCost : ThrottlePos → ℕ
  | .now => 7
  | .first p _ _ => queueCost p + 3
  | .poll .. => 3
  | .status p => statusCost p
  | .queue p _ _ => queueCost p + 4
  | .now2 .. => 4

/-- Those of the drain loop: a poll without limit only ends with a disturbance. -/
def drainCost : ThrottlePos → ℕ
  | .now => 2
  | .first .. => 0
  | .poll _ remainingTime => if remainingTime < 0 then 1 else 5
  | .status p => statusCost p + 2
  | .queue p _ _ => queueCost p + 6
  | .now2 .. => 6

def mainCost (sendCount : ℕ) : MainPos → ℕ
  | .send => 9 * sendCount + 3
  | .sendto _ => 9 * (sendCount - 1) + 11
  | .throttle p => 9 * (sendCount - 1) + throttleCost p + 3
  | .status => 3
  | .drain p => drainCost p
  | .finalStatus => 1

def potential (s : State) : ℕ := outcomeCost (mainCost s.1.sendCount) 0 s.2

section Steps
variable {P : Platform} {w v : World} {e : Event}

theorem periodicallyUpdateStatus_cost {p : StatusPos} {c : Outcome StatusPos ℕ}
    (h : periodicallyUpdateStatus P w p e = some (v, c)) :
    outcomeCost statusCost 0 c + 1 ≤ statusCost p := by
  unfold periodicallyUpdateStatus at h
  split at h
  · split_ifs at h
    · cases h
      decide
    · cases h
      exact le_rfl
  · split at h
    · cases h
      exact le_rfl
    · cases h
      exact le_rfl
  · cases h

theorem emptyReceiveQueue_cost {p : QueuePos} {c : Outcome QueuePos Unit}
    (h : emptyReceiveQueue P w p e = some (v, c)) :
    outcomeCost queueCost 0 c + 1 ≤ queueCost p + charge e := by
  cases p with
  | receive =>
    obtain ⟨d, hr, rfl⟩ := call_outcome h fun _ _ => rfl
    unfold receive at hr
    split at hr
    all_goals cases hr
    all_goals simp [Outcome.andThen, outcomeCost, queueCost, statusCost, charge, disturbs]
  | status p =>
    obtain ⟨d, hr, rfl⟩ := call_outcome h fun _ _ => rfl
    have hcost := periodicallyUpdateStatus_cost hr
    refine Nat.le_add_right_of_le (le_trans (Nat.succ_le_succ ?_) hcost)
    exact andThen_cost statusCost 0 (fun _ => rfl) (fun _ => le_rfl) d

theorem beginPoll_cost (now max : ℕ) (w : World) :
    outcomeCost throttleCost 0 (beginPoll now max w).2 ≤ 3 := by
  rcases beginPoll_cases now max w with ⟨timeout, -, h⟩ | ⟨-, h⟩
  · rw [h]
    exact le_rfl
  · rw [h]
    exact Nat.zero_le 3

theorem pollAgain_cost (now : ℕ) (remainingTime : ℤ) :
    outcomeCost throttleCost 0 (pollAgain now remainingTime) ≤ 3 := by
  unfold pollAgain
  split_ifs
  · exact le_rfl
  · exact Nat.zero_le 3

theorem pollAgain_drainCost (now : ℕ) (remainingTime : ℤ) :
    outcomeCost drainCost 2 (pollAgain now remainingTime) ≤ 5 := by
  unfold pollAgain
  split_ifs
  · simp only [outcomeCost, drainCost]
    split_ifs <;> decide
  · exact (show 2 ≤ 5 by decide)

theorem throttledReceive_cost {p : ThrottlePos} {c : Outcome ThrottlePos ℕ}
    (h : throttledReceive P w p e = some (v, c)) :
    outcomeCost throttleCost 0 c + 1 ≤ throttleCost p + charge e := by
  cases throttledReceive_step h with
  | behind => exact Nat.le_add_right _ _
  | @ahead now max =>
    have hcost := beginPoll_cost now max w
    simp only [throttleCost]
    omega
  | @first q _ _ d now max hq =>
    have hcost := emptyReceiveQueue_cost hq
    have hcall : outcomeCost throttleCost 0 (d.andThen (.first · now max) fun _ =>
        (beginPoll now max v).2) ≤ outcomeCost queueCost 0 d + 3 := by
      refine andThen_cost queueCost 3 ?_ ?_ d
      · exact fun _ => rfl
      · exact fun _ => beginPoll_cost now max v
    simp only [throttleCost]
    omega
  | timeout => exact Nat.le_add_right _ _
  | ready => exact Nat.add_le_add_left (show 5 ≤ 9 by decide) 3
  | interrupted time now remainingTime errno he =>
    exact Nat.add_le_add (pollAgain_cost now remainingTime) (by simp [charge, disturbs])
  | failure => exact Nat.le_add_right_of_le (by simp [outcomeCost, throttleCost])
  | @status q _ _ d hq =>
    have hcost := periodicallyUpdateStatus_cost hq
    refine Nat.le_add_right_of_le (le_trans (Nat.succ_le_succ ?_) hcost)
    exact andThen_cost statusCost 0 (fun _ => rfl) (fun _ => le_rfl) d
  | @queue q _ _ d now remainingTime hq =>
    have hcost := emptyReceiveQueue_cost hq
    have hcall : outcomeCost throttleCost 0 (d.andThen (.queue · now remainingTime) fun _ =>
        (.wait (.now2 now remainingTime) : Outcome ThrottlePos ℕ)) ≤
        outcomeCost queueCost 0 d + 4 := by
      refine andThen_cost queueCost 4 ?_ ?_ d
      · exact fun _ => rfl
      · exact fun _ => le_rfl
    simp only [throttleCost]
    omega
  | again now remainingTime now2 =>
    exact Nat.le_add_right_of_le (Nat.succ_le_succ (pollAgain_cost _ _))

/-- The first poll of a call in the drain phase has no limit. -/
theorem beginPoll_drain (hs : w.context.sending = false) (now max : ℕ) :
    (beginPoll now max w).2 = .wait (.poll now (-1)) ∨
      (beginPoll now max w).2 = .stop .divideByZero := by
  rcases beginPoll_cases now max w with ⟨timeout, ht, h⟩ | ⟨-, h⟩
  · left
    obtain ⟨-, ht⟩ := Option.ite_none_left_eq_some.mp ht
    simp only [hs, Bool.not_false, if_true, Option.some.injEq] at ht
    rw [h, ht]
  · exact Or.inr h

def drains : ThrottlePos → Bool
  | .first .. => false
  | _ => true

theorem throttledReceive_drains {p : ThrottlePos} {c : Outcome ThrottlePos ℕ}
    (hs : w.context.sending = false) (hp : drains p = true)
    (h : throttledReceive P w p e = some (v, c)) : ∀ q, c = .wait q → drains q = true := by
  have hagain : ∀ now remainingTime q, pollAgain now remainingTime = .wait q →
      drains q = true := by
    intro now remainingTime q hq
    unfold pollAgain at hq
    split_ifs at hq
    cases hq
    rfl
  intro q hq
  subst hq
  generalize hc : (Outcome.wait q : Outcome ThrottlePos ℕ) = c at h
  cases throttledReceive_step h with
  | behind hmax hd =>
    rw [hs] at hd
    exact absurd hd.1 (by decide)
  | @ahead now max =>
    rcases beginPoll_drain hs now max with hb | hb
    · rw [hb] at hc
      cases hc
      rfl
    · rw [hb] at hc
      cases hc
  | first => cases hp
  | interrupted => exact hagain _ _ _ hc.symm
  | @status _ _ _ d =>
    cases d <;> cases hc
    rfl
  | @queue _ _ _ d =>
    cases d <;> cases hc
    all_goals rfl
  | again => exact hagain _ _ _ hc.symm
  | failure => cases hc
  | _ =>
    cases hc
    rfl

theorem throttledReceive_drainCost {p : ThrottlePos} {c : Outcome ThrottlePos ℕ}
    (hs : w.context.sending = false) (hp : drains p = true)
    (hpatient : ∀ now remainingTime, p = .poll now remainingTime → remainingTime < 0 →
      e.answer ≠ .timeout)
    (h : throttledReceive P w p e = some (v, c)) :
    outcomeCost drainCost 2 c + 1 ≤ drainCost p + charge e := by
  have hpoll : ∀ now remainingTime, 1 ≤ drainCost (.poll now remainingTime) := by
    intro now remainingTime
    simp only [drainCost]
    split_ifs <;> decide
  cases throttledReceive_step h with
  | behind hmax hd =>
    rw [hs] at hd
    exact absurd hd.1 (by decide)
  | @ahead now max =>
    rcases beginPoll_drain hs now max with hb | hb
    · rw [hb]
      exact Nat.le_add_right _ _
    · rw [hb]
      exact Nat.le_add_right_of_le (by decide)
  | first => cases hp
  | timeout time now remainingTime =>
    have hlimit : ¬ remainingTime < 0 := fun hneg => hpatient now remainingTime rfl hneg rfl
    simp only [outcomeCost, drainCost, statusCost, if_neg hlimit]
    omega
  | ready time now remainingTime =>
    have hone := hpoll now remainingTime
    simp only [outcomeCost, charge, disturbs, if_true]
    simp only [drainCost, queueCost] at hone ⊢
    omega
  | interrupted time now remainingTime errno he =>
    have hcost := pollAgain_drainCost now remainingTime
    simp only [charge, disturbs, if_true]
    omega
  | failure time now remainingTime => exact Nat.le_add_right_of_le (hpoll now remainingTime)
  | @status q _ _ d hq =>
    have hcost := periodicallyUpdateStatus_cost hq
    have hcall : outcomeCost drainCost 2 (d.andThen .status fun _ =>
        (.ret 0 : Outcome ThrottlePos ℕ)) ≤ outcomeCost statusCost 0 d + 2 := by
      refine andThen_cost statusCost 2 ?_ ?_ d
      · exact fun _ => rfl
      · exact fun _ => le_rfl
    simp only [drainCost]
    omega
  | @queue q _ _ d now remainingTime hq =>
    have hcost := emptyReceiveQueue_cost hq
    have hcall : outcomeCost drainCost 2 (d.andThen (.queue · now remainingTime) fun _ =>
        (.wait (.now2 now remainingTime) : Outcome ThrottlePos ℕ)) ≤
        outcomeCost queueCost 0 d + 6 := by
      refine andThen_cost queueCost 6 ?_ ?_ d
      · exact fun _ => rfl
      · exact fun _ => le_rfl
    simp only [drainCost]
    omega
  | again now remainingTime now2 =>
    exact Nat.le_add_right_of_le (Nat.succ_le_succ (pollAgain_drainCost _ _))

/-- The positions from which the next wait has no limit. -/
def Unlimited : ThrottlePos → Prop
  | .now => True
  | .poll _ remainingTime => remainingTime < 0
  | _ => False

theorem throttledReceive_unlimited {p q : ThrottlePos} (hs : w.context.sending = false)
    (hp : drains p = true) (h : throttledReceive P w p e = some (v, .wait q))
    (hq : Unlimited q) : v = w ∧ Unlimited p ∧ ∃ now, q = .poll now (-1) := by
  have hagain : ∀ now remainingTime, pollAgain now remainingTime ≠ .wait q := by
    intro now remainingTime hpoll
    unfold pollAgain at hpoll
    split_ifs at hpoll with hpos
    cases hpoll
    have hneg : remainingTime < 0 := hq
    omega
  generalize hc : (Outcome.wait q : Outcome ThrottlePos ℕ) = c at h
  cases throttledReceive_step h with
  | behind hmax hd =>
    rw [hs] at hd
    exact absurd hd.1 (by decide)
  | @ahead now => exact ⟨rfl, trivial, now, beginPoll_unlimited hs hc.symm⟩
  | first => cases hp
  | interrupted => exact absurd hc.symm (hagain _ _)
  | @status _ _ _ d =>
    cases d <;> cases hc
    exact hq.elim
  | @queue _ _ _ d =>
    cases d <;> cases hc
    all_goals exact hq.elim
  | again => exact absurd hc.symm (hagain _ _)
  | failure => cases hc
  | _ =>
    cases hc
    exact hq.elim

def Draining : State → Prop
  | (w, .wait (.drain p)) => w.context.sending = false ∧ drains p = true ∧
      (Unlimited p → w.context.sentPackets ≠ w.context.receivedPackets ∧
        ∀ now remainingTime, p = .poll now remainingTime → remainingTime = -1)
  | _ => True

theorem draining_drainLoop (hs : w.context.sending = false) : Draining (w, drainLoop w) := by
  unfold drainLoop
  split_ifs with hmissing
  · exact ⟨hs, rfl, fun _ => ⟨hmissing, by rintro now remainingTime ⟨⟩⟩⟩
  · trivial

theorem draining_step {ρ : ℕ → ℕ} {s t : State} (hs : Draining s)
    (h : next P ρ s e = some t) : Draining t := by
  obtain ⟨w, c⟩ := s
  obtain ⟨u, d⟩ := t
  obtain ⟨p, v, hp, hstep, ht⟩ := next_cases h
  cases hp
  cases ht
  have hsending : ∀ {v q c}, w.context.sending = false →
      throttledReceive P w q e = some (v, c) → v.context.sending = false := by
    intro v q c hw hv
    have hsame : v.context.sending = w.context.sending :=
      congrArg Pace.sending (throttledReceive_quiet hv).pace
    rw [hsame, hw]
  have hloop : ∀ {v : World}, v.context.sending = false →
      Draining ({ v with time := e.time }, drainLoop v) :=
    fun {v} hv => draining_drainLoop (w := { v with time := e.time }) hv
  cases hstep with
  | sent hv => exact hloop rfl
  | drain hv =>
    obtain ⟨hw, hp, hmissing⟩ := hs
    have hover := hsending hw hv
    refine ⟨hover, throttledReceive_drains hw hp hv _ rfl, ?_⟩
    intro hq
    obtain ⟨rfl, hp, now, rfl⟩ := throttledReceive_unlimited hw hp hv hq
    refine ⟨(hmissing hp).1, ?_⟩
    rintro now remainingTime ⟨⟩
    rfl
  | drained hv => exact hloop (hsending hs.1 hv)
  | iterate =>
    simp only [endIteration]
    split_ifs <;> trivial
  | _ => trivial

theorem drainLoop_cost (sendCount : ℕ) (w : World) :
    outcomeCost (mainCost sendCount) 0 (drainLoop w) ≤ 2 := by
  rcases drainLoop_cases w with h | h
  · rw [h]
    exact le_rfl
  · rw [h]
    exact (show 1 ≤ 2 by decide)

theorem endIteration_cost (hpos : 0 < w.sendCount) (hlt : w.sendCount < 2 ^ 64) :
    potential (endIteration w) ≤ 9 * (w.sendCount - 1) + 3 := by
  simp only [potential, endIteration, wrapSub_of_le hpos hlt]
  split_ifs
  · exact le_rfl
  · exact Nat.le_add_left _ _

theorem main_cost {ρ : ℕ → ℕ} {n : ℕ} {p : MainPos} {c : Outcome MainPos ℕ}
    (hs : Progress n w p) (hd : Draining (w, .wait p)) (he : Patient (w, .wait p) e)
    (h : Step P ρ w p e v c) : potential (v, c) + 1 ≤ potential (w, .wait p) + charge e := by
  have hcount : ∀ {u}, Quiet w u → u.sendCount = w.sendCount :=
    fun hq => congrArg Pace.sendCount hq.pace
  have hpatient : ∀ {q}, p = .drain q → ∀ now remainingTime, q = .poll now remainingTime →
      remainingTime < 0 → e.answer ≠ .timeout := by
    rintro q rfl now remainingTime rfl hneg
    exact he remainingTime rfl hneg
  cases h with
  | @send time r b hr hb =>
    have hpos := hs.positive rfl
    have hsame : b.1.sendCount = w.sendCount := by
      rw [← hb]
      exact congrArg Pace.sendCount (beginBlast_pace P ρ _)
    simp only [potential, outcomeCost, mainCost, hsame]
    omega
  | accept time packetSize =>
    simp only [potential, outcomeCost, mainCost, throttleCost, endBlast]
    omega
  | retry time packetSize errno he =>
    simp only [potential, outcomeCost, charge, disturbs, if_true]
    omega
  | fail time packetSize =>
    simp only [potential, outcomeCost, mainCost]
    omega
  | @throttle p _ v q ht =>
    have hcost := throttledReceive_cost ht
    have hsame := hcount (throttledReceive_quiet ht)
    simp only [potential, outcomeCost, mainCost, hsame] at hcost ⊢
    omega
  | @iterate p _ v r ht =>
    have hcost := throttledReceive_cost ht
    have hsame := hcount (throttledReceive_quiet ht)
    have hend := endIteration_cost (hsame ▸ hs.positive rfl) (hsame ▸ hs.small)
    simp only [outcomeCost] at hcost
    simp only [hsame] at hend
    simp only [potential, outcomeCost, mainCost] at hend ⊢
    omega
  | abort ht =>
    simp only [potential, outcomeCost, mainCost]
    omega
  | sent hv =>
    exact Nat.le_add_right_of_le (Nat.succ_le_succ (drainLoop_cost _ _))
  | drain ht => exact throttledReceive_drainCost hd.1 hd.2.1 (hpatient rfl) ht
  | @drained p _ v r ht =>
    have hcost := throttledReceive_drainCost hd.1 hd.2.1 (hpatient rfl) ht
    exact (Nat.succ_le_succ (drainLoop_cost _ _)).trans hcost
  | drainAbort ht =>
    have hcost := throttledReceive_drainCost hd.1 hd.2.1 (hpatient rfl) ht
    exact hcost
  | done hv => exact Nat.le_add_right _ _
  | noTime hp hv =>
    rcases hp with rfl | rfl
    · exact Nat.le_add_right_of_le (show 1 ≤ 3 by decide)
    · exact Nat.le_add_right _ _

theorem potential_step {ρ : ℕ → ℕ} {n : ℕ} {s t : State} (hs : Progressing n s)
    (hd : Draining s) (he : Patient s e) (h : next P ρ s e = some t) :
    potential t + 1 ≤ potential s + charge e := by
  obtain ⟨w, c⟩ := s
  obtain ⟨u, d⟩ := t
  obtain ⟨p, v, hp, hstep, ht⟩ := next_cases h
  cases hp
  cases ht
  have hcost := main_cost hs hd he hstep
  exact hcost

end Steps

section Sending
variable {P : Platform} {w v : World} {e : Event}

/-- A poll of the send loop has a limit. -/
def Limited : ThrottlePos → Prop
  | .poll _ remainingTime => 0 ≤ remainingTime
  | _ => True

theorem throttledReceive_limited {p q : ThrottlePos} (hs : w.context.sending = true)
    (h : throttledReceive P w p e = some (v, .wait q)) : Limited q := by
  have hbegin : ∀ {u : World} {now max}, u.context.sending = true →
      (beginPoll now max u).2 = .wait q → Limited q := by
    intro u now max hu hq
    rcases beginPoll_cases now max u with ⟨timeout, ht, hb⟩ | ⟨-, hb⟩
    · rw [hb] at hq
      cases hq
      obtain ⟨-, ht⟩ := Option.ite_none_left_eq_some.mp ht
      simp only [hu, Bool.not_true, Bool.false_eq_true, if_false] at ht
      have hlimit : 0 ≤ timeout := by
        split_ifs at ht with hneg
        · exact (Option.some.inj ht).le
        · rw [← Option.some.inj ht]
          exact not_lt.mp hneg
      exact hlimit
    · rw [hb] at hq
      cases hq
  have hagain : ∀ now remainingTime, pollAgain now remainingTime = .wait q → Limited q := by
    intro now remainingTime hq
    unfold pollAgain at hq
    split_ifs at hq with hpos
    cases hq
    exact hpos.le
  generalize hc : (Outcome.wait q : Outcome ThrottlePos ℕ) = c at h
  cases throttledReceive_step h with
  | behind =>
    cases hc
    trivial
  | ahead => exact hbegin hs hc.symm
  | @first _ _ _ d now max hq =>
    cases d with
    | wait r =>
      cases hc
      trivial
    | ret r =>
      have hsame : v.context.sending = w.context.sending :=
        congrArg Pace.sending (emptyReceiveQueue_quiet hq).pace
      exact hbegin (hsame.trans hs) hc.symm
    | stop k => cases hc
  | interrupted => exact hagain _ _ hc.symm
  | failure => cases hc
  | @status _ _ _ d =>
    cases d <;> cases hc
    trivial
  | @queue _ _ _ d =>
    cases d <;> cases hc
    all_goals trivial
  | again => exact hagain _ _ hc.symm
  | _ =>
    cases hc
    trivial

def Sending : State → Prop
  | (w, .wait p) => (inSendLoop p = true → w.context.sending = true) ∧
      ∀ q, p = .throttle q → Limited q
  | _ => True

theorem sending_step {ρ : ℕ → ℕ} {s t : State} (hs : Sending s) (h : next P ρ s e = some t) :
    Sending t := by
  obtain ⟨w, c⟩ := s
  obtain ⟨u, d⟩ := t
  obtain ⟨p, v, hp, hstep, ht⟩ := next_cases h
  cases hp
  cases ht
  have hquiet : ∀ {q v c}, p = .throttle q → throttledReceive P w q e = some (v, c) →
      v.context.sending = true := by
    rintro q v c rfl hv
    have hsame : v.context.sending = w.context.sending :=
      congrArg Pace.sending (throttledReceive_quiet hv).pace
    exact hsame.trans (hs.1 rfl)
  have hloop : ∀ v : World, Sending ({ v with time := e.time }, drainLoop v) := by
    intro v
    rcases drainLoop_cases v with hd | hd
    · rw [hd]
      exact ⟨by simp [inSendLoop], by simp⟩
    · rw [hd]
      exact ⟨by simp [inSendLoop], by simp⟩
  cases hstep with
  | @send time r b hr hb =>
    have hsame : b.1.context.sending = w.context.sending := by
      rw [← hb]
      exact congrArg Pace.sending (beginBlast_pace P ρ _)
    exact ⟨fun _ => hsame.trans (hs.1 rfl), by simp⟩
  | accept => exact ⟨fun _ => hs.1 rfl, by rintro q ⟨⟩; trivial⟩
  | retry => exact ⟨fun _ => hs.1 rfl, by simp⟩
  | throttle ht =>
    have hover := hquiet rfl ht
    refine ⟨fun _ => hover, ?_⟩
    rintro q ⟨⟩
    exact throttledReceive_limited (hs.1 rfl) ht
  | iterate ht =>
    have hover := hquiet rfl ht
    simp only [endIteration]
    split_ifs
    · exact ⟨fun _ => hover, by simp⟩
    · exact ⟨by simp [inSendLoop], by simp⟩
  | sent hv => exact hloop _
  | drain ht => exact ⟨by simp [inSendLoop], by simp⟩
  | drained ht => exact hloop _
  | _ => trivial

end Sending

section Answers
variable {P : Platform} {w v : World} {e : Event}

theorem periodicallyUpdateStatus_ends {p : StatusPos} {k : Halt}
    (h : periodicallyUpdateStatus P w p e = some (v, .stop k)) : k = .divideByZero := by
  unfold periodicallyUpdateStatus at h
  split at h
  · split_ifs at h
    all_goals cases h
  · split at h
    all_goals cases h
    rfl
  · cases h

theorem emptyReceiveQueue_ends {p : QueuePos} {k : Halt}
    (h : emptyReceiveQueue P w p e = some (v, .stop k)) :
    k = .divideByZero ∨ fails e.answer = true := by
  cases p with
  | receive =>
    obtain ⟨d, hr, hd⟩ := call_outcome h fun _ _ => rfl
    unfold receive at hr
    split at hr
    all_goals cases hr
    all_goals first | exact Or.inr rfl | cases hd
  | status p =>
    obtain ⟨d, hr, hd⟩ := call_outcome h fun _ _ => rfl
    cases d with
    | stop j =>
      cases hd
      exact Or.inl (periodicallyUpdateStatus_ends hr)
    | _ => cases hd

theorem throttledReceive_ends {p : ThrottlePos} {k : Halt}
    (h : throttledReceive P w p e = some (v, .stop k)) :
    k = .divideByZero ∨ fails e.answer = true := by
  have hbegin : ∀ {now max u}, (beginPoll now max u).2 = .stop k → k = .divideByZero := by
    intro now max u hb
    rcases beginPoll_cases now max u with ⟨timeout, -, hw⟩ | ⟨-, hw⟩
    · rw [hw] at hb
      cases hb
    · rw [hw] at hb
      cases hb
      rfl
  have hagain : ∀ now remainingTime, pollAgain now remainingTime ≠ .stop k := by
    intro now remainingTime
    unfold pollAgain
    split_ifs <;> simp
  generalize hc : (Outcome.stop k : Outcome ThrottlePos ℕ) = c at h
  cases throttledReceive_step h with
  | ahead => exact Or.inl (hbegin hc.symm)
  | @first _ _ _ d now max hq =>
    cases d with
    | wait r => cases hc
    | ret r => exact Or.inl (hbegin hc.symm)
    | stop j =>
      cases hc
      exact emptyReceiveQueue_ends hq
  | interrupted => exact absurd hc.symm (hagain _ _)
  | failure => exact Or.inr rfl
  | @status _ _ _ d hq =>
    cases d with
    | stop j =>
      cases hc
      exact Or.inl (periodicallyUpdateStatus_ends hq)
    | _ => cases hc
  | @queue _ _ _ d now remainingTime hq =>
    cases d with
    | stop j =>
      cases hc
      exact emptyReceiveQueue_ends hq
    | _ => cases hc
  | again => exact absurd hc.symm (hagain _ _)
  | _ => cases hc

/-- The program ends in main's return or a division by zero, unless an answer ends it. -/
theorem main_ends {ρ : ℕ → ℕ} {p : MainPos} {c : Outcome MainPos ℕ} (h : Step P ρ w p e v c) :
    (∃ q, c = .wait q) ∨ c = .ret 0 ∨ c = .stop .divideByZero ∨ fails e.answer = true := by
  cases h with
  | fail => exact Or.inr (Or.inr (Or.inr rfl))
  | @abort _ _ _ k ht =>
    rcases throttledReceive_ends ht with rfl | hfail
    · exact Or.inr (Or.inr (Or.inl rfl))
    · exact Or.inr (Or.inr (Or.inr hfail))
  | @drainAbort _ _ _ k ht =>
    rcases throttledReceive_ends ht with rfl | hfail
    · exact Or.inr (Or.inr (Or.inl rfl))
    · exact Or.inr (Or.inr (Or.inr hfail))
  | done => exact Or.inr (Or.inl rfl)
  | noTime => exact Or.inr (Or.inr (Or.inl rfl))
  | sent => exact Or.inl ⟨_, rfl⟩
  | drained => exact Or.inl ⟨_, rfl⟩
  | iterate => exact Or.inl ⟨_, rfl⟩
  | _ => exact Or.inl ⟨_, rfl⟩

variable (P w)

theorem periodicallyUpdateStatus_accepts (p : StatusPos) :
    Accepts (periodicallyUpdateStatus P w p) := by
  refine ⟨.clock, rfl, fun time => ?_⟩
  cases p with
  | now =>
    simp only [periodicallyUpdateStatus]
    split_ifs <;> rfl
  | update now =>
    simp only [periodicallyUpdateStatus]
    split <;> rfl

theorem emptyReceiveQueue_accepts (p : QueuePos) : Accepts (emptyReceiveQueue P w p) := by
  cases p with
  | receive => exact ⟨.nothing .EAGAIN, rfl, fun _ => rfl⟩
  | status p => exact (periodicallyUpdateStatus_accepts P w p).map _

theorem throttledReceive_accepts (p : ThrottlePos) : Accepts (throttledReceive P w p) := by
  cases p with
  | now =>
    refine ⟨.clock, rfl, fun time => ?_⟩
    simp only [throttledReceive]
    split_ifs <;> rfl
  | first p now max => exact (emptyReceiveQueue_accepts P w p).map _
  | poll now remainingTime => exact ⟨.timeout, rfl, fun _ => rfl⟩
  | status p => exact (periodicallyUpdateStatus_accepts P w p).map _
  | queue p now remainingTime => exact (emptyReceiveQueue_accepts P w p).map _
  | now2 now remainingTime => exact ⟨.clock, rfl, fun _ => rfl⟩

theorem main_accepts (ρ : ℕ → ℕ) (p : MainPos) : Accepts (main P ρ w p) := by
  cases p with
  | send => exact ⟨.run, rfl, fun _ => rfl⟩
  | sendto packetSize => exact ⟨.accepted, rfl, fun _ => rfl⟩
  | throttle p => exact (throttledReceive_accepts P w p).map _
  | drain p => exact (throttledReceive_accepts P w p).map _
  | status =>
    refine ⟨.clock, rfl, fun time => ?_⟩
    simp only [main]
    split <;> rfl
  | finalStatus =>
    refine ⟨.clock, rfl, fun time => ?_⟩
    simp only [main]
    split <;> rfl

end Answers

def Finished (n : ℕ) (s : State) : Prop := s.2 = .ret 0 ∧ s.1.wire.length = n

/-- A drain poll with timeout -1, entered with the counters still different. -/
def Stuck (s : State) : Prop :=
  ∃ now, s.2 = .wait (.drain (.poll now (-1))) ∧
    s.1.context.sentPackets ≠ s.1.context.receivedPackets

def GoesOn (P : Platform) (ρ : ℕ → ℕ) (s : State) : Prop :=
  ∃ answer, disturbs answer = false ∧
    ∀ time, Patient s ⟨time, answer⟩ ∧ (next P ρ s ⟨time, answer⟩).isSome = true

theorem goesOn_of_wait {P : Platform} {ρ : ℕ → ℕ} {s : State} {p : MainPos}
    (hp : s.2 = .wait p) (hd : Draining s) (hs : Sending s) : GoesOn P ρ s ∨ Stuck s := by
  obtain ⟨w, c⟩ := s
  cases hp
  by_cases hlimit : ∃ remainingTime, pollTimeout (.wait p) = some remainingTime ∧
      remainingTime < 0
  · obtain ⟨remainingTime, ht, hneg⟩ := hlimit
    unfold pollTimeout at ht
    split at ht
    · rename_i now _ hwait
      cases hwait
      cases ht
      have hlimited : 0 ≤ remainingTime := hs.2 _ rfl
      omega
    · rename_i now _ hwait
      cases hwait
      cases ht
      obtain ⟨hmissing, hall⟩ := hd.2.2 hneg
      obtain rfl := hall now remainingTime rfl
      exact Or.inr ⟨now, rfl, hmissing⟩
    · cases ht
  · obtain ⟨answer, hquiet, hnext⟩ := (main_accepts P w ρ p).map fun e r =>
      (({ r.1 with time := e.time }, r.2) : State)
    refine Or.inl ⟨answer, hquiet, fun time => ⟨?_, hnext time⟩⟩
    intro remainingTime ht hneg
    exact absurd ⟨remainingTime, ht, hneg⟩ hlimit

section Runs
variable {P : Platform} {ρ : ℕ → ℕ} {a : Arguments} {now : ℕ} {ok : State → Event → Prop}
  {es : List Event} {s : State}

theorem execution_draining (h : Execution (next P ρ) ok (start a now) es s) : Draining s :=
  h.invariant trivial fun _ _ _ hs _ hn => draining_step hs hn

theorem execution_sending (h : Execution (next P ρ) ok (start a now) es s) : Sending s :=
  h.invariant (I := Sending) ⟨fun _ => rfl, by rintro q ⟨⟩⟩ fun _ _ _ hs _ hn => sending_step hs hn

end Runs

/-- No run of mattblast makes more than nine steps a query and three more, and nine for each
disturbance; and as long as no system call fails, a run has returned 0 with everything sent,
has divided by zero, awaits an answer that is no disturbance, or is stuck in a drain poll
without limit, its counters still different. -/
theorem stuck_only_in_drain_poll {P : Platform} {ρ : RandStream P} {a : Arguments} {now : ℕ}
    {es : List Event} {s : State}
    (h : Execution (next P ρ.value) Patient (start a now) es s) :
    es.length ≤ 9 * a.sendCount + 3 + 9 * es.countP (disturbs ·.answer) ∧
      ((∀ e ∈ es, fails e.answer = false) →
        Finished a.sendCount s ∨ s.2 = .stop .divideByZero ∨ GoesOn P ρ.value s ∨ Stuck s) := by
  constructor
  · have hlength := length_le potential (fun e : Event => disturbs e.answer)
      (fun _ _ => (none : Option Unit)) 9 0 h
      fun es t e u ht he hn =>
        potential_step (execution_progressing ht) (execution_draining ht) he hn
    have hfirst : potential (start a now) = 9 * a.sendCount + 3 := rfl
    rw [hfirst] at hlength
    omega
  · intro hfine
    have hends : (∃ p, s.2 = .wait p) ∨ s.2 = .ret 0 ∨ s.2 = .stop .divideByZero := by
      cases h with
      | refl => exact Or.inl ⟨_, rfl⟩
      | @tail _ _ _ e _ _ hn =>
        obtain ⟨p, v, -, hstep, -⟩ := next_cases hn
        have he := hfine e (List.mem_append_right _ (List.mem_singleton_self e))
        rcases main_ends hstep with hwait | hret | hzero | hfail
        · exact Or.inl hwait
        · exact Or.inr (Or.inl hret)
        · exact Or.inr (Or.inr hzero)
        · rw [he] at hfail
          cases hfail
    rcases hends with ⟨p, hp⟩ | hret | hzero
    · exact Or.inr (Or.inr (goesOn_of_wait hp (execution_draining h) (execution_sending h)))
    · left
      refine ⟨hret, ?_⟩
      have hprogress := execution_progressing h
      obtain ⟨w, c⟩ := s
      cases hret
      exact hprogress.2
    · exact Or.inr (Or.inl hzero)

theorem patient_trace {P : Platform} {ρ : ℕ → ℕ} {s : State} {es : List Event}
    (h : ∀ e ∈ es, e.answer ≠ .timeout) : ValidTrace (next P ρ) Patient s es := by
  induction es generalizing s with
  | nil => trivial
  | cons e es ih =>
    refine ⟨fun _ _ _ => h e List.mem_cons_self, fun t _ => ?_⟩
    exact ih fun f hf => h f (List.mem_cons_of_mem e hf)

/-- One query without a reply. -/
theorem stuck_only_in_drain_poll_unanswered : ∃ es s,
    Execution (next glibc (constantStream glibc 0 (by decide)).value) Patient (start oneQuery 0)
      es s ∧ Stuck s ∧ es.length ≤ 12 + 9 * es.countP (disturbs ·.answer) := by
  let ρ := constantStream glibc 0 (by decide)
  let es : List Event := [⟨0, .accepted⟩, ⟨0, .clock⟩]
  let fs : List Event := [⟨1, .timeout⟩, ⟨1, .clock⟩, ⟨1, .clock⟩, ⟨1, .clock⟩]
  obtain ⟨w, size, hask, hpps, hstart, hstatus, hsending, hsent, hnone, hcount⟩ := oneQuery_asked
  let u : World := { endBlast w size with time := 0 }
  have husent : u.context.sentPackets = 1 := by simp [u, endBlast, hsent]
  have haccept : next glibc ρ.value (w, .wait (.sendto size)) ⟨0, .accepted⟩ =
      some (u, .wait (.throttle .now)) := rfl
  have hbudget : maxPackets u.context.pps (wrapSub 64 0 u.context.startupDate) = 0 := by
    simp [u, endBlast, maxPackets, hpps, hstart]
  have hfirst : beginPoll 0 0 u = (u, .wait (.poll 0 0)) := first_poll hpps hsending husent
  have hpoll : next glibc ρ.value (u, .wait (.throttle .now)) ⟨0, .clock⟩ =
      some (u, .wait (.throttle (.poll 0 0))) := by
    simp [next, main, throttledReceive, call, hbudget, husent, hfirst]
    rfl
  have hpolls : runTrace (next glibc ρ.value) (w, .wait (.sendto size)) es =
      some (u, .wait (.throttle (.poll 0 0))) := by
    simp only [es, runTrace, haccept, hpoll, Option.bind_some]
  have hvalid : ValidTrace (next glibc ρ.value) Patient (u, .wait (.throttle (.poll 0 0))) fs := by
    refine ⟨?_, fun t _ => patient_trace (by simp)⟩
    rintro timeout ⟨⟩ hneg
    cases hneg
  obtain ⟨v, hthen⟩ : ∃ v, runTrace (next glibc ρ.value) (u, .wait (.throttle (.poll 0 0))) fs =
      some (v, .wait (.drain (.poll 1 (-1)))) := by
    have helapsed : wrapSub 64 1 0 = 1 := by decide
    have hdue : 1 < updateStatusPeriod := by decide
    simp [fs, u, runTrace, next, main, throttledReceive, call, periodicallyUpdateStatus, endBlast,
      updateStatus, endIteration, drainLoop, beginPoll, firstTimeout, hpps, hstart, hstatus,
      hsent, hnone, hcount, helapsed, hdue]
  have hasked := runTrace_execution (.refl _) (patient_trace (by simp)) hask
  have hpolling := runTrace_execution hasked (patient_trace (by simp [es])) hpolls
  have h := runTrace_execution hpolling hvalid hthen
  have hlimit : Unlimited (.poll 1 (-1)) := by
    simp [Unlimited]
  exact ⟨_, _, h, ⟨1, rfl, ((execution_draining h).2.2 hlimit).1⟩,
    (stuck_only_in_drain_poll h).1⟩

end MattblastTermination
