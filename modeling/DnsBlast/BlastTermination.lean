import DnsBlast.AmortizedRuns
import DnsBlast.BlastDrainDeadline

/-! The program ends. Each system call is paid for by a query still to be sent, by a call of
the drain phase, or by a disturbance: a reply, a refusal or an interruption. -/
namespace BlastTermination

open WrappingIntegers LabelledRuns AmortizedRuns BlastHeader BlastSyscalls BlastReceive BlastMain
  BlastTraffic BlastRate BlastDrain BlastDrainDeadline

def disturbs : Answer → Bool
  | .refused _ => true
  | .received .. => true
  | .nothing .EAGAIN => false
  | .nothing _ => true
  | .ready => true
  | .pollFailed _ => true
  | _ => false

def fails : Answer → Bool
  | .refused .other => true
  | .nothing .other => true
  | .pollFailed .other => true
  | _ => false

def charge (e : Event) : ℕ := if disturbs e.answer then 5 else 0

def outcomeCost {π ρ : Type} (cost : π → ℕ) (after : ℕ) : Outcome π ρ → ℕ
  | .wait p => cost p
  | .ret _ => after
  | .stop _ => 0

/-- The most system calls that periodically_update_status makes. -/
def statusCost : StatusPos → ℕ
  | .now => 2
  | .update _ => 1

def queueCost : QueuePos → ℕ
  | .receive .recv => 3
  | .receive (.clock ..) => 4
  | .status p => statusCost p

def throttleCost : ThrottlePos → ℕ
  | .now => 7
  | .first p _ _ => queueCost p + 3
  | .poll .. => 3
  | .status p => statusCost p
  | .queue p _ _ => queueCost p + 4
  | .now2 .. => 4

/-- Those of main, when a call in the drain phase is not counted before it begins. -/
def mainCost (sendCount : ℕ) : MainPos → ℕ
  | .send => 9 * sendCount + 3
  | .sendto _ => 9 * (sendCount - 1) + 11
  | .throttle _ p => 9 * (sendCount - 1) + throttleCost p + 3
  | .status => 3
  | .drainStart => 2
  | .drain _ .now => 1
  | .drain _ p => throttleCost p + 2
  | .drainTest _ => 2
  | .finalStatus => 1

def potential (s : State) : ℕ := outcomeCost (mainCost s.1.sendCount) 0 s.2

/-- A caller costs what its callee costs and what it still has to do itself. -/
theorem andThen_cost {π π' ρ ρ' : Type} (cost : π → ℕ) {cost' : π' → ℕ} {frame : π → π'}
    {rest : ρ → Outcome π' ρ'} (n : ℕ) {after : ℕ} (hframe : ∀ p, cost' (frame p) = cost p + n)
    (hrest : ∀ r, outcomeCost cost' after (rest r) ≤ n) (d : Outcome π ρ) :
    outcomeCost cost' after (d.andThen frame rest) ≤ outcomeCost cost 0 d + n := by
  cases d with
  | wait p => exact (hframe p).le
  | ret r => exact (hrest r).trans (Nat.le_add_left _ _)
  | stop k => exact Nat.zero_le _

section Steps
variable {P : Platform} {verbose : Bool} {w v : World} {e : Event}

theorem periodicallyUpdateStatus_cost {p : StatusPos} {c : Outcome StatusPos ℕ}
    (h : periodicallyUpdateStatus P verbose w p e = some (v, c)) :
    outcomeCost statusCost 0 c + 1 ≤ statusCost p := by
  unfold periodicallyUpdateStatus at h
  split at h
  · split_ifs at h
    · cases h
      decide
    · cases h
      exact le_rfl
  · cases h
    exact le_rfl
  · cases h

theorem emptyReceiveQueue_cost {p : QueuePos} {c : Outcome QueuePos Unit}
    (h : emptyReceiveQueue P verbose w p e = some (v, c)) :
    outcomeCost queueCost 0 c + 1 ≤ queueCost p + charge e := by
  cases p with
  | receive p =>
    obtain ⟨d, hr, rfl⟩ := call_outcome h fun _ _ => rfl
    unfold receive at hr
    split at hr
    all_goals cases hr
    all_goals simp [Outcome.andThen, outcomeCost, queueCost, statusCost, charge, disturbs]
  | status p =>
    obtain ⟨d, hr, rfl⟩ := call_outcome h fun _ _ => rfl
    have hcost := periodicallyUpdateStatus_cost hr
    refine Nat.le_add_right_of_le (le_trans (Nat.succ_le_succ ?_) hcost)
    exact andThen_cost statusCost 0 (fun _ => rfl) (fun _ => le_rfl) d

theorem pollAgain_cost (now : ℕ) (remainingTime : ℤ) :
    outcomeCost throttleCost 0 (pollAgain now remainingTime) ≤ 3 := by
  unfold pollAgain
  split_ifs
  · exact le_rfl
  · exact Nat.zero_le 3

theorem throttledReceive_cost {p : ThrottlePos} {c : Outcome ThrottlePos ℕ}
    (h : throttledReceive P verbose w p e = some (v, c)) :
    outcomeCost throttleCost 0 c + 1 ≤ throttleCost p + charge e := by
  cases throttledReceive_step h with
  | behind => exact Nat.le_add_right _ _
  | ahead => exact Nat.le_add_right_of_le (by simp [outcomeCost, throttleCost])
  | @first q _ _ d now max hq =>
    have hcost := emptyReceiveQueue_cost hq
    have hcall : outcomeCost throttleCost 0 (d.andThen (.first · now max) fun _ =>
        (.wait (.poll now (firstTimeout P v.context max)) : Outcome ThrottlePos ℕ)) ≤
        outcomeCost queueCost 0 d + 3 := by
      refine andThen_cost queueCost 3 ?_ ?_ d
      · exact fun _ => rfl
      · exact fun _ => le_rfl
    simp only [throttleCost]
    omega
  | timeout => exact Nat.le_add_right _ _
  | missed => exact Nat.le_add_right_of_le (by simp [outcomeCost, throttleCost])
  | ready => exact le_rfl
  | interrupted time now remainingTime errno he =>
    exact Nat.add_le_add (pollAgain_cost now remainingTime) (by simp [charge, disturbs])
  | failure => exact Nat.le_add_right_of_le (by simp [outcomeCost, throttleCost])
  | @status q _ _ d hq =>
    have hcost := periodicallyUpdateStatus_cost hq
    refine Nat.le_add_right_of_le (le_trans (Nat.succ_le_succ ?_) hcost)
    exact andThen_cost statusCost 0 (fun _ => rfl) (fun _ => le_rfl) d
  | @queue q _ _ d now remainingTime hq =>
    have hcost := emptyReceiveQueue_cost hq
    have hcall : outcomeCost throttleCost 0 (d.andThen (.queue · now remainingTime) fun _ =>
        (.wait (.now2 now remainingTime) : Outcome ThrottlePos ℕ)) ≤
        outcomeCost queueCost 0 d + 4 := by
      refine andThen_cost queueCost 4 ?_ ?_ d
      · exact fun _ => rfl
      · exact fun _ => le_rfl
    simp only [throttleCost]
    omega
  | again now remainingTime now2 =>
    exact Nat.le_add_right_of_le (Nat.succ_le_succ (pollAgain_cost _ _))

/-- No call of throttled_receive comes back to its first clock reading. -/
theorem throttledReceive_begun {p : ThrottlePos}
    (h : throttledReceive P verbose w p e = some (v, .wait .now)) : False := by
  have hagain : ∀ now remainingTime, pollAgain now remainingTime ≠ .wait .now := by
    intro now remainingTime
    unfold pollAgain
    split_ifs <;> simp
  generalize hc : (Outcome.wait ThrottlePos.now : Outcome ThrottlePos ℕ) = c at h
  cases throttledReceive_step h with
  | @first _ _ _ d => cases d <;> cases hc
  | interrupted => exact hagain _ _ hc.symm
  | @status _ _ _ d => cases d <;> cases hc
  | @queue _ _ _ d => cases d <;> cases hc
  | again => exact hagain _ _ hc.symm
  | _ => cases hc

theorem drainLoop_cost (first sendCount : ℕ) (w : World) :
    outcomeCost (mainCost sendCount) 0 (drainLoop first w) = 1 := by
  rcases drainLoop_cases first w with h | h <;> rw [h] <;> rfl

theorem endIteration_cost (verbose : Bool) (before : ℕ) (hpos : 0 < w.sendCount)
    (hlt : w.sendCount < 2 ^ 64) :
    potential (endIteration verbose before w) ≤ 9 * (w.sendCount - 1) + 3 := by
  simp only [potential, endIteration, wrapSub_of_le hpos hlt]
  split_ifs
  · exact le_rfl
  · exact Nat.le_add_left _ _

def begun (s : State) (e : Event) : ℕ := (noteCall s e).toList.length

theorem main_cost {ρ : ℕ → ℕ} {n : ℕ} {p : MainPos} {c : Outcome MainPos ℕ}
    (hs : Progress n w p) (h : Step P ρ verbose w p e v c) :
    potential (v, c) + 1 ≤ potential (w, .wait p) + charge e + 8 * begun (w, .wait p) e := by
  have hcount : ∀ {u}, Quiet w u → u.sendCount = w.sendCount :=
    fun hq => congrArg Pace.sendCount hq.pace
  cases h with
  | @send now r b hr hb =>
    have hpos := hs.positive rfl
    have hsame : b.1.sendCount = w.sendCount := by
      rw [← hb]
      exact congrArg Pace.sendCount (beginBlast_keeps P ρ _ now).1
    simp only [potential, outcomeCost, mainCost, hsame]
    omega
  | accept time packetSize =>
    simp only [potential, outcomeCost, mainCost, throttleCost, endBlast]
    omega
  | retry time packetSize errno he =>
    simp only [potential, outcomeCost, charge, disturbs, if_true]
    omega
  | fail time packetSize =>
    simp only [potential, outcomeCost, mainCost]
    omega
  | @throttle before p _ v q ht =>
    have hcost := throttledReceive_cost ht
    have hsame := hcount (throttledReceive_quiet ht)
    simp only [potential, outcomeCost, mainCost, hsame] at hcost ⊢
    omega
  | @iterate before p _ v r ht =>
    have hcost := throttledReceive_cost ht
    have hsame := hcount (throttledReceive_quiet ht)
    have hend := endIteration_cost verbose before (hsame ▸ hs.positive rfl) (hsame ▸ hs.small)
    simp only [outcomeCost] at hcost
    simp only [hsame] at hend
    simp only [potential, outcomeCost, mainCost] at hend ⊢
    omega
  | abort ht =>
    simp only [potential, outcomeCost, mainCost]
    omega
  | sent now v hv => exact Nat.le_add_right_of_le (Nat.le_add_right _ _)
  | drainStart now =>
    rw [potential, drainLoop_cost]
    exact Nat.le_add_right_of_le (Nat.le_add_right _ _)
  | @drain first p _ v c ht =>
    have hcost := throttledReceive_cost ht
    have hout : potential (v, drainOutcome first c) ≤ outcomeCost throttleCost 0 c + 2 := by
      cases c with
      | wait q =>
        cases q with
        | now => exact (throttledReceive_begun ht).elim
        | _ => exact le_rfl
      | ret r => exact Nat.le_add_left _ _
      | stop k => exact Nat.zero_le _
    cases p with
    | now =>
      have hone : begun (w, .wait (.drain first .now)) e = 1 := rfl
      rw [hone]
      simp only [potential, outcomeCost, mainCost, throttleCost] at hcost hout ⊢
      omega
    | _ =>
      simp only [potential, outcomeCost, mainCost] at hcost hout ⊢
      omega
  | giveUp first now hn => exact Nat.le_add_right_of_le (Nat.le_add_right _ _)
  | drainOn first now hn =>
    rw [potential, drainLoop_cost]
    exact Nat.le_add_right_of_le (Nat.le_add_right _ _)
  | done now v hv => exact Nat.le_add_right_of_le (Nat.le_add_right _ _)

theorem potential_step {ρ : ℕ → ℕ} {n : ℕ} {s t : State} (hs : Progressing n s)
    (h : next P ρ verbose s e = some t) :
    potential t + 1 ≤ potential s + charge e + 8 * begun s e := by
  obtain ⟨w, c⟩ := s
  obtain ⟨u, d⟩ := t
  obtain ⟨p, v, hp, hstep, ht⟩ := next_cases h
  cases hp
  cases ht
  have hcost := main_cost hs hstep
  exact hcost

end Steps

section Answers
variable {P : Platform} {verbose : Bool} {w v : World} {e : Event}

theorem emptyReceiveQueue_fails {p : QueuePos} {k : Halt}
    (h : emptyReceiveQueue P verbose w p e = some (v, .stop k)) : fails e.answer = true := by
  cases p with
  | receive p =>
    obtain ⟨d, hr, hd⟩ := call_outcome h fun _ _ => rfl
    unfold receive at hr
    split at hr
    all_goals cases hr
    all_goals first | rfl | cases hd
  | status p =>
    obtain ⟨d, hr, hd⟩ := call_outcome h fun _ _ => rfl
    unfold periodicallyUpdateStatus at hr
    split at hr
    · split_ifs at hr
      all_goals cases hr
      all_goals cases hd
    · cases hr
      cases hd
    · cases hr

theorem throttledReceive_fails {p : ThrottlePos} {k : Halt}
    (h : throttledReceive P verbose w p e = some (v, .stop k)) : fails e.answer = true := by
  have hagain : ∀ now remainingTime, pollAgain now remainingTime ≠ .stop k := by
    intro now remainingTime
    unfold pollAgain
    split_ifs <;> simp
  generalize hc : (Outcome.stop k : Outcome ThrottlePos ℕ) = c at h
  cases throttledReceive_step h with
  | @first _ _ _ d now max hq =>
    cases d with
    | stop => exact emptyReceiveQueue_fails hq
    | _ => cases hc
  | interrupted => exact absurd hc.symm (hagain _ _)
  | failure => rfl
  | @status _ _ _ d hq =>
    unfold periodicallyUpdateStatus at hq
    split at hq
    · split_ifs at hq
      all_goals cases hq
      all_goals cases hc
    · cases hq
      cases hc
    · cases hq
  | @queue _ _ _ d now remainingTime hq =>
    cases d with
    | stop => exact emptyReceiveQueue_fails hq
    | _ => cases hc
  | again => exact absurd hc.symm (hagain _ _)
  | _ => cases hc

/-- The program ends in main's return, unless an answer ends it. -/
theorem main_ends {ρ : ℕ → ℕ} {p : MainPos} {c : Outcome MainPos ℕ}
    (h : Step P ρ verbose w p e v c) : (∃ q, c = .wait q) ∨ c = .ret 0 ∨ fails e.answer = true := by
  cases h with
  | fail => exact Or.inr (Or.inr rfl)
  | abort ht => exact Or.inr (Or.inr (throttledReceive_fails ht))
  | done => exact Or.inr (Or.inl rfl)
  | @drain first p _ v c ht =>
    cases c with
    | stop k => exact Or.inr (Or.inr (throttledReceive_fails ht))
    | _ => exact Or.inl ⟨_, rfl⟩
  | drainStart => exact Or.inl ⟨_, rfl⟩
  | drainOn => exact Or.inl ⟨_, rfl⟩
  | iterate => exact Or.inl ⟨_, rfl⟩
  | _ => exact Or.inl ⟨_, rfl⟩

def Accepts {γ : Type} (f : Event → Option γ) : Prop :=
  ∃ answer, disturbs answer = false ∧ ∀ time, (f ⟨time, answer⟩).isSome = true

theorem Accepts.map {γ δ : Type} {f : Event → Option γ} (h : Accepts f) (g : Event → γ → δ) :
    Accepts fun e => (f e).map (g e) := by
  obtain ⟨answer, hquiet, hf⟩ := h
  exact ⟨answer, hquiet, fun time => by rw [Option.isSome_map, hf time]⟩

variable (P verbose w)

theorem periodicallyUpdateStatus_accepts (p : StatusPos) :
    Accepts (periodicallyUpdateStatus P verbose w p) := by
  refine ⟨.clock, rfl, fun time => ?_⟩
  cases p with
  | now =>
    simp only [periodicallyUpdateStatus]
    split_ifs <;> rfl
  | update now => rfl

theorem emptyReceiveQueue_accepts (p : QueuePos) : Accepts (emptyReceiveQueue P verbose w p) := by
  cases p with
  | receive p =>
    cases p with
    | recv => exact ⟨.nothing .EAGAIN, rfl, fun _ => rfl⟩
    | clock => exact ⟨.clock, rfl, fun _ => rfl⟩
  | status p => exact (periodicallyUpdateStatus_accepts P verbose w p).map _

theorem throttledReceive_accepts (p : ThrottlePos) : Accepts (throttledReceive P verbose w p) := by
  cases p with
  | now =>
    refine ⟨.clock, rfl, fun time => ?_⟩
    simp only [throttledReceive]
    split_ifs <;> rfl
  | first p now max => exact (emptyReceiveQueue_accepts P verbose w p).map _
  | poll now remainingTime =>
    refine ⟨.timeout, rfl, fun time => ?_⟩
    simp only [throttledReceive]
    split_ifs <;> rfl
  | status p => exact (periodicallyUpdateStatus_accepts P verbose w p).map _
  | queue p now remainingTime => exact (emptyReceiveQueue_accepts P verbose w p).map _
  | now2 now remainingTime => exact ⟨.clock, rfl, fun _ => rfl⟩

theorem main_accepts (ρ : ℕ → ℕ) (p : MainPos) : Accepts (main P ρ verbose w p) := by
  cases p with
  | sendto packetSize => exact ⟨.accepted, rfl, fun _ => rfl⟩
  | throttle before p => exact (throttledReceive_accepts P verbose w p).map _
  | drain first p => exact (throttledReceive_accepts P verbose w p).map _
  | _ => exact ⟨.clock, rfl, fun _ => rfl⟩

end Answers

def Finished (n : ℕ) (s : State) : Prop := s.2 = .ret 0 ∧ s.1.wire.length = n

/-- main always returns. With a timeout between 1 and 2^31 - 1 ms no run makes more than nine
system calls a query and nineteen more, and five for each disturbance; and as long as no
system call fails, a run either waits for an answer that is no disturbance or has sent
everything and returned 0. -/
theorem main_returns {P : Platform} {ρ : RandStream P} {o : Options} {now : ℕ}
    {es : List Event} {s : State} (hpos : 0 < o.timeout) (hint : o.timeout < 2 ^ 31)
    (h : Execution (next P ρ.value o.verbose) Timely (start o now) es s) :
    es.length ≤ 9 * o.sendCount + 19 + 5 * es.countP (disturbs ·.answer) ∧
      ((∀ e ∈ es, fails e.answer = false) →
        Finished o.sendCount s ∨
          (∃ p, s.2 = .wait p) ∧ Accepts (next P ρ.value o.verbose s)) := by
  constructor
  · have hlength := length_le potential (fun e : Event => disturbs e.answer) noteCall 5 8 h
      fun es t e u ht he hn => potential_step (execution_progressing ht) hn
    have hcalls := (execution_drainClock hpos hint h).paced.few.length_le
    have hfirst : potential (start o now) = 9 * o.sendCount + 3 := rfl
    rw [hfirst] at hlength
    have hobserved : (observe (next P ρ.value o.verbose) noteCall (start o now) es).length ≤ 2 :=
      hcalls
    omega
  · intro hfine
    have hends : (∃ p, s.2 = .wait p) ∨ s.2 = .ret 0 := by
      cases h with
      | refl => exact Or.inl ⟨_, rfl⟩
      | @tail _ _ _ e _ _ hn =>
        obtain ⟨p, v, -, hstep, -⟩ := next_cases hn
        have he := hfine e (List.mem_append_right _ (List.mem_singleton_self e))
        rcases main_ends hstep with hwait | hret | hfail
        · exact Or.inl hwait
        · exact Or.inr hret
        · rw [he] at hfail
          cases hfail
    rcases hends with ⟨p, hp⟩ | hret
    · refine Or.inr ⟨⟨p, hp⟩, ?_⟩
      obtain ⟨w, c⟩ := s
      cases hp
      exact (main_accepts P o.verbose w ρ.value p).map _
    · left
      refine ⟨hret, (execution_progressing h).all_sent ?_⟩
      rw [hret]
      trivial

/-- One query that no reply answers is sent, waited for and given up. -/
theorem main_returns_unanswered : ∃ es s,
    Execution (next glibc (constantStream glibc 0 (by decide)).value oneQuery.verbose) Timely
      (start oneQuery 0) es s ∧
    s.2 = .ret 0 ∧ es.length ≤ 28 + 5 * es.countP (disturbs ·.answer) := by
  obtain ⟨es, s, h, -, hend, htime, -⟩ := unanswered_run
  obtain ⟨w, c⟩ := s
  cases hend
  have hstart := (execution_drainClock (o := oneQuery) (by decide) (by decide) h).startupDate
  have hlast : Timely (w, .wait .finalStatus) ⟨2200, .clock⟩ := by
    refine ⟨htime.le, ?_, by norm_num, by simp [pollTimeout]⟩
    rw [hstart]
    norm_num
  have hall := h.tail hlast rfl
  obtain ⟨hlength, -⟩ := main_returns (o := oneQuery) (by decide) (by decide) hall
  exact ⟨_, _, hall, rfl, hlength⟩

end BlastTermination
