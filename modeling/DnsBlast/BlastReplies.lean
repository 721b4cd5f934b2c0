import DnsBlast.BlastRealization

/-! What received_packets counts. receive looks at no byte of a datagram to decide
whether to count it: every datagram is counted once, after the clock has been read. -/
namespace BlastReplies

open LabelledRuns BlastHeader BlastQuery BlastSyscalls BlastReceive BlastMain BlastTraffic
  BlastRealization

def mainPending : MainPos → Bool
  | .throttle _ p => p.pending
  | .drain _ p => p.pending
  | _ => false

theorem step_replies {P : Platform} {ρ : ℕ → ℕ} {verbose : Bool} {w v : World} {p : MainPos}
    {e : Event} {c : Outcome MainPos ℕ} {J : Bool → Replies → Prop}
    (hreceive : ∀ {w v p c}, J p.pending w.replies → receive verbose w p e = some (v, c) →
      J (c.holds ReceivePos.pending) v.replies)
    (hj : J (mainPending p) w.replies) (h : Step P ρ verbose w p e v c) :
    J (c.holds mainPending) v.replies := by
  have hthrottle : ∀ {p : ThrottlePos} {v : World} {d : Outcome ThrottlePos ℕ},
      J p.pending w.replies → throttledReceive P verbose w p e = some (v, d) →
      J (d.holds ThrottlePos.pending) v.replies := by
    intro p v d hp ht
    refine throttledReceive_invariant (I := fun b u => J b u.replies) hreceive ?_ hp ht
    rintro u u' hu ⟨_, _, _, _, rfl⟩
    exact hu
  have haway : ∀ first, (drainLoop first w).holds mainPending = false := by
    intro first
    rcases drainLoop_cases first w with hd | hd <;> rw [hd] <;> rfl
  cases h with
  | send hr hb =>
    subst hb
    rw [(beginBlast_keeps _ _ _ _).2.1]
    exact hj
  | accept time packetSize => exact hj
  | retry time packetSize errno => exact hj
  | fail time packetSize => exact hj
  | throttle ht => exact hthrottle hj ht
  | iterate ht =>
    have hv := hthrottle hj ht
    simp only [endIteration]
    split_ifs
    · exact hv
    · exact hv
    · exact hv
    · exact hv
  | abort ht => exact hthrottle hj ht
  | sent now v hv =>
    subst hv
    exact hj
  | drainStart now => exact haway now ▸ hj
  | @drain first p e v c ht =>
    have hv := hthrottle hj ht
    cases c with
    | wait q => exact hv
    | ret r => exact hv
    | stop k => exact hv
  | giveUp first now hn => exact hj
  | drainOn first now hn => exact haway first ▸ hj
  | done now v hv =>
    subst hv
    exact hj

theorem execution_replies {P : Platform} {ρ : ℕ → ℕ} {o : Options} {now : ℕ}
    {ok : State → Event → Prop} {es : List Event} {s : State} {J : Bool → Replies → Prop}
    (hreceive : ∀ {w v p e c}, J p.pending w.replies → receive o.verbose w p e = some (v, c) →
      J (c.holds ReceivePos.pending) v.replies)
    (hstart : J false ⟨0, [], []⟩)
    (h : Execution (next P ρ o.verbose) ok (start o now) es s) :
    J (s.2.holds mainPending) s.1.replies := by
  apply h.invariant (I := fun s => J (s.2.holds mainPending) s.1.replies) hstart
  rintro ⟨w, c⟩ e ⟨u, d⟩ hj - hn
  obtain ⟨p, v, hp, hstep, ht⟩ := next_cases hn
  cases hp
  cases ht
  have hv : J (d.holds mainPending) v.replies := step_replies hreceive hj hstep
  exact hv

def Counted (pending : Bool) (r : Replies) : Prop :=
  pending.toNat ≤ r.delivered.length ∧
    r.receivedPackets = (r.delivered.length - pending.toNat) % 2 ^ 64

theorem counted_receive {verbose : Bool} {w v : World} {p : ReceivePos} {e : Event}
    {c : Outcome ReceivePos ℕ} (h : Counted p.pending w.replies)
    (hr : receive verbose w p e = some (v, c)) :
    Counted (c.holds ReceivePos.pending) v.replies := by
  unfold receive at hr
  split at hr
  all_goals cases hr
  · constructor
    · simp [World.replies, Outcome.holds, ReceivePos.pending]
    · simpa [World.replies, Outcome.holds, ReceivePos.pending] using h.2
  · exact h
  · exact h
  · exact h
  · obtain ⟨hle, hcount⟩ := h
    simp only [World.replies, ReceivePos.pending, Bool.toNat_true] at hle hcount
    refine ⟨Nat.zero_le _, ?_⟩
    simp only [World.replies, Outcome.holds, Bool.toNat_false, hcount]
    omega

/-- Nothing but answers to queries already sent, and at most one to each. -/
structure DistinctAnswers (w : World) : Prop where
  distinct : (w.delivered.map Datagram.query).Nodup
  known : ∀ d ∈ w.delivered, ∃ q < w.wire.length, d.query = some q

theorem DistinctAnswers.subset {w : World} (h : DistinctAnswers w) :
    (w.delivered.map Datagram.query).toFinset ⊆
      (Finset.range w.wire.length).map ⟨some, Option.some_injective ℕ⟩ := by
  intro x hx
  obtain ⟨d, hd, rfl⟩ := List.mem_map.mp (List.mem_toFinset.mp hx)
  obtain ⟨q, hq, hdq⟩ := h.known d hd
  exact Finset.mem_map.mpr ⟨q, Finset.mem_range.mpr hq, hdq.symm⟩

theorem DistinctAnswers.length_le {w : World} (h : DistinctAnswers w) :
    w.delivered.length ≤ w.wire.length := by
  have hcard := Finset.card_le_card h.subset
  rwa [List.toFinset_card_of_nodup h.distinct, Finset.card_map, Finset.card_range,
    List.length_map] at hcard

/-- As many answers as queries means an answer to every query. -/
theorem DistinctAnswers.length_eq_iff {w : World} (h : DistinctAnswers w) :
    w.delivered.length = w.wire.length ↔
      ∀ q < w.wire.length, some q ∈ w.delivered.map Datagram.query := by
  constructor
  · intro heq q hq
    have hall := Finset.eq_of_subset_of_card_le h.subset (by
      rw [List.toFinset_card_of_nodup h.distinct, Finset.card_map, Finset.card_range,
        List.length_map, heq])
    have hmem : some q ∈ (w.delivered.map Datagram.query).toFinset := by
      rw [hall]
      exact Finset.mem_map.mpr ⟨q, Finset.mem_range.mpr hq, rfl⟩
    exact List.mem_toFinset.mp hmem
  · intro hall
    have hsub : (Finset.range w.wire.length).map ⟨some, Option.some_injective ℕ⟩ ⊆
        (w.delivered.map Datagram.query).toFinset := by
      intro x hx
      obtain ⟨q, hq, rfl⟩ := Finset.mem_map.mp hx
      exact List.mem_toFinset.mpr (hall q (Finset.mem_range.mp hq))
    have hcard := Finset.card_le_card hsub
    rw [List.toFinset_card_of_nodup h.distinct, Finset.card_map, Finset.card_range,
      List.length_map] at hcard
    exact le_antisymm h.length_le hcard

/-- received_packets is the number of datagrams read, whatever they are. When they answer
distinct queries already sent it never passes sent_packets, nor the ratio 100%, and main's
drain test turns false exactly when the last answer has been counted. -/
theorem replies_counted {P : Platform} {ρ : RandStream P} {o : Options} {now : ℕ}
    {es : List Event} {s : State}
    (h : Execution (next P ρ.value o.verbose) Free (start o now) es s) :
    let c := s.1.context
    let pending := (s.2.holds mainPending).toNat
    c.receivedPackets = (s.1.delivered.length - pending) % 2 ^ 64 ∧
    (DistinctAnswers s.1 →
      c.receivedPackets + pending = s.1.delivered.length ∧
      c.receivedPackets ≤ c.sentPackets ∧
      (c.receivedPackets * 100 / c.sentPackets : ℚ) ≤ 100 ∧
      (c.sentPackets = c.receivedPackets ↔
        pending = 0 ∧ ∀ q < s.1.wire.length, some q ∈ s.1.delivered.map Datagram.query)) := by
  obtain ⟨hpending, hcount⟩ : Counted (s.2.holds mainPending) s.1.replies :=
    execution_replies counted_receive ⟨Nat.zero_le _, rfl⟩ h
  obtain ⟨hsent, hle⟩ := (execution_progressing h).sent
  simp only [World.replies] at hpending hcount
  refine ⟨hcount, ?_⟩
  intro hd
  have hsmall := o.sendCount_lt
  have hlen := hd.length_le
  have hreceived : s.1.context.receivedPackets + (s.2.holds mainPending).toNat =
      s.1.delivered.length := by
    rw [Nat.mod_eq_of_lt (by omega)] at hcount
    omega
  have hbound : s.1.context.receivedPackets ≤ s.1.context.sentPackets := by omega
  refine ⟨hreceived, hbound, ?_, ?_⟩
  · have hq : (s.1.context.receivedPackets : ℚ) ≤ s.1.context.sentPackets := by
      exact_mod_cast hbound
    exact div_le_of_le_mul₀ (by positivity) (by norm_num) (by linarith)
  · rw [← hd.length_eq_iff, hsent]
    omega

theorem replies_counted_one_answer : ∃ es s,
    Execution (next glibc (constantStream glibc 0 (by decide)).value slow.verbose) Free
      (start slow 0) es s ∧
    s.1.context.receivedPackets = 1 ∧ s.1.context.sentPackets = s.1.context.receivedPackets := by
  let ρ := constantStream glibc 0 (by decide)
  let answer : Datagram := ⟨[0, 0], by decide, some 0⟩
  obtain ⟨es, s, h, hdelivered, hwire, _, _, _, hpos⟩ :=
    arrivals_possible glibc ρ.value slow 0 [answer]
  have hdistinct : DistinctAnswers s.1 :=
    ⟨by simp [hdelivered], by simp [hdelivered, hwire, answer]⟩
  obtain ⟨-, hcounted⟩ := replies_counted h
  obtain ⟨hsum, -, -, hiff⟩ := hcounted hdistinct
  have hpending : (s.2.holds mainPending).toNat = 0 := by
    rw [hpos]
    rfl
  refine ⟨es, s, h, by simpa [hpending, hdelivered] using hsum, hiff.mpr ⟨hpending, ?_⟩⟩
  simp [hwire, hdelivered, answer]

/-- One query, answered twice with its own id. -/
theorem duplicate_answer_overshoots : ∃ es s,
    Execution (next glibc (constantStream glibc 0 (by decide)).value slow.verbose) Free
      (start slow 0) es s ∧
    s.1.context.sentPackets = 1 ∧ s.1.context.receivedPackets = 2 ∧
    s.1.delivered.map Datagram.query = [some 0, some 0] := by
  let ρ := constantStream glibc 0 (by decide)
  let answer : Datagram := ⟨[0, 0], by decide, some 0⟩
  obtain ⟨es, s, h, hdelivered, hwire, _, _, _, hpos⟩ :=
    arrivals_possible glibc ρ.value slow 0 [answer, answer]
  obtain ⟨-, hcount⟩ : Counted (s.2.holds mainPending) s.1.replies :=
    execution_replies counted_receive ⟨Nat.zero_le _, rfl⟩ h
  have hsent := (execution_progressing h).sent
  refine ⟨es, s, h, hsent.1.trans hwire, ?_, by rw [hdelivered]; rfl⟩
  simpa [hpos, World.replies, hdelivered, Outcome.holds, mainPending, ThrottlePos.pending,
    QueuePos.pending, ReceivePos.pending] using hcount

end BlastReplies
