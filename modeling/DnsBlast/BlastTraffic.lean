import DnsBlast.BlastMain

/-! The traffic of the program as a function of the random stream alone: a generator
that asks and blasts without ever waiting. The process refines it, whatever the clock,
the socket and poll answer. -/
namespace BlastTraffic

open WrappingIntegers ByteStores LabelledRuns BlastHeader BlastQuestion BlastQuery
  BlastSyscalls BlastReceive BlastMain

abbrev Asker := List UInt8 → ℕ → StateM ℕ (List UInt8 × ℕ)

def nextSender (P : Platform) (ρ : ℕ → ℕ) (ask : Asker) (s : Sender) : Sender × ℕ :=
  let r := (ask s.name s.type).run s.draws
  let query := queryStores P s.id r.1.1 r.1.2
  let question := applyStores s.question query.1
  let id := (s.id + 1) % 2 ^ 16
  let tableStores := s.tableStores ++ [headerId P question]
  if s.fuzz then
    let f := (fuzz P ρ query.2).run r.2
    (⟨applyStores question f.1, id, s.fuzz, r.1.1, r.1.2, f.2, tableStores,
      s.calls ++ [⟨s.id, r.1.1, r.1.2, f.1.map Prod.fst⟩]⟩, query.2)
  else
    (⟨question, id, s.fuzz, r.1.1, r.1.2, r.2, tableStores,
      s.calls ++ [⟨s.id, r.1.1, r.1.2, []⟩]⟩, query.2)

structure Traffic where
  sender : Sender
  sent : List (List UInt8)

def Traffic.step (P : Platform) (ρ : ℕ → ℕ) (ask : Asker) (g : Traffic) : Traffic :=
  let s := nextSender P ρ ask g.sender
  ⟨s.1, g.sent ++ [readBytes s.1.question 0 s.2]⟩

def traffic (P : Platform) (ρ : ℕ → ℕ) (ask : Asker) (s : Sender) (n : ℕ) : Traffic :=
  (Traffic.step P ρ ask)^[n] ⟨s, []⟩

theorem traffic_succ (P : Platform) (ρ : ℕ → ℕ) (ask : Asker) (s : Sender) (n : ℕ) :
    traffic P ρ ask s (n + 1) = (traffic P ρ ask s n).step P ρ ask :=
  Function.iterate_succ_apply' _ _ _

theorem traffic_length (P : Platform) (ρ : ℕ → ℕ) (ask : Asker) (s : Sender) (n : ℕ) :
    (traffic P ρ ask s n).sent.length = n := by
  induction n with
  | zero => rfl
  | succ n ih => simp [traffic_succ, Traffic.step, ih]

theorem traffic_grows (P : Platform) (ρ : ℕ → ℕ) (ask : Asker) (s : Sender) {m n : ℕ}
    (h : m ≤ n) : (traffic P ρ ask s m).sent <+: (traffic P ρ ask s n).sent := by
  induction n, h using Nat.le_induction with
  | base => exact List.prefix_rfl
  | succ n _ ih =>
    rw [traffic_succ]
    exact ih.trans (List.prefix_append _ _)

/-- What holds of the generator at the start and after each question holds throughout. -/
theorem traffic_invariant {P : Platform} {ρ : ℕ → ℕ} {ask : Asker} {s : Sender}
    {I : ℕ → Traffic → Prop} (hs : I 0 ⟨s, []⟩)
    (hstep : ∀ n g, g.sent.length = n → I n g → I (n + 1) (g.step P ρ ask)) (n : ℕ) :
    I n (traffic P ρ ask s n) := by
  induction n with
  | zero => exact hs
  | succ n ih =>
    rw [traffic_succ]
    exact hstep n _ (traffic_length P ρ ask s n) ih

/-- The datagrams passed to sendto; the last one may still be refused. -/
def handed : State → List (List UInt8)
  | (w, .wait (.sendto packetSize)) => w.wire ++ [packet w packetSize]
  | (w, _) => w.wire

/-- The process has reached the generator `g`. One that was stopped by sendto has
produced a datagram that it did not send. -/
structure Emits (s : State) (g : Traffic) : Prop where
  sender : g.sender = s.1.sender
  handed_isPrefix : handed s <+: g.sent
  running : ∀ p, s.2 = .wait p → g.sent = handed s

theorem wire_isPrefix_handed (s : State) : s.1.wire <+: handed s := by
  unfold handed
  split
  · exact List.prefix_append _ _
  · exact List.prefix_rfl

theorem handed_of_away {w : World} {c : Outcome MainPos ℕ}
    (hc : ∀ n, c ≠ .wait (.sendto n)) : handed (w, c) = w.wire := by
  unfold handed
  split
  · rename_i h
    exact absurd (congrArg Prod.snd h) (hc _)
  · rename_i h
    exact congrArg (fun s => s.1.wire) h.symm

/-- Steps that stay off sendto and keep the sender stay on the same generator. -/
theorem Emits.quiet {w v : World} {p : MainPos} {c : Outcome MainPos ℕ} {g : Traffic}
    (h : Emits (w, .wait p) g) (hp : ∀ n, p ≠ .sendto n) (hc : ∀ n, c ≠ .wait (.sendto n))
    (hs : v.sender = w.sender) (hw : v.wire = w.wire) : Emits (v, c) g := by
  have hsent : g.sent = handed (v, c) := by
    rw [h.running p rfl, handed_of_away hc, handed_of_away (by simpa using hp), hw]
  exact ⟨h.sender.trans hs.symm, hsent ▸ List.prefix_rfl, fun _ _ => hsent⟩

theorem beginBlast_sender (P : Platform) (ρ : ℕ → ℕ) (w : World) (now : ℕ) :
    let r := (ask P ρ w.name w.type).run w.draws
    let b := beginBlast P ρ { w with name := r.1.1, type := r.1.2, draws := r.2 } now
    (b.1.sender, b.2) = nextSender P ρ (ask P ρ) w.sender ∧ b.1.wire = w.wire := by
  simp only [beginBlast, buildPacket, storeStart, nextSender]
  by_cases hf : w.context.fuzz = true
  · have hs : w.sender.fuzz = true := hf
    rw [if_pos hf, if_pos hs]
    exact ⟨rfl, rfl⟩
  · have hs : ¬ w.sender.fuzz = true := hf
    rw [if_neg hf, if_neg hs]
    exact ⟨rfl, rfl⟩

theorem emits_packet {P : Platform} {ρ : ℕ → ℕ} {ask : Asker} {g : Traffic} {v : World}
    {packetSize : ℕ} (hs : (v.sender, packetSize) = nextSender P ρ ask g.sender)
    (hw : g.sent = v.wire) : Emits (v, .wait (.sendto packetSize)) (g.step P ρ ask) := by
  have hsent : (g.step P ρ ask).sent = handed (v, .wait (.sendto packetSize)) := by
    rw [Traffic.step, ← hs, hw]
    rfl
  refine ⟨?_, hsent ▸ List.prefix_rfl, fun _ _ => hsent⟩
  rw [Traffic.step, ← hs]

theorem drainLoop_away (first : ℕ) (w : World) (n : ℕ) :
    drainLoop first w ≠ .wait (.sendto n) := by
  rcases drainLoop_cases first w with h | h <;> simp [h]

theorem endIteration_away (verbose : Bool) (before : ℕ) (w : World) (n : ℕ) :
    (endIteration verbose before w).2 ≠ .wait (.sendto n) := by
  simp only [endIteration]
  split_ifs <;> simp

/-- A step from the head of the loop is a question, every other step is none. -/
theorem emits_main {P : Platform} {ρ : ℕ → ℕ} {verbose : Bool} {w v : World} {p : MainPos}
    {e : Event} {c : Outcome MainPos ℕ} {g : Traffic} (hg : Emits (w, .wait p) g)
    (h : Step P ρ verbose w p e v c) :
    p = .send ∧ Emits (v, c) (g.step P ρ (ask P ρ)) ∨ p ≠ .send ∧ Emits (v, c) g := by
  cases h with
  | @send now _ _ hr hb =>
    left
    subst hr hb
    obtain ⟨hb, hw⟩ := beginBlast_sender P ρ w now
    refine ⟨rfl, emits_packet (hg.sender ▸ hb) ?_⟩
    rw [hg.running _ rfl, hw]
    rfl
  | accept time packetSize =>
    have hsent := hg.running _ rfl
    exact Or.inr ⟨by simp, hg.sender, hsent ▸ List.prefix_rfl, fun _ _ => hsent⟩
  | retry time packetSize errno => exact Or.inr ⟨by simp, hg⟩
  | fail time packetSize =>
    refine Or.inr ⟨by simp, hg.sender, (wire_isPrefix_handed _).trans hg.handed_isPrefix, ?_⟩
    intro p hp
    cases hp
  | throttle ht =>
    have hq := throttledReceive_quiet ht
    exact Or.inr ⟨by simp, hg.quiet (by simp) (by simp) hq.sender hq.wire⟩
  | iterate ht =>
    have hq := throttledReceive_quiet ht
    exact Or.inr ⟨by simp, hg.quiet (by simp) (endIteration_away _ _ _) hq.sender hq.wire⟩
  | abort ht =>
    have hq := throttledReceive_quiet ht
    exact Or.inr ⟨by simp, hg.quiet (by simp) (by simp) hq.sender hq.wire⟩
  | sent now v hv =>
    subst hv
    exact Or.inr ⟨by simp, hg.quiet (by simp) (by simp) rfl rfl⟩
  | drainStart now =>
    exact Or.inr ⟨by simp, hg.quiet (by simp) (drainLoop_away _ _) rfl rfl⟩
  | @drain first p e v c ht =>
    have hq := throttledReceive_quiet ht
    refine Or.inr ⟨by simp, hg.quiet (by simp) ?_ hq.sender hq.wire⟩
    intro n
    cases c <;> simp [drainOutcome]
  | giveUp first now hn => exact Or.inr ⟨by simp, hg.quiet (by simp) (by simp) rfl rfl⟩
  | drainOn first now hn =>
    exact Or.inr ⟨by simp, hg.quiet (by simp) (drainLoop_away _ _) rfl rfl⟩
  | done now v hv =>
    subst hv
    exact Or.inr ⟨by simp, hg.quiet (by simp) (by simp) rfl rfl⟩

theorem handed_at_time (w : World) (c : Outcome MainPos ℕ) (time : ℕ) :
    handed ({ w with time := time }, c) = handed (w, c) := by
  cases c with
  | wait p => cases p <;> rfl
  | ret r => rfl
  | stop k => rfl

theorem emits_step {P : Platform} {ρ : ℕ → ℕ} {verbose : Bool} {s t : State} {e : Event}
    {g : Traffic} (hg : Emits s g) (h : next P ρ verbose s e = some t) :
    s.2 = .wait .send ∧ Emits t (g.step P ρ (ask P ρ)) ∨ s.2 ≠ .wait .send ∧ Emits t g := by
  obtain ⟨w, c⟩ := s
  obtain ⟨u, d⟩ := t
  obtain ⟨p, v, hp, hstep, ht⟩ := next_cases h
  cases hp
  cases ht
  have htime : ∀ {k}, Emits (v, d) k → Emits ({ v with time := e.time }, d) k := fun hk =>
    ⟨hk.sender, handed_at_time v d _ ▸ hk.handed_isPrefix, handed_at_time v d _ ▸ hk.running⟩
  rcases emits_main hg hstep with ⟨rfl, hv⟩ | ⟨hp, hv⟩
  · exact Or.inl ⟨rfl, htime hv⟩
  · exact Or.inr ⟨by simpa using hp, htime hv⟩

def firstSender (fuzz : Bool) : Sender := ⟨initialQuestion, 0, fuzz, initialName, 0, 0, [], []⟩

/-- Every run of the process is a run of the generator. -/
theorem execution_emits {P : Platform} {ρ : ℕ → ℕ} {o : Options} {now : ℕ}
    {ok : State → Event → Prop} {es : List Event} {s : State}
    (h : Execution (next P ρ o.verbose) ok (start o now) es s) :
    ∃ n, Emits s (traffic P ρ (ask P ρ) (firstSender o.fuzz) n) := by
  obtain ⟨g, hg, hs⟩ := h.simulates (A := fun g k => k = g.step P ρ (ask P ρ))
    (show Emits (start o now) (traffic P ρ (ask P ρ) (firstSender o.fuzz) 0) from
      ⟨rfl, List.prefix_rfl, fun _ _ => rfl⟩)
    fun s e t g hg _ hn => (emits_step hg hn).elim (fun hk => Or.inr ⟨_, rfl, hk.2⟩)
      fun hk => Or.inl hk.2
  have hn : ∃ n, g = traffic P ρ (ask P ρ) (firstSender o.fuzz) n := by
    clear hs
    induction hg with
    | refl => exact ⟨0, rfl⟩
    | tail _ hk ih =>
      obtain ⟨n, rfl⟩ := ih
      exact ⟨n + 1, hk.trans (traffic_succ ..).symm⟩
  obtain ⟨n, rfl⟩ := hn
  exact ⟨n, hs⟩

/-- What init_context and the options set stays as it is. -/
theorem step_settings {P : Platform} {ρ : ℕ → ℕ} {verbose : Bool} {w v : World} {p : MainPos}
    {e : Event} {c : Outcome MainPos ℕ} (h : Step P ρ verbose w p e v c) :
    v.context.startupDate = w.context.startupDate ∧ v.context.pps = w.context.pps ∧
      v.context.timeout = w.context.timeout := by
  have hkept : ∀ {u : World}, u.pace = w.pace →
      u.context.startupDate = w.context.startupDate ∧ u.context.pps = w.context.pps ∧
        u.context.timeout = w.context.timeout := by
    intro u hpace
    exact ⟨congrArg Pace.startupDate hpace, congrArg Pace.pps hpace, congrArg Pace.timeout hpace⟩
  cases h with
  | send hr hb =>
    subst hb
    exact hkept (beginBlast_keeps _ _ _ _).1
  | accept time packetSize => exact ⟨rfl, rfl, rfl⟩
  | retry time packetSize errno => exact ⟨rfl, rfl, rfl⟩
  | fail time packetSize => exact ⟨rfl, rfl, rfl⟩
  | throttle ht => exact hkept (throttledReceive_quiet ht).pace
  | iterate ht =>
    have hv := hkept (throttledReceive_quiet ht).pace
    exact hv
  | abort ht => exact hkept (throttledReceive_quiet ht).pace
  | sent now v hv =>
    subst hv
    exact ⟨rfl, rfl, rfl⟩
  | drainStart now => exact ⟨rfl, rfl, rfl⟩
  | drain ht => exact hkept (throttledReceive_quiet ht).pace
  | giveUp first now hn => exact ⟨rfl, rfl, rfl⟩
  | drainOn first now hn => exact ⟨rfl, rfl, rfl⟩
  | done now v hv =>
    subst hv
    exact ⟨rfl, rfl, rfl⟩

theorem execution_timeout {P : Platform} {ρ : ℕ → ℕ} {o : Options} {now : ℕ}
    {ok : State → Event → Prop} {es : List Event} {s : State}
    (h : Execution (next P ρ o.verbose) ok (start o now) es s) :
    s.1.context.timeout = o.timeout := by
  apply h.invariant (I := fun s => s.1.context.timeout = o.timeout) rfl
  rintro ⟨w, c⟩ e ⟨u, d⟩ hw - hn
  obtain ⟨p, v, hp, hstep, ht⟩ := next_cases hn
  cases ht
  have hv : v.context.timeout = w.context.timeout := (step_settings hstep).2.2
  exact hv.trans hw

def inSendLoop : MainPos → Bool
  | .send => true
  | .sendto _ => true
  | .throttle .. => true
  | _ => false

def inSendPhase : MainPos → Bool
  | .status => true
  | p => inSendLoop p

def leftToSend (sendCount : ℕ) : MainPos → ℕ
  | .send => sendCount
  | .sendto _ => sendCount
  | .throttle .. => sendCount - 1
  | _ => 0

structure Progress (n : ℕ) (w : World) (p : MainPos) : Prop where
  sent : w.context.sentPackets = w.wire.length
  count : w.wire.length + leftToSend w.sendCount p = n
  positive : inSendLoop p = true → 0 < w.sendCount
  small : w.sendCount < 2 ^ 64
  sending : w.context.sending = inSendPhase p

def Progressing (n : ℕ) : State → Prop
  | (w, .wait p) => Progress n w p
  | (w, .ret _) => w.context.sentPackets = w.wire.length ∧ w.wire.length = n
  | (w, .stop _) => w.context.sentPackets = w.wire.length ∧ w.wire.length ≤ n

theorem Progress.quiet {n : ℕ} {w v : World} {p q : MainPos} (h : Progress n w p)
    (hq : Quiet w v) (hl : inSendLoop q = inSendLoop p) (hp : inSendPhase q = inSendPhase p)
    (hc : leftToSend w.sendCount q = leftToSend w.sendCount p) : Progress n v q := by
  have hpace := hq.pace
  simp only [World.pace, Pace.mk.injEq] at hpace
  obtain ⟨-, -, hsent, -, hsending, hcount⟩ := hpace
  refine ⟨?_, ?_, ?_, ?_, ?_⟩
  · rw [hsent, hq.wire, h.sent]
  · rw [hcount, hc, hq.wire, h.count]
  · rw [hcount, hl]
    exact h.positive
  · exact hcount ▸ h.small
  · rw [hsending, hp, h.sending]

theorem Progress.le {n : ℕ} {w : World} {p : MainPos} (h : Progress n w p) :
    w.wire.length ≤ n := h.count ▸ Nat.le_add_right _ _

theorem progress_endIteration {n : ℕ} {w : World} {before : ℕ} {p : ThrottlePos}
    (h : Progress n w (.throttle before p)) (verbose : Bool) :
    Progressing n (endIteration verbose before w) := by
  have hpos := h.positive rfl
  have hsmall : w.sendCount - 1 < 2 ^ 64 := lt_of_le_of_lt (Nat.sub_le _ _) h.small
  have hcount : w.wire.length + (w.sendCount - 1) = n := h.count
  have hw : wrapSub 64 w.sendCount 1 = w.sendCount - 1 := wrapSub_of_le hpos h.small
  simp only [endIteration, hw]
  by_cases hz : w.sendCount - 1 > 0
  · rw [if_pos hz]
    exact ⟨h.sent, hcount, fun _ => hz, hsmall, h.sending⟩
  · rw [if_neg hz]
    have hz : w.sendCount - 1 = 0 := by omega
    exact ⟨h.sent, hz ▸ hcount, fun hloop => absurd hloop (by decide), hsmall, h.sending⟩

theorem progress_drainLoop {n first : ℕ} {w : World} (h : ∀ p, inSendPhase p = false →
    Progress n w p) : Progressing n (w, drainLoop first w) := by
  rcases drainLoop_cases first w with hd | hd
  · rw [hd]
    exact h _ rfl
  · rw [hd]
    exact h _ rfl

theorem progress_main {P : Platform} {ρ : ℕ → ℕ} {verbose : Bool} {n : ℕ} (hn : n < 2 ^ 64)
    {w v : World} {p : MainPos} {e : Event} {c : Outcome MainPos ℕ} (hp : Progress n w p)
    (h : Step P ρ verbose w p e v c) : Progressing n (v, c) := by
  have hdrain : inSendPhase p = false → ∀ q, inSendPhase q = false → Progress n w q := by
    intro hf q hq
    have hl : ∀ r, inSendPhase r = false → inSendLoop r = false ∧ leftToSend w.sendCount r = 0 := by
      intro r hr
      cases r <;> simp_all [inSendPhase, inSendLoop, leftToSend]
    exact hp.quiet (.refl w) ((hl q hq).1.trans (hl p hf).1.symm) (hq.trans hf.symm)
      ((hl q hq).2.trans (hl p hf).2.symm)
  cases h with
  | @send now _ _ hr hb =>
    subst hr hb
    simp only [beginBlast, buildPacket, storeStart]
    by_cases hf : w.context.fuzz = true
    · rw [if_pos hf]
      exact ⟨hp.sent, hp.count, hp.positive, hp.small, hp.sending⟩
    · rw [if_neg hf]
      exact ⟨hp.sent, hp.count, hp.positive, hp.small, hp.sending⟩
  | accept time packetSize =>
    have hpos := hp.positive rfl
    have hcount : w.wire.length + w.sendCount = n := hp.count
    refine ⟨?_, ?_, hp.positive, hp.small, hp.sending⟩
    · simp only [endBlast, hp.sent, List.length_append, List.length_singleton]
      exact Nat.mod_eq_of_lt (by omega)
    · simp only [endBlast, leftToSend, List.length_append, List.length_singleton]
      omega
  | retry time packetSize errno => exact hp
  | fail time packetSize => exact ⟨hp.sent, hp.le⟩
  | throttle ht => exact hp.quiet (throttledReceive_quiet ht) rfl rfl rfl
  | @iterate before p e v r ht =>
    exact progress_endIteration (hp.quiet (throttledReceive_quiet ht) rfl rfl rfl) verbose
  | abort ht =>
    have hv := hp.quiet (throttledReceive_quiet ht) rfl rfl rfl
    exact ⟨hv.sent, hv.le⟩
  | sent now v hv =>
    subst hv
    exact ⟨hp.sent, hp.count, fun hloop => absurd hloop (by decide), hp.small, rfl⟩
  | drainStart now => exact progress_drainLoop (hdrain rfl)
  | @drain first p e v c ht =>
    have hv : ∀ q, inSendPhase q = false → Progress n v q := fun q hq =>
      (hdrain rfl q hq).quiet (throttledReceive_quiet ht) rfl rfl rfl
    cases c with
    | wait q => exact hv _ rfl
    | ret r => exact hv _ rfl
    | stop k => exact ⟨(hv .drainStart rfl).sent, (hv .drainStart rfl).le⟩
  | giveUp first now hn => exact hdrain rfl _ rfl
  | drainOn first now hn => exact progress_drainLoop (hdrain rfl)
  | done now v hv =>
    subst hv
    exact ⟨hp.sent, hp.count⟩

theorem Progressing.at_time {n : ℕ} {w : World} {c : Outcome MainPos ℕ}
    (h : Progressing n (w, c)) (time : ℕ) : Progressing n ({ w with time := time }, c) := by
  cases c with
  | wait p => exact ⟨h.sent, h.count, h.positive, h.small, h.sending⟩
  | ret r => exact h
  | stop k => exact h

theorem progressing_step {P : Platform} {ρ : ℕ → ℕ} {verbose : Bool} {n : ℕ} (hn : n < 2 ^ 64)
    {s t : State} {e : Event} (hs : Progressing n s) (h : next P ρ verbose s e = some t) :
    Progressing n t := by
  obtain ⟨w, c⟩ := s
  obtain ⟨u, d⟩ := t
  obtain ⟨p, v, hp, hstep, ht⟩ := next_cases h
  cases hp
  cases ht
  exact (progress_main hn hs hstep).at_time _

theorem progressing_start (o : Options) (now : ℕ) : Progressing o.sendCount (start o now) :=
  ⟨rfl, Nat.zero_add _, fun _ => o.sendCount_pos, o.sendCount_lt, rfl⟩

theorem execution_progressing {P : Platform} {ρ : ℕ → ℕ} {o : Options} {now : ℕ}
    {ok : State → Event → Prop} {es : List Event} {s : State}
    (h : Execution (next P ρ o.verbose) ok (start o now) es s) : Progressing o.sendCount s :=
  h.invariant (progressing_start o now) fun _ _ _ hs _ hn => progressing_step o.sendCount_lt hs hn

theorem Progressing.sent {n : ℕ} {s : State} (h : Progressing n s) :
    s.1.context.sentPackets = s.1.wire.length ∧ s.1.wire.length ≤ n := by
  obtain ⟨w, c⟩ := s
  cases c with
  | wait p => exact ⟨Progress.sent h, Progress.le h⟩
  | ret r => exact ⟨h.1, h.2.le⟩
  | stop k => exact h

def LeftSendLoop : Outcome MainPos ℕ → Prop
  | .wait p => inSendLoop p = false
  | .ret _ => True
  | .stop _ => False

theorem Progressing.all_sent {n : ℕ} {s : State} (h : Progressing n s) (hl : LeftSendLoop s.2) :
    s.1.wire.length = n := by
  obtain ⟨w, c⟩ := s
  cases c with
  | wait p =>
    have hz : leftToSend w.sendCount p = 0 := by
      cases p <;> first | rfl | cases hl
    exact (Nat.add_zero _).symm.trans (hz ▸ h.count)
  | ret r => exact h.2
  | stop k => cases hl

/-- Two runs on one random stream send the same datagrams as far as both go, and the
same datagrams altogether once both have left the send loop. -/
theorem traffic_deterministic {P : Platform} {ρ : RandStream P} {o o' : Options} {now now' : ℕ}
    {es es' : List Event} {s s' : State}
    (h : Execution (next P ρ.value o.verbose) Free (start o now) es s)
    (h' : Execution (next P ρ.value o'.verbose) Free (start o' now') es' s')
    (hcount : o.sendCount = o'.sendCount) (hfuzz : o.fuzz = o'.fuzz) :
    (s.1.wire <+: s'.1.wire ∨ s'.1.wire <+: s.1.wire) ∧
      (LeftSendLoop s.2 → LeftSendLoop s'.2 → s.1.wire = s'.1.wire) := by
  obtain ⟨n, hn⟩ := execution_emits h
  obtain ⟨m, hm⟩ := execution_emits h'
  rw [← hfuzz] at hm
  have hcomparable : s.1.wire <+: s'.1.wire ∨ s'.1.wire <+: s.1.wire := by
    have hle := traffic_grows P ρ.value (ask P ρ.value) (firstSender o.fuzz) (le_max_left n m)
    have hle' := traffic_grows P ρ.value (ask P ρ.value) (firstSender o.fuzz) (le_max_right n m)
    exact List.prefix_or_prefix_of_prefix
      ((wire_isPrefix_handed s).trans (hn.handed_isPrefix.trans hle))
      ((wire_isPrefix_handed s').trans (hm.handed_isPrefix.trans hle'))
  refine ⟨hcomparable, ?_⟩
  intro hl hl'
  have hlen : s.1.wire.length = s'.1.wire.length := by
    rw [(execution_progressing h).all_sent hl, (execution_progressing h').all_sent hl', hcount]
  rcases hcomparable with hc | hc
  · exact hc.eq_of_length hlen
  · exact (hc.eq_of_length hlen.symm).symm

/-- `-c 2 -s 1` and `-c 2 -s 90 -t 10 --verbose`. -/
def slow : Options := ⟨1, 2, 600, false, false, by decide, by decide, by decide, by decide⟩
def fast : Options := ⟨90, 2, 10, false, true, by decide, by decide, by decide, by decide⟩

theorem traffic_deterministic_two_clocks : ∃ s s' : State,
    s.1.wire.length = 1 ∧ s'.1.wire.length = 1 ∧ s.1.time = 6 ∧ s'.1.time = 81 ∧
    (s.1.wire <+: s'.1.wire ∨ s'.1.wire <+: s.1.wire) ∧
    (LeftSendLoop s.2 → LeftSendLoop s'.2 → s.1.wire = s'.1.wire) := by
  let ρ := constantStream glibc 0 (by decide)
  obtain ⟨s, h, hs⟩ : ∃ s, Execution (next glibc ρ.value slow.verbose) Free (start slow 0)
      [⟨5, .clock⟩, ⟨6, .accepted⟩] s ∧ s.1.wire.length = 1 ∧ s.1.time = 6 :=
    ⟨_, free_trace_execution rfl, rfl, rfl⟩
  obtain ⟨s', h', hs'⟩ : ∃ s, Execution (next glibc ρ.value fast.verbose) Free (start fast 70)
      [⟨70, .clock⟩, ⟨70, .refused .EAGAIN⟩, ⟨81, .accepted⟩] s ∧
      s.1.wire.length = 1 ∧ s.1.time = 81 := ⟨_, free_trace_execution rfl, rfl, rfl⟩
  exact ⟨s, s', hs.1, hs'.1, hs.2, hs'.2, traffic_deterministic h h' rfl rfl⟩

end BlastTraffic
