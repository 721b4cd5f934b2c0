import DnsBlast.BlastQuestions
import DnsBlast.MattblastMain

/-! The traffic of mattblast as a function of the random stream alone. It refines the same
generator as dnsblast, with its own questions; only the table of send times is not there. -/
namespace MattblastTraffic

open ByteStores LabelledRuns BlastHeader BlastQuestion BlastQuery BlastSyscalls BlastTraffic
  BlastQuestions
open MattblastMain (MainPos State Step Arguments next next_cases start drainLoop endIteration
  beginBlast throttledReceive_quiet updateStatus_quiet drainLoop_cases)

def firstSender (fuzz : Bool) : Sender := { BlastTraffic.firstSender fuzz with type := 12 }

/-- `s` but for the table indices, which mattblast does not have. -/
def withTable (s : Sender) (indices : List ℕ) : Sender := { s with tableStores := indices }

def handed : State → List (List UInt8)
  | (w, .wait (.sendto packetSize)) => w.wire ++ [readBytes w.context.question 0 packetSize]
  | (w, _) => w.wire

structure Emits (s : State) (g : Traffic) : Prop where
  sender : g.sender = withTable s.1.sender g.sender.tableStores
  wire_isPrefix : s.1.wire <+: g.sent
  running : ∀ p, s.2 = .wait p → g.sent = handed s

section Steps
variable {P : Platform} {ρ : ℕ → ℕ} {w v : World} {p : MainPos} {e : Event}
  {c : Outcome MainPos ℕ} {g : Traffic}

theorem handed_of_away (hc : ∀ n, c ≠ .wait (.sendto n)) : handed (w, c) = w.wire := by
  unfold handed
  split
  · rename_i h
    exact absurd (congrArg Prod.snd h) (hc _)
  · rename_i h
    exact congrArg (fun s => s.1.wire) h.symm

theorem Emits.quiet (h : Emits (w, .wait p) g) (hp : ∀ n, p ≠ .sendto n)
    (hc : ∀ n, c ≠ .wait (.sendto n)) (hs : v.sender = w.sender) (hw : v.wire = w.wire) :
    Emits (v, c) g := by
  have hsent : g.sent = v.wire := by
    rw [h.running p rfl, handed_of_away (by simpa using hp), hw]
  refine ⟨?_, hsent ▸ List.prefix_rfl, ?_⟩
  · simp only [hs]
    exact h.sender
  · intro _ _
    rw [hsent, handed_of_away hc]

theorem beginBlast_sender (P : Platform) (ρ : ℕ → ℕ) (w : World) (indices : List ℕ)
    (console : List Line) :
    let r := (MattblastMain.ask P ρ w.name w.type).run w.draws
    let b := beginBlast P ρ { w with
      name := r.1.1
      type := r.1.2
      draws := r.2
      console := console }
    let t := nextSender P ρ (MattblastMain.ask P ρ) (withTable w.sender indices)
    t.1 = withTable b.1.sender t.1.tableStores ∧ t.2 = b.2 ∧ b.1.wire = w.wire := by
  simp only [beginBlast, nextSender]
  by_cases hf : w.context.fuzz = true
  · have hs : (withTable w.sender indices).fuzz = true := hf
    rw [if_pos hf, if_pos hs]
    exact ⟨rfl, rfl, rfl⟩
  · have hs : ¬ (withTable w.sender indices).fuzz = true := hf
    rw [if_neg hf, if_neg hs]
    exact ⟨rfl, rfl, rfl⟩

theorem drainLoop_away (w : World) (n : ℕ) : drainLoop w ≠ .wait (.sendto n) := by
  rcases drainLoop_cases w with h | h <;> simp [h]

theorem endIteration_away (w : World) (n : ℕ) : (endIteration w).2 ≠ .wait (.sendto n) := by
  simp only [endIteration]
  split_ifs <;> simp

/-- A step from the head of the loop is a question, every other step is none. -/
theorem emits_main (hg : Emits (w, .wait p) g) (h : Step P ρ w p e v c) :
    p = .send ∧ Emits (v, c) (g.step P ρ (MattblastMain.ask P ρ)) ∨
      p ≠ .send ∧ Emits (v, c) g := by
  cases h with
  | @send time r b hr hb =>
    left
    subst hr
    obtain ⟨hsender, hsize, hwire⟩ := beginBlast_sender P ρ w g.sender.tableStores
      (w.console ++ [.asked ((MattblastMain.ask P ρ w.name w.type).run w.draws).1.2
        ((MattblastMain.ask P ρ w.name w.type).run w.draws).1.1])
    rw [hb] at hsender hsize hwire
    rw [← hg.sender] at hsender hsize
    have hsent : g.sent = b.1.wire := (hg.running _ rfl).trans hwire.symm
    have hquestion := congrArg Sender.question hsender
    have hpacket : (g.step P ρ (MattblastMain.ask P ρ)).sent =
        b.1.wire ++ [readBytes b.1.context.question 0 b.2] := by
      rw [Traffic.step, hsent, hsize, hquestion]
      rfl
    refine ⟨rfl, hsender, ?_, fun _ _ => hpacket⟩
    rw [hpacket]
    exact List.prefix_append _ _
  | accept time packetSize =>
    have hsent : g.sent = (MattblastMain.endBlast w packetSize).wire := hg.running _ rfl
    exact Or.inr ⟨by simp, hg.sender, hsent ▸ List.prefix_rfl, fun _ _ => hsent⟩
  | retry time packetSize errno => exact Or.inr ⟨by simp, hg⟩
  | fail time packetSize =>
    refine Or.inr ⟨by simp, hg.sender, hg.wire_isPrefix, ?_⟩
    intro p hp
    cases hp
  | throttle ht =>
    have hq := throttledReceive_quiet ht
    exact Or.inr ⟨by simp, hg.quiet (by simp) (by simp) hq.sender hq.wire⟩
  | iterate ht =>
    have hq := throttledReceive_quiet ht
    exact Or.inr ⟨by simp, hg.quiet (by simp) (endIteration_away _) hq.sender hq.wire⟩
  | abort ht =>
    have hq := throttledReceive_quiet ht
    exact Or.inr ⟨by simp, hg.quiet (by simp) (by simp) hq.sender hq.wire⟩
  | sent hu =>
    have hq := updateStatus_quiet hu
    exact Or.inr ⟨by simp, hg.quiet (by simp) (drainLoop_away _) hq.sender hq.wire⟩
  | drain ht =>
    have hq := throttledReceive_quiet ht
    exact Or.inr ⟨by simp, hg.quiet (by simp) (by simp) hq.sender hq.wire⟩
  | drained ht =>
    have hq := throttledReceive_quiet ht
    exact Or.inr ⟨by simp, hg.quiet (by simp) (drainLoop_away _) hq.sender hq.wire⟩
  | drainAbort ht =>
    have hq := throttledReceive_quiet ht
    exact Or.inr ⟨by simp, hg.quiet (by simp) (by simp) hq.sender hq.wire⟩
  | done hu =>
    have hq := updateStatus_quiet hu
    exact Or.inr ⟨by simp, hg.quiet (by simp) (by simp) hq.sender hq.wire⟩
  | noTime hp hu =>
    right
    rcases hp with rfl | rfl
    · exact ⟨by simp, hg.quiet (by simp) (by simp) rfl rfl⟩
    · exact ⟨by simp, hg.quiet (by simp) (by simp) rfl rfl⟩

end Steps

theorem handed_at_time (w : World) (c : Outcome MainPos ℕ) (time : ℕ) :
    handed ({ w with time := time }, c) = handed (w, c) := by
  cases c with
  | wait p => cases p <;> rfl
  | ret r => rfl
  | stop k => rfl

theorem emits_step {P : Platform} {ρ : ℕ → ℕ} {s t : State} {e : Event} {g : Traffic}
    (hg : Emits s g) (h : next P ρ s e = some t) :
    s.2 = .wait .send ∧ Emits t (g.step P ρ (MattblastMain.ask P ρ)) ∨
      s.2 ≠ .wait .send ∧ Emits t g := by
  obtain ⟨w, c⟩ := s
  obtain ⟨u, d⟩ := t
  obtain ⟨p, v, hp, hstep, ht⟩ := next_cases h
  cases hp
  cases ht
  have htime : ∀ {k}, Emits (v, d) k → Emits ({ v with time := e.time }, d) k := fun hk =>
    ⟨hk.sender, hk.wire_isPrefix, handed_at_time v d _ ▸ hk.running⟩
  rcases emits_main hg hstep with ⟨rfl, hv⟩ | ⟨hp, hv⟩
  · exact Or.inl ⟨rfl, htime hv⟩
  · exact Or.inr ⟨by simpa using hp, htime hv⟩

def generates (P : Platform) (ρ : ℕ → ℕ) : State → Event → Option Bool
  | (w, .wait .send), ⟨_, .run⟩ => some (decide (ρ w.draws > repeatedNameProbability P))
  | _, _ => none

def generations (P : Platform) (ρ : ℕ → ℕ) (s : State) (es : List Event) : List Bool :=
  observe (next P ρ) (generates P ρ) s es

/-- Every run of mattblast is a run of the generator with mattblast's questions. -/
theorem execution_generations {P : Platform} {ρ : ℕ → ℕ} {a : Arguments} {now : ℕ}
    {ok : State → Event → Prop} {es : List Event} {s : State}
    (h : Execution (next P ρ) ok (start a now) es s) :
    ∃ n, Emits s (traffic P ρ (MattblastMain.ask P ρ) (firstSender a.fuzz) n) ∧
      generations P ρ (start a now) es =
        generated P ρ (MattblastMain.ask P ρ) (firstSender a.fuzz) n := by
  apply observed_generated h
  · exact ⟨rfl, List.prefix_rfl, fun _ _ => rfl⟩
  · intro s e t g hs hn
    rcases emits_step hs hn with ⟨hsend, ht⟩ | ⟨haway, ht⟩
    · obtain ⟨w, c⟩ := s
      obtain ⟨time, answer⟩ := e
      cases hsend
      cases answer <;> cases hn
      refine Or.inl ⟨?_, ht⟩
      rw [hs.sender]
      rfl
    · refine Or.inr ⟨?_, ht⟩
      unfold generates
      split
      · exact absurd rfl haway
      · rfl

end MattblastTraffic
