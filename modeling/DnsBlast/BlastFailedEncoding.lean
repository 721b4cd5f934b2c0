import DnsBlast.BlastTraffic

/-! A name that encode_name rejects. blast does not look at the value returned: the
caller's pointer has not moved, so type and class go right behind the header, and these
16 bytes are sent and counted like any other query. -/
namespace BlastFailedEncoding

open WrappingIntegers ByteStores LabelledRuns BlastHeader BlastEncodeName BlastQuery BlastSyscalls
  BlastMain BlastTraffic

def blastCalled (P : Platform) (ρ : ℕ → ℕ) (w : World) (now : ℕ) : State :=
  ((beginBlast P ρ w now).1, .wait (.sendto (beginBlast P ρ w now).2))

def InsideBlast (s : State) (_ : Event) : Prop := ∃ packetSize, s.2 = .wait (.sendto packetSize)

/-- However often sendto is interrupted, blast called in `w` sends nothing and counts nothing. -/
def Unsent (P : Platform) (ρ : ℕ → ℕ) (verbose : Bool) (w : World) (now : ℕ) : Prop :=
  ∀ es t, Execution (next P ρ verbose) InsideBlast (blastCalled P ρ w now) es t →
    t.1.wire = w.wire ∧ t.1.context.sentPackets = w.context.sentPackets

theorem failed_packet_size {P : Platform} {ρ : ℕ → ℕ} {w : World} {now : ℕ}
    (h : (encodeName sizeofHeader questionRoom w.name).ret = -1) :
    (beginBlast P ρ w now).2 = 16 := by
  have hsize : (queryStores P w.context.id w.name w.type).2 = 16 := by
    simp only [queryStores, encodeName_failure h]
    rfl
  simp only [beginBlast, buildPacket, storeStart]
  split_ifs
  · exact hsize
  · exact hsize

def SendsPacket (P : Platform) (verbose : Bool) (b : World × ℕ) : State → Prop
  | (v, .wait (.sendto packetSize)) => v = { b.1 with time := v.time } ∧ packetSize = b.2
  | (v, .wait (.throttle _ .now)) => v = { endBlast P verbose b.1 b.2 with time := v.time }
  | (v, .stop _) => v = { b.1 with time := v.time }
  | _ => False

theorem blast_run {P : Platform} {ρ : ℕ → ℕ} {verbose : Bool} {w : World} {now : ℕ}
    {es : List Event} {t : State}
    (h : Execution (next P ρ verbose) InsideBlast (blastCalled P ρ w now) es t) :
    SendsPacket P verbose (beginBlast P ρ w now) t := by
  apply h.invariant (I := SendsPacket P verbose (beginBlast P ρ w now))
  · exact ⟨rfl, rfl⟩
  · rintro ⟨u, c⟩ e ⟨v, d⟩ hi ⟨packetSize, hp⟩ hn
    cases hp
    obtain ⟨p, v', hp, hstep, hv⟩ := next_cases hn
    cases hp
    obtain ⟨hu, rfl⟩ := hi
    dsimp only at hu hv
    cases hstep with
    | accept time => rw [hv, hu]; rfl
    | retry time _ errno he => rw [hv, hu]; exact ⟨rfl, rfl⟩
    | fail time => rw [hv, hu]; rfl

/-- blast comes back from sendto with its packet on the wire, and it can come back. -/
theorem blast_returns (P : Platform) (ρ : ℕ → ℕ) (verbose : Bool) (w : World) (now : ℕ) :
    (∀ es v before, Execution (next P ρ verbose) InsideBlast (blastCalled P ρ w now) es
        (v, .wait (.throttle before .now)) →
      v.wire = w.wire ++ [packet (beginBlast P ρ w now).1 (beginBlast P ρ w now).2] ∧
      v.context.sentPackets = (w.context.sentPackets + 1) % 2 ^ 64) ∧
    ∃ es v before, Execution (next P ρ verbose) InsideBlast (blastCalled P ρ w now) es
      (v, .wait (.throttle before .now)) := by
  constructor
  · intro es v before hrun
    obtain ⟨hpace, -, hwire⟩ := beginBlast_keeps P ρ w now
    have hsent : (beginBlast P ρ w now).1.context.sentPackets = w.context.sentPackets :=
      congrArg Pace.sentPackets hpace
    have hv : v = { endBlast P verbose (beginBlast P ρ w now).1 (beginBlast P ρ w now).2 with
        time := v.time } := blast_run hrun
    rw [hv]
    constructor
    · simp only [endBlast, hwire]
    · simp only [endBlast, hsent]
  · have hstep : next P ρ verbose (blastCalled P ρ w now) ⟨now, .accepted⟩ =
        some ({ endBlast P verbose (beginBlast P ρ w now).1 (beginBlast P ρ w now).2 with
            time := now },
          .wait (.throttle (beginBlast P ρ w now).1.context.receivedPackets .now)) := rfl
    exact ⟨_, _, _, (Execution.refl _).tail ⟨_, rfl⟩ hstep⟩

theorem succ_mod_ne (n w : ℕ) (hw : 1 < w) : (n + 1) % w ≠ n := by
  intro h
  have hlt : n < w := h ▸ Nat.mod_lt _ (by omega)
  rcases Nat.lt_or_ge (n + 1) w with hn | hn
  · rw [Nat.mod_eq_of_lt hn] at h
    omega
  · rw [show n + 1 = w by omega, Nat.mod_self] at h
    omega

/-- Whenever the encoding fails, blast returns with header, type and class on the wire
and a packet more in its count. -/
theorem failed_encoding_sent {P : Platform} {ρ : RandStream P} {verbose : Bool} {w : World}
    {now : ℕ} (h : (encodeName sizeofHeader questionRoom w.name).ret = -1) :
    ¬ Unsent P ρ.value verbose w now ∧
    ∃ datagram : List UInt8, datagram.length = 16 ∧
      ∀ es v before, Execution (next P ρ.value verbose) InsideBlast
          (blastCalled P ρ.value w now) es (v, .wait (.throttle before .now)) →
        v.wire = w.wire ++ [datagram] ∧
        v.context.sentPackets = (w.context.sentPackets + 1) % 2 ^ 64 := by
  obtain ⟨hreturns, es, v, before, hrun⟩ := blast_returns P ρ.value verbose w now
  constructor
  · intro hunsent
    have heq := (hunsent es _ hrun).2
    rw [(hreturns es v before hrun).2] at heq
    exact succ_mod_ne _ _ one_lt_word heq
  · refine ⟨_, ?_, hreturns⟩
    rw [packet, readBytes_length, failed_packet_size h]

/-- Seven dots are eight empty labels; in front of the last one the room has wrapped to zero. -/
def sevenDots : List UInt8 := List.replicate 7 dot

theorem sevenDots_fail : (encodeName sizeofHeader questionRoom sevenDots).ret = -1 := by
  have hlabels : labels sevenDots = List.replicate 8 [] := by decide
  rw [encodeName_eq, hlabels, questionRoom_eq]
  decide

def dotsWorld : World := { (start slow 0).1 with name := sevenDots }

theorem failed_encoding_sent_dots : ∃ datagram : List UInt8, datagram.length = 16 ∧
    ∀ es v before, Execution (next glibc (constantStream glibc 0 (by decide)).value false)
        InsideBlast (blastCalled glibc (constantStream glibc 0 (by decide)).value dotsWorld 0) es
        (v, .wait (.throttle before .now)) →
      v.wire = [datagram] ∧ v.context.sentPackets = 1 :=
  (failed_encoding_sent sevenDots_fail).2

/-- An unencodable name is sent all the same. -/
theorem seven_dots_counted :
    ¬ ∀ (P : Platform) (ρ : RandStream P) (verbose : Bool) (w : World) (now : ℕ),
      (encodeName sizeofHeader questionRoom w.name).ret = -1 →
      Unsent P ρ.value verbose w now := by
  intro h
  obtain ⟨hreturns, es, v, before, hrun⟩ :=
    blast_returns glibc (constantStream glibc 0 (by decide)).value false dotsWorld 0
  have hsent : v.context.sentPackets = 0 :=
    (h glibc (constantStream glibc 0 (by decide)) false dotsWorld 0 sevenDots_fail es _ hrun).2
  rw [(hreturns es v before hrun).2] at hsent
  exact absurd hsent (by decide)

end BlastFailedEncoding
