import DnsBlast.BlastRealization
import DnsBlast.BlastWellFormed

/-! What fuzz does to a packet and what it leaves behind. Its loop ends because the bound
that the draws are compared with is halved. blast rewrites the id, the name, the type and
the class of the shared buffer on every call, but the flags and counts only init_context
ever sets: there, and only there, a corruption stays for all later datagrams. -/
namespace BlastFuzzing

open ByteStores LabelledRuns BlastHeader BlastQuestion BlastQuery BlastSyscalls BlastMain
  BlastTraffic BlastRealization BlastWellFormed

/-- Each further overwrite halves the bound on the next draw. -/
theorem fuzzLoop_length (P : Platform) (ρ : ℕ → ℕ) (size p n : ℕ) :
    1 ≤ ((fuzzLoop P ρ size p).run n).1.length ∧
      ((fuzzLoop P ρ size p).run n).1.length ≤ Nat.log 2 p + 1 := by
  induction p using Nat.strong_induction_on generalizing n with
  | _ p ih =>
    rw [fuzzLoop_run]
    by_cases hp : ρ ((fuzzStore P ρ size).run n).2 < p ∧ 0 < p / 2
    · have hlog : Nat.log 2 p = Nat.log 2 (p / 2) + 1 :=
        Nat.log_of_one_lt_of_le (by decide) (by omega)
      obtain ⟨-, hle⟩ := ih (p / 2) (by omega) (((fuzzStore P ρ size).run n).2 + 1)
      simp only [if_pos hp, List.length_cons]
      omega
    · simp only [if_neg hp, List.length_singleton]
      omega

/-- fuzz overwrites at least one byte and at most logarithmically many, whatever it draws,
and none behind the packet. -/
theorem fuzz_overwrites (P : Platform) (ρ : RandStream P) (question : Memory) {packetSize : ℕ}
    (h : 1 ≤ packetSize) (n : ℕ) :
    let stores := ((fuzz P ρ.value packetSize).run n).1
    1 ≤ stores.length ∧ stores.length ≤ Nat.log 2 (refuzzProbability P) + 1 ∧
      ∀ a, packetSize ≤ a → applyStores question stores a = question a := by
  obtain ⟨hone, hlog⟩ := fuzzLoop_length P ρ.value packetSize (refuzzProbability P) n
  refine ⟨hone, hlog, ?_⟩
  intro a ha
  apply applyStores_frame
  intro w hw
  have := fuzzLoop_bounds P ρ.value h (refuzzProbability P) n w hw
  omega

/-- Draws of zero keep the loop going as long as it can. -/
theorem fuzz_overwrites_shortest :
    let ρ := constantStream glibc 0 (by decide)
    let stores := ((fuzz glibc ρ.value 1).run 0).1
    1 ≤ stores.length ∧ stores.length ≤ Nat.log 2 (refuzzProbability glibc) + 1 ∧
      ∀ a, 1 ≤ a → applyStores initialQuestion stores a = initialQuestion a :=
  fuzz_overwrites glibc (constantStream glibc 0 (by decide)) initialQuestion le_rfl 0

def cleanDatagram (P : Platform) (c : BlastCall) : List UInt8 :=
  let query := queryStores P c.id c.name c.type
  readBytes (applyStores initialQuestion query.1) 0 query.2

/-- `bytes` is the datagram of `c` but for what its own fuzz hit, and for flags and
counts that the fuzz of an earlier call hit. -/
structure Confined (P : Platform) (earlier : List BlastCall) (c : BlastCall)
    (bytes : List UInt8) : Prop where
  length_eq : bytes.length = (cleanDatagram P c).length
  differs : ∀ a, bytes[a]? ≠ (cleanDatagram P c)[a]? →
    a ∈ c.fuzzed ∨ 2 ≤ a ∧ a < sizeofHeader ∧ ∃ d ∈ earlier, a ∈ d.fuzzed

/-- Flags and counts that were never hit are as init_context left them. -/
def HeaderMarked (s : Sender) : Prop :=
  ∀ a, 2 ≤ a → a < sizeofHeader → s.question a ≠ initialQuestion a → ∃ c ∈ s.calls, a ∈ c.fuzzed

theorem readBytes_getElem? (m : Memory) (n a : ℕ) :
    (readBytes m 0 n)[a]? = if a < n then some (m a) else none := by
  split_ifs with h
  · rw [List.getElem?_eq_getElem (by simpa using h), readBytes_getElem, Nat.zero_add]
  · exact List.getElem?_eq_none (by simpa using h)

theorem not_mem_fst_frame {m : Memory} {ws : List Store} {a : ℕ} (h : a ∉ ws.map Prod.fst) :
    applyStores m ws a = m a :=
  applyStores_frame fun _ hw he => h (he ▸ List.mem_map_of_mem hw)

theorem header_unstored (P : Platform) (m : Memory) (id : ℕ) (name : List UInt8) (type : ℕ)
    {a : ℕ} (hl : 2 ≤ a) (hu : a < sizeofHeader) :
    applyStores m (queryStores P id name type).1 a = m a :=
  applyStores_frame fun _ hw he => by
    have := queryStores_avoid_header hw
    omega

/-- Fuzzing or not, a call stores a query and then some bytes that it reports. -/
theorem nextSender_stores (P : Platform) (ρ : ℕ → ℕ) (ask : Asker) (s : Sender) :
    ∃ name type, ∃ ws : List Store,
      (nextSender P ρ ask s).1.question =
        applyStores (applyStores s.question (queryStores P s.id name type).1) ws ∧
      (nextSender P ρ ask s).1.calls = s.calls ++ [⟨s.id, name, type, ws.map Prod.fst⟩] ∧
      (nextSender P ρ ask s).2 = (queryStores P s.id name type).2 := by
  simp only [nextSender]
  split_ifs
  · exact ⟨_, _, _, rfl, rfl, rfl⟩
  · exact ⟨_, _, [], rfl, rfl, rfl⟩

theorem headerMarked_next {P : Platform} {ρ : ℕ → ℕ} {ask : Asker} {s : Sender}
    (h : HeaderMarked s) : HeaderMarked (nextSender P ρ ask s).1 := by
  obtain ⟨name, type, ws, hq, hc, -⟩ := nextSender_stores P ρ ask s
  intro a hl hu hne
  rw [hc]
  by_cases ha : a ∈ ws.map Prod.fst
  · exact ⟨_, List.mem_append_right _ (List.mem_singleton_self _), ha⟩
  · rw [hq, not_mem_fst_frame ha, header_unstored _ _ _ _ _ hl hu] at hne
    obtain ⟨c, hmem, hac⟩ := h a hl hu hne
    exact ⟨c, List.mem_append_left _ hmem, hac⟩

theorem confined_next {P : Platform} {ρ : ℕ → ℕ} {ask : Asker} {s : Sender}
    (h : HeaderMarked s) : ∃ c, (nextSender P ρ ask s).1.calls = s.calls ++ [c] ∧
      Confined P s.calls c (readBytes (nextSender P ρ ask s).1.question 0
        (nextSender P ρ ask s).2) := by
  obtain ⟨name, type, ws, hq, hc, hsize⟩ := nextSender_stores P ρ ask s
  refine ⟨_, hc, ?_, ?_⟩
  · simp [cleanDatagram, hsize]
  · intro a hne
    rw [hq, hsize, cleanDatagram, readBytes_getElem?, readBytes_getElem?] at hne
    by_cases hlt : a < (queryStores P s.id name type).2
    · rw [if_pos hlt, if_pos hlt] at hne
      by_cases ha : a ∈ ws.map Prod.fst
      · exact Or.inl ha
      · rw [not_mem_fst_frame ha] at hne
        -- every byte that blast stores is the same from any earlier buffer
        have hnot : ¬ (a < 2 ∨ sizeofHeader ≤ a) := fun hout =>
          hne (congrArg some (applyStores_congr (Or.inr (queryStores_cover hlt hout))))
        have hold : s.question a ≠ initialQuestion a := fun heq =>
          hne (congrArg some (applyStores_congr (Or.inl heq)))
        exact Or.inr ⟨by omega, by omega, h a (by omega) (by omega) hold⟩
    · rw [if_neg hlt, if_neg hlt] at hne
      exact absurd rfl hne

structure Recorded (P : Platform) (g : Traffic) : Prop where
  header : HeaderMarked g.sender
  length_eq : g.sender.calls.length = g.sent.length
  confined : ∀ k (hk : k < g.sent.length), ∃ c, g.sender.calls[k]? = some c ∧
    Confined P (g.sender.calls.take k) c g.sent[k]

theorem recorded_step {P : Platform} {ρ : ℕ → ℕ} {ask : Asker} {g : Traffic}
    (h : Recorded P g) : Recorded P (g.step P ρ ask) := by
  obtain ⟨c, hcalls, hc⟩ := @confined_next P ρ ask _ h.header
  refine ⟨headerMarked_next h.header, ?_, ?_⟩
  · simp only [Traffic.step, hcalls, List.length_append, List.length_singleton, h.length_eq]
  · intro k hk
    simp only [Traffic.step, hcalls]
    by_cases hlt : k < g.sent.length
    · obtain ⟨d, hd, hk'⟩ := h.confined k hlt
      refine ⟨d, ?_, ?_⟩
      · rw [List.getElem?_append_left (by rw [h.length_eq]; exact hlt), hd]
      · rw [List.getElem_append_left hlt, List.take_append_of_le_length (by
          rw [h.length_eq]
          exact hlt.le)]
        exact hk'
    · simp only [Traffic.step, List.length_append, List.length_singleton] at hk
      have hkn : k = g.sent.length := by omega
      subst hkn
      refine ⟨c, ?_, ?_⟩
      · rw [← h.length_eq, List.getElem?_concat_length]
      · simpa [← h.length_eq] using hc

theorem traffic_recorded (P : Platform) (ρ : ℕ → ℕ) (ask : Asker) (fuzz : Bool) (n : ℕ) :
    Recorded P (traffic P ρ ask (firstSender fuzz) n) := by
  apply traffic_invariant (I := fun _ g => Recorded P g)
  · exact ⟨fun a _ _ hne => absurd rfl hne, rfl, fun k hk => absurd hk (Nat.not_lt_zero k)⟩
  · intro n g _ h
    exact recorded_step h

/-- Every datagram differs from the unfuzzed one of the same call only where the fuzz of
that call hit it, or in flags and counts that an earlier fuzz hit. -/
theorem fuzz_confined {P : Platform} {ρ : RandStream P} {o : Options} {now : ℕ}
    {es : List Event} {s : State}
    (h : Execution (next P ρ.value o.verbose) Free (start o now) es s) (k : ℕ)
    (hk : k < (handed s).length) : ∃ c, s.1.calls[k]? = some c ∧
      Confined P (s.1.calls.take k) c (handed s)[k] := by
  obtain ⟨n, hn⟩ := execution_emits h
  have hrecorded := traffic_recorded P ρ.value (ask P ρ.value) o.fuzz n
  have hcalls : (traffic P ρ.value (ask P ρ.value) (firstSender o.fuzz) n).sender.calls =
      s.1.calls := congrArg Sender.calls hn.sender
  have hlt := lt_of_lt_of_le hk hn.handed_isPrefix.length_le
  rw [← hcalls, hn.handed_isPrefix.getElem hk]
  exact hrecorded.confined k hlt

/-- `-c 2` with fuzz, and draws that hit byte 5 (qdcount) first and then only byte 0. -/
def fuzzTwice : Options := { slow with fuzz := true }

def hitQdcount : RandStream glibc :=
  ⟨fun i => if i % 4 = 3 then 2 ^ 31 - 1 else if i = 2 then 5 else 0, fun i => by
    split_ifs <;> decide⟩

theorem fuzz_confined_first_datagram : ∃ s c, ∃ hk : 0 < (handed s).length,
    Execution (next glibc hitQdcount.value fuzzTwice.verbose) Free (start fuzzTwice 0)
      [⟨0, .clock⟩] s ∧ s.1.calls[0]? = some c ∧
    Confined glibc (s.1.calls.take 0) c (handed s)[0] := by
  obtain ⟨s, h, hs⟩ : ∃ s, Execution (next glibc hitQdcount.value fuzzTwice.verbose) Free
      (start fuzzTwice 0) [⟨0, .clock⟩] s ∧ (handed s).length = 1 :=
    ⟨_, free_trace_execution rfl, rfl⟩
  have hk : 0 < (handed s).length := hs ▸ Nat.zero_lt_one
  obtain ⟨c, hc, hconfined⟩ := fuzz_confined h 0 hk
  exact ⟨s, c, hk, h, hc, hconfined⟩

/-- A call that repeats its question and whose fuzz stops after one byte. -/
theorem nextSender_one_hit {ρ : ℕ → ℕ} {s : Sender} (hf : s.fuzz = true)
    (hr : ρ s.draws ≤ repeatedNameProbability glibc)
    (hp : refuzzProbability glibc ≤ ρ (s.draws + 3)) :
    let query := queryStores glibc s.id s.name s.type
    let hit := ρ (s.draws + 2) % query.2
    let t := nextSender glibc ρ (ask glibc ρ) s
    t.1.question = applyStores (applyStores s.question query.1)
        [(hit, UInt8.ofNat (ρ (s.draws + 1) % 0xff))] ∧
      t.1.fuzz = true ∧ t.1.draws = s.draws + 4 ∧
      t.1.calls = s.calls ++ [⟨s.id, s.name, s.type, [hit]⟩] ∧ t.2 = query.2 := by
  have hask : (ask glibc ρ s.name s.type).run s.draws = ((s.name, s.type), s.draws + 1) := by
    rw [ask_run, if_neg (by omega)]
  have hfuzz : ∀ size, (fuzz glibc ρ size).run (s.draws + 1) =
      ([(ρ (s.draws + 2) % size, UInt8.ofNat (ρ (s.draws + 1) % 0xff))], s.draws + 4) := by
    intro size
    have hstore : (fuzzStore glibc ρ size).run (s.draws + 1) =
        ((ρ (s.draws + 2) % size, UInt8.ofNat (ρ (s.draws + 1) % 0xff)), s.draws + 3) := rfl
    rw [fuzz, fuzzLoop_run, hstore]
    exact if_neg fun h => absurd h.1 (not_lt.mpr hp)
  simp only [nextSender, hask, hfuzz, if_pos hf]
  exact ⟨trivial, hf, trivial, rfl, trivial⟩

/-- The zero that the first call stores in qdcount is still there in the second packet. -/
theorem fuzz_accumulates : ∃ es s c datagram,
    Execution (next glibc hitQdcount.value fuzzTwice.verbose) Free (start fuzzTwice 0) es s ∧
    s.1.calls[1]? = some c ∧ (handed s)[1]? = some datagram ∧
    datagram[5]? ≠ (cleanDatagram glibc c)[5]? ∧ 5 ∉ c.fuzzed := by
  obtain ⟨es, s, h, hhanded, hsender⟩ :=
    traffic_realized glibc hitQdcount.value fuzzTwice 0 (n := 1) (by decide)
  let ρ := hitQdcount.value
  let first := (nextSender glibc ρ (ask glibc ρ) (firstSender true)).1
  let second := nextSender glibc ρ (ask glibc ρ) first
  have htraffic : traffic glibc ρ (ask glibc ρ) (firstSender fuzzTwice.fuzz) (1 + 1) =
      ⟨second.1, [readBytes first.question 0 (nextSender glibc ρ (ask glibc ρ)
        (firstSender true)).2, readBytes second.1.question 0 second.2]⟩ := by
    rw [traffic_succ, traffic_succ]
    rfl
  obtain ⟨hquestion, hfuzz, hdraws, hcalls, -⟩ :=
    @nextSender_one_hit ρ (firstSender true) rfl (by decide) (by decide)
  obtain ⟨hquestion', -, -, hcalls', hsize⟩ :=
    @nextSender_one_hit ρ first hfuzz (by rw [hdraws]; decide) (by rw [hdraws]; decide)
  have hfirst : ρ ((firstSender true).draws + 2) = 5 := by decide
  have hsecond : ρ (first.draws + 2) = 0 := by
    rw [hdraws]
    decide
  have hroom : ∀ id name type, 5 < (queryStores glibc id name type).2 := fun id name type =>
    lt_of_lt_of_le (by decide) (queryStores_size glibc id name type)
  -- the first call hits byte 5, the second one byte 0
  rw [hfirst, Nat.mod_eq_of_lt (hroom _ _ _)] at hquestion
  rw [hsecond, Nat.zero_mod] at hquestion' hcalls'
  have hkept : second.1.question 5 = 0 := by
    rw [hquestion', not_mem_fst_frame (by simp), header_unstored _ _ _ _ _ (by decide) (by decide),
      hquestion]
    rfl
  rw [htraffic] at hhanded hsender
  refine ⟨es, s, ⟨first.id, first.name, first.type, [0]⟩, _, h, ?_, by rw [hhanded]; rfl, ?_,
    by simp⟩
  · have hs : s.1.calls = second.1.calls := congrArg Sender.calls hsender
    rw [hs, hcalls', hcalls]
    rfl
  · rw [cleanDatagram, readBytes_getElem?, readBytes_getElem?, hsize, if_pos (hroom _ _ _),
      if_pos (hroom _ _ _), hkept, header_unstored _ _ _ _ _ (by decide) (by decide)]
    decide

end BlastFuzzing
