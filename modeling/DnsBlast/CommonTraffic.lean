import DnsBlast.BlastFuzzing
import DnsBlast.MattblastTraffic

/-! Both programs on one random stream. They generate the same questions from it, and only
the types they start with differ. -/
namespace CommonTraffic

open ByteStores LabelledRuns BlastHeader BlastEncodeName BlastQuestion BlastQuery BlastSyscalls
  BlastTraffic BlastWellFormed BlastFuzzing BlastQuestions

/-- get_question with get_random_ptr is get_random_question with its four draws. -/
theorem getQuestion_eq (P : Platform) (ρ : ℕ → ℕ) (name : List UInt8) (type type' : ℕ) :
    MattblastMain.getQuestion P ρ name type' = getRandomQuestion P ρ name type := by
  unfold MattblastMain.getQuestion getRandomQuestion
  congr 1

theorem mattblast_ask_run (P : Platform) (ρ : ℕ → ℕ) (name : List UInt8) (type type' n : ℕ) :
    (MattblastMain.ask P ρ name type').run n = if ρ n > repeatedNameProbability P then
      (getRandomQuestion P ρ name type).run (n + 1) else ((name, type'), n + 1) := by
  rw [MattblastMain.ask, draw_bind_run, rand_run, getQuestion_eq P ρ name type]
  split_ifs <;> rfl

def typeAddress (packetSize : ℕ) : ℕ := packetSize - 4

theorem queryStores_but_type (P : Platform) (m : Memory) (id : ℕ) (name : List UInt8)
    (type type' : ℕ) {a : ℕ} (ha : a ≠ typeAddress (queryStores P id name type).2)
    (ha' : a ≠ typeAddress (queryStores P id name type).2 + 1) :
    applyStores m (queryStores P id name type).1 a =
      applyStores m (queryStores P id name type').1 a := by
  have haddress : typeAddress (queryStores P id name type).2 =
      (encodeName sizeofHeader questionRoom name).encodedPtr := Nat.add_sub_cancel _ 4
  rw [haddress] at ha ha'
  have hframe : ∀ (m : Memory) (t : ℕ), applyStores m
      (storesAt (encodeName sizeofHeader questionRoom name).encodedPtr (putHtons t)) a = m a := by
    intro m t
    apply applyStores_frame
    intro w hw
    have := mem_storesAt_bounds hw
    rw [putHtons_length] at this
    omega
  simp only [queryStores, storesAt_append, applyStores_append]
  apply applyStores_congr
  left
  rw [hframe, hframe]

/-- A byte of the packet comes from the question or from flags and counts. -/
theorem packet_byte (P : Platform) {m m' : Memory} (id : ℕ) (name : List UInt8) {type type' : ℕ}
    (hheader : ∀ a, 2 ≤ a → a < sizeofHeader → m a = m' a) {a : ℕ}
    (ha : a < (queryStores P id name type).2)
    (htype : type = type' ∨ a ≠ typeAddress (queryStores P id name type).2 ∧
      a ≠ typeAddress (queryStores P id name type).2 + 1) :
    applyStores m (queryStores P id name type).1 a =
      applyStores m' (queryStores P id name type').1 a := by
  have hmemory : applyStores m (queryStores P id name type).1 a =
      applyStores m' (queryStores P id name type).1 a := by
    apply applyStores_congr
    by_cases hin : 2 ≤ a ∧ a < sizeofHeader
    · exact Or.inl (hheader a hin.1 hin.2)
    · exact Or.inr (queryStores_cover ha (by omega))
  rcases htype with rfl | ⟨hfirst, hsecond⟩
  · exact hmemory
  · rw [hmemory, queryStores_but_type P m' id name type type' hfirst hsecond]

def fuzzed (P : Platform) (ρ : ℕ → ℕ) (flag : Bool) (packetSize n : ℕ) : List Store × ℕ :=
  if flag then (fuzz P ρ packetSize).run n else ([], n)

theorem nextSender_fields (P : Platform) (ρ : ℕ → ℕ) (ask : Asker) (s : Sender) :
    let r := (ask s.name s.type).run s.draws
    let query := queryStores P s.id r.1.1 r.1.2
    let f := fuzzed P ρ s.fuzz query.2 r.2
    let u := nextSender P ρ ask s
    u.1.question = applyStores (applyStores s.question query.1) f.1 ∧
      u.1.id = (s.id + 1) % 2 ^ 16 ∧ u.1.fuzz = s.fuzz ∧ u.1.name = r.1.1 ∧ u.1.type = r.1.2 ∧
      u.1.draws = f.2 ∧ u.2 = query.2 := by
  simp only [nextSender, fuzzed]
  by_cases hf : s.fuzz = true
  · rw [if_pos hf, if_pos hf]
    exact ⟨rfl, rfl, rfl, rfl, rfl, rfl, rfl⟩
  · rw [if_neg hf, if_neg hf]
    exact ⟨rfl, rfl, rfl, rfl, rfl, rfl, rfl⟩

/-- The two senders before the same iteration. `asked` says that a question has been
generated before it. -/
structure Twin (asked : Prop) (s t : Sender) : Prop where
  id : s.id = t.id
  fuzz : s.fuzz = t.fuzz
  draws : s.draws = t.draws
  name : s.name = t.name
  type : asked → s.type = t.type
  header : ∀ a, 2 ≤ a → a < sizeofHeader → s.question a = t.question a

structure AlikeButType (bytes bytes' : List UInt8) : Prop where
  length_eq : bytes.length = bytes'.length
  agree : ∀ a, a ≠ typeAddress bytes.length → a ≠ typeAddress bytes.length + 1 →
    bytes[a]? = bytes'[a]?

section Lockstep
variable {P : Platform} {ρ : ℕ → ℕ} {asked : Prop} {s t : Sender}

/-- Both programs ask for the same name with the same draws, and for the same type from
the first question that they generate. -/
theorem Twin.ask (h : Twin asked s t) :
    let r := (BlastMain.ask P ρ s.name s.type).run s.draws
    let r' := (MattblastMain.ask P ρ t.name t.type).run t.draws
    r.1.1 = r'.1.1 ∧ r.2 = r'.2 ∧
      (asked ∨ ρ s.draws > repeatedNameProbability P → r.1.2 = r'.1.2) := by
  rw [ask_run, mattblast_ask_run P ρ t.name s.type t.type, ← h.draws, ← h.name]
  by_cases hr : ρ s.draws > repeatedNameProbability P
  · rw [if_pos hr, if_pos hr]
    exact ⟨rfl, rfl, fun _ => rfl⟩
  · rw [if_neg hr, if_neg hr]
    exact ⟨rfl, rfl, fun ha => h.type (ha.resolve_right hr)⟩

/-- One iteration of both programs: the senders stay twins, and their packets are as
long and differ at most in the type. -/
theorem Twin.next (h : Twin asked s t) :
    let u := nextSender P ρ (BlastMain.ask P ρ) s
    let v := nextSender P ρ (MattblastMain.ask P ρ) t
    Twin (asked ∨ ρ s.draws > repeatedNameProbability P) u.1 v.1 ∧ u.2 = v.2 ∧
      ∀ a < u.2, u.1.type = v.1.type ∨ a ≠ typeAddress u.2 ∧ a ≠ typeAddress u.2 + 1 →
        u.1.question a = v.1.question a := by
  obtain ⟨hname, hdraws, htype⟩ := h.ask (P := P) (ρ := ρ)
  obtain ⟨hq, hid, hf, hn, ht, hd, hsize⟩ := nextSender_fields P ρ (BlastMain.ask P ρ) s
  obtain ⟨hq', hid', hf', hn', ht', hd', hsize'⟩ :=
    nextSender_fields P ρ (MattblastMain.ask P ρ) t
  rw [← h.id, ← hname] at hq' hsize'
  rw [← h.fuzz, ← h.id, ← hname, ← hdraws] at hd'
  rw [← h.fuzz, ← hdraws] at hq'
  -- the size of a packet, and with it what fuzz draws, does not depend on the type
  have hsame : (nextSender P ρ (BlastMain.ask P ρ) s).2 =
      (nextSender P ρ (MattblastMain.ask P ρ) t).2 := hsize.trans hsize'.symm
  refine ⟨⟨?_, ?_, ?_, ?_, ?_, ?_⟩, hsame, ?_⟩
  · rw [hid, hid', h.id]
  · rw [hf, hf', h.fuzz]
  · rw [hd, hd']
    rfl
  · rw [hn, hn', hname]
  · intro ha
    rw [ht, ht', htype ha]
  · intro a hl hu
    rw [hq, hq']
    apply applyStores_congr
    left
    rw [header_unstored _ _ _ _ _ hl hu, header_unstored _ _ _ _ _ hl hu, h.header a hl hu]
  · intro a ha hor
    rw [hsize] at ha hor
    rw [ht, ht'] at hor
    rw [hq, hq']
    apply applyStores_congr
    left
    exact packet_byte P s.id _ h.header ha hor

end Lockstep

/-- Each datagram of a generator is the packet of its iteration. -/
theorem traffic_getElem (P : Platform) (ρ : ℕ → ℕ) (ask : Asker) (s : Sender) {k n : ℕ}
    (h : k < (traffic P ρ ask s n).sent.length) :
    let u := nextSender P ρ ask (traffic P ρ ask s k).sender
    (traffic P ρ ask s n).sent[k] = readBytes u.1.question 0 u.2 := by
  have hlast : k < (traffic P ρ ask s (k + 1)).sent.length := by
    rw [traffic_length]
    exact Nat.lt_succ_self k
  have hle : k + 1 ≤ n := by
    rwa [traffic_length] at h
  rw [← (traffic_grows P ρ ask s hle).getElem hlast]
  simp [traffic_succ, Traffic.step, traffic_length]

theorem mem_generated_succ {P : Platform} {ρ : ℕ → ℕ} {ask : Asker} {s : Sender} {n : ℕ} :
    true ∈ generated P ρ ask s (n + 1) ↔ true ∈ generated P ρ ask s n ∨
      ρ (traffic P ρ ask s n).sender.draws > repeatedNameProbability P := by
  simp [generated_succ]

theorem traffic_twin (P : Platform) (ρ : ℕ → ℕ) (fuzz : Bool) (n : ℕ) :
    Twin (true ∈ generated P ρ (BlastMain.ask P ρ) (BlastTraffic.firstSender fuzz) n)
      (traffic P ρ (BlastMain.ask P ρ) (BlastTraffic.firstSender fuzz) n).sender
      (traffic P ρ (MattblastMain.ask P ρ) (MattblastTraffic.firstSender fuzz) n).sender := by
  induction n with
  | zero =>
    refine ⟨rfl, rfl, rfl, rfl, ?_, fun _ _ _ => rfl⟩
    intro hmem
    exact absurd hmem List.not_mem_nil
  | succ n ih =>
    rw [mem_generated_succ, traffic_succ, traffic_succ]
    exact ih.next.1

/-- Both programs generate questions in the same iterations. -/
theorem generated_eq (P : Platform) (ρ : ℕ → ℕ) (fuzz : Bool) (n : ℕ) :
    generated P ρ (BlastMain.ask P ρ) (BlastTraffic.firstSender fuzz) n =
      generated P ρ (MattblastMain.ask P ρ) (MattblastTraffic.firstSender fuzz) n := by
  apply List.map_congr_left
  intro k _
  rw [(traffic_twin P ρ fuzz k).draws]

theorem datagrams_alike (P : Platform) (ρ : ℕ → ℕ) (fuzz : Bool) (k : ℕ) :
    let u := nextSender P ρ (BlastMain.ask P ρ)
      (traffic P ρ (BlastMain.ask P ρ) (BlastTraffic.firstSender fuzz) k).sender
    let v := nextSender P ρ (MattblastMain.ask P ρ)
      (traffic P ρ (MattblastMain.ask P ρ) (MattblastTraffic.firstSender fuzz) k).sender
    AlikeButType (readBytes u.1.question 0 u.2) (readBytes v.1.question 0 v.2) ∧
      (true ∈ generated P ρ (BlastMain.ask P ρ) (BlastTraffic.firstSender fuzz) (k + 1) →
        readBytes u.1.question 0 u.2 = readBytes v.1.question 0 v.2) := by
  obtain ⟨htwin, hsize, hbytes⟩ := (traffic_twin P ρ fuzz k).next (P := P) (ρ := ρ)
  rw [← mem_generated_succ] at htwin
  intro u v
  rw [← show u.2 = v.2 from hsize]
  constructor
  · refine ⟨by rw [readBytes_length, readBytes_length], ?_⟩
    intro a hfirst hsecond
    rw [readBytes_length] at hfirst hsecond
    rw [readBytes_getElem?, readBytes_getElem?]
    by_cases ha : a < u.2
    · rw [if_pos ha, if_pos ha, hbytes a ha (Or.inr ⟨hfirst, hsecond⟩)]
    · rw [if_neg ha, if_neg ha]
  · intro hasked
    apply readBytes_congr
    intro a ha
    rw [Nat.zero_add]
    exact hbytes a ha (Or.inl (htwin.type hasked))

theorem generated_getElem? (P : Platform) (ρ : ℕ → ℕ) (ask : Asker) (s : Sender) {j n : ℕ}
    (h : j < n) : (generated P ρ ask s n)[j]? =
      some (decide (ρ (traffic P ρ ask s j).sender.draws > repeatedNameProbability P)) := by
  rw [generated, List.getElem?_map, List.getElem?_range h]
  rfl

/-- The two programs send the same datagrams, whatever their clocks, replies and rates: from
the first iteration that generates a question byte for byte, before it up to the type. -/
theorem programs_send_alike {P : Platform} {ρ : RandStream P} {o : Options}
    {a : MattblastMain.Arguments} {now now' : ℕ} {es es' : List Event} {s : BlastMain.State}
    {s' : MattblastMain.State}
    (h : Execution (BlastMain.next P ρ.value o.verbose) Free (BlastMain.start o now) es s)
    (h' : Execution (MattblastMain.next P ρ.value) Free (MattblastMain.start a now') es' s')
    (hfuzz : o.fuzz = a.fuzz) (k : ℕ) (hk : k < s.1.wire.length) (hk' : k < s'.1.wire.length) :
    let flags := generations P ρ.value o.verbose (BlastMain.start o now) es
    let flags' := MattblastTraffic.generations P ρ.value (MattblastMain.start a now') es'
    (∀ j ≤ k, ∃ b, flags[j]? = some b ∧ flags'[j]? = some b) ∧
      AlikeButType s.1.wire[k] s'.1.wire[k] ∧
      ((∃ j ≤ k, flags[j]? = some true) → s.1.wire[k] = s'.1.wire[k]) := by
  obtain ⟨n, hn, hflags⟩ := execution_generations h
  obtain ⟨m, hm, hflags'⟩ := MattblastTraffic.execution_generations h'
  rw [← hfuzz] at hm hflags'
  rw [← generated_eq] at hflags'
  have hwire := (wire_isPrefix_handed s).trans hn.handed_isPrefix
  have hsent := lt_of_lt_of_le hk hwire.length_le
  have hsent' := lt_of_lt_of_le hk' hm.wire_isPrefix.length_le
  have hkn : k < n := by rwa [traffic_length] at hsent
  have hkm : k < m := by rwa [traffic_length] at hsent'
  have hdatagrams := datagrams_alike P ρ.value o.fuzz k
  simp only [hflags, hflags']
  rw [hwire.getElem hk, hm.wire_isPrefix.getElem hk', traffic_getElem P ρ.value _ _ hsent,
    traffic_getElem P ρ.value _ _ hsent']
  refine ⟨?_, hdatagrams.1, ?_⟩
  · intro j hj
    exact ⟨_, generated_getElem? P ρ.value _ _ (lt_of_le_of_lt hj hkn),
      generated_getElem? P ρ.value _ _ (lt_of_le_of_lt hj hkm)⟩
  · rintro ⟨j, hj, hflag⟩
    apply hdatagrams.2
    rw [generated_getElem? P ρ.value _ _ (lt_of_le_of_lt hj hkn)] at hflag
    exact List.mem_map.mpr ⟨j, List.mem_range.mpr (Nat.lt_succ_of_le hj), Option.some.inj hflag⟩

def slowArguments : MattblastMain.Arguments :=
  ⟨slow.pps, slow.sendCount, slow.fuzz, slow.pps_lt, slow.sendCount_pos, slow.sendCount_lt⟩

/-- Draws of RAND_MAX select a question at once, for both programs. -/
theorem programs_send_alike_first_datagram : ∃ (s : BlastMain.State) (s' : MattblastMain.State),
    ∃ hk : 0 < s.1.wire.length, ∃ hk' : 0 < s'.1.wire.length,
    s.1.time = 6 ∧ s'.1.time = 2 ∧ s.1.wire[0] = s'.1.wire[0] := by
  let ρ := constantStream glibc (2 ^ 31 - 1) (by decide)
  obtain ⟨s, h, hs⟩ : ∃ s, Execution (BlastMain.next glibc ρ.value slow.verbose) Free
      (BlastMain.start slow 0) [⟨5, .clock⟩, ⟨6, .accepted⟩] s ∧
      s.1.wire.length = 1 ∧ s.1.time = 6 := ⟨_, free_trace_execution rfl, rfl, rfl⟩
  obtain ⟨s', h', hs'⟩ : ∃ s', Execution (MattblastMain.next glibc ρ.value) Free
      (MattblastMain.start slowArguments 1) [⟨1, .run⟩, ⟨2, .accepted⟩] s' ∧
      s'.1.wire.length = 1 ∧ s'.1.time = 2 := ⟨_, free_trace_execution rfl, rfl, rfl⟩
  have hk : 0 < s.1.wire.length := hs.1 ▸ Nat.zero_lt_one
  have hk' : 0 < s'.1.wire.length := hs'.1 ▸ Nat.zero_lt_one
  obtain ⟨-, -, hequal⟩ := programs_send_alike h h' rfl 0 hk hk'
  have hdraw : ρ.value 0 > repeatedNameProbability glibc := by decide
  exact ⟨s, s', hk, hk', hs.2, hs'.2, hequal ⟨0, le_rfl, congrArg some (decide_eq_true hdraw)⟩⟩

end CommonTraffic
