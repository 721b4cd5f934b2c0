import DnsBlast.BlastConsole
import DnsBlast.BlastWellFormed

/-! The log against the wire. What --verbose reports of a query is what a name server reads
in its datagram, from the first question on that main draws. -/
namespace BlastWireLog

open ByteStores DnsReader LabelledRuns BlastHeader BlastEncodeName BlastQuestion BlastQuery
  BlastSyscalls BlastMain BlastTraffic BlastTable BlastConsole BlastWellFormed

def networkId (P : Platform) (id : ℕ) : ℕ :=
  if P.littleEndian then id % 256 * 256 + id / 256 else id

/-- A name server reads the arguments of a call of blast in the datagram. -/
structure ReadsAs (P : Platform) (call : BlastCall) (bytes : List UInt8) : Prop where
  message : readMessage bytes = some (⟨networkId P call.id, 0x0100, 1, 0, 0, 0⟩,
    ⟨labels call.name, call.type, classIN⟩, [])
  hostId : hostId P bytes = call.id

theorem hostU16_bytes (P : Platform) {id : ℕ} (hid : id < 2 ^ 16) : ∃ b₀ b₁ : UInt8,
    hostU16 P id = [b₀, b₁] ∧ b₀.toNat * 256 + b₁.toNat = networkId P id ∧
      ∀ bytes, hostId P (b₀ :: b₁ :: bytes) = id := by
  have hval := toNat_putHtons hid
  have hhi : (UInt8.ofNat (id >>> 8)).toNat = id / 256 := by
    rw [Nat.shiftRight_eq_div_pow, UInt8.toNat_ofNat']
    omega
  have hput : putHtons id = [UInt8.ofNat (id >>> 8), UInt8.ofNat (id &&& 0xff)] := rfl
  generalize UInt8.ofNat (id >>> 8) = hi at hval hhi hput
  generalize UInt8.ofNat (id &&& 0xff) = lo at hval hput
  have hswapped : lo.toNat * 256 + hi.toNat = id % 256 * 256 + id / 256 := by
    have hlo : lo.toNat = id % 256 := by
      rw [hhi] at hval
      omega
    rw [hlo, hhi]
  simp only [hostU16, networkId, hostId, hput]
  by_cases hP : P.littleEndian = true
  · simp only [if_pos hP]
    exact ⟨lo, hi, rfl, hswapped, fun bytes => by simpa using hval⟩
  · simp only [if_neg hP]
    exact ⟨hi, lo, rfl, hval, fun bytes => by simpa using hval⟩

/-- The reader inverts the query, name, type and id. -/
theorem query_reads {P : Platform} {id type : ℕ} {name : List UInt8} {m : Memory}
    (hid : id < 2 ^ 16) (hm : readBytes m 2 10 = readBytes initialQuestion 2 10)
    (hq : ProperQuestion name type) (fuzzed : List ℕ) :
    ReadsAs P ⟨id, name, type, fuzzed⟩
      (readBytes (applyStores m (queryStores P id name type).1) 0
        (queryStores P id name type).2) := by
  have hshort := hq.short
  have hempty : (labels name).count [] = 0 := by
    rw [List.count_eq_zero]
    intro hmem
    exact absurd (hq.proper [] hmem).1 (by decide)
  have hfits := @encodeName_fits sizeofHeader questionRoom name
    (fun l hl => (hq.proper l hl).2.trans (by decide))
    (by rw [questionRoom_eq]; omega) (by rw [questionRoom_eq, hempty]; omega)
  have htype : type < 2 ^ 16 := by
    have hlisted := hq.listed
    simp only [queryTypes, List.mem_cons, List.not_mem_nil, or_false] at hlisted
    rcases hlisted with h | h | h | h | h | h <;> rw [h] <;> decide
  obtain ⟨b₀, b₁, hbytes, hnetwork, hhost⟩ := hostU16_bytes P hid
  have hquestion := readQuestion_wireName hq.proper (UInt8.ofNat (type >>> 8))
    (UInt8.ofNat (type &&& 0xff)) (UInt8.ofNat (classIN >>> 8)) (UInt8.ofNat (classIN &&& 0xff)) []
  rw [toNat_putHtons htype, toNat_putHtons (by decide)] at hquestion
  rw [query_bytes m hfits, hm, readBytes_initialHeader, hbytes]
  refine ⟨?_, hhost _⟩
  rw [← hnetwork]
  simp only [putHtons, List.cons_append, List.nil_append, readMessage, readHeader, readU16,
    Option.bind_eq_bind, Option.bind_some, Option.pure_def, hquestion]
  rfl

structure Legible (P : Platform) (ρ : ℕ → ℕ) (n : ℕ) (g : Traffic) : Prop where
  regular : Regular P ρ n g.sender
  numbered : Numbered n g.sender
  reads : ∀ k call bytes, Asked P ρ (k + 1) → g.sender.calls[k]? = some call →
    g.sent[k]? = some bytes → call.id = k % 2 ^ 16 ∧ ReadsAs P call bytes

theorem Legible.step {P : Platform} {ρ : ℕ → ℕ} {n : ℕ} {g : Traffic} (h : Legible P ρ n g)
    (hlength : g.sent.length = n) : Legible P ρ (n + 1) (g.step P ρ (ask P ρ)) := by
  obtain ⟨hnext, -⟩ := h.regular.next
  refine ⟨hnext, h.numbered.next, ?_⟩
  have hask := h.regular.ask
  have hid : g.sender.id < 2 ^ 16 := h.numbered.id ▸ Nat.mod_lt _ (by decide)
  intro k call bytes hasked hcall hbytes
  simp only [Traffic.step, nextSender, h.regular.fuzz, Bool.false_eq_true, if_false] at hcall hbytes
  by_cases hk : k < n
  · rw [List.getElem?_append_left (by rw [h.numbered.calls]; exact hk)] at hcall
    rw [List.getElem?_append_left (by rw [hlength]; exact hk)] at hbytes
    exact h.reads k call bytes hasked hcall hbytes
  · have hkn : k = n := by
      have hlt := (List.getElem?_eq_some_iff.mp hbytes).1
      rw [List.length_append, List.length_singleton, hlength] at hlt
      omega
    subst hkn
    rw [List.getElem?_append_right h.numbered.calls.le, h.numbered.calls, Nat.sub_self] at hcall
    rw [List.getElem?_append_right hlength.le, hlength, Nat.sub_self] at hbytes
    cases hcall
    cases hbytes
    rcases hask with ⟨hnone, -⟩ | ⟨-, hproper⟩
    · exact absurd hasked hnone
    · exact ⟨h.numbered.id, query_reads hid h.regular.header hproper []⟩

theorem traffic_legible (P : Platform) (ρ : ℕ → ℕ) (n : ℕ) :
    Legible P ρ n (traffic P ρ (ask P ρ) (firstSender false) n) := by
  apply traffic_invariant (I := fun n g => Legible P ρ n g)
  · exact ⟨(traffic_well_formed_iff P ρ 0).1, (traffic_numbered P ρ (ask P ρ) false 0),
      fun k call bytes _ hcall => by cases hcall⟩
  · intro n g hlength h
    exact h.step hlength

/-- Without fuzzing and with --verbose, line `k` of the log is what a name server reads in
datagram `k`, from the first question on: its type, its name cut at the dots, its size, and
its id, which is `k` modulo 2^16 in the byte order of the host. -/
theorem log_reads_wire {P : Platform} {ρ : RandStream P} {o : Options} {now : ℕ}
    {es : List Event} {s : State} (hfuzz : o.fuzz = false) (hverbose : o.verbose = true)
    (h : Execution (next P ρ.value o.verbose) Free (start o now) es s) {k : ℕ}
    {bytes : List UInt8} (hbytes : s.1.wire[k]? = some bytes)
    (hasked : ∃ j ≤ k, ρ.value j > repeatedNameProbability P) :
    ∃ header question name, readMessage bytes = some (header, question, []) ∧
      header = ⟨networkId P (k % 2 ^ 16), 0x0100, 1, 0, 0, 0⟩ ∧ question.qclass = classIN ∧
      labels name = question.labels ∧ (s.1.console.filter isQuestion)[k]? =
        some (.question question.qtype name (k % 2 ^ 16 + 1) bytes.length) := by
  obtain ⟨n, hn⟩ := execution_emits h
  rw [hfuzz] at hn
  have hlegible := traffic_legible P ρ.value n
  have hcalls : (traffic P ρ.value (ask P ρ.value) (firstSender false) n).sender.calls =
      s.1.calls := congrArg Sender.calls hn.sender
  have hprefix := (wire_isPrefix_handed s).trans hn.handed_isPrefix
  obtain ⟨hk, hget⟩ := List.getElem?_eq_some_iff.mp hbytes
  have hsent : (traffic P ρ.value (ask P ρ.value) (firstSender false) n).sent[k]? =
      some bytes := by
    rw [← hget, hprefix.getElem hk]
    exact List.getElem?_eq_getElem _
  have hlt : k < s.1.calls.length := by
    rw [← hcalls, hlegible.numbered.calls, ← traffic_length P ρ.value (ask P ρ.value)
      (firstSender false) n]
    exact (List.getElem?_eq_some_iff.mp hsent).1
  have hcall : s.1.calls[k]? = some s.1.calls[k] := List.getElem?_eq_getElem hlt
  have hasked' : Asked P ρ.value (k + 1) := by
    obtain ⟨j, hj, hr⟩ := hasked
    exact ⟨j, Nat.lt_succ_of_le hj, hr⟩
  obtain ⟨hid, hreads⟩ := hlegible.reads k s.1.calls[k] bytes hasked'
    (by rw [hcalls]; exact hcall) hsent
  refine ⟨_, _, s.1.calls[k].name, hreads.message, by rw [hid], rfl, rfl, ?_⟩
  rw [question_lines h, if_pos hverbose, List.getElem?_zipWith, hcall, hbytes]
  simp only [questionLine, hreads.hostId, hid]

/-- Draws of RAND_MAX ask for an address at once; the reader gets the name back. -/
theorem log_reads_wire_first_query : ∃ es s bytes header question name,
    Execution (next glibc (constantStream glibc (2 ^ 31 - 1) (by decide)).value fast.verbose) Free
      (start fast 0) es s ∧ s.1.wire[0]? = some bytes ∧
    readMessage bytes = some (header, question, []) ∧ labels name = question.labels ∧
    (s.1.console.filter isQuestion)[0]? = some (.question question.qtype name 1 bytes.length) := by
  obtain ⟨s, bytes, h, hbytes⟩ : ∃ s bytes, Execution
      (next glibc (constantStream glibc (2 ^ 31 - 1) (by decide)).value fast.verbose)
      Free (start fast 0) [⟨5, .clock⟩, ⟨6, .accepted⟩] s ∧ s.1.wire[0]? = some bytes :=
    ⟨_, _, free_trace_execution rfl, rfl⟩
  obtain ⟨header, question, name, hread, -, -, hlabels, hline⟩ :=
    log_reads_wire rfl rfl h hbytes ⟨0, le_rfl, by decide⟩
  exact ⟨_, s, bytes, header, question, name, h, hbytes, hread, hlabels, hline⟩

end BlastWireLog
