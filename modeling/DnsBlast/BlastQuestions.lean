import DnsBlast.BlastRealization
import DnsBlast.BlastWellFormed

/-! The questions that main asks, from the first one that it generates: their type, the
text of their name, and what a generator call writes into the name buffer. -/
namespace BlastQuestions

open ByteStores DnsReader LabelledRuns BlastHeader BlastEncodeName BlastQuestion BlastQuery
  BlastSyscalls BlastMain BlastTraffic BlastRealization BlastWellFormed DecimalText

def nameSize : ℕ := 100

/-- A decimal number from 0 to 255 without leading zeros. -/
structure Octet (text : List UInt8) : Prop where
  plain : Plain text
  value_le : value text ≤ 255

def DottedQuad (text : List UInt8) : Prop :=
  ∃ a b c d, Octet a ∧ Octet b ∧ Octet c ∧ Octet d ∧
    text = a ++ dot :: (b ++ dot :: (c ++ dot :: d))

def isAlnum (c : UInt8) : Bool := (97 ≤ c.toNat && c.toNat ≤ 122) || isDigit c

def ShortCom (text : List UInt8) : Prop :=
  ∃ host, host.length = 4 ∧ (∀ c ∈ host, isAlnum c) ∧ text = host ++ [dot, 99, 111, 109]

structure GeneratedQuestion (name : List UInt8) (type : ℕ) : Prop where
  listed : type ∈ queryTypes
  size : name.length = nameSize
  terminated : 0 ∈ name
  ptr : type = typePTR → DottedQuad (cstring name)
  other : type ≠ typePTR → ShortCom (cstring name)

def WrittenInside (before name : List UInt8) : Prop :=
  ∃ text, text.length + 1 ≤ nameSize ∧ name = overwrite before text

theorem octet_decimal {n : ℕ} (h : n < 256) : Octet (decimal n) := by
  obtain ⟨hplain, hvalue⟩ := decimal_plain_value n
  exact ⟨hplain, by omega⟩

theorem charsetAlnum_isAlnum : ∀ c ∈ charsetAlnum, isAlnum c := by
  decide +kernel

theorem RandomQuestion.generated {before name : List UInt8} {type : ℕ}
    (hb : before.length = nameSize) (h : RandomQuestion before name type) :
    GeneratedQuestion name type ∧ WrittenInside before name := by
  have hsize : ∀ text : List UInt8, text.length + 1 ≤ nameSize →
      (overwrite before text).length = nameSize := by
    intro text ht
    simp only [overwrite, List.length_append, List.length_cons, List.length_drop]
    omega
  have hzero : ∀ text, (0 : UInt8) ∈ overwrite before text := by
    intro text
    simp [overwrite]
  cases h with
  | @ptr a b c d ha hb' hc hd =>
    have hfits : (dottedQuad a b c d).length + 1 ≤ nameSize := by
      have := decimal_length ha
      have := decimal_length hb'
      have := decimal_length hc
      have := decimal_length hd
      simp only [dottedQuad, List.length_append, List.length_cons, nameSize]
      omega
    refine ⟨⟨by decide, hsize _ hfits, hzero _, ?_, ?_⟩, _, hfits, rfl⟩
    · intro _
      rw [cstring_overwrite dottedQuad_plain]
      exact ⟨_, _, _, _, octet_decimal ha, octet_decimal hb', octet_decimal hc, octet_decimal hd,
        rfl⟩
    · intro hn
      exact absurd rfl hn
  | @com a b c d type ha hb' hc hd ht hn =>
    have hfits : (comName a b c d).length + 1 ≤ nameSize := show 8 + 1 ≤ nameSize by decide
    refine ⟨⟨ht, hsize _ hfits, hzero _, ?_, ?_⟩, _, hfits, rfl⟩
    · intro hp
      exact absurd hp hn
    · intro _
      rw [cstring_overwrite (comName_plain ha hb' hc hd)]
      refine ⟨[a, b, c, d], rfl, ?_, rfl⟩
      simp [charsetAlnum_isAlnum _ ha, charsetAlnum_isAlnum _ hb', charsetAlnum_isAlnum _ hc,
        charsetAlnum_isAlnum _ hd]

def generates (P : Platform) (ρ : ℕ → ℕ) : State → Event → Option Bool
  | (w, .wait .send), ⟨_, .clock⟩ => some (decide (ρ w.draws > repeatedNameProbability P))
  | _, _ => none

def generations (P : Platform) (ρ : ℕ → ℕ) (verbose : Bool) (s : State) (es : List Event) :
    List Bool :=
  observe (next P ρ verbose) (generates P ρ) s es

def generated (P : Platform) (ρ : ℕ → ℕ) (ask : Asker) (s : Sender) (n : ℕ) : List Bool :=
  (List.range n).map fun k =>
    decide (ρ (traffic P ρ ask s k).sender.draws > repeatedNameProbability P)

theorem generated_succ (P : Platform) (ρ : ℕ → ℕ) (ask : Asker) (s : Sender) (n : ℕ) :
    generated P ρ ask s (n + 1) = generated P ρ ask s n ++
      [decide (ρ (traffic P ρ ask s n).sender.draws > repeatedNameProbability P)] := by
  rw [generated, List.range_succ, List.map_append]
  rfl

/-- A process that follows a generator and notes each of its questions has noted as many as
the generator has asked. -/
theorem observed_generated {P : Platform} {ρ : ℕ → ℕ} {ask : Asker} {first : Sender} {σ : Type}
    {next : σ → Event → Option σ} {ok : σ → Event → Prop} {note : σ → Event → Option Bool}
    {R : σ → Traffic → Prop} {s₀ s : σ} {es : List Event} (h : Execution next ok s₀ es s)
    (hfirst : R s₀ ⟨first, []⟩)
    (hstep : ∀ s e t g, R s g → next s e = some t →
      note s e = some (decide (ρ g.sender.draws > repeatedNameProbability P)) ∧
        R t (g.step P ρ ask) ∨
      note s e = none ∧ R t g) :
    ∃ n, R s (traffic P ρ ask first n) ∧ observe next note s₀ es = generated P ρ ask first n := by
  apply h.observed (I := fun s gs => ∃ n, R s (traffic P ρ ask first n) ∧
    gs = generated P ρ ask first n)
  · exact ⟨0, hfirst, rfl⟩
  · rintro s e t gs ⟨n, hs, rfl⟩ _ hn
    rcases hstep s e t _ hs hn with ⟨hnote, ht⟩ | ⟨hnote, ht⟩
    · refine ⟨n + 1, (traffic_succ ..).symm ▸ ht, ?_⟩
      rw [hnote, generated_succ]
      rfl
    · refine ⟨n, ht, ?_⟩
      rw [hnote, Option.toList_none, List.append_nil]

theorem execution_generations {P : Platform} {ρ : ℕ → ℕ} {o : Options} {now : ℕ}
    {ok : State → Event → Prop} {es : List Event} {s : State}
    (h : Execution (next P ρ o.verbose) ok (start o now) es s) :
    ∃ n, Emits s (traffic P ρ (ask P ρ) (firstSender o.fuzz) n) ∧
      generations P ρ o.verbose (start o now) es =
        generated P ρ (ask P ρ) (firstSender o.fuzz) n := by
  apply observed_generated h
  · exact ⟨rfl, List.prefix_rfl, fun _ _ => rfl⟩
  · intro s e t g hs hn
    rcases emits_step hs hn with ⟨hsend, ht⟩ | ⟨haway, ht⟩
    · obtain ⟨w, c⟩ := s
      obtain ⟨time, answer⟩ := e
      cases hsend
      cases answer <;> cases hn
      refine Or.inl ⟨?_, ht⟩
      rw [hs.sender]
      rfl
    · refine Or.inr ⟨?_, ht⟩
      unfold generates
      split
      · exact absurd rfl haway
      · rfl

def pairBefore (calls : List BlastCall) : ℕ → List UInt8 × ℕ
  | 0 => (initialName, 0)
  | k + 1 => (calls[k]?.map fun c => (c.name, c.type)).getD (initialName, 0)

structure QuestionRecord (gs : List Bool) (calls : List BlastCall) : Prop where
  length_eq : gs.length = calls.length
  shaped : ∀ j k (hk : k < calls.length), j ≤ k → gs[j]? = some true →
    GeneratedQuestion calls[k].name calls[k].type
  written : ∀ k (hk : k < calls.length), gs[k]? = some true →
    WrittenInside (pairBefore calls k).1 calls[k].name
  repeated : ∀ k (hk : k < calls.length), gs[k]? = some false →
    (calls[k].name, calls[k].type) = pairBefore calls k

theorem pairBefore_append {calls : List BlastCall} (c : BlastCall) {k : ℕ}
    (h : k ≤ calls.length) : pairBefore (calls ++ [c]) k = pairBefore calls k := by
  cases k with
  | zero => rfl
  | succ k => rw [pairBefore, pairBefore, List.getElem?_append_left h]

theorem QuestionRecord.append {gs : List Bool} {calls : List BlastCall}
    (h : QuestionRecord gs calls) {b : Bool} {c : BlastCall}
    (hshaped : true ∈ gs ++ [b] → GeneratedQuestion c.name c.type)
    (hwritten : b = true → WrittenInside (pairBefore calls calls.length).1 c.name)
    (hrepeated : b = false → (c.name, c.type) = pairBefore calls calls.length) :
    QuestionRecord (gs ++ [b]) (calls ++ [c]) := by
  have hgs : ∀ k < calls.length, (gs ++ [b])[k]? = gs[k]? := by
    intro k hk
    exact List.getElem?_append_left (h.length_eq ▸ hk)
  have hlast : (gs ++ [b])[calls.length]? = some b := by
    rw [← h.length_eq, List.getElem?_concat_length]
  have hcases : ∀ k < (calls ++ [c]).length, k < calls.length ∨ k = calls.length := by
    intro k hk
    rw [List.length_append, List.length_singleton] at hk
    omega
  refine ⟨by simp [h.length_eq], ?_, ?_, ?_⟩
  · intro j k hk hjk hj
    rcases hcases k hk with hlt | rfl
    · rw [List.getElem_append_left hlt]
      exact h.shaped j k hlt hjk (hgs j (by omega) ▸ hj)
    · simpa using hshaped (List.mem_of_getElem? hj)
  · intro k hk hg
    rcases hcases k hk with hlt | rfl
    · rw [List.getElem_append_left hlt, pairBefore_append c hlt.le]
      exact h.written k hlt (hgs k hlt ▸ hg)
    · rw [pairBefore_append c le_rfl]
      simpa using hwritten (Option.some.inj (hlast.symm.trans hg))
  · intro k hk hg
    rcases hcases k hk with hlt | rfl
    · rw [List.getElem_append_left hlt, pairBefore_append c hlt.le]
      exact h.repeated k hlt (hgs k hlt ▸ hg)
    · rw [pairBefore_append c le_rfl]
      simpa using hrepeated (Option.some.inj (hlast.symm.trans hg))

theorem nextSender_question (P : Platform) (ρ : ℕ → ℕ) (ask : Asker) (s : Sender) :
    let r := (ask s.name s.type).run s.draws
    let t := (nextSender P ρ ask s).1
    t.name = r.1.1 ∧ t.type = r.1.2 ∧
      ∃ fuzzed, t.calls = s.calls ++ [⟨s.id, r.1.1, r.1.2, fuzzed⟩] := by
  simp only [nextSender]
  split_ifs
  · exact ⟨rfl, rfl, _, rfl⟩
  · exact ⟨rfl, rfl, _, rfl⟩

structure Asking (gs : List Bool) (s : Sender) : Prop where
  record : QuestionRecord gs s.calls
  pair : (s.name, s.type) = pairBefore s.calls s.calls.length
  size : s.name.length = nameSize
  shaped : true ∈ gs → GeneratedQuestion s.name s.type

theorem Asking.next {P : Platform} {ρ : ℕ → ℕ} {gs : List Bool} {s : Sender} (h : Asking gs s) :
    Asking (gs ++ [decide (ρ s.draws > repeatedNameProbability P)])
      (nextSender P ρ (ask P ρ) s).1 := by
  obtain ⟨hname, htype, fuzzed, hcalls⟩ := nextSender_question P ρ (ask P ρ) s
  rw [ask_run] at hname htype hcalls
  have hpair : ∀ c : BlastCall, (nextSender P ρ (ask P ρ) s).1.calls = s.calls ++ [c] →
      pairBefore (nextSender P ρ (ask P ρ) s).1.calls
        (nextSender P ρ (ask P ρ) s).1.calls.length = (c.name, c.type) := by
    intro c hc
    rw [hc, List.length_append, List.length_singleton, pairBefore, List.getElem?_concat_length]
    rfl
  by_cases hr : ρ s.draws > repeatedNameProbability P
  · rw [if_pos hr] at hname htype hcalls
    obtain ⟨hshape, hwritten⟩ := RandomQuestion.generated h.size
      (getRandomQuestion_shape P ρ s.name s.type (s.draws + 1))
    rw [decide_eq_true hr]
    refine ⟨?_, ?_, ?_, ?_⟩
    · rw [hcalls]
      apply h.record.append
      · intro _
        exact hshape
      · intro _
        rw [← h.pair]
        exact hwritten
      · intro hb
        cases hb
    · rw [hpair _ hcalls, hname, htype]
    · rw [hname]
      exact hshape.size
    · intro _
      rw [hname, htype]
      exact hshape
  · rw [if_neg hr] at hname htype hcalls
    have hkept : ∀ b, true ∈ gs ++ [b] → b = false → true ∈ gs := by
      intro b hmem hb
      simpa [hb] using hmem
    rw [decide_eq_false hr]
    refine ⟨?_, ?_, ?_, ?_⟩
    · rw [hcalls]
      apply h.record.append
      · intro hmem
        exact h.shaped (hkept _ hmem rfl)
      · intro hb
        cases hb
      · intro _
        exact h.pair
    · rw [hpair _ hcalls, hname, htype]
    · rw [hname]
      exact h.size
    · intro hmem
      rw [hname, htype]
      exact h.shaped (hkept _ hmem rfl)

theorem traffic_asking (P : Platform) (ρ : ℕ → ℕ) (fuzz : Bool) (n : ℕ) :
    Asking (generated P ρ (ask P ρ) (firstSender fuzz) n)
      (traffic P ρ (ask P ρ) (firstSender fuzz) n).sender := by
  induction n with
  | zero =>
    have hsize : initialName.length = nameSize := by decide
    refine ⟨⟨rfl, ?_, ?_, ?_⟩, rfl, hsize, ?_⟩
    · intro j k hk
      exact absurd hk (Nat.not_lt_zero k)
    · intro k hk
      exact absurd hk (Nat.not_lt_zero k)
    · intro k hk
      exact absurd hk (Nat.not_lt_zero k)
    · intro hmem
      exact absurd hmem List.not_mem_nil
  | succ n ih =>
    rw [generated_succ, traffic_succ]
    exact ih.next

/-- In every run the questions passed to blast have the shape of generated ones from the
first iteration that generates one, no generator call leaves the name buffer, and an
iteration that generates none repeats the previous question. -/
theorem questions_recorded {P : Platform} {ρ : RandStream P} {o : Options} {now : ℕ}
    {es : List Event} {s : State}
    (h : Execution (next P ρ.value o.verbose) Free (start o now) es s) :
    QuestionRecord (generations P ρ.value o.verbose (start o now) es) s.1.calls := by
  obtain ⟨n, hn, hgs⟩ := execution_generations h
  have hcalls : (traffic P ρ.value (ask P ρ.value) (firstSender o.fuzz) n).sender.calls =
      s.1.calls := congrArg Sender.calls hn.sender
  rw [hgs, ← hcalls]
  exact (traffic_asking P ρ.value o.fuzz n).record

/-- Draws of which the first selects a question and the one behind that question does not. -/
def selectsOnce : RandStream glibc where
  value i := if i < 4 then 2 ^ 31 - 1 else 0
  le_randMax i := by
    split_ifs
    · exact le_rfl
    · exact Nat.zero_le _

/-- The second of two calls repeats the question that the first one drew. -/
theorem questions_recorded_two_calls : ∃ es s,
    Execution (next glibc selectsOnce.value slow.verbose) Free (start slow 0) es s ∧
    s.1.calls.length = 2 ∧
    generations glibc selectsOnce.value slow.verbose (start slow 0) es = [true, false] ∧
    QuestionRecord (generations glibc selectsOnce.value slow.verbose (start slow 0) es)
      s.1.calls := by
  obtain ⟨es, w, size, h, hwire, -⟩ :=
    packet_reachable glibc selectsOnce.value slow 0 (Nat.lt_succ_self 1)
  obtain ⟨n, hn, hgs⟩ := execution_generations h
  have htwo : n = 2 := by
    have hsent := congrArg List.length (hn.running _ rfl)
    rw [traffic_length, handed, List.length_append, hwire] at hsent
    exact hsent
  have hnoted : generated glibc selectsOnce.value (ask glibc selectsOnce.value)
      (firstSender false) 2 = [true, false] := by decide +kernel
  have hboth := hgs.trans (htwo ▸ hnoted)
  have hrecord := questions_recorded h
  refine ⟨es, _, h, ?_, hboth, hrecord⟩
  rw [← hrecord.length_eq, hboth]
  rfl

end BlastQuestions
