import DnsBlast.BlastTraffic

/-! Which datagrams are well-formed queries when fuzz is off. main starts with the name
"." and type 0, and asks for them until a draw selects a question of its own. -/
namespace BlastWellFormed

open ByteStores DnsReader LabelledRuns BlastHeader BlastEncodeName BlastQuestion BlastQuery
  BlastSyscalls BlastMain BlastTraffic

def Asked (P : Platform) (ρ : ℕ → ℕ) (n : ℕ) : Prop := ∃ j < n, ρ j > repeatedNameProbability P

theorem asked_succ {P : Platform} {ρ : ℕ → ℕ} {n : ℕ} :
    Asked P ρ (n + 1) ↔ Asked P ρ n ∨ ρ n > repeatedNameProbability P := by
  simp only [Asked, Nat.lt_succ_iff_lt_or_eq, or_and_right, exists_or, exists_eq_left]

theorem ask_run (P : Platform) (ρ : ℕ → ℕ) (name : List UInt8) (type n : ℕ) :
    (ask P ρ name type).run n = if ρ n > repeatedNameProbability P then
      (getRandomQuestion P ρ name type).run (n + 1) else ((name, type), n + 1) := by
  rw [ask, draw_bind_run, rand_run]
  split_ifs <;> rfl

structure Regular (P : Platform) (ρ : ℕ → ℕ) (n : ℕ) (s : Sender) : Prop where
  fuzz : s.fuzz = false
  header : readBytes s.question 2 10 = readBytes initialQuestion 2 10
  question : ¬ Asked P ρ n ∧ s.name = initialName ∧ s.type = 0 ∧ s.draws = n ∨
    Asked P ρ n ∧ ProperQuestion s.name s.type

theorem Regular.ask {P : Platform} {ρ : ℕ → ℕ} {n : ℕ} {s : Sender} (h : Regular P ρ n s) :
    let r := (ask P ρ s.name s.type).run s.draws
    ¬ Asked P ρ (n + 1) ∧ r.1.1 = initialName ∧ r.1.2 = 0 ∧ r.2 = n + 1 ∨
      Asked P ρ (n + 1) ∧ ProperQuestion r.1.1 r.1.2 := by
  simp only [ask_run]
  by_cases hr : ρ s.draws > repeatedNameProbability P
  · rw [if_pos hr]
    have hproper := (getRandomQuestion_shape P ρ s.name s.type (s.draws + 1)).isProper
    rcases h.question with ⟨hn, hname, htype, hdraws⟩ | ⟨ha, -⟩
    · exact Or.inr ⟨asked_succ.mpr (Or.inr (hdraws ▸ hr)), hproper⟩
    · exact Or.inr ⟨asked_succ.mpr (Or.inl ha), hproper⟩
  · rw [if_neg hr]
    rcases h.question with ⟨hn, hname, htype, hdraws⟩ | ⟨ha, hp⟩
    · left
      refine ⟨?_, hname, htype, by rw [hdraws]⟩
      intro ha
      rcases asked_succ.mp ha with ha | ha
      · exact hn ha
      · exact hr (hdraws ▸ ha)
    · exact Or.inr ⟨asked_succ.mpr (Or.inl ha), hp⟩

/-- The name "." is encoded as three zero bytes: a reader sees the root name, a type and
class of zero, and two bytes too many. -/
theorem initial_query_malformed {P : Platform} {id : ℕ} {m : Memory}
    (hm : readBytes m 2 10 = readBytes initialQuestion 2 10) :
    ¬ WellFormedQuery queryTypes classIN
      (readBytes (applyStores m (queryStores P id initialName 0).1) 0
        (queryStores P id initialName 0).2) := by
  have hlabels : labels initialName = [[], []] := by
    rw [labels, initialName, cstring]
    decide
  have hfits := @encodeName_fits sizeofHeader questionRoom initialName
    (by simp [hlabels]) (by rw [questionRoom_eq, hlabels]; decide)
    (by rw [questionRoom_eq, hlabels]; decide)
  obtain ⟨i₁, i₀, hid⟩ := List.length_eq_two.mp (hostU16_length P id)
  rw [query_bytes m hfits, hm, readBytes_initialHeader, hid, hlabels]
  rintro ⟨header, question, hread, -, -, -, -, -, htype, -⟩
  have hvalue : readMessage ([i₁, i₀] ++ ([1, 0, 0, 1, 0, 0, 0, 0, 0, 0] ++
      (wireName [[], []] ++ (putHtons 0 ++ putHtons classIN)))) =
      some (⟨i₁.toNat * 256 + i₀.toNat, 0x0100, 1, 0, 0, 0⟩, ⟨[], 0, 0⟩, [0, 1]) := by
    have hbytes : wireName [[], []] ++ (putHtons 0 ++ putHtons classIN) =
        wireName [] ++ [0, 0, 0, 0, 0, 1] := by decide
    have hheader : ∀ rest, readHeader ([i₁, i₀] ++ ([1, 0, 0, 1, 0, 0, 0, 0, 0, 0] ++ rest)) =
        some (⟨i₁.toNat * 256 + i₀.toNat, 0x0100, 1, 0, 0, 0⟩, rest) := fun rest => rfl
    have hquestion : readQuestion (wireName [] ++ [0, 0, 0, 0, 0, 1]) =
        some (⟨[], 0, 0⟩, [0, 1]) := readQuestion_wireName (by simp) 0 0 0 0 [0, 1]
    rw [hbytes, readMessage, hheader]
    simp only [Option.bind_eq_bind, Option.bind_some, hquestion]
    rfl
  rw [hvalue] at hread
  cases hread

theorem Regular.next {P : Platform} {ρ : ℕ → ℕ} {n : ℕ} {s : Sender} (h : Regular P ρ n s) :
    Regular P ρ (n + 1) (nextSender P ρ (BlastMain.ask P ρ) s).1 ∧
    (WellFormedQuery queryTypes classIN
      (readBytes (nextSender P ρ (BlastMain.ask P ρ) s).1.question 0
        (nextSender P ρ (BlastMain.ask P ρ) s).2) ↔ Asked P ρ (n + 1)) := by
  have hask := h.ask
  simp only [nextSender, h.fuzz, Bool.false_eq_true, if_false]
  generalize (BlastMain.ask P ρ s.name s.type).run s.draws = r at hask
  refine ⟨⟨rfl, ?_, hask⟩, ?_⟩
  · rw [← h.header]
    apply readBytes_frame
    intro w hw
    exact queryStores_avoid_header hw
  · rcases hask with ⟨hn, hname, htype, -⟩ | ⟨ha, hp⟩
    · simp only [hname, htype, hn, iff_false]
      exact initial_query_malformed h.header
    · exact ⟨fun _ => ha, fun _ => query_wellFormed h.header hp⟩

theorem traffic_well_formed_iff (P : Platform) (ρ : ℕ → ℕ) (n : ℕ) :
    let g := traffic P ρ (ask P ρ) (firstSender false) n
    Regular P ρ n g.sender ∧ ∀ k (hk : k < g.sent.length),
      (WellFormedQuery queryTypes classIN g.sent[k] ↔ Asked P ρ (k + 1)) := by
  apply traffic_invariant (I := fun n g => Regular P ρ n g.sender ∧
    ∀ k (hk : k < g.sent.length),
      (WellFormedQuery queryTypes classIN g.sent[k] ↔ Asked P ρ (k + 1)))
  · refine ⟨⟨rfl, rfl, Or.inl ⟨?_, rfl, rfl, rfl⟩⟩, fun k hk => absurd hk (Nat.not_lt_zero k)⟩
    rintro ⟨j, hj, -⟩
    exact Nat.not_lt_zero j hj
  · rintro n g hlen ⟨hs, hg⟩
    obtain ⟨hnext, hiff⟩ := hs.next
    refine ⟨hnext, ?_⟩
    intro k hk
    simp only [Traffic.step, List.getElem_append]
    split_ifs with hlt
    · exact hg k hlt
    · simp only [Traffic.step, List.length_append, List.length_singleton] at hk
      have hkn : k = n := by omega
      subst hkn
      simpa using hiff

end BlastWellFormed
