import DnsBlast.BlastEncodeOverrun
import DnsBlast.BlastQuery

/-! Which names make blast write past the end of the question buffer. The capacity it
passes is close to the largest size_t, so the encoder stops at no name for want of room,
and the lengths of the labels alone decide how far it writes. -/
namespace BlastQuestionBounds

open ByteStores DnsReader BlastHeader BlastEncodeName BlastEncodeOverrun BlastQuery

def PastBuffer (ls : List Label) (j : ℕ) : Prop :=
  maxUdpDataSize < sizeofHeader + prefixBytes ls j + if j = ls.length then 5 else 0

instance (ls : List Label) (j : ℕ) : Decidable (PastBuffer ls j) :=
  inferInstanceAs (Decidable (_ < _))

/-- `j` labels that the encoder lets through and that run past the buffer. The counter
stays a size_t unless there are too many empty labels. -/
structure Spill (ls : List Label) (j : ℕ) : Prop where
  within : j ≤ ls.length
  past : PastBuffer ls j
  short : ∀ l ∈ ls.take j, l.length ≤ ucharMax
  counted : ∀ i < j, 2 * i < 7 + prefixBytes ls i

theorem prefixBytes_succ {ls : List Label} {j : ℕ} (h : j < ls.length) :
    prefixBytes ls (j + 1) = prefixBytes ls j + (ls[j].length + 1) := by
  simp only [prefixBytes, List.map_take]
  rw [List.sum_take_succ _ j (by simpa using h), List.getElem_map]

theorem pastBuffer_mono {ls : List Label} {i j : ℕ} (h : PastBuffer ls i) (hij : i ≤ j)
    (hj : j ≤ ls.length) : PastBuffer ls j := by
  rcases Nat.eq_or_lt_of_le hij with rfl | hlt
  · exact h
  · have := prefixBytes_lt ls hlt hj
    unfold PastBuffer at h ⊢
    rw [if_neg (by omega)] at h
    omega

/-- blast stays inside the buffer while the labels that the encoder lets through do. -/
theorem queryStores_inside {P : Platform} {id type : ℕ} {name : List UInt8} :
    (∀ w ∈ (queryStores P id name type).1, w.1 < maxUdpDataSize) ↔
      ¬ PastBuffer (labels name) (accepted (questionRoom - 1) (labels name)) := by
  obtain ⟨hle, hb, hlen⟩ := encodeLabels_accepted (questionRoom - 1) (labels name)
  have hmax : maxUdpDataSize = 65507 := rfl
  have hhead : sizeofHeader = 12 := rfl
  have hfields : (putHtons type ++ putHtons classIN).length = 4 := rfl
  simp only [PastBuffer, queryStores, encodeName_eq, resultOf, List.forall_mem_append,
    storesAt_below_iff, ← List.length_eq_zero_iff, hfields, hostU16_length, hb]
  by_cases hall : accepted (questionRoom - 1) (labels name) = (labels name).length
  · rw [if_pos hall] at hlen ⊢
    rw [if_pos hall]
    omega
  · rw [if_neg hall] at hlen ⊢
    rw [if_neg hall]
    omega

/-- The capacity never gets in the way of the first labels that run past the buffer. -/
theorem pastBuffer_iff_spill (ls : List Label) :
    PastBuffer ls (accepted (questionRoom - 1) ls) ↔ ∃ j, Spill ls j := by
  have hroom : questionRoom - 1 = 2 ^ 64 - 7 := by decide
  have hmax : maxUdpDataSize = 65507 := rfl
  have hhead : sizeofHeader = 12 := rfl
  have hiff := le_accepted_iff (show questionRoom - 1 < 2 ^ 64 by omega) ls
  obtain ⟨hle, -, -⟩ := encodeLabels_accepted (questionRoom - 1) ls
  constructor
  · intro hpast
    obtain ⟨hj, hshort, hbound⟩ := (hiff _).mp le_rfl
    refine ⟨_, hj, hpast, hshort, ?_⟩
    intro i hi
    have := (hbound i hi).1
    omega
  · rintro ⟨k, hk⟩
    have hex : ∃ j, PastBuffer ls j := ⟨k, hk.past⟩
    let j := Nat.find hex
    have hjk : j ≤ k := Nat.find_min' hex hk.past
    have hkl := hk.within
    have hj : j ≤ accepted (questionRoom - 1) ls := by
      apply (hiff j).mpr
      refine ⟨hjk.trans hkl, ?_, ?_⟩
      · intro l hl
        exact hk.short l (List.take_subset_take_left ls hjk hl)
      · intro i hi
        have hcounted := hk.counted i (by omega)
        constructor
        · omega
        · -- the labels before `j` fit in the buffer, and label `i` is short
          have hfit : ¬ PastBuffer ls i := Nat.find_min hex hi
          have hlt : i < ls.length := by omega
          have hlabel := hk.short ls[i] (List.mem_take_iff_getElem.mpr ⟨i, by omega, rfl⟩)
          rw [prefixBytes_succ hlt]
          unfold PastBuffer at hfit
          rw [if_neg hlt.ne] at hfit
          simp only [ucharMax] at hlabel
          omega
    exact pastBuffer_mono (Nat.find_spec hex) hj hle

/-- Every byte that blast writes while it builds the query lies in the buffer, exactly for
the names without labels that spill over its end. -/
theorem query_inside_buffer_iff (P : Platform) (id : ℕ) (name : List UInt8) (type : ℕ) :
    (∀ w ∈ (queryStores P id name type).1, w.1 < maxUdpDataSize) ↔
      ¬ ∃ j, Spill (labels name) j := by
  rw [queryStores_inside, pastBuffer_iff_spill]

def manyLabels (k m : ℕ) : List Label := List.replicate k (List.replicate m 97)
def manyLabelsName (k m : ℕ) : List UInt8 := [dot].intercalate (manyLabels k m)

theorem mem_manyLabels {k m : ℕ} {l : Label} (h : l ∈ manyLabels k m) :
    l.length = m ∧ ∀ c ∈ l, c = 97 := by
  rw [List.eq_of_mem_replicate h]
  constructor
  · exact List.length_replicate
  · intro c hc
    exact List.eq_of_mem_replicate hc

theorem prefixBytes_manyLabels {k m i : ℕ} (h : i ≤ k) :
    prefixBytes (manyLabels k m) i = i * (m + 1) := by
  simp [prefixBytes, manyLabels, List.take_replicate, Nat.min_eq_left h]

theorem labels_manyLabelsName {k : ℕ} (hk : k ≠ 0) (m : ℕ) :
    labels (manyLabelsName k m) = manyLabels k m := by
  apply labels_intercalate
  · simpa [manyLabels] using hk
  · intro l hl c hc
    rw [(mem_manyLabels hl).2 c hc]
    decide

/-- The capacity is not the room behind the header, and 256 labels of 255 letters show it. -/
theorem long_name_spills :
    ¬ (questionRoom ≤ maxUdpDataSize - sizeofHeader - 4) ∧
    ¬ ∀ (P : Platform) (id : ℕ) (name : List UInt8) (type : ℕ),
      ∀ w ∈ (queryStores P id name type).1, w.1 < maxUdpDataSize := by
  constructor
  · rw [questionRoom_eq]
    decide
  · intro h
    apply queryStores_inside.mp (h glibc 0 (manyLabelsName 256 255) 1)
    rw [pastBuffer_iff_spill, labels_manyLabelsName (by decide)]
    have hlen : (manyLabels 256 255).length = 256 := List.length_replicate
    refine ⟨256, hlen.ge, ?_, ?_, ?_⟩
    · rw [PastBuffer, prefixBytes_manyLabels le_rfl, hlen]
      decide
    · intro l hl
      exact (mem_manyLabels (List.mem_of_mem_take hl)).1.le
    · intro i hi
      rw [prefixBytes_manyLabels hi.le]
      omega

end BlastQuestionBounds
