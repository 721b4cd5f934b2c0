import DnsBlast.BlastQuestion

/-! The question buffer: what init_context puts into it, what blast writes over it
for one query, and what fuzz overwrites afterwards. The buffer is never cleared. -/
namespace BlastQuery

open WrappingIntegers ByteStores DnsReader BlastHeader BlastEncodeName BlastQuestion

structure Context where
  question : Memory
  lastStatusUpdate : ℕ
  startupDate : ℕ
  pps : ℕ
  receivedPackets : ℕ
  sentPackets : ℕ
  datagramStart : ℕ → ℕ
  failedPackets : ℕ
  timeout : ℕ
  rate : ℕ
  id : ℕ
  fuzz : Bool
  sending : Bool

/-- PUT_HTONS, and the bytes of `htons(val)` in memory. -/
def putHtons (val : ℕ) : List UInt8 := [UInt8.ofNat (val >>> 8), UInt8.ofNat (val &&& 0xff)]

def hostU16 (P : Platform) (val : ℕ) : List UInt8 :=
  if P.littleEndian then (putHtons val).reverse else putHtons val

def headerId (P : Platform) (question : Memory) : ℕ :=
  if P.littleEndian then (question 1).toNat * 256 + (question 0).toNat
  else (question 0).toNat * 256 + (question 1).toNat

/-- The DNS_Header that init_context assigns, its id field left zero. -/
def initialHeader : List UInt8 :=
  [0, 0] ++ putHtons queryFlags ++ putHtons 1 ++ putHtons 0 ++ putHtons 0 ++ putHtons 0

/-- The question buffer after init_context; the compound literal clears the rest. -/
def initialQuestion : Memory := applyStores (fun _ => 0) (storesAt 0 initialHeader)

def initContext (now : ℕ) (fuzz : Bool) : Context where
  question := initialQuestion
  lastStatusUpdate := now
  startupDate := now
  pps := 0
  receivedPackets := 0
  sentPackets := 0
  datagramStart := fun _ => 0
  failedPackets := 0
  timeout := 0
  rate := 0
  id := 0
  fuzz := fuzz
  sending := true

def sizeofHeader : ℕ := 12

/-- `sizeof question` for a pointer, not for the array it points to. -/
def sizeofQuestion : ℕ := 8

def questionRoom : ℕ := wrapSub 64 (wrapSub 64 sizeofQuestion sizeofHeader) 2

/-- The stores blast makes for one query and the resulting packet_size. The value
returned by encode_name is not looked at. -/
def queryStores (P : Platform) (id : ℕ) (name : List UInt8) (type : ℕ) : List Store × ℕ :=
  let r := encodeName sizeofHeader questionRoom name
  let msg := r.encodedPtr
  (storesAt 0 (hostU16 P id) ++ r.stores ++ storesAt msg (putHtons type ++ putHtons classIN),
    msg + 4)

def fuzzStore (P : Platform) (ρ : ℕ → ℕ) (packetSize : ℕ) : StateM ℕ Store := do
  let first ← rand ρ
  let second ← rand ρ
  if P.indexFirst then return (first % packetSize, UInt8.ofNat (second % 0xff))
  else return (second % packetSize, UInt8.ofNat (first % 0xff))

def fuzzLoop (P : Platform) (ρ : ℕ → ℕ) (packetSize p : ℕ) : StateM ℕ (List Store) := do
  let store ← fuzzStore P ρ packetSize
  let r ← rand ρ
  if _h : r < p ∧ 0 < p / 2 then
    let rest ← fuzzLoop P ρ packetSize (p / 2)
    return store :: rest
  else return [store]
termination_by p
decreasing_by omega

/-- The stores fuzz makes into a packet of `packetSize` bytes, oldest first. -/
def fuzz (P : Platform) (ρ : ℕ → ℕ) (packetSize : ℕ) : StateM ℕ (List Store) :=
  fuzzLoop P ρ packetSize (refuzzProbability P)

@[simp] theorem putHtons_length (val : ℕ) : (putHtons val).length = 2 := rfl

@[simp] theorem hostU16_length (P : Platform) (val : ℕ) : (hostU16 P val).length = 2 := by
  unfold hostU16
  split_ifs <;> rfl

theorem questionRoom_eq : questionRoom = 2 ^ 64 - 6 := by decide

theorem toNat_putHtons {val : ℕ} (h : val < 2 ^ 16) :
    (UInt8.ofNat (val >>> 8)).toNat * 256 + (UInt8.ofNat (val &&& 0xff)).toNat = val := by
  have hand : val &&& 0xff = val % 2 ^ 8 := Nat.and_two_pow_sub_one_eq_mod val 8
  rw [hand, Nat.shiftRight_eq_div_pow, UInt8.toNat_ofNat', UInt8.toNat_ofNat']
  omega

/-- Two memories that agree where nothing is stored agree after the stores. -/
theorem applyStores_congr {m m' : Memory} {ws : List Store} {a : ℕ}
    (h : m a = m' a ∨ ∃ w ∈ ws, w.1 = a) : applyStores m ws a = applyStores m' ws a := by
  induction ws generalizing m m' with
  | nil => simpa using h
  | cons w ws ih =>
    rw [applyStores_cons, applyStores_cons]
    apply ih
    by_cases hw : w.1 = a
    · left
      simp [← hw]
    · rcases h with h | ⟨v, hv, hva⟩
      · left
        rw [Function.update_of_ne (Ne.symm hw), Function.update_of_ne (Ne.symm hw), h]
      · right
        rcases List.mem_cons.mp hv with rfl | hv
        · exact (hw hva).elim
        · exact ⟨v, hv, hva⟩

/-- The encoder stores consecutively from its start, and up to its pointer on success. -/
theorem encodeName_stores (p n : ℕ) (name : List UInt8) :
    ∃ bs, (encodeName p n name).stores = storesAt p bs ∧
      ((encodeName p n name).encodedPtr = p ∨
        (encodeName p n name).encodedPtr = p + bs.length) := by
  refine ⟨_, by rw [encodeName_eq]; rfl, ?_⟩
  rw [encodeName_eq]
  simp only [resultOf]
  split_ifs
  · exact Or.inr rfl
  · exact Or.inl rfl

theorem queryStores_size (P : Platform) (id : ℕ) (name : List UInt8) (type : ℕ) :
    16 ≤ (queryStores P id name type).2 := by
  obtain ⟨bs, -, hp⟩ := encodeName_stores sizeofHeader questionRoom name
  have hh : sizeofHeader = 12 := rfl
  simp only [queryStores]
  omega

/-- blast leaves flags and counts alone. -/
theorem queryStores_avoid_header {P : Platform} {id type : ℕ} {name : List UInt8} {w : Store}
    (h : w ∈ (queryStores P id name type).1) : w.1 < 2 ∨ sizeofHeader ≤ w.1 := by
  obtain ⟨bs, hs, hp⟩ := encodeName_stores sizeofHeader questionRoom name
  simp only [queryStores, List.mem_append] at h
  rcases h with (h | h) | h
  · have := mem_storesAt_bounds h
    simp at this
    omega
  · rw [hs] at h
    have := mem_storesAt_bounds h
    omega
  · have := mem_storesAt_bounds h
    omega

/-- Every other byte of the packet is written. -/
theorem queryStores_cover {P : Platform} {id type a : ℕ} {name : List UInt8}
    (ha : a < (queryStores P id name type).2) (hh : a < 2 ∨ sizeofHeader ≤ a) :
    ∃ w ∈ (queryStores P id name type).1, w.1 = a := by
  obtain ⟨bs, hs, hp⟩ := encodeName_stores sizeofHeader questionRoom name
  have hsize : a < (encodeName sizeofHeader questionRoom name).encodedPtr + 4 := ha
  simp only [queryStores, List.mem_append]
  rcases hh with hh | hh
  · obtain ⟨b, hb⟩ := exists_mem_storesAt (p := 0) (Nat.zero_le a)
      (show a < 0 + (hostU16 P id).length by simpa using hh)
    exact ⟨_, Or.inl (Or.inl hb), rfl⟩
  · by_cases hm : a < (encodeName sizeofHeader questionRoom name).encodedPtr
    · have hb : (encodeName sizeofHeader questionRoom name).encodedPtr =
          sizeofHeader + bs.length := by omega
      obtain ⟨b, hb⟩ := exists_mem_storesAt hh (show a < sizeofHeader + bs.length by omega)
      exact ⟨_, Or.inl (Or.inr (hs ▸ hb)), rfl⟩
    · obtain ⟨b, hb⟩ := exists_mem_storesAt (p := _) (by omega) (show a <
        (encodeName sizeofHeader questionRoom name).encodedPtr +
          (putHtons type ++ putHtons classIN).length by simpa using hsize)
      exact ⟨_, Or.inr hb, rfl⟩

/-- With a name that fits, the packet is the header, the encoded name, type and class. -/
theorem query_bytes {P : Platform} {id type : ℕ} {name : List UInt8} (m : Memory)
    (h : encodeName sizeofHeader questionRoom name = ⟨0, storesAt sizeofHeader
      (wireName (labels name)), sizeofHeader + wireLength (labels name)⟩) :
    readBytes (applyStores m (queryStores P id name type).1) 0 (queryStores P id name type).2 =
      hostU16 P id ++ (readBytes m 2 10 ++
        (wireName (labels name) ++ (putHtons type ++ putHtons classIN))) := by
  let body := wireName (labels name) ++ (putHtons type ++ putHtons classIN)
  have hlen : body.length = wireLength (labels name) + 4 := by simp [body, wireName_length]
  have hstores : (queryStores P id name type).1 =
      storesAt 0 (hostU16 P id) ++ storesAt sizeofHeader body := by
    simp only [queryStores, h, body, List.append_assoc]
    rw [storesAt_append sizeofHeader, wireName_length]
  have hsize : (queryStores P id name type).2 = 2 + (10 + body.length) := by
    simp only [queryStores, h, hlen]
    simp only [sizeofHeader]
    omega
  have hhead : ∀ w ∈ storesAt sizeofHeader body, 12 ≤ w.1 :=
    fun w hw => (mem_storesAt_bounds hw).1
  rw [hstores, hsize, readBytes_add, readBytes_add, applyStores_append]
  congr 1
  · have := readBytes_storesAt m 0 (hostU16 P id)
    rw [hostU16_length] at this
    rw [readBytes_frame fun w hw => Or.inr (by have := hhead w hw; omega), this]
  · congr 1
    · rw [readBytes_frame fun w hw => Or.inr (by have := hhead w hw; omega), readBytes_frame]
      intro w hw
      have := mem_storesAt_bounds hw
      rw [hostU16_length] at this
      omega
    · exact readBytes_storesAt _ sizeofHeader body

theorem readBytes_initialHeader :
    readBytes initialQuestion 2 10 = [1, 0, 0, 1, 0, 0, 0, 0, 0, 0] := by decide

/-- With untouched flags and counts the packet is a well-formed query. -/
theorem query_wellFormed {P : Platform} {id type : ℕ} {name : List UInt8} {m : Memory}
    (hm : readBytes m 2 10 = readBytes initialQuestion 2 10) (hq : ProperQuestion name type) :
    WellFormedQuery queryTypes classIN
      (readBytes (applyStores m (queryStores P id name type).1) 0
        (queryStores P id name type).2) := by
  have hshort := hq.short
  have hempty : (labels name).count [] = 0 := by
    rw [List.count_eq_zero]
    intro hmem
    exact absurd (hq.proper [] hmem).1 (by decide)
  have hfits := @encodeName_fits sizeofHeader questionRoom name
    (fun l hl => (hq.proper l hl).2.trans (by decide))
    (by rw [questionRoom_eq]; omega) (by rw [questionRoom_eq, hempty]; omega)
  have htype : type < 2 ^ 16 := by
    have := hq.listed
    simp only [queryTypes, List.mem_cons, List.not_mem_nil, or_false] at this
    rcases this with h | h | h | h | h | h <;> rw [h] <;> decide
  obtain ⟨i₁, i₀, hid⟩ := List.length_eq_two.mp (hostU16_length P id)
  rw [query_bytes m hfits, hm, readBytes_initialHeader, hid]
  refine ⟨⟨i₁.toNat * 256 + i₀.toNat, 0x0100, 1, 0, 0, 0⟩, ⟨labels name, type, classIN⟩, ?_,
    rfl, rfl, rfl, rfl, rfl, hq.listed, rfl⟩
  have hquestion := readQuestion_wireName hq.proper (UInt8.ofNat (type >>> 8))
    (UInt8.ofNat (type &&& 0xff)) (UInt8.ofNat (classIN >>> 8)) (UInt8.ofNat (classIN &&& 0xff)) []
  rw [toNat_putHtons htype, toNat_putHtons (by decide)] at hquestion
  simp only [putHtons, List.cons_append, List.nil_append, readMessage, readHeader, readU16,
    Option.bind_eq_bind, Option.bind_some, Option.pure_def, hquestion]
  rfl

theorem fuzzStore_run (P : Platform) (ρ : ℕ → ℕ) {size : ℕ} (hs : 0 < size) (n : ℕ) :
    ∃ w : Store, (fuzzStore P ρ size).run n = (w, n + 2) ∧ w.1 < size := by
  rw [fuzzStore, draw_bind_run, draw_bind_run]
  split_ifs
  · exact ⟨_, rfl, Nat.mod_lt _ hs⟩
  · exact ⟨_, rfl, Nat.mod_lt _ hs⟩

theorem fuzzLoop_run (P : Platform) (ρ : ℕ → ℕ) (size p n : ℕ) :
    (fuzzLoop P ρ size p).run n =
      let store := (fuzzStore P ρ size).run n
      if ρ store.2 < p ∧ 0 < p / 2 then
        let rest := (fuzzLoop P ρ size (p / 2)).run (store.2 + 1)
        (store.1 :: rest.1, rest.2)
      else ([store.1], store.2 + 1) := by
  rw [fuzzLoop, draw_bind_run, draw_bind_run, rand_run]
  by_cases hp : ρ ((fuzzStore P ρ size).run n).2 < p ∧ 0 < p / 2
  · simp only [dif_pos hp, if_pos hp]
    rfl
  · simp only [dif_neg hp, if_neg hp]
    rfl

theorem fuzzLoop_bounds (P : Platform) (ρ : ℕ → ℕ) {size : ℕ} (hs : 0 < size) (p n : ℕ) :
    ∀ w ∈ ((fuzzLoop P ρ size p).run n).1, w.1 < size := by
  induction p using Nat.strong_induction_on generalizing n with
  | _ p ih =>
    obtain ⟨v, hv, hlt⟩ := fuzzStore_run P ρ hs n
    intro w hw
    rw [fuzzLoop_run, hv] at hw
    dsimp only at hw
    split_ifs at hw with hp
    · rcases List.mem_cons.mp hw with rfl | hw
      · exact hlt
      · exact ih (p / 2) (by omega) _ w hw
    · rw [List.mem_singleton.mp hw]
      exact hlt

end BlastQuery
