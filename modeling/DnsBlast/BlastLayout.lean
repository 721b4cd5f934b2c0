import DnsBlast.BlastActivity
import DnsBlast.BlastLatency

/-! The process with Context as C lays it out. What lies behind datagram_start is reached
through it: failed_packets, timeout and rate, then a word that sock, id, fuzz and sending
share. blast stores its clock reading there from its call 65508 on, and receive reads there
for the ids that a reply may carry. Nothing is said of a store behind Context itself. -/
namespace BlastLayout

open WrappingIntegers LabelledRuns BlastHeader BlastQuery BlastSyscalls BlastReceive BlastTraffic
  BlastTable BlastActivity BlastLatency
open BlastMain (State MainPos ask tableIndex buildPacket storeStart drainLoop next_cases)

/-- The process with context.sock, as its 32 bits, and main's own copy of the option. -/
structure Process where
  state : State
  sock : ℕ
  timeout : ℕ

/-- The field of `size` bytes at byte `offset` of a 64-bit word in memory. -/
def wordField (P : Platform) (word offset size : ℕ) : ℕ :=
  word / 2 ^ (8 * if P.littleEndian then offset else 8 - offset - size) % 2 ^ (8 * size)

def sharedWord (P : Platform) (sock : ℕ) (c : Context) : ℕ :=
  if P.littleEndian then
    sock + c.id * 2 ^ 32 + c.fuzz.toNat * 2 ^ 48 + c.sending.toNat * 2 ^ 56
  else sock * 2 ^ 32 + c.id * 2 ^ 16 + c.fuzz.toNat * 2 ^ 8 + c.sending.toNat

/-- The store `context->datagram_start[i] = now`. A byte above 1 in a _Bool, which the clock
does not have before the year 10889, counts as true. -/
def storeSlot (P : Platform) (i now : ℕ) (c : Context) : Context :=
  match contextSlot i with
  | .datagramStart => storeStart i now c
  | .failedPackets => { c with failedPackets := now }
  | .timeout => { c with timeout := now }
  | .rate => { c with rate := now }
  | .sockIdFuzzSending => { c with
      id := wordField P now 4 2
      fuzz := wordField P now 6 1 ≠ 0
      sending := wordField P now 7 1 ≠ 0 }
  | .pastTheEnd => c

/-- The value of `context->datagram_start[i]`. Behind Context it may be any; receive only
prints it. -/
def slotValue (P : Platform) (sock : ℕ) (c : Context) (i : ℕ) : ℕ :=
  match contextSlot i with
  | .datagramStart => c.datagramStart i
  | .failedPackets => c.failedPackets
  | .timeout => c.timeout
  | .rate => c.rate
  | .sockIdFuzzSending => sharedWord P sock c
  | .pastTheEnd => c.datagramStart i

def withStarts (starts : ℕ → ℕ) (s : State) : State :=
  ({ s.1 with context := { s.1.context with datagramStart := starts } }, s.2)

def next (P : Platform) (ρ : ℕ → ℕ) (verbose : Bool) (s : Process) (e : Event) :
    Option Process :=
  match s.state, e with
  | (w, .wait .send), ⟨now, .clock⟩ =>
    let r := (ask P ρ w.name w.type).run w.draws
    let w := { w with name := r.1.1, type := r.1.2, draws := r.2 }
    let i := tableIndex P w
    let b := buildPacket P ρ (storeSlot P i now) w
    if contextSlot i = .pastTheEnd then none
    else some { s with
      state := ({ b.1 with time := now }, .wait (.sendto b.2))
      sock := if contextSlot i = .sockIdFuzzSending then wordField P now 0 4 else s.sock }
  | (w, .wait (.drainTest start)), ⟨now, .clock⟩ =>
    some { s with state := ({ w with time := now },
      if wrapSub 64 now start > s.timeout then .wait .finalStatus else drainLoop start w) }
  | (w, c), ⟨time, .received d stale⟩ =>
    (BlastMain.next P ρ verbose (withStarts (slotValue P s.sock w.context) (w, c))
      ⟨time, .received d stale⟩).map fun t =>
        { s with state := withStarts w.context.datagramStart t }
  | u, e => (BlastMain.next P ρ verbose u e).map fun t => { s with state := t }

def start (o : Options) (sock now : ℕ) : Process := ⟨BlastMain.start o now, sock, o.timeout⟩

/-- `t` is `s` with table entries overwritten, and of the fields behind the table rate and
those that `slots` admits. -/
structure Overwrites (slots : ContextSlot → Prop) (s t : State) : Prop where
  fields : ∃ datagramStart failedPackets timeout rate, t = ({ s.1 with
    context := { s.1.context with datagramStart, failedPackets, timeout, rate } }, s.2)
  failedPackets : t.1.context.failedPackets = s.1.context.failedPackets ∨ slots .failedPackets
  timeout : t.1.context.timeout = s.1.context.timeout ∨ slots .timeout

section Steps
variable {P : Platform} {ρ : ℕ → ℕ} {verbose : Bool} {slots : ContextSlot → Prop}

theorem Overwrites.refl (s : State) : Overwrites slots s s :=
  ⟨⟨_, _, _, _, rfl⟩, .inl rfl, .inl rfl⟩

theorem overwrites_withStarts (starts : ℕ → ℕ) (s : State) :
    Overwrites slots s (withStarts starts s) :=
  ⟨⟨_, _, _, _, rfl⟩, .inl rfl, .inl rfl⟩

theorem storeSlot_cases {i : ℕ} (now : ℕ) (hi : i < maxUdpDataSize + 3) :
    storeSlot P i now = storeStart i now ∨
    (contextSlot i = .failedPackets ∧
      storeSlot P i now = fun c => { c with failedPackets := now }) ∨
    (contextSlot i = .timeout ∧ storeSlot P i now = fun c => { c with timeout := now }) ∨
    storeSlot P i now = fun c => { c with rate := now } := by
  have hall : contextSlot i = .datagramStart ∨ contextSlot i = .failedPackets ∨
      contextSlot i = .timeout ∨ contextSlot i = .rate := by
    unfold contextSlot
    split_ifs <;> first | omega | simp
  rcases hall with h | h | h | h
  · exact Or.inl (funext fun c => by rw [storeSlot, h])
  · exact Or.inr (Or.inl ⟨h, funext fun c => by rw [storeSlot, h]⟩)
  · exact Or.inr (Or.inr (Or.inl ⟨h, funext fun c => by rw [storeSlot, h]⟩))
  · exact Or.inr (Or.inr (Or.inr (funext fun c => by rw [storeSlot, h])))

/-- Before its index reaches the shared word, blast does to the layout what it does to a
table of its own, but for one slot. -/
theorem buildPacket_overwrites {w : World} {i : ℕ} (now : ℕ) (hi : i < maxUdpDataSize + 3)
    (hslot : slots (contextSlot i)) :
    let a := buildPacket P ρ (storeStart i now) w
    let b := buildPacket P ρ (storeSlot P i now) w
    b.2 = a.2 ∧ ∀ time c,
      Overwrites slots ({ a.1 with time := time }, c) ({ b.1 with time := time }, c) := by
  rcases storeSlot_cases now hi with h | ⟨hi, h⟩ | ⟨hi, h⟩ | h
  · rw [h]
    exact ⟨rfl, fun _ _ => .refl _⟩
  · rw [h]
    simp only [buildPacket, storeStart]
    split_ifs
    · exact ⟨rfl, fun _ _ => ⟨⟨_, _, _, _, rfl⟩, .inr (hi ▸ hslot), .inl rfl⟩⟩
    · exact ⟨rfl, fun _ _ => ⟨⟨_, _, _, _, rfl⟩, .inr (hi ▸ hslot), .inl rfl⟩⟩
  · rw [h]
    simp only [buildPacket, storeStart]
    split_ifs
    · exact ⟨rfl, fun _ _ => ⟨⟨_, _, _, _, rfl⟩, .inl rfl, .inr (hi ▸ hslot)⟩⟩
    · exact ⟨rfl, fun _ _ => ⟨⟨_, _, _, _, rfl⟩, .inl rfl, .inr (hi ▸ hslot)⟩⟩
  · rw [h]
    simp only [buildPacket, storeStart]
    split_ifs
    · exact ⟨rfl, fun _ _ => ⟨⟨_, _, _, _, rfl⟩, .inl rfl, .inl rfl⟩⟩
    · exact ⟨rfl, fun _ _ => ⟨⟨_, _, _, _, rfl⟩, .inl rfl, .inl rfl⟩⟩

/-- A call of blast, whose index is the number of calls before it. -/
theorem next_clock {s : Process} (now : ℕ) (hpos : s.state.2 = .wait .send)
    (hid : s.state.1.context.id = s.state.1.calls.length)
    (hlt : s.state.1.calls.length ≤ maxUdpDataSize + 3) : ∃ asked : World,
    (∃ name type draws, asked = { s.state.1 with name, type, draws }) ∧
    (let own := buildPacket P ρ (storeStart s.state.1.calls.length now) asked
    BlastMain.next P ρ verbose s.state ⟨now, .clock⟩ =
      some ({ own.1 with time := now }, .wait (.sendto own.2))) ∧
    let laid := buildPacket P ρ (storeSlot P s.state.1.calls.length now) asked
    next P ρ verbose s ⟨now, .clock⟩ = some { s with
      state := ({ laid.1 with time := now }, .wait (.sendto laid.2))
      sock := if contextSlot s.state.1.calls.length = .sockIdFuzzSending
        then wordField P now 0 4 else s.sock } := by
  obtain ⟨⟨w, c⟩, sock, timeout⟩ := s
  cases hpos
  let r := (ask P ρ w.name w.type).run w.draws
  let asked : World := { w with name := r.1.1, type := r.1.2, draws := r.2 }
  have hsmall : asked.context.id < 2 ^ 16 := hid ▸ hlt.trans_lt (by decide)
  have hindex : tableIndex P asked = w.calls.length := (tableIndex_eq P hsmall).trans hid
  have hend : ¬ contextSlot w.calls.length = .pastTheEnd := by
    have hle : w.calls.length ≤ maxUdpDataSize + 3 := hlt
    unfold contextSlot
    split_ifs <;> first | omega | simp
  refine ⟨asked, ⟨_, _, _, rfl⟩, ?_, ?_⟩
  · rw [← hindex]
    rfl
  · have hstep : next P ρ verbose ⟨(w, .wait .send), sock, timeout⟩ ⟨now, .clock⟩ =
        let laid := buildPacket P ρ (storeSlot P (tableIndex P asked) now) asked
        if contextSlot (tableIndex P asked) = .pastTheEnd then none
        else some ⟨({ laid.1 with time := now }, .wait (.sendto laid.2)),
          if contextSlot (tableIndex P asked) = .sockIdFuzzSending then wordField P now 0 4
          else sock, timeout⟩ := rfl
    rw [hstep, hindex]
    exact if_neg hend

/-- A call of blast before the one whose index is that of the shared word. -/
theorem next_send {s t : Process} {e : Event} (hpos : s.state.2 = .wait .send)
    (hid : s.state.1.context.id = s.state.1.calls.length)
    (hlt : s.state.1.calls.length < maxUdpDataSize + 3)
    (hslot : slots (contextSlot s.state.1.calls.length)) (h : next P ρ verbose s e = some t) :
    ∃ v, BlastMain.next P ρ verbose s.state e = some v ∧ Overwrites slots v t.state ∧
      t.timeout = s.timeout := by
  obtain ⟨now, answer⟩ := e
  cases answer with
  | clock =>
    obtain ⟨asked, -, hown, hlaid⟩ := @next_clock P ρ verbose s now hpos hid hlt.le
    obtain ⟨hsize, hover⟩ := buildPacket_overwrites (P := P) (ρ := ρ) (w := asked) now hlt hslot
    rw [hlaid] at h
    obtain rfl := Option.some.inj h
    refine ⟨_, hown, ?_, rfl⟩
    rw [hsize]
    exact hover now _
  | _ =>
    obtain ⟨⟨w, c⟩, sock, timeout⟩ := s
    cases hpos
    cases h

/-- Every other step is one of the process with a table of its own, between states that
differ in the table and perhaps in the option. -/
theorem next_away {s t : Process} {e : Event} (hpos : s.state.2 ≠ .wait .send)
    (htimeout : s.timeout = s.state.1.context.timeout ∨ slots .timeout)
    (h : next P ρ verbose s e = some t) :
    ∃ u v, Overwrites slots s.state u ∧ BlastMain.next P ρ verbose u e = some v ∧
      Overwrites slots v t.state ∧ t.timeout = s.timeout := by
  unfold next at h
  split at h
  · rename_i hs
    rw [hs] at hpos
    exact absurd rfl hpos
  · rename_i w first now hs
    cases h
    rw [hs] at htimeout ⊢
    refine ⟨({ w with context := { w.context with timeout := s.timeout } }, _), _,
      ⟨⟨_, _, _, _, rfl⟩, .inl rfl, htimeout⟩, rfl, ⟨⟨_, _, _, _, rfl⟩, .inl rfl, ?_⟩, rfl⟩
    exact htimeout.imp_left Eq.symm
  · rename_i w c time d stale hs
    obtain ⟨v, hv, rfl⟩ := Option.map_eq_some_iff.mp h
    rw [hs]
    exact ⟨_, v, overwrites_withStarts _ _, hv, overwrites_withStarts _ _, rfl⟩
  · obtain ⟨v, hv, rfl⟩ := Option.map_eq_some_iff.mp h
    exact ⟨_, v, .refl _, hv, .refl _, rfl⟩

theorem Overwrites.kept {s t : State} (h : Overwrites slots s t) :
    t.1.context.id = s.1.context.id ∧ t.1.calls = s.1.calls ∧ t.2 = s.2 := by
  obtain ⟨⟨_, _, _, _, rfl⟩, -, -⟩ := h
  exact ⟨rfl, rfl, rfl⟩

theorem Overwrites.option {s t : State} {timeout : ℕ} (h : Overwrites slots s t)
    (hs : s.1.context.timeout = timeout ∨ slots .timeout) :
    t.1.context.timeout = timeout ∨ slots .timeout := by
  rcases h.timeout with hsame | hslot
  · exact hsame ▸ hs
  · exact Or.inr hslot

structure Aligned (slots : ContextSlot → Prop) (timeout : ℕ) (s : Process) : Prop where
  id : s.state.1.context.id = s.state.1.calls.length
  option : s.timeout = timeout
  kept : s.state.1.context.timeout = timeout ∨ slots .timeout

theorem next_numbered {s t : State} {e : Event} (h : BlastMain.next P ρ verbose s e = some t) :
    s.2 = .wait .send ∧ t.1.context.id = (s.1.context.id + 1) % 2 ^ 16 ∧
      t.1.calls.length = s.1.calls.length + 1 ∨
    s.2 ≠ .wait .send ∧ t.1.context.id = s.1.context.id ∧ t.1.calls = s.1.calls := by
  obtain ⟨w, c⟩ := s
  obtain ⟨u, d⟩ := t
  obtain ⟨p, v, hp, hstep, ht⟩ := next_cases h
  cases hp
  cases ht
  rcases step_table hstep with ⟨htime, -, hid, hcalls⟩ | ⟨htime, -, hid, hcalls⟩
  · exact Or.inl ⟨(sendTime_send htime).1, hid, hcalls⟩
  · refine Or.inr ⟨?_, hid, hcalls⟩
    intro hsend
    cases hsend
    cases hstep with
    | send hr hb => cases htime

theorem next_option {s t : State} {e : Event} (h : BlastMain.next P ρ verbose s e = some t) :
    t.1.context.timeout = s.1.context.timeout := by
  obtain ⟨p, v, hp, hstep, ht⟩ := next_cases h
  rw [ht]
  exact (step_settings hstep).2.2

/-- The calls of blast only grow in number, and by one with each of them. -/
theorem next_calls {s t : Process} {e : Event} (h : next P ρ verbose s e = some t) :
    s.state.2 = .wait .send ∧ t.state.1.calls.length = s.state.1.calls.length + 1 ∨
    s.state.2 ≠ .wait .send ∧ t.state.1.calls.length = s.state.1.calls.length := by
  by_cases hpos : s.state.2 = .wait .send
  · left
    refine ⟨hpos, ?_⟩
    obtain ⟨⟨w, c⟩, sock, timeout⟩ := s
    obtain ⟨now, answer⟩ := e
    cases hpos
    cases answer with
    | clock =>
      simp only [next] at h
      split_ifs at h
      all_goals
        cases h
        exact (BlastMain.buildPacket_keeps _ _ _ _).1
    | _ => cases h
  · right
    refine ⟨hpos, ?_⟩
    obtain ⟨u, v, hu, hv, ht, -⟩ :=
      @next_away P ρ verbose (fun _ => True) s t e hpos (.inr trivial) h
    rcases next_numbered hv with ⟨hsend, -⟩ | ⟨-, -, hcalls⟩
    · exact absurd (hu.kept.2.2.symm.trans hsend) hpos
    · rw [ht.kept.2.1, hcalls, hu.kept.2.1]

end Steps

/-- What holds of the process with a table of its own, and of its states with anything that
`slots` admits overwritten, holds of the laid out one as long as blast is called at most `n`
times, its indices below `n` being admitted. -/
theorem execution_invariant {P : Platform} {ρ : ℕ → ℕ} {slots : ContextSlot → Prop}
    {I : State → Prop} {ok : State → Event → Prop} {o : Options} {sock now n : ℕ}
    (hn : n ≤ maxUdpDataSize + 3) (hslots : ∀ i < n, slots (contextSlot i))
    (hstart : I (BlastMain.start o now))
    (hover : ∀ {s t}, Overwrites slots s t → I s → I t)
    (hok : ∀ {s t e}, Overwrites slots s t → ok s e → ok t e)
    (hstep : ∀ {s e t}, I s → ok s e → BlastMain.next P ρ o.verbose s e = some t → I t)
    {es : List Event} {s : Process}
    (h : Execution (next P ρ o.verbose) (fun s e => ok s.state e) (start o sock now) es s)
    (hcalls : s.state.1.calls.length ≤ n) : I s.state ∧ Aligned slots o.timeout s := by
  have hmax : maxUdpDataSize = 65507 := rfl
  induction h with
  | refl => exact ⟨hstart, rfl, rfl, .inl rfl⟩
  | @tail s t es e h he ht ih =>
    rcases next_calls ht with ⟨hpos, hmore⟩ | ⟨hpos, hsame⟩
    · obtain ⟨hs, ha⟩ := ih (by omega)
      have hid := ha.id
      obtain ⟨v, hv, hafter, htimeout⟩ := next_send hpos hid (by omega) (hslots _ (by omega)) ht
      refine ⟨hover hafter (hstep hs he hv), ?_, htimeout.trans ha.option,
        hafter.option (next_option hv ▸ ha.kept)⟩
      rcases next_numbered hv with ⟨-, hnext, hcount⟩ | ⟨haway, -⟩
      · rw [hafter.kept.1, hafter.kept.2.1, hnext, hcount, hid]
        exact Nat.mod_eq_of_lt (by omega)
      · exact absurd hpos haway
    · obtain ⟨hs, ha⟩ := ih (by omega)
      have hoption : s.timeout = s.state.1.context.timeout ∨ slots .timeout :=
        ha.kept.imp_left fun hkept => ha.option.trans hkept.symm
      obtain ⟨u, v, hbefore, hv, hafter, htimeout⟩ := next_away hpos hoption ht
      have hu := hstep (hover hbefore hs) (hok hbefore he) hv
      refine ⟨hover hafter hu, ?_, htimeout.trans ha.option,
        hafter.option (next_option hv ▸ hbefore.option ha.kept)⟩
      rcases next_numbered hv with ⟨hsend, -⟩ | ⟨-, hid, hcalls'⟩
      · exact absurd (hbefore.kept.2.2.symm.trans hsend) hpos
      · rw [hafter.kept.1, hafter.kept.2.1, hid, hcalls', hbefore.kept.1, hbefore.kept.2.1]
        exact ha.id

structure Inside (s : Process) (e : Event) : Prop where
  send : s.state.2 = .wait .send → s.state.1.context.id < maxUdpDataSize
  test : ∀ first, s.state.2 = .wait (.drainTest first) → s.timeout = s.state.1.context.timeout
  answer : ∀ d, socket.arrival s.state e = some d →
    2 ≤ d.bytes.length ∧ answerId d < maxUdpDataSize

structure OffTable (s : State) (e : Event) : Prop where
  send : s.2 ≠ .wait .send
  test : ∀ first, s.2 ≠ .wait (.drainTest first)
  answer : socket.arrival s e = none

theorem OffTable.inside {s : State} {e : Event} (h : OffTable s e) (sock timeout : ℕ) :
    Inside ⟨s, sock, timeout⟩ e := by
  refine ⟨fun hsend => absurd hsend h.send, fun first htest => absurd htest (h.test first), ?_⟩
  intro d hd
  rw [h.answer] at hd
  cases hd

section Within
variable {P : Platform} {ρ : ℕ → ℕ} {verbose : Bool}

/-- A datagram is received alike from two tables that agree on its id. -/
theorem next_received {starts : ℕ → ℕ} {w : World} {c : Outcome MainPos ℕ} {d : Datagram}
    (hd : waitsForRecv (w, c) = true → 2 ≤ d.bytes.length ∧
      starts (answerId d) = w.context.datagramStart (answerId d))
    (time : ℕ) (stale : ByteStores.Memory) :
    (BlastMain.next P ρ verbose (withStarts starts (w, c)) ⟨time, .received d stale⟩).map
      (withStarts w.context.datagramStart) =
    BlastMain.next P ρ verbose (w, c) ⟨time, .received d stale⟩ := by
  -- of all positions only those in recv take a datagram
  rcases c with p | r | k
  · rcases p with _ | _ | ⟨before, q⟩ | _ | _ | ⟨first, q⟩ | _ | _
    case throttle | drain =>
      rcases q with _ | ⟨⟨_ | _⟩ | ⟨_ | _⟩, _, _⟩ | _ | ⟨_ | _⟩ | ⟨⟨_ | _⟩ | ⟨_ | _⟩, _, _⟩ | _
      all_goals first
        | rfl
        | obtain ⟨hlong, hsame⟩ := hd rfl
          rw [← @buffer_id d stale hlong] at hsame
          simp only [BlastMain.next, BlastMain.main, throttledReceive, emptyReceiveQueue, receive,
            withStarts, call, Option.map_some, hsame]
    all_goals rfl
  · rfl
  · rfl

theorem next_inside {s : Process} {e : Event} (h : Inside s e) :
    next P ρ verbose s e =
      (BlastMain.next P ρ verbose s.state e).map fun t => { s with state := t } := by
  obtain ⟨u, sock, timeout⟩ := s
  unfold next
  split
  · rename_i w now hs
    obtain rfl : u = (w, .wait .send) := hs
    have hsmall : w.context.id < maxUdpDataSize := h.send rfl
    let r := (ask P ρ w.name w.type).run w.draws
    let asked : World := { w with name := r.1.1, type := r.1.2, draws := r.2 }
    have hindex : tableIndex P asked = w.context.id :=
      tableIndex_eq P (hsmall.trans (by decide))
    have hslot : contextSlot (tableIndex P asked) = .datagramStart := by
      rw [hindex]
      exact if_pos hsmall
    have hstore : storeSlot P (tableIndex P asked) now = storeStart (tableIndex P asked) now := by
      funext c
      rw [storeSlot, hslot]
    have hend : ¬ contextSlot (tableIndex P asked) = .pastTheEnd := by simp [hslot]
    have hshared : ¬ contextSlot (tableIndex P asked) = .sockIdFuzzSending := by simp [hslot]
    simp only [asked, r] at hstore hend hshared
    simp only [if_neg hend, if_neg hshared, hstore]
    rfl
  · rename_i w first now hs
    obtain rfl : u = (w, .wait (.drainTest first)) := hs
    obtain rfl : timeout = w.context.timeout := h.test first rfl
    rfl
  · rename_i w c time d stale hs
    obtain rfl : u = (w, c) := hs
    have hd : waitsForRecv (w, c) = true → 2 ≤ d.bytes.length ∧
        slotValue P sock w.context (answerId d) = w.context.datagramStart (answerId d) := by
      intro hwaits
      obtain ⟨hlong, hlt⟩ := h.answer d (if_pos hwaits)
      exact ⟨hlong, by rw [slotValue, contextSlot, if_pos hlt]⟩
    rw [← next_received hd time stale, Option.map_map]
    rfl
  · rfl

theorem execution_lift {sock timeout : ℕ} {ok : State → Event → Prop} {es : List Event}
    {s t : State}
    (h : Execution (BlastMain.next P ρ verbose)
      (fun s e => ok s e ∧ Inside ⟨s, sock, timeout⟩ e) s es t) :
    Execution (next P ρ verbose) (fun s e => ok s.state e) ⟨s, sock, timeout⟩ es
      ⟨t, sock, timeout⟩ := by
  induction h with
  | refl => exact .refl _
  | tail _ he hn ih => exact ih.tail he.1 (by rw [next_inside he.2, hn]; rfl)

/-- A run off the table leaves the numbering, the option and the replies alone, and is one of
the layout too. -/
theorem execution_offTable {ok : State → Event → Prop} {es : List Event} {s t : State}
    (h : Execution (BlastMain.next P ρ verbose) (fun s e => ok s e ∧ OffTable s e) s es t) :
    (t.1.context.id = s.1.context.id ∧ t.1.calls = s.1.calls ∧
      t.1.context.timeout = s.1.context.timeout ∧ t.1.delivered = s.1.delivered) ∧
    ∀ sock timeout, Execution (next P ρ verbose) (fun s e => ok s.state e) ⟨s, sock, timeout⟩ es
      ⟨t, sock, timeout⟩ := by
  refine ⟨?_, fun sock timeout =>
    execution_lift (h.weaken fun s e he => ⟨he.1, he.2.inside sock timeout⟩)⟩
  apply h.invariant (I := fun u => u.1.context.id = s.1.context.id ∧ u.1.calls = s.1.calls ∧
    u.1.context.timeout = s.1.context.timeout ∧ u.1.delivered = s.1.delivered)
    ⟨rfl, rfl, rfl, rfl⟩
  rintro u e v ⟨hid, hcalls, hoption, hdelivered⟩ he hn
  have hreplies : v.1.delivered = u.1.delivered := by
    rw [(next_exchange hn).2, he.2.answer]
    exact List.append_nil _
  rcases next_numbered hn with ⟨hsend, -⟩ | ⟨-, hsame, hkept⟩
  · exact absurd hsend he.2.send
  · exact ⟨hsame.trans hid, hkept.trans hcalls, (next_option hn).trans hoption,
      hreplies.trans hdelivered⟩

/-- A run whose indices stay in the table is one of the layout too. -/
theorem execution_inside {o : Options} {now : ℕ} (sock : ℕ) {ok : State → Event → Prop}
    {es : List Event} {s : State}
    (h : Execution (BlastMain.next P ρ o.verbose) ok (BlastMain.start o now) es s)
    (hcalls : s.1.calls.length ≤ maxUdpDataSize)
    (hd : ∀ d ∈ s.1.delivered, 2 ≤ d.bytes.length ∧ answerId d < maxUdpDataSize) :
    Execution (next P ρ o.verbose) (fun s e => ok s.state e) (start o sock now) es
      ⟨s, sock, o.timeout⟩ := by
  have hmax : maxUdpDataSize = 65507 := rfl
  induction h with
  | refl => exact .refl _
  | @tail s t es e h he hn ih =>
    obtain ⟨-, hdelivered⟩ := next_exchange hn
    rw [hdelivered] at hd
    have hgrows : s.1.calls.length ≤ t.1.calls.length ∧
        (s.2 = .wait .send → s.1.calls.length < t.1.calls.length) := by
      rcases next_numbered hn with ⟨-, -, hmore⟩ | ⟨haway, -, hsame⟩
      · exact ⟨by omega, fun _ => by omega⟩
      · exact ⟨hsame ▸ le_rfl, fun hsend => absurd hsend haway⟩
    have hrun := ih (hgrows.1.trans hcalls) fun d hmem => hd d (List.mem_append_left _ hmem)
    have hinside : Inside ⟨s, sock, o.timeout⟩ e := by
      refine ⟨?_, fun _ _ => (execution_timeout h).symm, ?_⟩
      · intro hsend
        have hid : s.1.context.id = s.1.calls.length % 2 ^ 16 := (execution_numbered h).id
        have := hgrows.2 hsend
        simp only
        omega
      · intro d harrival
        exact hd d (List.mem_append_right _ (by simp [harrival]))
    exact hrun.tail he (by rw [next_inside hinside, hn]; rfl)

end Within

end BlastLayout
