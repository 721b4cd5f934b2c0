import DnsBlast.LabelledRuns
import DnsBlast.BlastReceive

/-! blast and main of dnsblast.c, as one machine that runs from system call to system
call. main has parsed its options, opened the socket and called init_context. The
table datagram_start has storage of its own here: a store past its end, which C leaves
undefined, changes no other field. BlastLayout has the machine in which it does. -/
namespace BlastMain

open WrappingIntegers ByteStores LabelledRuns BlastHeader BlastQuestion BlastQuery BlastSyscalls
  BlastReceive

def ask (P : Platform) (ρ : ℕ → ℕ) (name : List UInt8) (type : ℕ) :
    StateM ℕ (List UInt8 × ℕ) := do
  let r ← rand ρ
  if r > repeatedNameProbability P then getRandomQuestion P ρ name type
  else return (name, type)

/-- The index of the table entry that blast stores to: the id, read back from the buffer. -/
def tableIndex (P : Platform) (w : World) : ℕ :=
  headerId P (applyStores w.context.question (queryStores P w.context.id w.name w.type).1)

/-- blast up to its first sendto, `store` being what its assignment to the table does to the
context; also the packet_size. -/
def buildPacket (P : Platform) (ρ : ℕ → ℕ) (store : Context → Context) (w : World) : World × ℕ :=
  let called := w.context.id
  let query := queryStores P called w.name w.type
  let question := applyStores w.context.question query.1
  let context := store { w.context with
    question := question
    id := (w.context.id + 1) % 2 ^ 16 }
  let w := { w with context := context, tableStores := w.tableStores ++ [tableIndex P w] }
  if w.context.fuzz then
    let r := (fuzz P ρ query.2).run w.draws
    ({ w with
      context := { w.context with question := applyStores question r.1 }
      draws := r.2
      calls := w.calls ++ [⟨called, w.name, w.type, r.1.map Prod.fst⟩] }, query.2)
  else ({ w with calls := w.calls ++ [⟨called, w.name, w.type, []⟩] }, query.2)

theorem buildPacket_keeps (P : Platform) (ρ : ℕ → ℕ) (store : Context → Context) (w : World) :
    let v := (buildPacket P ρ store w).1
    v.calls.length = w.calls.length + 1 ∧ v.sendCount = w.sendCount ∧ v.wire = w.wire ∧
      ∃ question question', v.context = { store { w.context with
        question := question
        id := (w.context.id + 1) % 2 ^ 16 } with question := question' } := by
  simp only [buildPacket]
  split_ifs
  · exact ⟨List.length_append, rfl, rfl, _, _, rfl⟩
  · exact ⟨List.length_append, rfl, rfl, _, _, rfl⟩

/-- The store into a table that has storage of its own, of any length. -/
abbrev storeStart (i now : ℕ) (c : Context) : Context :=
  { c with datagramStart := Function.update c.datagramStart i now }

def beginBlast (P : Platform) (ρ : ℕ → ℕ) (w : World) (now : ℕ) : World × ℕ :=
  buildPacket P ρ (storeStart (tableIndex P w) now) w

/-- Until sendto accepts the packet, blast leaves the pace, the replies and the wire alone. -/
theorem beginBlast_keeps (P : Platform) (ρ : ℕ → ℕ) (w : World) (now : ℕ) :
    (beginBlast P ρ w now).1.pace = w.pace ∧ (beginBlast P ρ w now).1.replies = w.replies ∧
      (beginBlast P ρ w now).1.wire = w.wire := by
  simp only [beginBlast, buildPacket, storeStart]
  split_ifs
  · exact ⟨rfl, rfl, rfl⟩
  · exact ⟨rfl, rfl, rfl⟩

theorem beginBlast_reports (P : Platform) (ρ : ℕ → ℕ) (w : World) (now : ℕ) :
    (beginBlast P ρ w now).1.context.lastStatusUpdate = w.context.lastStatusUpdate ∧
      (beginBlast P ρ w now).1.context.failedPackets = w.context.failedPackets := by
  simp only [beginBlast, buildPacket, storeStart]
  split_ifs
  · exact ⟨rfl, rfl⟩
  · exact ⟨rfl, rfl⟩

def packet (w : World) (packetSize : ℕ) : List UInt8 :=
  readBytes w.context.question 0 packetSize

def endBlast (P : Platform) (verbose : Bool) (w : World) (packetSize : ℕ) : World :=
  { w with
    context := { w.context with sentPackets := (w.context.sentPackets + 1) % 2 ^ 64 }
    wire := w.wire ++ [packet w packetSize]
    console := w.console ++ if verbose then
      [.question w.type w.name (headerId P w.context.question + 1) packetSize] else [] }

/-- Where main waits: blast's clock, blast's sendto, throttled_receive in the send loop,
update_status, and the clocks and throttled_receive of the drain loop. -/
inductive MainPos where
  | send
  | sendto (packetSize : ℕ)
  | throttle (before : ℕ) (p : ThrottlePos)
  | status
  | drainStart
  | drain (start : ℕ) (p : ThrottlePos)
  | drainTest (start : ℕ)
  | finalStatus

def endIteration (verbose : Bool) (before : ℕ) (w : World) : World × Outcome MainPos ℕ :=
  let sendCount := wrapSub 64 w.sendCount 1
  let w := { w with
    sendCount := sendCount
    console := w.console ++
      if verbose ∧ before = w.context.receivedPackets then [.newline] else [] }
  (w, .wait (if sendCount > 0 then .send else .status))

def drainLoop (start : ℕ) (w : World) : Outcome MainPos ℕ :=
  .wait (if w.context.sentPackets ≠ w.context.receivedPackets then .drain start .now
    else .finalStatus)

theorem drainLoop_cases (start : ℕ) (w : World) :
    drainLoop start w = .wait (.drain start .now) ∨ drainLoop start w = .wait .finalStatus := by
  by_cases h : w.context.sentPackets ≠ w.context.receivedPackets
  · left
    rw [drainLoop, if_pos h]
  · right
    rw [drainLoop, if_neg h]

def drainOutcome (start : ℕ) : Outcome ThrottlePos ℕ → Outcome MainPos ℕ
  | .wait p => .wait (.drain start p)
  | .ret _ => .wait (.drainTest start)
  | .stop k => .stop k

def main (P : Platform) (ρ : ℕ → ℕ) (verbose : Bool) (w : World) :
    MainPos → Event → Option (World × Outcome MainPos ℕ)
  | .send, ⟨now, .clock⟩ =>
    let r := (ask P ρ w.name w.type).run w.draws
    let b := beginBlast P ρ { w with name := r.1.1, type := r.1.2, draws := r.2 } now
    some (b.1, .wait (.sendto b.2))
  | .sendto packetSize, ⟨_, .accepted⟩ =>
    let w := endBlast P verbose w packetSize
    some (w, .wait (.throttle w.context.receivedPackets .now))
  | .sendto _, ⟨_, .refused .other⟩ => some (w, .stop .failure)
  | .sendto packetSize, ⟨_, .refused _⟩ => some (w, .wait (.sendto packetSize))
  | .throttle before p, e => (throttledReceive P verbose w p e).map <|
      call (.throttle before) fun w _ => endIteration verbose before w
  | .status, ⟨now, .clock⟩ =>
    let w := updateStatus P verbose w now
    some ({ w with context := { w.context with sending := false } }, .wait .drainStart)
  | .drainStart, ⟨now, .clock⟩ => some (w, drainLoop now w)
  | .drain start p, e => (throttledReceive P verbose w p e).map <|
      call (.drain start) fun w _ => (w, .wait (.drainTest start))
  | .drainTest start, ⟨now, .clock⟩ =>
    -- main compares with its own copy of the option, which context.timeout still equals
    some (w, if wrapSub 64 now start > w.context.timeout then .wait .finalStatus
      else drainLoop start w)
  | .finalStatus, ⟨now, .clock⟩ =>
    let w := updateStatus P verbose w now
    some ({ w with console := w.console ++ [.newline] }, .ret 0)
  | _, _ => none

abbrev State := World × Outcome MainPos ℕ

def next (P : Platform) (ρ : ℕ → ℕ) (verbose : Bool) : State → Event → Option State
  | (w, .wait p), e => (main P ρ verbose w p e).map fun r => ({ r.1 with time := e.time }, r.2)
  | _, _ => none

def start (o : Options) (now : ℕ) : State :=
  ({ context := { initContext now o.fuzz with pps := o.pps, timeout := o.timeout }
     name := initialName
     type := 0
     sendCount := o.sendCount
     draws := 0
     console := []
     time := now
     wire := []
     tableStores := []
     tableLoads := []
     delivered := []
     calls := [] }, .wait .send)

inductive Step (P : Platform) (ρ : ℕ → ℕ) (verbose : Bool) (w : World) :
    MainPos → Event → World → Outcome MainPos ℕ → Prop where
  | send {now r b} (hr : (ask P ρ w.name w.type).run w.draws = r)
      (hb : beginBlast P ρ { w with name := r.1.1, type := r.1.2, draws := r.2 } now = b) :
      Step P ρ verbose w .send ⟨now, .clock⟩ b.1 (.wait (.sendto b.2))
  | accept (time packetSize) : Step P ρ verbose w (.sendto packetSize) ⟨time, .accepted⟩
      (endBlast P verbose w packetSize) (.wait (.throttle w.context.receivedPackets .now))
  | retry (time packetSize errno) (he : errno ≠ .other) : Step P ρ verbose w
      (.sendto packetSize) ⟨time, .refused errno⟩ w (.wait (.sendto packetSize))
  | fail (time packetSize) : Step P ρ verbose w (.sendto packetSize)
      ⟨time, .refused .other⟩ w (.stop .failure)
  | throttle {before p e v c} (ht : throttledReceive P verbose w p e = some (v, .wait c)) :
      Step P ρ verbose w (.throttle before p) e v (.wait (.throttle before c))
  | iterate {before p e v r} (ht : throttledReceive P verbose w p e = some (v, .ret r)) :
      Step P ρ verbose w (.throttle before p) e (endIteration verbose before v).1
        (endIteration verbose before v).2
  | abort {before p e v k} (ht : throttledReceive P verbose w p e = some (v, .stop k)) :
      Step P ρ verbose w (.throttle before p) e v (.stop k)
  | sent (now v) (hv : updateStatus P verbose w now = v) : Step P ρ verbose w .status
      ⟨now, .clock⟩ { v with context := { v.context with sending := false } } (.wait .drainStart)
  | drainStart (now) : Step P ρ verbose w .drainStart ⟨now, .clock⟩ w (drainLoop now w)
  | drain {first p e v c} (ht : throttledReceive P verbose w p e = some (v, c)) :
      Step P ρ verbose w (.drain first p) e v (drainOutcome first c)
  | giveUp (first now) (hn : wrapSub 64 now first > w.context.timeout) :
      Step P ρ verbose w (.drainTest first) ⟨now, .clock⟩ w (.wait .finalStatus)
  | drainOn (first now) (hn : wrapSub 64 now first ≤ w.context.timeout) :
      Step P ρ verbose w (.drainTest first) ⟨now, .clock⟩ w (drainLoop first w)
  | done (now v) (hv : updateStatus P verbose w now = v) : Step P ρ verbose w .finalStatus
      ⟨now, .clock⟩ { v with console := v.console ++ [.newline] } (.ret 0)

theorem main_step {P : Platform} {ρ : ℕ → ℕ} {verbose : Bool} {w v : World} {p : MainPos}
    {e : Event} {c : Outcome MainPos ℕ} (h : main P ρ verbose w p e = some (v, c)) :
    Step P ρ verbose w p e v c := by
  cases p with
  | throttle before p =>
    rcases call_cases h with ⟨q, hr, rfl⟩ | ⟨u, r, hr, hk⟩ | ⟨k, hr, rfl⟩
    · exact .throttle hr
    · have hv : v = (endIteration verbose before u).1 := congrArg Prod.fst hk.symm
      have hc : c = (endIteration verbose before u).2 := congrArg Prod.snd hk.symm
      exact hv ▸ hc ▸ .iterate hr
    · exact .abort hr
  | drain first p =>
    rcases call_cases h with ⟨q, hr, rfl⟩ | ⟨u, r, hr, hk⟩ | ⟨k, hr, rfl⟩
    · exact .drain hr
    · cases hk
      exact .drain hr
    · exact .drain hr
  | send =>
    obtain ⟨now, answer⟩ := e
    cases answer <;> cases h
    exact .send rfl rfl
  | sendto packetSize =>
    obtain ⟨now, answer⟩ := e
    cases answer with
    | accepted =>
      cases h
      exact .accept now packetSize
    | refused errno =>
      cases errno <;> cases h
      · exact .retry now packetSize .EAGAIN (by decide)
      · exact .retry now packetSize .EINTR (by decide)
      · exact .fail now packetSize
    | _ => cases h
  | status =>
    obtain ⟨now, answer⟩ := e
    cases answer <;> cases h
    exact .sent now _ rfl
  | drainStart =>
    obtain ⟨now, answer⟩ := e
    cases answer <;> cases h
    exact .drainStart now
  | drainTest first =>
    obtain ⟨now, answer⟩ := e
    cases answer <;> cases h
    by_cases hn : wrapSub 64 now first > w.context.timeout
    · rw [if_pos hn]
      exact .giveUp first now hn
    · rw [if_neg hn]
      exact .drainOn first now (not_lt.mp hn)
  | finalStatus =>
    obtain ⟨now, answer⟩ := e
    cases answer <;> cases h
    exact .done now _ rfl

theorem next_cases {P : Platform} {ρ : ℕ → ℕ} {verbose : Bool} {s t : State} {e : Event}
    (h : next P ρ verbose s e = some t) :
    ∃ p v, s.2 = .wait p ∧ Step P ρ verbose s.1 p e v t.2 ∧ t.1 = { v with time := e.time } := by
  obtain ⟨w, c⟩ := s
  cases c with
  | wait p =>
    obtain ⟨⟨v, d⟩, hm, rfl⟩ := Option.map_eq_some_iff.mp h
    exact ⟨p, v, rfl, main_step hm, rfl⟩
  | ret r => cases h
  | stop k => cases h

end BlastMain
