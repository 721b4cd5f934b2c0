import DnsBlast.BlastQuery

/-! What the two programs share around their functions: the answers of the operating
system, the process state, and functions that stop in the middle of a system call.
A function is a step from a position (the system call it waits in, with its live
local variables) and an event to the next position or its return value. -/
namespace BlastSyscalls

open ByteStores BlastHeader BlastQuery

inductive Errno where
  | EAGAIN
  | EINTR
  | other
  deriving DecidableEq, Repr

/-- A datagram as recv returns it, cut to the buffer. `query` is the query it answers,
counted from zero, if it answers one; the program never sees this field. -/
structure Datagram where
  bytes : List UInt8
  size_le : bytes.length ≤ maxUdpDataSize
  query : Option ℕ

/-- How a system call returned. `received` also carries what the uninitialised local
buffer of receive held before the call; `run` is the answer to no call at all. -/
inductive Answer where
  | clock
  | accepted
  | refused (e : Errno)
  | received (d : Datagram) (stale : Memory)
  | nothing (e : Errno)
  | timeout
  | ready
  | pollFailed (e : Errno)
  | run

structure Event where
  time : ℕ
  answer : Answer

structure Socket (σ : Type) where
  handing : σ → Option (List UInt8)
  receiving : σ → Bool

def Socket.emits {σ : Type} (k : Socket σ) (s : σ) (e : Event) : Option (List UInt8) :=
  match e.answer with
  | .accepted => k.handing s
  | _ => none

def Socket.arrival {σ : Type} (k : Socket σ) (s : σ) (e : Event) : Option Datagram :=
  match e.answer with
  | .received d _ => if k.receiving s then some d else none
  | _ => none

def isLocal (e : Event) : Bool :=
  match e.answer with
  | .accepted => false
  | .received .. => false
  | _ => true

theorem Socket.of_local {σ : Type} (k : Socket σ) (s : σ) {e : Event} (h : isLocal e = true) :
    k.emits s e = none ∧ k.arrival s e = none := by
  obtain ⟨time, answer⟩ := e
  cases answer with
  | accepted => cases h
  | received d stale => cases h
  | _ => exact ⟨rfl, rfl⟩

theorem Socket.emits_of_away {σ : Type} {k : Socket σ} {s : σ} (h : k.handing s = none)
    (e : Event) : k.emits s e = none := by
  unfold Socket.emits
  split
  · exact h
  · rfl

theorem Socket.arrival_of_away {σ : Type} {k : Socket σ} {s : σ} (h : k.receiving s = false)
    (e : Event) : k.arrival s e = none := by
  unfold Socket.arrival
  split
  · rw [h]
    rfl
  · rfl

inductive Line where
  | asked (type : ℕ) (name : List UInt8)
  | question (type : ℕ) (name : List UInt8) (number size : ℕ)
  | answer (number size elapsed : ℕ)
  | status (sent received rate : ℕ) (ratio : Option ℚ)
  | newline
  deriving DecidableEq

structure BlastCall where
  id : ℕ
  name : List UInt8
  type : ℕ
  fuzzed : List ℕ

/-- The Context, main's locals, the rand() values consumed, the output, and the
history of the run: the clock at the last event, the datagrams accepted by sendto, the
indices used on datagram_start, the datagrams received, the calls of blast. -/
structure World where
  context : Context
  name : List UInt8
  type : ℕ
  sendCount : ℕ
  draws : ℕ
  console : List Line
  time : ℕ
  wire : List (List UInt8)
  tableStores : List ℕ
  tableLoads : List ℕ
  delivered : List Datagram
  calls : List BlastCall

/-- The command line after parsing; `assert(send_count > 0UL)` has passed. -/
structure Options where
  pps : ℕ
  sendCount : ℕ
  timeout : ℕ
  fuzz : Bool
  verbose : Bool
  pps_lt : pps < 2 ^ 64
  sendCount_pos : 0 < sendCount
  sendCount_lt : sendCount < 2 ^ 64
  timeout_lt : timeout < 2 ^ 64

inductive Halt where
  | success
  | failure
  | abort
  | divideByZero
  deriving DecidableEq, Repr

inductive Outcome (π ρ : Type) where
  | wait (p : π)
  | ret (r : ρ)
  | stop (h : Halt)

def Outcome.holds {π ρ : Type} (f : π → Bool) : Outcome π ρ → Bool
  | .wait p => f p
  | _ => false

/-- A call: positions of the callee become positions of the caller, and its return
value is handed to the rest of the caller. -/
def call {π π' ρ ρ' : Type} (frame : π → π') (resume : World → ρ → World × Outcome π' ρ') :
    World × Outcome π ρ → World × Outcome π' ρ'
  | (w, .wait p) => (w, .wait (frame p))
  | (w, .ret r) => resume w r
  | (w, .stop h) => (w, .stop h)

def Outcome.andThen {π π' ρ ρ' : Type} (frame : π → π') (rest : ρ → Outcome π' ρ') :
    Outcome π ρ → Outcome π' ρ'
  | .wait p => .wait (frame p)
  | .ret r => rest r
  | .stop h => .stop h

structure Sender where
  question : Memory
  id : ℕ
  fuzz : Bool
  name : List UInt8
  type : ℕ
  draws : ℕ
  tableStores : List ℕ
  calls : List BlastCall

def World.sender (w : World) : Sender :=
  ⟨w.context.question, w.context.id, w.context.fuzz, w.name, w.type, w.draws, w.tableStores,
    w.calls⟩

structure Pace where
  startupDate : ℕ
  pps : ℕ
  sentPackets : ℕ
  timeout : ℕ
  sending : Bool
  sendCount : ℕ

def World.pace (w : World) : Pace :=
  ⟨w.context.startupDate, w.context.pps, w.context.sentPackets, w.context.timeout,
    w.context.sending, w.sendCount⟩

structure Replies where
  receivedPackets : ℕ
  tableLoads : List ℕ
  delivered : List Datagram

def World.replies (w : World) : Replies :=
  ⟨w.context.receivedPackets, w.tableLoads, w.delivered⟩

structure Quiet (w v : World) : Prop where
  sender : v.sender = w.sender
  pace : v.pace = w.pace
  time : v.time = w.time
  wire : v.wire = w.wire
  starts : v.context.datagramStart = w.context.datagramStart

theorem Quiet.refl (w : World) : Quiet w w := ⟨rfl, rfl, rfl, rfl, rfl⟩

theorem Quiet.trans {u v w : World} (h : Quiet u v) (k : Quiet v w) : Quiet u w :=
  ⟨k.sender.trans h.sender, k.pace.trans h.pace, k.time.trans h.time, k.wire.trans h.wire,
    k.starts.trans h.starts⟩

/-- What a caller makes of a step of its callee. -/
theorem call_cases {π π' ρ ρ' : Type} {frame : π → π'}
    {resume : World → ρ → World × Outcome π' ρ'} {r : Option (World × Outcome π ρ)}
    {v : World} {c : Outcome π' ρ'} (h : r.map (call frame resume) = some (v, c)) :
    (∃ p, r = some (v, .wait p) ∧ c = .wait (frame p)) ∨
    (∃ u x, r = some (u, .ret x) ∧ resume u x = (v, c)) ∨
    (∃ k, r = some (v, .stop k) ∧ c = .stop k) := by
  obtain ⟨⟨u, d⟩, hr, hc⟩ := Option.map_eq_some_iff.mp h
  cases d with
  | wait p =>
    obtain ⟨rfl, rfl⟩ := Prod.mk.inj hc
    exact Or.inl ⟨p, hr, rfl⟩
  | ret x => exact Or.inr (Or.inl ⟨u, x, hr, hc⟩)
  | stop k =>
    obtain ⟨rfl, rfl⟩ := Prod.mk.inj hc
    exact Or.inr (Or.inr ⟨k, hr, rfl⟩)

theorem call_outcome {π π' ρ ρ' : Type} {frame : π → π'}
    {resume : World → ρ → World × Outcome π' ρ'} {rest : World → ρ → Outcome π' ρ'}
    {r : Option (World × Outcome π ρ)} {v : World} {c : Outcome π' ρ'}
    (h : r.map (call frame resume) = some (v, c)) (hrest : ∀ w x, resume w x = (w, rest w x)) :
    ∃ d, r = some (v, d) ∧ c = d.andThen frame (rest v) := by
  rcases call_cases h with ⟨p, hr, rfl⟩ | ⟨u, x, hr, hk⟩ | ⟨k, hr, rfl⟩
  · exact ⟨_, hr, rfl⟩
  · obtain ⟨rfl, rfl⟩ := Prod.mk.inj ((hrest u x).symm.trans hk)
    exact ⟨_, hr, rfl⟩
  · exact ⟨_, hr, rfl⟩

end BlastSyscalls
