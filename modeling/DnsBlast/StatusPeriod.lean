import DnsBlast.BlastTraffic
import DnsBlast.MattblastFirstPoll
import DnsBlast.PeriodicActions

/-! UPDATE_STATUS_PERIOD in both programs: 2000 units of a clock that counts milliseconds in
dnsblast.c and nanoseconds in mattblast.c. -/
namespace StatusPeriod

open WrappingIntegers BlastHeader BlastQuery BlastSyscalls PeriodicActions
open BlastReceive (StatusPos)

/-- A call of periodically_update_status at a whole millisecond, and the nanosecond at
which its update_status reads the clock, if it is called. -/
structure StatusCall where
  now : ℕ
  later : ℕ

structure StatusCall.Possible (c : StatusCall) : Prop where
  later : 1000000 * c.now ≤ c.later
  representable : c.later < 2 ^ 64

def statusCall (periodicallyUpdateStatus : World → StatusPos → Event →
    Option (World × Outcome StatusPos ℕ)) (now later : ℕ) (w v : World) (updated : Bool) : Prop :=
  periodicallyUpdateStatus w .now ⟨now, .clock⟩ = some (v, .ret 1) ∧ updated = false ∨
  ∃ u p, periodicallyUpdateStatus w .now ⟨now, .clock⟩ = some (u, .wait p) ∧
    periodicallyUpdateStatus u p ⟨later, .clock⟩ = some (v, .ret 0) ∧ updated = true

def blastCall (P : Platform) (verbose : Bool) (w : World) (c : StatusCall) :
    World → Bool → Prop :=
  statusCall (BlastReceive.periodicallyUpdateStatus P verbose) c.now (c.later / 1000000) w

def mattblastCall (P : Platform) (w : World) (c : StatusCall) : World → Bool → Prop :=
  statusCall (MattblastMain.periodicallyUpdateStatus P) (1000000 * c.now) c.later w

structure SameDates (w v : World) : Prop where
  startupDate : v.context.startupDate = w.context.startupDate
  lastStatusUpdate : v.context.lastStatusUpdate = w.context.lastStatusUpdate

structure StartedAt (begin : ℕ) (w : World) : Prop where
  startupDate : w.context.startupDate = begin
  lastStatusUpdate : w.context.lastStatusUpdate = begin

/-- A program whose calls compare the time since the last update with the period, and whose
updates return and note the time of the call. `I` is what they rely on. -/
theorem statusCall_periodic {f : World → StatusPos → Event → Option (World × Outcome StatusPos ℕ)}
    {time later : StatusCall → ℕ} {I : World → Prop}
    (hdue : ∀ w c, c.Possible → w.context.lastStatusUpdate ≤ time c →
      f w .now ⟨time c, .clock⟩ =
        if time c - w.context.lastStatusUpdate < updateStatusPeriod then some (w, .ret 1)
        else some (w, .wait (.update (time c))))
    (hupdate : ∀ w c, c.Possible → I w → w.context.lastStatusUpdate ≤ time c →
      updateStatusPeriod ≤ time c - w.context.lastStatusUpdate →
      ∃ v, f w (.update (time c)) ⟨later c, .clock⟩ = some (v, .ret 0) ∧
        v.context.lastStatusUpdate = time c ∧ I v)
    (hdates : ∀ w v, SameDates w v → I w → I v) :
    Periodic (fun w c => statusCall f (time c) (later c) w) SameDates updateStatusPeriod
      (fun w => w.context.lastStatusUpdate) time I StatusCall.Possible := by
  constructor
  · intro w c v b hi hc hle hskip hcall
    rw [statusCall, hdue w c hc hle, if_pos hskip] at hcall
    rcases hcall with ⟨h, hb⟩ | ⟨u, p, h, -, -⟩
    · cases h
      exact ⟨hb, rfl, hi⟩
    · cases h
  · intro w c v b hi hc hle hact hcall
    rw [statusCall, hdue w c hc hle, if_neg (not_lt.mpr hact)] at hcall
    rcases hcall with ⟨h, -⟩ | ⟨u, p, h, hv, hb⟩
    · cases h
    · cases h
      obtain ⟨x, hx, hlast, hkept⟩ := hupdate w c hc hi hle hact
      cases hx.symm.trans hv
      exact ⟨hb, hlast, hkept⟩
  · intro w c hi hc hle
    by_cases hskip : time c - w.context.lastStatusUpdate < updateStatusPeriod
    · refine ⟨w, false, Or.inl ⟨?_, rfl⟩⟩
      rw [hdue w c hc hle, if_pos hskip]
    · obtain ⟨v, hv, -⟩ := hupdate w c hc hi hle (not_lt.mp hskip)
      refine ⟨v, true, Or.inr ⟨w, _, ?_, hv, rfl⟩⟩
      rw [hdue w c hc hle, if_neg hskip]
  · intro w v h
    exact ⟨h.lastStatusUpdate, hdates w v h⟩
  · intro w
    exact ⟨rfl, rfl⟩

theorem blast_periodic (P : Platform) (verbose : Bool) :
    Periodic (blastCall P verbose) SameDates updateStatusPeriod
      (fun w => w.context.lastStatusUpdate) StatusCall.now (fun _ => True)
      StatusCall.Possible := by
  apply statusCall_periodic
  · intro w c hc hle
    have hlater := hc.later
    have hrep := hc.representable
    rw [BlastReceive.periodicallyUpdateStatus, wrapSub_of_le hle (by omega)]
  · intro w c _ _ _ _
    exact ⟨_, rfl, rfl, trivial⟩
  · intro w v _ _
    trivial

/-- An update that is due comes after the start, so its division is safe. -/
theorem mattblast_periodic (P : Platform) :
    Periodic (mattblastCall P) SameDates updateStatusPeriod
      (fun w => w.context.lastStatusUpdate) (fun c => 1000000 * c.now)
      (fun w => w.context.startupDate ≤ w.context.lastStatusUpdate) StatusCall.Possible := by
  apply statusCall_periodic
  · intro w c hc hle
    have hlater := hc.later
    have hrep := hc.representable
    rw [MattblastMain.periodicallyUpdateStatus, wrapSub_of_le hle (by omega)]
  · intro w c hc hstart hle hact
    have hlater := hc.later
    have hperiod : 0 < updateStatusPeriod := by decide
    have helapsed : wrapSub 64 c.later w.context.startupDate ≠ 0 := by
      rw [wrapSub_of_le (by omega) hc.representable]
      omega
    obtain ⟨u, hu⟩ : ∃ u, MattblastMain.updateStatus P w c.later = some u := ⟨_, if_neg helapsed⟩
    have hdate : u.context.startupDate = w.context.startupDate := by
      obtain ⟨-, hv⟩ := Option.ite_none_left_eq_some.mp hu
      cases hv
      rfl
    refine ⟨{ u with context := { u.context with lastStatusUpdate := 1000000 * c.now } }, ?_, rfl,
      ?_⟩
    · simp only [MattblastMain.periodicallyUpdateStatus, hu]
    · exact hdate.trans_le (hstart.trans hle)
  · intro w v h hstart
    rw [h.startupDate, h.lastStatusUpdate]
    exact hstart

/-- Both programs answer every call, and alike exactly when each call comes in the same
millisecond as the one before it or at least two seconds later. -/
theorem status_decisions_agree_iff {P : Platform} {verbose : Bool} {begin : ℕ}
    {calls : List StatusCall} (hcalls : ∀ c ∈ calls, c.Possible)
    (htimes : (begin :: calls.map StatusCall.now).IsChain (· ≤ ·)) {w w' : World}
    (hw : StartedAt begin w) (hw' : StartedAt (1000000 * begin) w') :
    (∃ ds, Calls (blastCall P verbose) SameDates w calls ds) ∧
    (∃ ds, Calls (mattblastCall P) SameDates w' calls ds) ∧
    ∀ ds ds', Calls (blastCall P verbose) SameDates w calls ds →
      Calls (mattblastCall P) SameDates w' calls ds' →
        (ds' = ds ↔ Spaced updateStatusPeriod (begin :: calls.map StatusCall.now)) := by
  have hperiod : 0 < updateStatusPeriod := by decide
  have hscaled : (calls.map fun c => 1000000 * c.now) =
      (calls.map StatusCall.now).map (1000000 * ·) := by
    rw [List.map_map]
    rfl
  have hchain : (1000000 * begin :: calls.map fun c => 1000000 * c.now).IsChain (· ≤ ·) := by
    rw [hscaled, ← List.map_cons (f := (1000000 * ·)), List.isChain_map]
    exact htimes.imp fun _ _ hle => Nat.mul_le_mul_left 1000000 hle
  obtain ⟨hblast, hblast'⟩ := (blast_periodic P verbose).decisions trivial hcalls
    (hw.lastStatusUpdate.symm ▸ htimes)
  obtain ⟨hmattblast, hmattblast'⟩ := (mattblast_periodic P).decisions
    (hw'.startupDate.trans hw'.lastStatusUpdate.symm).le hcalls
    (hw'.lastStatusUpdate.symm ▸ hchain)
  refine ⟨hblast, hmattblast, ?_⟩
  intro ds ds' hds hds'
  rw [hblast' ds hds, hmattblast' ds' hds', hw.lastStatusUpdate, hw'.lastStatusUpdate, hscaled,
    decisions_scaled hperiod (by decide)]
  exact decisions_eq_shortest_iff hperiod htimes

/-- A call at once and one after two seconds. -/
theorem status_decisions_agree_two_calls : ∃ ds,
    Calls (blastCall glibc false) SameDates (BlastMain.start BlastTraffic.slow 0).1
      [⟨0, 0⟩, ⟨2000, 2000000000⟩] ds ∧
    Calls (mattblastCall glibc) SameDates
      (MattblastMain.start MattblastFirstPoll.threePerSecond 0).1
      [⟨0, 0⟩, ⟨2000, 2000000000⟩] ds := by
  have hpossible : ∀ c ∈ [(⟨0, 0⟩ : StatusCall), ⟨2000, 2000000000⟩], c.Possible := by
    intro c hc
    simp only [List.mem_cons, List.not_mem_nil, or_false] at hc
    rcases hc with rfl | rfl
    · exact ⟨by decide, by decide⟩
    · exact ⟨by decide, by decide⟩
  obtain ⟨⟨ds, hds⟩, ⟨ds', hds'⟩, hiff⟩ :=
    @status_decisions_agree_iff glibc false 0 _ hpossible (by decide)
      (BlastMain.start BlastTraffic.slow 0).1
      (MattblastMain.start MattblastFirstPoll.threePerSecond 0).1 ⟨rfl, rfl⟩ ⟨rfl, rfl⟩
  have hsame : ds' = ds := (hiff ds ds' hds hds').mpr (by decide)
  exact ⟨ds, hds, hsame ▸ hds'⟩

/-- A millisecond after the start mattblast updates the status and dnsblast does not. -/
theorem mattblast_updates_every_millisecond :
    Calls (blastCall glibc false) SameDates (BlastMain.start BlastTraffic.slow 0).1
      [⟨1, 1000000⟩] [false] ∧
    Calls (mattblastCall glibc) SameDates
      (MattblastMain.start MattblastFirstPoll.threePerSecond 0).1 [⟨1, 1000000⟩] [true] := by
  constructor
  · exact .cons (Or.inl ⟨rfl, rfl⟩) ⟨rfl, rfl⟩ (.nil _)
  · exact .cons (Or.inr ⟨_, _, rfl, rfl, rfl⟩) ⟨rfl, rfl⟩ (.nil _)

end StatusPeriod
