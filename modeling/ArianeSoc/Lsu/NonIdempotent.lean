import ArianeSoc.Lsu.LoadUnit
import ArianeSoc.Sync

/-!
# Loads from regions that are not idempotent

A load from such a region may be sent to the memory only if it is the next
instruction to commit and no store is pending.  `stall_nc` decides that in
the cycle of the grant, with the address that the MMU has registered in the
cycle before; the address of the load itself comes one cycle later, with
the tag.

`Track` feeds the translation of the load at the head through that
register.  `loads_guarded` says what the guard achieves where the two
addresses agree on the region and no store is pending (`Judged`).
`guard_misses` has two runs in which it does not: the guard looks at the
address of the load before, and it asks for empty write buffers in the
cached regions instead of the others.
-/

namespace ArianeSoc.LoadUnit

namespace Guard

open Sync Lsu

/-- The inputs of a cycle, with what the MMU registers for the address at
the head.  Its register drives `paddr`. -/
structure Cycle extends In where
  translation : BitVec 56

/-- The load unit behind the register of the MMU, with what held when the
load at the head was looked at in the cycle before. -/
structure Track where
  unit : State
  paddr : BitVec 56
  transId : BitVec 3
  wasNext : Bool
  wasDrained : Bool

/-- The inputs of the load unit. -/
def unitIn (t : Track) (i : Cycle) : In := { i.toIn with paddr := t.paddr }

/-- The load at the head is the next instruction to commit. -/
def nextToCommit (i : Cycle) : Bool := i.commitTranId = i.lsuCtrl.transId

/-- No store waits in the store buffer or in the data cache. -/
def drained (i : Cycle) : Bool := i.storeBufferEmpty && i.dcacheWbufferEmpty

namespace Track

def reset : Track := ⟨LoadUnit.reset, 0#56, 0#3, false, false⟩

def step (cfg : ArianeCfg) (t : Track) (i : Cycle) : Track where
  unit := LoadUnit.step cfg t.unit (unitIn t i)
  paddr := i.translation
  transId := i.lsuCtrl.transId
  wasNext := nextToCommit i
  wasDrained := drained i

end Track

/-- The address is not idempotent. -/
def nonIdempotent (cfg : ArianeCfg) (a : BitVec 56) : Bool :=
  isInsideNonidempotentRegions cfg (a.setWidth 64)

/-- The tag of a load from a region that is not idempotent is sent and not
killed. -/
def Sends (cfg : ArianeCfg) (t : Track) (i : Cycle) : Prop :=
  t.unit.state = .SEND_TAG ∧ killReqO t.unit (unitIn t i) = false ∧
    nonIdempotent cfg t.paddr = true

/-- The load whose tag is sent is the next instruction to commit, and no
store is pending. -/
def Allowed (t : Track) (i : Cycle) : Prop :=
  i.commitTranId = t.transId ∧ drained i = true

/-- A load that is next to commit stays so while its tag is sent, and no
store becomes pending meanwhile. -/
def Stays (t : Track) (i : Cycle) : Prop :=
  t.unit.state = .SEND_TAG → t.wasNext = true →
    i.commitTranId = t.transId ∧ (t.wasDrained = true → drained i = true)

instance (t : Track) (i : Cycle) : Decidable (Stays t i) :=
  inferInstanceAs (Decidable (_ → _ → _))

/-- A load from a region that is not idempotent goes on to its tag only if
the register of the MMU shows such a region too, unless the load is next to
commit, and only if no store is pending. -/
def Judged (cfg : ArianeCfg) (t : Track) (i : Cycle) : Prop :=
  accepts cfg t.unit (unitIn t i) = true →
    nonIdempotent cfg i.translation = true →
      (nextToCommit i = true ∨ nonIdempotent cfg t.paddr = true) ∧
        drained i = true

instance (cfg : ArianeCfg) (t : Track) (i : Cycle) :
    Decidable (Judged cfg t i) :=
  inferInstanceAs (Decidable (_ → _ → _))

variable {cfg : ArianeCfg} {t : Track} {i : Cycle}

/-- A load that is about to send its tag to a region that is not idempotent
was next to commit when it was let go. -/
def Guarded (cfg : ArianeCfg) (t : Track) : Prop :=
  t.unit.state = .SEND_TAG → nonIdempotent cfg t.paddr = true →
    t.wasNext = true ∧ t.wasDrained = true

/-- The guard holds back a load that is not next to commit if it sees a
region that is not idempotent. -/
theorem nextToCommit_of_accepts
    (h : accepts cfg t.unit (unitIn t i) = true)
    (hp : nonIdempotent cfg t.paddr = true) : nextToCommit i = true := by
  have hstall := (accepts_iff.mp h).2.2.2
  have hregion : isInsideNonidempotentRegions cfg
      ((unitIn t i).paddr.setWidth 64) = true := hp
  simp only [stallNc, hregion, Bool.or_eq_false_iff, Bool.and_true] at hstall
  simpa [nextToCommit, unitIn] using hstall.2

theorem guarded_step (hj : Judged cfg t i) : Guarded cfg (t.step cfg i) := by
  intro hnext hregion
  obtain ⟨-, -, hacc⟩ := sendTag_of_stateNext hnext
  obtain ⟨hwhen, hdrained⟩ := hj hacc hregion
  refine ⟨?_, hdrained⟩
  rcases hwhen with hcommit | hp
  · exact hcommit
  · exact nextToCommit_of_accepts hacc hp

theorem Guarded.allowed (h : Guarded cfg t) (hst : Stays t i)
    (hs : Sends cfg t i) : Allowed t i := by
  obtain ⟨htag, -, hregion⟩ := hs
  obtain ⟨hnext, hdrained⟩ := h htag hregion
  obtain ⟨hcommit, hkeep⟩ := hst htag hnext
  exact ⟨hcommit, hkeep hdrained⟩

/-- In every run in which a load that is next to commit stays so, and in
which the register of the MMU shows the region of the load and no store is
pending whenever a load goes on to its tag, a tag for a region that is not
idempotent belongs to the next instruction to commit, with no store
pending. -/
theorem loads_guarded (cfg : ArianeCfg) (is : List Cycle)
    (hstay : Along (Track.step cfg) Stays Track.reset is)
    (hjudge : Along (Track.step cfg) (Judged cfg) Track.reset is) :
    Along (Track.step cfg) (fun t i => Sends cfg t i → Allowed t i)
      Track.reset is := by
  have hinv := hjudge.along (P := Guarded cfg)
    (fun t i hj _ => guarded_step hj) (fun h => by cases h)
  refine (hstay.and hinv).mono ?_
  rintro t i ⟨hst, -, hg⟩ hs
  exact hg.allowed hst hs

/-- The regions of the test bench: everything below the memory is not
idempotent. -/
def socCfg : ArianeCfg where
  nonIdempotent := [⟨0#64, 0x80000000#64⟩]
  executeRegion := [⟨0x80000000#64, 0x40000000#64⟩, ⟨0x10000#64, 0x10000#64⟩,
    ⟨0#64, 0x1000#64⟩]
  cachedRegion := [⟨0x80000000#64, 0x40000000#64⟩]

/-- A load with a transaction id is at the head, whose address the MMU
translates, and the data cache grants its request. -/
def Cycle.offer (transId : BitVec 3) (translation : BitVec 56) : Cycle where
  flush := false
  valid := true
  lsuCtrl :=
    { LsuCtrl.zero with
      valid := true
      fu := .LOAD
      operator := .LD
      transId := transId }
  paddr := 0#56
  ex := ExceptionT.none
  dtlbHit := true
  pageOffsetMatches := false
  storeBufferEmpty := true
  commitTranId := 1#3
  dataGnt := true
  dataRvalid := false
  dataRdata := 0#64
  dcacheWbufferEmpty := true
  translation := translation

/-- No load is at the head. -/
def Cycle.idle : Cycle := { Cycle.offer 0#3 0#56 with valid := false }

/-- A load from the memory, and then one from a device that waits for its
turn. -/
def deviceLoad : List Cycle :=
  [Cycle.offer 1#3 0x80000000#56,
    { Cycle.offer 2#3 0x10000000#56 with dataGnt := false },
    Cycle.offer 2#3 0x10000000#56, Cycle.offer 2#3 0x10000000#56,
    Cycle.offer 2#3 0x10000000#56,
    { Cycle.offer 2#3 0x10000000#56 with commitTranId := 2#3 },
    { Cycle.offer 2#3 0x10000000#56 with commitTranId := 2#3 },
    { Cycle.idle with commitTranId := 2#3 }]

theorem loads_guarded_deviceLoad :
    Along (Track.step socCfg) (fun t i => Sends socCfg t i → Allowed t i)
        Track.reset deviceLoad ∧
      Sends socCfg (run (Track.step socCfg) Track.reset (deviceLoad.take 7))
        { Cycle.idle with commitTranId := 2#3 } :=
  ⟨loads_guarded socCfg deviceLoad (by decide +kernel) (by decide +kernel),
    by unfold Sends; decide +kernel⟩

/-- A load from a device directly behind one from the memory. -/
def deviceBehindMemory : List Cycle :=
  [Cycle.offer 1#3 0x80000000#56,
    { Cycle.offer 2#3 0x10000000#56 with dataRvalid := true }]

/-- A load from a device that is next to commit, while a store is
pending. -/
def deviceBehindStore : List Cycle :=
  [{ Cycle.offer 1#3 0x10000000#56 with storeBufferEmpty := false }]

/-- The tag of the second load is sent while the first one is next to
commit, and the tag of the third while a store is pending. -/
theorem guard_misses :
    let first := run (Track.step socCfg) Track.reset deviceBehindMemory
    let second := run (Track.step socCfg) Track.reset deviceBehindStore
    let i := { Cycle.idle with storeBufferEmpty := false }
    Along (Track.step socCfg) Stays Track.reset
        (deviceBehindMemory ++ [Cycle.idle]) ∧
      Sends socCfg first Cycle.idle ∧
      first.transId = 2#3 ∧ Cycle.idle.commitTranId = 1#3 ∧
      Along (Track.step socCfg) Stays Track.reset
        (deviceBehindStore ++ [i]) ∧
      Sends socCfg second i ∧
      second.transId = i.commitTranId ∧ drained i = false := by
  unfold Sends
  decide +kernel

end Guard

end ArianeSoc.LoadUnit
