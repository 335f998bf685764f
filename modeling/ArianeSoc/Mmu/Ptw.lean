import ArianeSoc.RiscvPkg

/-!
# The page table walker

`State` holds the registers of `ptw.sv` and `In` its inputs, for an ASID of
`n` bits; `VLEN` is 64.  The response of the data cache goes through the
registers `dataRvalid` and `dataRdata`, so the walker sees it one cycle
late.

The combinational block is one function for each state of the machine, and
`step` adds the flush, which overrides the next state.  Without a flush a
walk is a loop `WAIT_GRANT`, `PTE_LOOKUP` over the levels.
-/

namespace ArianeSoc.Ptw

/-- The states of the machine. -/
inductive Fsm
  | IDLE | WAIT_GRANT | PTE_LOOKUP | WAIT_RVALID | PROPAGATE_ERROR
  deriving DecidableEq, Repr

/-- The levels of the page table. -/
inductive Lvl
  | LVL1 | LVL2 | LVL3
  deriving DecidableEq, Repr

/-- `tlb_update_t`. -/
structure TlbUpdate (n : Nat) where
  valid : Bool
  is2M : Bool
  is1G : Bool
  vpn : BitVec 27
  asid : BitVec n
  content : Pte
  deriving DecidableEq

/-- The registers. -/
structure State (n : Nat) where
  state : Fsm
  lvl : Lvl
  isInstrPtw : Bool
  globalMapping : Bool
  tagValid : Bool
  tlbUpdateAsid : BitVec n
  vaddr : BitVec 64
  ptwPptr : BitVec 56
  dataRvalid : Bool
  dataRdata : BitVec 64
  deriving DecidableEq

/-- The registers after a reset. -/
def reset (n : Nat) : State n where
  state := .IDLE
  lvl := .LVL1
  isInstrPtw := false
  globalMapping := false
  tagValid := false
  tlbUpdateAsid := 0#n
  vaddr := 0#64
  ptwPptr := 0#56
  dataRvalid := false
  dataRdata := 0#64

/-- The inputs of one cycle. -/
structure In (n : Nat) where
  flush : Bool
  enableTranslation : Bool
  enLdStTranslation : Bool
  lsuIsStore : Bool
  dataGnt : Bool
  dataRvalid : Bool
  dataRdata : BitVec 64
  asid : BitVec n
  itlbAccess : Bool
  itlbHit : Bool
  itlbVaddr : BitVec 64
  dtlbAccess : Bool
  dtlbHit : Bool
  dtlbVaddr : BitVec 64
  satpPpn : BitVec 44
  mxr : Bool
  deriving DecidableEq

variable {n : Nat} (q : State n) (i : In n)

/-! ## The virtual page number and the entry addresses -/

def vpn2 (a : BitVec 64) : BitVec 9 := a.extractLsb' 30 9
def vpn1 (a : BitVec 64) : BitVec 9 := a.extractLsb' 21 9
def vpn0 (a : BitVec 64) : BitVec 9 := a.extractLsb' 12 9

/-- The address of an entry in the page table at page `ppn`. -/
def entryAddr (ppn : BitVec 44) (vpn : BitVec 9) : BitVec 56 :=
  ppn ++ vpn ++ 0#3

/-- The page table entry in the response. -/
def pte : Pte := q.dataRdata

/-! ## The outputs -/

/-- `ptw_active_o`. -/
def ptwActiveO : Bool := q.state ≠ .IDLE

/-- `ptw_error_o`. -/
def ptwErrorO : Bool := q.state = .PROPAGATE_ERROR

/-- `req_port_o.data_req`. -/
def dataReqO : Bool := q.state = .WAIT_GRANT

/-- The walker looks at a response. -/
def lookingUp : Bool := q.state = .PTE_LOOKUP ∧ q.dataRvalid

/-- The entry is invalid. -/
def invalid : Bool := !(pte q).v || !(pte q).r && (pte q).w

/-- The entry is a leaf. -/
def isLeaf : Bool := (pte q).r || (pte q).x

/-- The permissions that are checked before a TLB is filled. -/
def fillOk : Bool :=
  let p := pte q
  if q.isInstrPtw then p.x && p.a
  else p.a && (p.r || p.x && i.mxr) && !(i.lsuIsStore && (!p.w || !p.d))

/-- The superpage is not aligned. -/
def misaligned : Bool :=
  q.lvl = .LVL1 ∧ (pte q).ppn.extractLsb' 0 18 ≠ 0#18 ∨
    q.lvl = .LVL2 ∧ (pte q).ppn.extractLsb' 0 9 ≠ 0#9

/-- A walk ends with an entry for a TLB. -/
def fills : Bool :=
  lookingUp q && !invalid q && isLeaf q && fillOk q i && !misaligned q

/-- The update of the TLB that missed, apart from its valid bit. -/
def tlbUpdate (valid : Bool) : TlbUpdate n where
  valid := valid
  is2M := q.lvl = .LVL2
  is1G := q.lvl = .LVL1
  vpn := q.vaddr.extractLsb' 12 27
  asid := q.tlbUpdateAsid
  content := pte q ||| (BitVec.ofBool q.globalMapping).setWidth 64 <<< 5

/-- `itlb_update_o`. -/
def itlbUpdateO : TlbUpdate n := tlbUpdate q (fills q i && q.isInstrPtw)

/-- `dtlb_update_o`. -/
def dtlbUpdateO : TlbUpdate n := tlbUpdate q (fills q i && !q.isInstrPtw)

/-! ## The next state -/

/-- An instruction access misses, and no data access has priority. -/
def itlbMiss : Bool :=
  i.enableTranslation && i.itlbAccess && !i.itlbHit && !i.dtlbAccess

/-- A data access misses. -/
def dtlbMiss : Bool :=
  i.enLdStTranslation && i.dtlbAccess && !i.dtlbHit

/-- The state `IDLE`: a miss starts a walk at the root. -/
def idleNext : State n :=
  let d := { q with lvl := .LVL1, globalMapping := false, isInstrPtw := false }
  if itlbMiss i then
    { d with
      ptwPptr := entryAddr i.satpPpn (vpn2 i.itlbVaddr)
      isInstrPtw := true
      tlbUpdateAsid := i.asid
      vaddr := i.itlbVaddr
      state := .WAIT_GRANT }
  else if dtlbMiss i then
    { d with
      ptwPptr := entryAddr i.satpPpn (vpn2 i.dtlbVaddr)
      tlbUpdateAsid := i.asid
      vaddr := i.dtlbVaddr
      state := .WAIT_GRANT }
  else d

/-- The state `WAIT_GRANT`: the tag follows the grant by one cycle. -/
def waitGrantNext : State n :=
  if i.dataGnt then { q with tagValid := true, state := .PTE_LOOKUP } else q

/-- A pointer to the next level. -/
def pointerNext : State n :=
  match q.lvl with
  | .LVL1 =>
    { q with
      lvl := .LVL2
      ptwPptr := entryAddr (pte q).ppn (vpn1 q.vaddr)
      state := .WAIT_GRANT }
  | .LVL2 =>
    { q with
      lvl := .LVL3
      ptwPptr := entryAddr (pte q).ppn (vpn0 q.vaddr)
      state := .WAIT_GRANT }
  | .LVL3 => { q with state := .PROPAGATE_ERROR }

/-- The state `PTE_LOOKUP`. -/
def lookupNext : State n :=
  if q.dataRvalid then
    let d := { q with globalMapping := q.globalMapping || (pte q).g }
    if invalid q then { d with state := .PROPAGATE_ERROR }
    else if isLeaf q then
      { d with
        state := if fillOk q i && !misaligned q then .IDLE
          else .PROPAGATE_ERROR }
    else
      { pointerNext q with
        globalMapping := q.globalMapping || (pte q).g }
  else q

/-- The state `WAIT_RVALID`: the response of an aborted walk. -/
def waitRvalidNext : State n :=
  if q.dataRvalid then { q with state := .IDLE } else q

/-- The next values before the flush. -/
def fsmNext : State n :=
  let d := { q with tagValid := false }
  match q.state with
  | .IDLE => idleNext d i
  | .WAIT_GRANT => waitGrantNext d i
  | .PTE_LOOKUP => lookupNext d i
  | .PROPAGATE_ERROR => { d with state := .IDLE }
  | .WAIT_RVALID => waitRvalidNext d

/-- A flush leaves a response to wait for. -/
def flushWaits : Bool :=
  q.state = .PTE_LOOKUP ∧ q.dataRvalid = false ∨
    q.state = .WAIT_GRANT ∧ i.dataGnt

/-- The next state of the machine. -/
def stateNext : Fsm :=
  if i.flush then if flushWaits q i then .WAIT_RVALID else .IDLE
  else (fsmNext q i).state

/-- One cycle. -/
def step : State n :=
  { fsmNext q i with
    state := stateNext q i
    dataRvalid := i.dataRvalid
    dataRdata := i.dataRdata }

/-! ## Where a cycle can lead -/

variable {q i}

theorem stateNext_idle (h : q.state = .IDLE) :
    stateNext q i = .IDLE ∨ stateNext q i = .WAIT_GRANT := by
  simp only [stateNext, flushWaits, fsmNext, idleNext, h]
  split_ifs <;> simp_all

/-- Only the grant, and a flush, end the state `WAIT_GRANT`. -/
theorem stateNext_waitGrant (h : q.state = .WAIT_GRANT) :
    if i.dataGnt then
      stateNext q i = .PTE_LOOKUP ∨ stateNext q i = .WAIT_RVALID
    else stateNext q i = .WAIT_GRANT ∨ stateNext q i = .IDLE := by
  simp only [stateNext, flushWaits, fsmNext, waitGrantNext, h]
  split_ifs <;> simp_all

theorem stateNext_lookup (h : q.state = .PTE_LOOKUP) :
    if q.dataRvalid then
      stateNext q i = .IDLE ∨ stateNext q i = .WAIT_GRANT ∨
        stateNext q i = .PROPAGATE_ERROR
    else stateNext q i = .PTE_LOOKUP ∨ stateNext q i = .WAIT_RVALID := by
  simp only [stateNext, flushWaits, fsmNext, lookupNext, pointerNext, h]
  cases q.dataRvalid
  · split_ifs <;> simp_all
  · cases q.lvl <;> split_ifs <;> simp_all

theorem stateNext_waitRvalid (h : q.state = .WAIT_RVALID) :
    stateNext q i =
      if q.dataRvalid ∨ i.flush then .IDLE else .WAIT_RVALID := by
  simp only [stateNext, flushWaits, fsmNext, waitRvalidNext, h]
  cases q.dataRvalid <;> cases i.flush <;> rfl

theorem stateNext_error (h : q.state = .PROPAGATE_ERROR) :
    stateNext q i = .IDLE := by
  simp only [stateNext, flushWaits, fsmNext, h]
  split_ifs <;> simp_all

/-- While a request is sent or waited for, the address stays. -/
theorem ptwPptr_step
    (h : q.state = .WAIT_GRANT ∨ q.state = .PTE_LOOKUP ∧ q.dataRvalid = false) :
    (step q i).ptwPptr = q.ptwPptr := by
  simp only [step, fsmNext]
  rcases h with h | ⟨h, hv⟩
  · simp only [h, waitGrantNext]
    split_ifs <;> rfl
  · simp only [h, lookupNext, hv]
    rfl

end ArianeSoc.Ptw
