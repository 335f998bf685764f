import ArianeSoc.Lsu.Bypass
import ArianeSoc.RiscvPkg

/-!
# The load unit

`load_unit.sv` sends the index of a load to the data cache as soon as the
load is at the head of the load/store unit and no store lies in the same
double word of its page.  In the cycle after the grant it sends the tag, in
the state `SEND_TAG`, or kills the request, in one of the two states
`ABORT_TRANSACTION`.

The processes `load_control` and `rvalid_output` are one definition for
each output and `stateNext` for the next state; `resultO` is the result
multiplexer behind them.
-/

namespace ArianeSoc.LoadUnit

open Lsu

/-- The states of the machine. -/
inductive Fsm
  | IDLE | WAIT_GNT | SEND_TAG | WAIT_PAGE_OFFSET | ABORT_TRANSACTION
  | ABORT_TRANSACTION_NC | WAIT_TRANSLATION | WAIT_FLUSH | WAIT_WB_EMPTY
  deriving DecidableEq, Repr

/-- What is kept of a load until its data arrive. -/
structure LoadData where
  transId : BitVec 3
  addressOffset : BitVec 3
  operator : FuOp
  deriving DecidableEq

/-- The registers. -/
structure State where
  state : Fsm
  loadData : LoadData
  idx : BitVec 3
  signed : Bool
  fpSign : Bool
  deriving DecidableEq

/-- The registers after a reset. -/
def reset : State := ⟨.IDLE, ⟨0#3, 0#3, .ADD⟩, 0#3, false, false⟩

/-- The inputs of one cycle. -/
structure In where
  flush : Bool
  valid : Bool
  lsuCtrl : LsuCtrl
  paddr : BitVec 56
  ex : ExceptionT
  dtlbHit : Bool
  pageOffsetMatches : Bool
  storeBufferEmpty : Bool
  commitTranId : BitVec 3
  dataGnt : Bool
  dataRvalid : Bool
  dataRdata : BitVec 64
  dcacheWbufferEmpty : Bool
  deriving DecidableEq

variable (cfg : ArianeCfg) (q : State) (i : In)

/-! ## The control -/

/-- `stall_nc`. -/
def stallNc : Bool :=
  !(i.dcacheWbufferEmpty || i.storeBufferEmpty) &&
      isInsideCacheableRegions cfg (i.paddr.setWidth 64) ||
    i.commitTranId != i.lsuCtrl.transId &&
      isInsideNonidempotentRegions cfg (i.paddr.setWidth 64)

/-- `in_data`. -/
def inData : LoadData :=
  ⟨i.lsuCtrl.transId, i.lsuCtrl.vaddr.extractLsb' 0 3, i.lsuCtrl.operator⟩

/-- `req_port_o.data_req`. -/
def dataReqO : Bool :=
  match q.state with
  | .IDLE | .SEND_TAG => i.valid && !i.pageOffsetMatches
  | .WAIT_GNT => true
  | _ => false

/-- `translation_req_o`. -/
def translationReqO : Bool :=
  match q.state with
  | .IDLE | .SEND_TAG => i.valid
  | .WAIT_TRANSLATION | .WAIT_GNT => true
  | _ => false

/-- `req_port_o.tag_valid`. -/
def tagValidO : Bool :=
  match q.state with
  | .SEND_TAG | .ABORT_TRANSACTION | .ABORT_TRANSACTION_NC | .WAIT_FLUSH => true
  | _ => false

/-- `req_port_o.kill_req`. -/
def killReqO : Bool :=
  match q.state with
  | .ABORT_TRANSACTION | .ABORT_TRANSACTION_NC | .WAIT_FLUSH => true
  | .SEND_TAG => i.ex.valid
  | _ => false

/-- The data cache takes the request. -/
def granted : Bool := dataReqO q i && i.dataGnt

/-- A granted request that goes on to its tag. -/
def accepts : Bool := granted q i && i.dtlbHit && !stallNc cfg i

/-- The load at the head ends in an exception. -/
def excepts : Bool := i.ex.valid && i.valid

/-- `pop_ld_o`. -/
def popLdO : Bool := accepts cfg q i || excepts i && !i.dataRvalid

/-- The state after a grant. -/
def grantedNext : Fsm :=
  if !i.dtlbHit then .ABORT_TRANSACTION
  else if stallNc cfg i then .ABORT_TRANSACTION_NC
  else .SEND_TAG

/-- The state after a load is looked at. -/
def offeredNext : Fsm :=
  if i.pageOffsetMatches then .WAIT_PAGE_OFFSET
  else if i.dataGnt then grantedNext cfg i
  else .WAIT_GNT

/-- The next state of the machine, but for exceptions and flushes. -/
def fsmNext : Fsm :=
  match q.state with
  | .IDLE | .SEND_TAG => if i.valid then offeredNext cfg i else .IDLE
  | .WAIT_PAGE_OFFSET =>
    if i.pageOffsetMatches then .WAIT_PAGE_OFFSET else .WAIT_GNT
  | .ABORT_TRANSACTION => .WAIT_TRANSLATION
  | .ABORT_TRANSACTION_NC => .WAIT_WB_EMPTY
  | .WAIT_WB_EMPTY =>
    if i.dcacheWbufferEmpty then .WAIT_TRANSLATION else .WAIT_WB_EMPTY
  | .WAIT_TRANSLATION => if i.dtlbHit then .WAIT_GNT else .WAIT_TRANSLATION
  | .WAIT_GNT => if i.dataGnt then grantedNext cfg i else .WAIT_GNT
  | .WAIT_FLUSH => .IDLE

/-- The next state of the machine. -/
def stateNext : Fsm :=
  if i.flush then .WAIT_FLUSH
  else if excepts i then .IDLE
  else fsmNext cfg q i

/-! ## The write-back -/

/-- The exception of the load at the head is written back, unless the data
of an older load arrive. -/
def exceptionRetires : Bool := excepts i && !i.dataRvalid

/-- `valid_o`. -/
def validO : Bool :=
  if exceptionRetires i then true
  else if q.state = .WAIT_TRANSLATION then false
  else i.dataRvalid && q.state ≠ .WAIT_FLUSH && (!killReqO q i || i.ex.valid)

/-- `trans_id_o`. -/
def transIdO : BitVec 3 :=
  if exceptionRetires i then i.lsuCtrl.transId else q.loadData.transId

/-- `ex_o`. -/
def exO : ExceptionT := i.ex

/-! ## The result -/

/-- `idx_d`: the byte that holds the sign. -/
def signIndex (d : LoadData) : BitVec 3 :=
  match d.operator with
  | .LW | .FLW => d.addressOffset + 3#3
  | .LH | .FLH => d.addressOffset + 1#3
  | _ => d.addressOffset

/-- `signed_d`. -/
def isSigned : FuOp → Bool
  | .LW | .LH | .LB => true
  | _ => false

/-- `fp_sign_d`. -/
def isFpNarrow : FuOp → Bool
  | .FLW | .FLH | .FLB => true
  | _ => false

/-- `sign_bit`. -/
def signBit (rdata : BitVec 64) : Bool :=
  q.signed && rdata.getLsbD (8 * q.idx.toNat + 7) || q.fpSign

/-- `shifted_data`. -/
def shiftedData (d : LoadData) (rdata : BitVec 64) : BitVec 64 :=
  rdata >>> (8 * d.addressOffset.toNat)

/-- The low bytes of the data below copies of the sign. -/
def extend (operator : FuOp) (sign : Bool) (data : BitVec 64) : BitVec 64 :=
  match operator with
  | .LW | .LWU | .FLW => BitVec.fill 32 sign ++ data.extractLsb' 0 32
  | .LH | .LHU | .FLH => BitVec.fill 48 sign ++ data.extractLsb' 0 16
  | .LB | .LBU | .FLB => BitVec.fill 56 sign ++ data.extractLsb' 0 8
  | _ => data

/-- `result_o`. -/
def resultO : BitVec 64 :=
  extend q.loadData.operator (signBit q i.dataRdata)
    (shiftedData q.loadData i.dataRdata)

/-! ## One cycle -/

/-- `load_data_d`. -/
def loadDataNext : LoadData :=
  if popLdO cfg q i ∧ i.ex.valid = false then inData i else q.loadData

def step : State where
  state := stateNext cfg q i
  loadData := loadDataNext cfg q i
  idx := signIndex (loadDataNext cfg q i)
  signed := isSigned (loadDataNext cfg q i).operator
  fpSign := isFpNarrow (loadDataNext cfg q i).operator

/-! ## What a state says about the cycle before -/

/-- The load at the head waits in this state. -/
def waits : Fsm → Bool
  | .IDLE | .SEND_TAG | .WAIT_FLUSH => false
  | _ => true

/-- The load has passed the comparison with the stores. -/
def checked : Fsm → Bool
  | .IDLE | .WAIT_PAGE_OFFSET | .WAIT_FLUSH => false
  | _ => true

variable {cfg q i}

theorem accepts_iff :
    accepts cfg q i = true ↔ dataReqO q i = true ∧ i.dataGnt = true ∧
      i.dtlbHit = true ∧ stallNc cfg i = false := by
  simp only [accepts, granted, Bool.and_eq_true, Bool.not_eq_true', and_assoc]

/-- The cycle before a waiting or tagging state neither flushes nor ends in
an exception. -/
theorem fsmNext_of_stateNext (h : waits (stateNext cfg q i) = true ∨
      stateNext cfg q i = .SEND_TAG) :
    i.flush = false ∧ excepts i = false ∧
      stateNext cfg q i = fsmNext cfg q i := by
  unfold stateNext at h ⊢
  split_ifs at h ⊢ with hf he
  · simp [waits] at h
  · simp [waits] at h
  · exact ⟨Bool.eq_false_iff.mpr hf, Bool.eq_false_iff.mpr he, rfl⟩

/-- A load is looked at, or waits to be. -/
def isOpen : Fsm → Bool
  | .IDLE | .WAIT_GNT | .WAIT_PAGE_OFFSET => true
  | _ => false

/-- A grant decides on the next state. -/
theorem fsmNext_of_granted (cfg : ArianeCfg) (hg : granted q i = true) :
    fsmNext cfg q i = grantedNext cfg i := by
  simp only [granted, dataReqO, Bool.and_eq_true] at hg
  unfold fsmNext offeredNext
  cases hq : q.state
  case IDLE | SEND_TAG =>
    simp only [hq, Bool.and_eq_true, Bool.not_eq_true'] at hg
    simp [hg.1.1, hg.1.2, hg.2]
  case WAIT_GNT => simp [hg.2]
  all_goals simp [hq] at hg

/-- Without a grant, and but for a flush, the unit goes on looking. -/
theorem isOpen_stateNext (hf : i.flush = false) (hg : granted q i = false)
    (hs : isOpen q.state = true ∨ q.state = .SEND_TAG ∨
      q.state = .WAIT_FLUSH) : isOpen (stateNext cfg q i) = true := by
  simp only [granted, dataReqO] at hg
  unfold stateNext fsmNext offeredNext
  simp only [hf, Bool.false_eq_true, if_false]
  cases hq : q.state
  case IDLE | SEND_TAG =>
    simp only [hq] at hg
    cases hv : i.valid <;> cases hm : i.pageOffsetMatches <;>
      cases hd : i.dataGnt <;> simp_all [isOpen] <;> split_ifs <;> rfl
  case WAIT_GNT =>
    simp only [hq, Bool.true_and] at hg
    simp only [hg]
    split_ifs <;> simp_all [isOpen]
  case WAIT_PAGE_OFFSET => simp only [isOpen]; split_ifs <;> rfl
  case WAIT_FLUSH => split_ifs <;> rfl
  all_goals simp [hq, isOpen] at hs

/-- The state after an aborted request, and while a translation is waited
for. -/
theorem stateNext_of_aborted (cfg : ArianeCfg) (hf : i.flush = false)
    (hs : q.state = .ABORT_TRANSACTION ∨ q.state = .ABORT_TRANSACTION_NC ∨
      q.state = .WAIT_WB_EMPTY ∨ q.state = .WAIT_TRANSLATION) :
    isOpen (stateNext cfg q i) = true ∨
      stateNext cfg q i = .WAIT_WB_EMPTY ∨
      stateNext cfg q i = .WAIT_TRANSLATION := by
  unfold stateNext fsmNext
  simp only [hf, Bool.false_eq_true, if_false]
  rcases hs with hq | hq | hq | hq <;> rw [hq] <;> split_ifs <;>
    simp [isOpen]

/-- The state `SEND_TAG` comes from a request that was accepted. -/
theorem grantedNext_eq_sendTag :
    grantedNext cfg i = .SEND_TAG ↔
      i.dtlbHit = true ∧ stallNc cfg i = false := by
  unfold grantedNext
  cases i.dtlbHit <;> cases stallNc cfg i <;> simp

theorem fsmNext_eq_sendTag :
    fsmNext cfg q i = .SEND_TAG ↔ accepts cfg q i = true := by
  rw [accepts_iff]
  unfold fsmNext dataReqO offeredNext
  cases q.state
  case IDLE | SEND_TAG =>
    cases i.valid <;> cases i.pageOffsetMatches <;> cases i.dataGnt <;>
      simp [grantedNext_eq_sendTag]
  case WAIT_GNT => cases i.dataGnt <;> simp [grantedNext_eq_sendTag]
  all_goals simp <;> split_ifs <;> simp

/-- A load that waits in the next cycle is not popped in this one. -/
theorem waits_of_stateNext (h : waits (stateNext cfg q i) = true) :
    i.flush = false ∧ popLdO cfg q i = false ∧
      (i.valid = true ∨ waits q.state = true) := by
  obtain ⟨hf, he, hnext⟩ := fsmNext_of_stateNext (Or.inl h)
  rw [hnext] at h
  have hacc : accepts cfg q i = false := by
    rw [Bool.eq_false_iff, Ne, ← fsmNext_eq_sendTag]
    intro hs
    simp [hs, waits] at h
  refine ⟨hf, by simp [popLdO, hacc, he], ?_⟩
  unfold fsmNext at h
  cases hq : q.state
  case IDLE | SEND_TAG =>
    simp only [hq] at h
    split_ifs at h with hv
    · exact Or.inl hv
    · simp [waits] at h
  case WAIT_FLUSH => simp [hq, waits] at h
  all_goals exact Or.inr rfl

/-- A load that has passed the comparison in the next cycle passes it in
this one or has passed it before. -/
theorem checked_of_stateNext (h : checked (stateNext cfg q i) = true) :
    i.pageOffsetMatches = false ∨
      waits q.state = true ∧ checked q.state = true := by
  have hfsm : checked (fsmNext cfg q i) = true := by
    unfold stateNext at h
    split_ifs at h
    · simp [checked] at h
    · simp [checked] at h
    · exact h
  unfold fsmNext offeredNext at hfsm
  cases hq : q.state
  case IDLE | SEND_TAG =>
    simp only [hq] at hfsm
    split_ifs at hfsm with hv hm
    all_goals first
      | exact Or.inl (Bool.eq_false_iff.mpr hm)
      | simp [checked] at hfsm
  case WAIT_PAGE_OFFSET =>
    simp only [hq] at hfsm
    split_ifs at hfsm with hm
    · simp [checked] at hfsm
    · exact Or.inl (Bool.eq_false_iff.mpr hm)
  case WAIT_FLUSH => simp [hq, checked] at hfsm
  all_goals exact Or.inr ⟨rfl, rfl⟩

/-- The cycle before `SEND_TAG` pops the load at the head. -/
theorem sendTag_of_stateNext (h : stateNext cfg q i = .SEND_TAG) :
    i.flush = false ∧ excepts i = false ∧ accepts cfg q i = true := by
  obtain ⟨hf, he, hnext⟩ := fsmNext_of_stateNext (Or.inr h)
  exact ⟨hf, he, fsmNext_eq_sendTag.mp (hnext ▸ h)⟩

end ArianeSoc.LoadUnit
