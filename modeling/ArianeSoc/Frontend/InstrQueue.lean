import ArianeSoc.CommonCells.FifoV3

/-!
# The instruction queue

`instr_queue.sv` for two instructions in a packet.  The instructions of a
packet go to two queues in turn, from the one that `idx_is` names; `idx_ds`
names the queue of the next instruction to decode.  A third queue has the
predicted targets.  The address of an instruction is not stored: `pc` is
computed from the instructions that leave.
-/

namespace ArianeSoc.Frontend

/-- `FETCH_FIFO_DEPTH` -/
def FETCH_FIFO_DEPTH : ℕ := 4

/-- `cf_t` -/
inductive Cf
  | NoCF | Branch | Jump | JumpR | Return
  deriving DecidableEq, Repr

/-- `instr_data_t` -/
structure InstrData where
  instr : BitVec 32
  cf : Cf
  ex : Bool
  deriving DecidableEq, Repr

/-- `fetch_entry_t`.  The cause of an exception is always
`INSTR_PAGE_FAULT`. -/
structure FetchEntry where
  address : BitVec 64
  instruction : BitVec 32
  predictAddress : BitVec 64
  cf : Cf
  exValid : Bool
  exTval : BitVec 64
  deriving DecidableEq, Repr

namespace InstrQueue

open CommonCells

/-- The registers of `instr_queue`. -/
structure State where
  instrFifo : BitVec 1 → FifoV3 InstrData
  addressFifo : FifoV3 (BitVec 64)
  idxIs : BitVec 1
  /-- one-hot -/
  idxDs : BitVec 2
  pc : BitVec 64
  resetAddress : Bool

def init : State where
  instrFifo := fun _ => FifoV3.init ⟨0#32, .NoCF, false⟩
  addressFifo := FifoV3.init 0#64
  idxIs := 0#1
  idxDs := 1#2
  pc := 0#64
  resetAddress := true

/-- The inputs of `instr_queue`. -/
structure In where
  flush : Bool
  instr : BitVec 1 → BitVec 32
  addr : BitVec 1 → BitVec 64
  valid : BitVec 2
  exception : Bool
  predictAddress : BitVec 64
  cfType : BitVec 1 → Cf
  fetchEntryReady : Bool

/-- The bit of a mask for one queue. -/
def bit (m : BitVec 2) (k : BitVec 1) : Bool := m.getLsbD k.toNat

/-- A mask from its bits. -/
def mask (f : BitVec 1 → Bool) : BitVec 2 :=
  BitVec.ofBool (f 1#1) ++ BitVec.ofBool (f 0#1)

variable (s : State) (i : In)

/-! ## Input -/

def taken : BitVec 2 := mask fun k => i.cfType k != .NoCF

/-- The number of trailing zeros, at most one. -/
def branchIndex : BitVec 1 := if bit (taken i) 0#1 then 0#1 else 1#1

def branchMask : BitVec 2 :=
  (3#3 <<< (branchIndex i).toNat).extractLsb' 1 2

def validMasked : BitVec 2 := i.valid &&& branchMask i

def instrQueueFull : BitVec 2 :=
  mask fun k => (s.instrFifo k).fullO FETCH_FIFO_DEPTH

def fifoPos : BitVec 2 :=
  ((validMasked i ++ validMasked i) <<< s.idxIs.toNat).extractLsb' 2 2

def pushInstr : BitVec 2 := fifoPos s i &&& ~~~instrQueueFull s

def instrDataIn (k : BitVec 1) : InstrData where
  instr := i.instr (k + s.idxIs)
  cf := i.cfType (k + s.idxIs)
  ex := i.exception

def pushAddress : Bool :=
  (bit (pushInstr s i) 0#1 && (instrDataIn s i 0#1).cf != .NoCF) ||
    (bit (pushInstr s i) 1#1 && (instrDataIn s i 1#1).cf != .NoCF)

def fullAddress : Bool := s.addressFifo.fullO FETCH_FIFO_DEPTH

def addressOverflow : Bool := fullAddress s && pushAddress s i

def pushInstrFifo : BitVec 2 :=
  if addressOverflow s i then 0#2 else pushInstr s i

def consumedO : BitVec 2 :=
  ((pushInstrFifo s i ++ pushInstrFifo s i) >>> s.idxIs.toNat).extractLsb'
    0 2

def popcount : ℕ :=
  (bit (pushInstrFifo s i) 0#1).toNat + (bit (pushInstrFifo s i) 1#1).toNat

def shamt : BitVec 1 := BitVec.ofNat 1 (popcount s i)

/-! ## Replay -/

def instrOverflow : Bool := instrQueueFull s &&& fifoPos s i != 0#2

def replayO : Bool := instrOverflow s i || addressOverflow s i

def replayAddrO : BitVec 64 :=
  if addressOverflow s i then i.addr 0#1 else i.addr (shamt s i)

/-! ## Output -/

def readyO : Bool := instrQueueFull s == 0#2 && !fullAddress s

def fetchEntryValidO : Bool :=
  !((s.instrFifo 0#1).emptyO && (s.instrFifo 1#1).emptyO)

/-- The entry as the queue `k` gives it. -/
def select (e : FetchEntry) (k : BitVec 1) : FetchEntry :=
  if bit s.idxDs k then
    { e with
      instruction := (s.instrFifo k).dataO.instr
      exValid := (s.instrFifo k).dataO.ex
      exTval := s.pc
      cf := (s.instrFifo k).dataO.cf }
  else e

def fetchEntryO : FetchEntry :=
  select s (select s
    { address := s.pc
      instruction := 0#32
      predictAddress := s.addressFifo.dataO
      cf := .NoCF
      exValid := false
      exTval := 0#64 } 0#1) 1#1

def popInstr (k : BitVec 1) : Bool :=
  bit s.idxDs k && (fetchEntryValidO s && i.fetchEntryReady)

def popAddress : Bool :=
  (fetchEntryO s).cf != .NoCF && (popInstr s i 0#1 || popInstr s i 1#1)

def idxDsD : BitVec 2 :=
  if i.fetchEntryReady then
    s.idxDs.extractLsb' 0 1 ++ s.idxDs.extractLsb' 1 1
  else s.idxDs

/-- Two or four bytes. -/
def size (instr : BitVec 32) : BitVec 64 :=
  if instr.extractLsb' 0 2 != 3#2 then 2#64 else 4#64

def resetsAddress : Bool := bit i.valid 0#1 && s.resetAddress

def pcD : BitVec 64 :=
  if resetsAddress s i then i.addr 0#1
  else if popAddress s i then s.addressFifo.dataO
  else if i.fetchEntryReady then s.pc + size (fetchEntryO s).instruction
  else s.pc

/-! ## A cycle -/

def instrFifoIn (k : BitVec 1) : FifoV3.In InstrData where
  flush := i.flush
  push := bit (pushInstrFifo s i) k
  data := instrDataIn s i k
  pop := popInstr s i k

def addressFifoIn : FifoV3.In (BitVec 64) where
  flush := i.flush
  push := pushAddress s i && !fullAddress s
  data := i.predictAddress
  pop := popAddress s i

def step : State where
  instrFifo := fun k =>
    (s.instrFifo k).next FETCH_FIFO_DEPTH (instrFifoIn s i k)
  addressFifo := s.addressFifo.next FETCH_FIFO_DEPTH (addressFifoIn s i)
  idxIs := if i.flush then 0#1 else s.idxIs + shamt s i
  idxDs := if i.flush then 1#2 else idxDsD s i
  pc := pcD s i
  resetAddress := i.flush || (s.resetAddress && !resetsAddress s i)

end InstrQueue

end ArianeSoc.Frontend
