import ArianeSoc.CommonCells.FifoV3
import ArianeSoc.Core.DualCommit
import ArianeSoc.Issue.InOrder
import ArianeSoc.Lsu.StoreOrder
import ArianeSoc.Lsu.StoreQueue
import ArianeSoc.Lsu.StoreUnit

/-!
# The way of an atomic

`amo_buffer.sv` is a queue of one cell.  The store unit posts an atomic to
it, and it asks the data cache for the atomic while the commit stage waits
for it and no committed store is left.  The acknowledge of the cache takes
the atomic away; a flush does so unless the commit stage waits for it.

The scoreboard, the store unit with its two buffers, the commit stage, the
CSR file and the controller, wired as in `ariane.sv`, `ex_stage.sv` and
`load_store_unit.sv`.  A store that is issued waits in the load/store unit
until it is at the head there and the store unit takes it; the loads before
and between the stores only make it wait longer.  The other units write
back to their own instructions.

Beside the registers, `State` carries the abstract queue of the scoreboard,
which numbers the instructions in program order, and what is known of the
stores under these numbers.

The atomic at the front is what the second half is about: as long as it has
no acknowledge, nothing flushes the pipeline and nothing halts the core.
-/

namespace ArianeSoc.AmoBuffer

open Lsu CommonCells

/-- `amo_op_t`. -/
structure AmoOp where
  op : AmoT
  paddr : BitVec 56
  data : BitVec 64
  size : BitVec 2
  deriving DecidableEq

/-- `amo_req_t`. -/
structure AmoReq where
  req : Bool
  amoOp : AmoT
  size : BitVec 2
  operandA : BitVec 64
  operandB : BitVec 64
  deriving DecidableEq

/-- The request for an atomic. -/
def AmoOp.request (a : AmoOp) (req : Bool) : AmoReq :=
  ⟨req, a.op, a.size, a.paddr.setWidth 64, a.data⟩

abbrev State := FifoV3 AmoOp

def reset : State := FifoV3.init ⟨.AMO_NONE, 0#56, 0#64, 0#2⟩

/-- The inputs of one cycle. -/
structure In where
  flush : Bool
  valid : Bool
  amoIn : AmoOp
  ack : Bool
  amoValidCommit : Bool

/-- `ready_o`. -/
def readyO (q : State) : Bool := q.emptyO

/-- `amo_valid`. -/
def amoValid (q : State) : Bool := q.fullO 1

/-- `amo_req_o`. -/
def amoReqO (q : State) (amoValidCommit noStPending : Bool) : AmoReq :=
  q.dataO.request (noStPending && amoValidCommit && amoValid q)

/-- `flush_amo_buffer`: an atomic that commits is not speculative any
more. -/
def flushAmoBuffer (i : In) : Bool := i.flush && !i.amoValidCommit

/-- The inputs of the queue. -/
def fifoIn (i : In) : FifoV3.In AmoOp where
  flush := flushAmoBuffer i
  push := i.valid
  data := i.amoIn
  pop := i.ack

def step (q : State) (i : In) : State := q.next 1 (fifoIn i)

end ArianeSoc.AmoBuffer

namespace ArianeSoc.StoreUnit

open Lsu AmoBuffer

variable {s c : Nat} (q : State s c) (i : In)

/-- `amo_buffer_valid`. -/
def amoBufferValid : Bool := stValid q i && q.amoOp ≠ .AMO_NONE

/-- What the store unit posts to the buffer. -/
def amoIn : AmoOp := ⟨q.amoOp, i.paddr, q.stData, q.stDataSize⟩

/-- The atomic of a request at the address of its translation. -/
def amoOf (l : LsuCtrl) (paddr : BitVec 56) : AmoOp :=
  ⟨amoOp l.operator, paddr, l.data, extractTransferSize l.operator⟩

variable {q i}

/-- An atomic is posted in the state `VALID_STORE`, without a flush and
without an exception. -/
theorem amoBufferValid_iff :
    amoBufferValid q i = true ↔ q.state = .VALID_STORE ∧ i.flush = false ∧
      i.ex.valid = false ∧ q.amoOp ≠ .AMO_NONE := by
  unfold amoBufferValid stValid excepts
  simp only [Bool.and_eq_true, decide_eq_true_eq, Bool.not_eq_true']
  constructor
  · rintro ⟨⟨⟨hs, hf⟩, he⟩, ha⟩
    refine ⟨hs, hf, ?_, ha⟩
    simpa [hs] using he
  · rintro ⟨hs, hf, he, ha⟩
    exact ⟨⟨⟨hs, hf⟩, by simp [he]⟩, ha⟩

/-- An atomic is taken in the state `IDLE` only. -/
theorem idle_of_accepts_amo (h : accepts q i = true)
    (ha : isAmo i.lsuCtrl.operator = true) : q.state = .IDLE := by
  simp only [accepts, Bool.and_eq_true] at h
  have ho := h.1.1
  unfold offered at ho
  split at ho
  · assumption
  · simp [ha] at ho
  · exact absurd ho Bool.false_ne_true

end ArianeSoc.StoreUnit

namespace ArianeSoc.AmoPath

open Lsu
open Scoreboard (Rec Queue offered)

/-- A store for the store unit, with the number of its instruction. -/
structure Request where
  serial : ℕ
  ctrl : LsuCtrl
  deriving DecidableEq

/-- A request that was posted to the buffer of the atomics. -/
structure Posted where
  request : Request
  paddr : BitVec 56
  deriving DecidableEq

/-- What is posted. -/
def Posted.amo (p : Posted) : AmoBuffer.AmoOp :=
  StoreUnit.amoOf p.request.ctrl p.paddr

structure State (s c : ℕ) where
  sb : Scoreboard.State 3
  unit : StoreUnit.State s c
  amo : AmoBuffer.State
  csr : Csr.State
  /-- `fence_active_q` and `flush_dcache_o` of the controller. -/
  fenceActive : Bool
  flushDcache : Bool
  /-- The stores that wait in the load/store unit, oldest first. -/
  requests : List Request
  /-- The abstract queue of the scoreboard. -/
  queue : Queue 3
  /-- The store that is in the state `VALID_STORE`. -/
  taken : Option Request
  /-- The atomic in the buffer. -/
  buffered : List Posted
  /-- The stores that were issued. -/
  sent : List Request
  /-- The numbers of the atomics that were acknowledged. -/
  acked : List ℕ
  /-- How many stores committed, and how many were written. -/
  storesCommitted : ℕ
  storesWritten : ℕ

def reset (s c : ℕ) : State s c where
  sb := Scoreboard.reset 3
  unit := StoreUnit.reset s c
  amo := AmoBuffer.reset
  csr := Csr.reset
  fenceActive := false
  flushDcache := false
  requests := []
  queue := Queue.empty
  taken := none
  buffered := []
  sent := []
  acked := []
  storesCommitted := 0
  storesWritten := 0

/-- The inputs of one cycle. -/
structure Env where
  dec : Decoder.In
  decodedInstrValid : Bool
  unresolvedBranch : Bool
  issueAck : Bool
  wb : List (Scoreboard.WbPort 3)
  targetAddress : BitVec 64
  isMispredict : Bool
  flushDcacheAck : Bool
  /-- The operands of a store that is issued. -/
  ctrl : LsuCtrl
  /-- The oldest store is at the head of the load/store unit; what is there
  otherwise. -/
  offer : Bool
  other : LsuCtrl
  paddr : BitVec 56
  ex : ExceptionT
  dtlbHit : Bool
  dataGnt : Bool
  /-- The data cache acknowledges the atomic it is asked for. -/
  ack : Bool
  /-- The lines into the CSR file. -/
  csrAddr : BitVec 12
  timeIrq : Bool
  bootAddr : BitVec 64
  hartId : BitVec 64
  irq : BitVec 2
  ipi : Bool
  debugReq : Bool
  perfData : BitVec 64

variable {s c : ℕ} (cfg : Csr.Cfg) (wtDcache : Bool) (t : State s c) (e : Env)

/-! ## The commit stage, the CSR file and the controller -/

/-- The inputs of the commit stage. -/
def commitIn (ack : Bool) (csrException : ExceptionT) : CommitStage.In where
  halt := t.csr.wfi || t.fenceActive
  flushDcache := t.flushDcache
  singleStep := Dcsr.step.get t.csr.dcsr = 1#1
  commitInstr0 := Scoreboard.commitInstr0 t.sb
  commitInstr1 := Scoreboard.commitInstr1 t.sb
  amoRespAck := ack
  csrException := csrException
  commitLsuReady := StoreBuffer.commitReadyO t.unit.buffer
  noStPending := StoreBuffer.noStPendingO t.unit.buffer

/-- `amo_valid_commit`, which depends on no response. -/
def amoValidCommit : Bool :=
  CommitStage.amoValidCommitO (commitIn t false ExceptionT.none)

/-- `amo_req`. -/
def amoReq : AmoBuffer.AmoReq :=
  AmoBuffer.amoReqO t.amo (amoValidCommit t)
    (StoreBuffer.noStPendingO t.unit.buffer)

/-- `amo_resp.ack`: the data cache answers a request. -/
def ack : Bool := e.ack && (amoReq t).req

/-- The inputs of the CSR file for an exception that it reports itself. -/
def csrInWith (csrException : ExceptionT) : Csr.In :=
  let c := commitIn t (ack t e) csrException
  { timeIrq := e.timeIrq
    commitInstr0 :=
      { fu := c.commitInstr0.fu
        pc := c.commitInstr0.pc
        isCompressed := c.commitInstr0.isCompressed
        predictAddress := c.commitInstr0.predictAddress }
    commitAck := CommitStage.commitAckO c
    bootAddr := e.bootAddr
    hartId := e.hartId
    ex := CommitStage.exceptionO c
    csrOp := CommitStage.csrOpO c
    csrAddr := e.csrAddr
    csrWdata := CommitStage.csrWdataO c
    dirtyFpState := CommitStage.dirtyFpStateO c
    csrWriteFflags := CommitStage.csrWriteFflagsO c
    pc := c.commitInstr0.pc
    irq := e.irq
    ipi := e.ipi
    debugReq := e.debugReq
    perfData := e.perfData }

/-- The exception of the CSR file; it depends on the operation only. -/
def csrException : ExceptionT :=
  Csr.csrExceptionO cfg t.csr (csrInWith t e ExceptionT.none)

/-- The inputs of the CSR file. -/
def csrIn : Csr.In := csrInWith t e (csrException cfg t e)

/-- The inputs of the commit stage in a cycle. -/
def commitStageIn : CommitStage.In :=
  commitIn t (ack t e) (csrException cfg t e)

/-- The inputs of the controller. -/
def controllerIn : Controller.In where
  fenceActive := t.fenceActive
  flushDcacheAck := e.flushDcacheAck
  eret := Csr.eretO (csrIn cfg t e)
  exValid := (CommitStage.exceptionO (commitStageIn cfg t e)).valid
  setDebugPc := Csr.setDebugPcO t.csr (csrIn cfg t e)
  isMispredict := e.isMispredict
  flushCsr := Csr.flushO cfg t.csr (csrIn cfg t e)
  fenceI := CommitStage.fenceIO (commitStageIn cfg t e)
  fence := CommitStage.fenceO (commitStageIn cfg t e)
  sfenceVma := CommitStage.sfenceVmaO (commitStageIn cfg t e)
  flushCommit := CommitStage.flushCommitO (commitStageIn cfg t e)

/-- The outputs of the controller. -/
def control : Controller.Out :=
  Controller.flushCtrl wtDcache (controllerIn cfg t e)

/-- The pipeline is flushed. -/
def flush : Bool := (control cfg wtDcache t e).flushEx

/-! ## The store unit and its buffers -/

/-- The oldest store is at the head of the load/store unit; it stays there
while the store unit waits for its translation or for room. -/
def atHead : Option Request :=
  if e.offer || StoreUnit.waits t.unit.state then t.requests.head? else none

/-- The inputs of the store unit. -/
def storeIn : StoreUnit.In where
  flush := flush cfg wtDcache t e
  valid := (atHead t e).isSome
  lsuCtrl := (atHead t e).elim e.other Request.ctrl
  commit := CommitStage.commitLsuO (commitStageIn cfg t e)
  paddr := e.paddr
  ex := e.ex
  dtlbHit := e.dtlbHit
  dataGnt := e.dataGnt
  amoBufferReady := AmoBuffer.readyO t.amo

/-- The inputs of the buffer of the atomics. -/
def amoBufferIn : AmoBuffer.In where
  flush := flush cfg wtDcache t e
  valid := StoreUnit.amoBufferValid t.unit (storeIn cfg wtDcache t e)
  amoIn := StoreUnit.amoIn t.unit (storeIn cfg wtDcache t e)
  ack := ack t e
  amoValidCommit := CommitStage.amoValidCommitO (commitStageIn cfg t e)

/-! ## The scoreboard -/

/-- The write-back of the store unit. -/
def storePort : Scoreboard.WbPort 3 where
  valid := StoreUnit.validO t.unit (storeIn cfg wtDcache t e)
  transId := t.unit.transId
  wbdata := 0#64
  ex := e.ex

/-- The write-backs of the other units. -/
def otherPorts : List (Scoreboard.WbPort 3) :=
  e.wb.filter fun p => (t.sb.mem p.transId).sbe.fu ≠ .STORE

/-- The inputs of the scoreboard. -/
def scoreboardIn : Scoreboard.In 3 where
  flushUnissuedInstr := (control cfg wtDcache t e).flushUnissuedInstr
  flush := (control cfg wtDcache t e).flushId
  unresolvedBranch := e.unresolvedBranch
  decodedInstr := Decoder.decoder e.dec
  decodedInstrValid := e.decodedInstrValid
  issueAck := e.issueAck
  wb := storePort cfg wtDcache t e :: otherPorts t e
  targetAddress := e.targetAddress
  commitAck0 := CommitStage.commitAck0 (commitStageIn cfg t e)
  commitAck1 := CommitStage.commitAck1 (commitStageIn cfg t e)

/-- A store without an exception is issued, which sends it to the
load/store unit. -/
def sends : Bool :=
  Scoreboard.issueEn t.sb (scoreboardIn cfg wtDcache t e) &&
    (Decoder.decoder e.dec).fu = .STORE && !(Decoder.decoder e.dec).ex.valid

/-- The store that is sent. -/
def newRequest : Request where
  serial := t.queue.q.issued.length
  ctrl :=
    { e.ctrl with
      valid := true
      fu := .STORE
      operator := (Decoder.decoder e.dec).op
      transId := t.sb.issuePointer }

/-- The store that leaves the load/store unit. -/
def popped : Option Request :=
  if StoreUnit.popStO t.unit (storeIn cfg wtDcache t e) then atHead t e
  else none

/-! ## One cycle -/

/-- The stores that are sent in a cycle. -/
def sending : List Request :=
  if sends cfg wtDcache t e then [newRequest t e] else []

/-- The atomic in the buffer after a cycle. -/
def bufferedNext : List Posted :=
  let i := amoBufferIn cfg wtDcache t e
  if AmoBuffer.flushAmoBuffer i then []
  else (if i.ack then t.buffered.tail else t.buffered) ++
    if i.valid then t.taken.toList.map fun y => ⟨y, e.paddr⟩ else []

def step : State s c :=
  let i := storeIn cfg wtDcache t e
  let o := control cfg wtDcache t e
  { sb := Scoreboard.step t.sb (scoreboardIn cfg wtDcache t e)
    unit := StoreUnit.step t.unit i
    amo := AmoBuffer.step t.amo (amoBufferIn cfg wtDcache t e)
    csr := Csr.step cfg t.csr (csrIn cfg t e)
    fenceActive := o.fenceActive
    flushDcache := o.flushDcache
    requests :=
      if i.flush then []
      else t.requests.drop (popped cfg wtDcache t e).toList.length ++
        sending cfg wtDcache t e
    queue := t.queue.step (scoreboardIn cfg wtDcache t e)
    taken :=
      if StoreUnit.stateNext t.unit i = .VALID_STORE then atHead t e else none
    buffered := bufferedNext cfg wtDcache t e
    sent := t.sent ++ sending cfg wtDcache t e
    acked := t.acked ++
      if ack t e then t.buffered.map (·.request.serial) else []
    storesCommitted := t.storesCommitted + i.commit.toNat
    storesWritten := t.storesWritten + (StoreBuffer.granted t.unit.buffer
      (StoreUnit.bufferIn t.unit i)).toNat }

/-! ## The atomic at the front -/

variable {cfg wtDcache t e}

/-- The commit stage waits for an atomic exactly if one without an exception
is at the front and the core is not halted. -/
theorem amoValidCommit_iff :
    amoValidCommit t = true ↔
      (Scoreboard.commitInstr0 t.sb).valid = true ∧
        (Scoreboard.commitInstr0 t.sb).ex.valid = false ∧
        isAmo (Scoreboard.commitInstr0 t.sb).op = true ∧
        t.csr.wfi = false ∧ t.fenceActive = false := by
  simp only [amoValidCommit, CommitStage.amoValidCommitO, Bool.and_eq_true,
    CommitStage.commits0_iff, commitIn, Bool.or_eq_false_iff]
  tauto

section Front

variable (h : amoValidCommit t = true)
  (hfu : (Scoreboard.commitInstr0 t.sb).fu = .STORE)

include h

theorem commits0_of_amo :
    CommitStage.commits0 (commitStageIn cfg t e) = true := by
  have hc : CommitStage.amoValidCommitO (commitStageIn cfg t e) = true := h
  exact (Bool.and_eq_true_iff.mp hc).1

/-- The atomic is acknowledged by the commit stage with the response of the
data cache. -/
theorem commitAck0_of_amo :
    CommitStage.commitAck0 (commitStageIn cfg t e) = ack t e := by
  have ha : isAmo (commitStageIn cfg t e).commitInstr0.op = true :=
    (amoValidCommit_iff.mp h).2.2.1
  unfold CommitStage.commitAck0
  dsimp only
  rw [commits0_of_amo h, if_pos ha]
  rfl

include hfu

omit h in
/-- No operation reaches the CSR file. -/
theorem csrOp_of_amo : (csrIn cfg t e).csrOp = .ADD := by
  refine if_neg fun hc => ?_
  exact absurd (hfu.symm.trans hc.2) (by decide)

variable (cfg e) in
/-- An atomic is no fence. -/
theorem fences_of_amo :
    (controllerIn cfg t e).fence = false ∧
      (controllerIn cfg t e).fenceI = false ∧
      (controllerIn cfg t e).sfenceVma = false := by
  have ha : isAmo (commitStageIn cfg t e).commitInstr0.op = true :=
    (amoValidCommit_iff.mp h).2.2.1
  have hfu' : (commitStageIn cfg t e).commitInstr0.fu = .STORE := hfu
  have hop : ∀ op, isAmo op = false →
      (commitStageIn cfg t e).commitInstr0.op ≠ op := by
    rintro op hno rfl
    exact absurd (ha.symm.trans hno) (by decide)
  have hfence := hop .FENCE rfl
  have hfenceI := hop .FENCE_I rfl
  have hsfence := hop .SFENCE_VMA rfl
  refine ⟨?_, ?_, ?_⟩
  · simp [controllerIn, CommitStage.fenceO, hfence]
  · simp [controllerIn, CommitStage.fenceIO, hfenceI, hfu']
  · simp [controllerIn, CommitStage.sfenceVmaO, hsfence]

variable (cfg wtDcache) in
/-- Nothing flushes the pipeline before the response. -/
theorem flush_of_amo (hack : ack t e = false) :
    flush cfg wtDcache t e = false := by
  have ha : isAmo (commitStageIn cfg t e).commitInstr0.op = true :=
    (amoValidCommit_iff.mp h).2.2.1
  have hadd : (csrIn cfg t e).csrOp = .ADD := csrOp_of_amo hfu
  have hex : (CommitStage.exceptionO (commitStageIn cfg t e)).valid =
      false := CommitStage.exceptionO_of_amo (commits0_of_amo h) ha
  obtain ⟨hfence, hfenceI, hsfence⟩ :=
    fences_of_amo cfg e h hfu
  have hdebug : Csr.setDebugPcO t.csr (csrIn cfg t e) = false := by
    have h0 : CommitStage.commitAck0 (commitStageIn cfg t e) = false :=
      (commitAck0_of_amo h).trans hack
    have hack0 : (csrIn cfg t e).commitAck.getLsbD 0 = false := by
      show (CommitStage.commitAckO (commitStageIn cfg t e)).getLsbD 0 = false
      rw [CommitStage.commitAckO, h0]
      cases CommitStage.commitAck1 (commitStageIn cfg t e) <;> rfl
    have hex' : (csrIn cfg t e).ex.valid = false := hex
    unfold Csr.setDebugPcO Csr.stepping
    rw [hex', hack0]
    simp
  rw [← Bool.not_eq_true]
  unfold flush control
  rw [Controller.flushEx_iff]
  rintro (hf | hf | hf | hf | hf | hf | hf | hf)
  · exact absurd (hf.symm.trans hfence) (by decide)
  · exact absurd (hf.symm.trans hfenceI) (by decide)
  · exact absurd (hf.symm.trans hsfence) (by decide)
  · exact absurd (hf.symm.trans (Csr.flushO_of_add hadd)) (by decide)
  · have hreq : ack t e = true := (Bool.and_eq_true_iff.mp hf).2
    exact absurd (hreq.symm.trans hack) (by decide)
  · exact absurd (hf.symm.trans hex) (by decide)
  · exact absurd hf (by simp [controllerIn, Csr.eretO, hadd])
  · exact absurd (hf.symm.trans hdebug) (by decide)

variable (cfg wtDcache e) in
/-- Nothing halts the core. -/
theorem halt_of_amo :
    (step cfg wtDcache t e).csr.wfi = false ∧
      (step cfg wtDcache t e).fenceActive = false := by
  obtain ⟨-, -, -, hwfi, hactive⟩ := amoValidCommit_iff.mp h
  have hadd : (csrIn cfg t e).csrOp = .ADD := csrOp_of_amo hfu
  obtain ⟨hfence, hfenceI, -⟩ :=
    fences_of_amo cfg e h hfu
  constructor
  · show Csr.wfiNext t.csr (csrIn cfg t e) = false
    simp [Csr.wfiNext, hadd, hwfi]
  · exact Controller.fenceActive_of_idle hactive hfence hfenceI

end Front

end ArianeSoc.AmoPath
