import ArianeSoc.Csr.State

/-!
# The next state of `csr_regfile`

`csr_update` is one combinational block that overwrites the next values
(`_d`) from top to bottom, reading the registers (`_q`) throughout.  Each
part of the block is a function here, from the registers `q`, the inputs
and the next values so far to the next values:

* `defaults`: the counters and the reset value of `mtvec`;
* `csrWrite`: the write case;
* `hardwired`: the fields of `mstatus` that hardware keeps, the floating
  point flags and the machine interrupt lines;
* `takeTrap`: the exception stack;
* `enterDebug`: the debug entries;
* `loadStore` and `xret`: the translation flag and MRET, SRET, DRET.

`latch` is the sequential process and `step` the whole cycle.
-/

namespace ArianeSoc.Csr

/-- The next values together with the flags that the write case raises. -/
structure Upd where
  d : State
  updateAccessException : Bool
  dirtyFpStateCsr : Bool
  flush : Bool
  perf : Option (BitVec 64)

/-! ## The parts of `csr_update` -/

/-- The next values before anything is written.  The counters stop in debug
mode, and `mtvec` takes the boot address in the first cycle after reset. -/
def defaults (q : State) (i : In) : State :=
  let retired (n : Nat) : BitVec 64 :=
    if i.commitAck.getLsbD n ∧ i.ex.valid = false then 1#64 else 0#64
  { q with
    mtvec := if q.mtvecRstLoad then i.bootAddr + 0x40#64 else q.mtvec
    instret := if q.debugMode then q.instret
      else q.instret + retired 0 + retired 1
    cycle := if q.debugMode then q.cycle else q.cycle + 1#64 }

/-- The configuration of entry `k` after a write of `w` to the CSR that
packs entries `8 * b` to `8 * b + 7`. -/
def writePmpcfg (q : State) (b : Fin 2) (w : BitVec 64) (k : Fin 16) :
    PmpCfg :=
  if k.val / 8 = b.val ∧ (q.pmpcfg k).locked = false then
    w.extractLsb' (k.val % 8 * 8) 8
  else q.pmpcfg k

/-- The entry above `k` is a locked TOR entry, so that `pmpaddr[k]` is the
lower bound of a locked region.  Entry 15 has no entry above it. -/
def nextLockedTor (q : State) (k : Fin 16) : Bool :=
  if h : k.val + 1 < 16 then
    (q.pmpcfg ⟨k.val + 1, h⟩).locked ∧
      (q.pmpcfg ⟨k.val + 1, h⟩).addrMode = .TOR
  else false

/-- The address of entry `j` after a write of `w` to `pmpaddr[k]`. -/
def writePmpaddr (q : State) (k : Fin 16) (w : BitVec 64) (j : Fin 16) :
    BitVec 54 :=
  if j = k ∧ (q.pmpcfg k).locked = false ∧ nextLockedTor q k = false then
    w.setWidth 54
  else q.pmpaddr j

/-- `mtvec` after a write: the vectored mode asks for an alignment of 256
bytes. -/
def legalMtvec (w : BitVec 64) : BitVec 64 :=
  if w.getLsbD 0 then w.extractLsb' 8 56 ++ 0#7 ++ w.extractLsb' 0 1
  else w.extractLsb' 2 62 ++ 0#1 ++ w.extractLsb' 0 1

/-- `dcsr` after a write. -/
def legalDcsr (q : State) (w : BitVec 64) : BitVec 32 :=
  Dcsr.stoptime.set 0#1 (Dcsr.stopcount.set 0#1 (Dcsr.nmip.set 0#1
    (Dcsr.prv.set q.privLvl (Dcsr.xdebugver.set 0x4#4 (w.setWidth 32)))))

/-- `mstatus` after a write. -/
def legalMstatus (w : BitVec 64) : BitVec 64 :=
  Mstatus.uie.set 0#1 (Mstatus.upie.set 0#1 (Mstatus.xs.set XS_OFF w))

/-- `satp` after a write: only the implemented ASID bits stick, and a mode
other than bare and SV39 leaves the register alone. -/
def legalSatp (cfg : Cfg) (q : State) (w : BitVec 64) : BitVec 64 :=
  let sapt := Satp.asid.set
    (Satp.asid.get w &&& (BitVec.allOnes cfg.asidWidth).setWidth 16) w
  if Satp.mode.get sapt = MODE_OFF ∨ Satp.mode.get sapt = MODE_SV39 then
    sapt
  else q.satp

def MEDELEG_MASK : BitVec 64 :=
  1#64 <<< INSTR_ADDR_MISALIGNED ||| 1#64 <<< BREAKPOINT |||
    1#64 <<< ENV_CALL_UMODE ||| 1#64 <<< INSTR_PAGE_FAULT |||
    1#64 <<< LOAD_PAGE_FAULT ||| 1#64 <<< STORE_PAGE_FAULT

/-- The supervisor interrupts, the mask of the writes to `mideleg` and
`mip`. -/
def S_IRQ_MASK : BitVec 64 := MIP_SSIP ||| MIP_STIP ||| MIP_SEIP

def MIE_MASK : BitVec 64 :=
  MIP_SSIP ||| MIP_STIP ||| MIP_SEIP ||| MIP_MSIP ||| MIP_MTIP ||| MIP_MEIP

/-- A write to a floating-point CSR. -/
def fpWrite (q : State) (u : Upd) (fcsr : BitVec 32) : Upd :=
  if Mstatus.fs.get q.mstatus = XS_OFF then
    { u with updateAccessException := true }
  else
    { u with
      d := { u.d with fcsr := fcsr }, dirtyFpStateCsr := true, flush := true }

/-- The write case: the register `r` is written with `w`. -/
def writeReg (cfg : Cfg) (q : State) (u : Upd) (w : BitVec 64) :
    CsrReg → Upd
  | .FFLAGS => fpWrite q u (Fcsr.fflags.set (w.setWidth 5) q.fcsr)
  | .FRM => fpWrite q u (Fcsr.frm.set (w.setWidth 3) q.fcsr)
  | .FCSR => fpWrite q u (BitField.set ⟨0⟩ (w.setWidth 8) q.fcsr)
  | .FTRAN => fpWrite q u (Fcsr.fprec.set (w.setWidth 7) q.fcsr)
  | .DCSR => { u with d := { u.d with dcsr := legalDcsr q w } }
  | .USCRATCH => { u with d := { u.d with uscratch := w } }
  | .UIE => { u with d := { u.d with uie := w } }
  | .UTVEC => { u with d := { u.d with utvec := w } }
  | .UTVAL => { u with d := { u.d with utval := w } }
  | .UIP => { u with d := { u.d with uip := w } }
  | .DPC => { u with d := { u.d with dpc := w } }
  | .DSCRATCH0 => { u with d := { u.d with dscratch0 := w } }
  | .DSCRATCH1 => { u with d := { u.d with dscratch1 := w } }
  | .TSELECT | .TDATA1 | .TDATA2 | .TDATA3 => u
  | .SSTATUS =>
    { u with
      d := { u.d with
        mstatus := BitField.merge SMODE_STATUS_WRITE_MASK q.mstatus w }
      flush := true }
  | .SIE =>
    { u with
      d := { u.d with mie := BitField.merge q.mideleg q.mie w ||| q.utval } }
  | .SIP =>
    { u with
      d := { u.d with mip := BitField.merge (MIP_SSIP &&& q.mideleg) q.mip w } }
  | .STVEC =>
    { u with
      d := { u.d with stvec := w.extractLsb' 2 62 ++ 0#1 ++ w.extractLsb' 0 1 } }
  | .SCOUNTEREN =>
    { u with d := { u.d with scounteren := (w.setWidth 32).setWidth 64 } }
  | .SSCRATCH => { u with d := { u.d with sscratch := w } }
  | .SEPC => { u with d := { u.d with sepc := w.extractLsb' 1 63 ++ 0#1 } }
  | .SCAUSE => { u with d := { u.d with scause := w } }
  | .STVAL => { u with d := { u.d with stval := w } }
  | .SATP =>
    if privLvlO q = PRIV_LVL_S ∧ Mstatus.tvm.get q.mstatus = 1#1 then
      { u with updateAccessException := true, flush := true }
    else
      { u with d := { u.d with satp := legalSatp cfg q w }, flush := true }
  | .MSTATUS =>
    { u with d := { u.d with mstatus := legalMstatus w }, flush := true }
  | .MISA => u
  | .MEDELEG =>
    { u with
      d := { u.d with medeleg := BitField.merge MEDELEG_MASK q.medeleg w } }
  | .MIDELEG =>
    { u with
      d := { u.d with mideleg := BitField.merge S_IRQ_MASK q.mideleg w } }
  | .MIE => { u with d := { u.d with mie := BitField.merge MIE_MASK q.mie w } }
  | .MTVEC => { u with d := { u.d with mtvec := legalMtvec w } }
  | .MCOUNTEREN =>
    { u with d := { u.d with mcounteren := (w.setWidth 32).setWidth 64 } }
  | .MSCRATCH => { u with d := { u.d with mscratch := w } }
  | .MEPC => { u with d := { u.d with mepc := w.extractLsb' 1 63 ++ 0#1 } }
  | .MCAUSE => { u with d := { u.d with mcause := w } }
  | .MTVAL => { u with d := { u.d with mtval := w } }
  | .MIP =>
    { u with d := { u.d with mip := BitField.merge S_IRQ_MASK q.mip w } }
  | .MCYCLE => { u with d := { u.d with cycle := w } }
  -- the write case assigns a local copy that was read before it
  | .MINSTRET => u
  | .MHPM _ => { u with perf := some w }
  | .DCACHE => { u with d := { u.d with dcache := (w.setWidth 1).setWidth 64 } }
  | .ICACHE => { u with d := { u.d with icache := (w.setWidth 1).setWidth 64 } }
  | .PMPCFG0 =>
    { u with d := { u.d with pmpcfg := writePmpcfg q LOW_ENTRIES w } }
  | .PMPCFG2 =>
    { u with d := { u.d with pmpcfg := writePmpcfg q HIGH_ENTRIES w } }
  | .PMPADDR k => { u with d := { u.d with pmpaddr := writePmpaddr q k w } }
  -- the identification and user counter registers have no write case
  | .MVENDORID | .MARCHID | .MIMPID | .MHARTID | .CYCLE | .INSTRET =>
    { u with updateAccessException := true }

/-- The next values after the write case. -/
def csrWrite (cfg : Cfg) (q : State) (i : In) : Upd :=
  let u : Upd := ⟨defaults q i, false, false, false, none⟩
  if (csrOpLogic q i).we then
    match CsrReg.ofAddr i.csrAddr with
    | some r => writeReg cfg q u (csrWdata q i) r
    | none => { u with updateAccessException := true }
  else u

/-- The fields that hardware keeps. -/
def hardwired (q : State) (i : In) (u : Upd) : State :=
  let m := Mstatus.uxl.set XLEN_64 (Mstatus.sxl.set XLEN_64 u.d.mstatus)
  let m := if u.dirtyFpStateCsr ∨ i.dirtyFpState then
    Mstatus.fs.set XS_DIRTY m else m
  let m := Mstatus.sd.set (BitVec.ofBool
    (Mstatus.xs.get q.mstatus = XS_DIRTY ∨
      Mstatus.fs.get q.mstatus = XS_DIRTY)) m
  { u.d with
    mstatus := m
    fcsr := if i.csrWriteFflags then
      Fcsr.fflags.set (i.csrWdata.setWidth 5 ||| Fcsr.fflags.get q.fcsr) u.d.fcsr
      else u.d.fcsr
    mip := Mip.mtip.set (BitVec.ofBool i.timeIrq)
      (Mip.msip.set (BitVec.ofBool i.ipi)
        (Mip.meip.set (i.irq.extractLsb' 0 1) u.d.mip)) }

/-- An exception or interrupt is taken: debug requests are not, and in
debug mode nothing is. -/
def trapTaken (q : State) (i : In) : Bool :=
  q.debugMode = false ∧ i.ex.cause ≠ DEBUG_REQUEST ∧ i.ex.valid

/-- The cause is delegated to supervisor mode. -/
def delegated (q : State) (ex : ExceptionT) : Bool :=
  let n := (ex.cause.extractLsb' 0 6).toNat
  if ex.cause.getLsbD 63 then q.mideleg.getLsbD n else q.medeleg.getLsbD n

/-- `trap_to_priv_lvl`.  A delegated trap taken in M mode stays there. -/
def trapToPrivLvl (q : State) (i : In) : PrivLvl :=
  if trapTaken q i ∧ delegated q i.ex then
    if privLvlO q = PRIV_LVL_M then PRIV_LVL_M else PRIV_LVL_S
  else PRIV_LVL_M

/-- The exception stack. -/
def takeTrap (q : State) (i : In) (d : State) : State :=
  if trapTaken q i then
    if trapToPrivLvl q i = PRIV_LVL_S then
      { d with
        mstatus := Mstatus.spp.set (q.privLvl.extractLsb' 0 1)
          (Mstatus.spie.set (Mstatus.sie.get q.mstatus)
            (Mstatus.sie.set 0#1 d.mstatus))
        scause := i.ex.cause
        sepc := i.pc
        stval := i.ex.tval
        privLvl := PRIV_LVL_S }
    else
      { d with
        mstatus := Mstatus.mpp.set q.privLvl
          (Mstatus.mpie.set (Mstatus.mie.get q.mstatus)
            (Mstatus.mie.set 0#1 d.mstatus))
        mcause := i.ex.cause
        mepc := i.pc
        mtval := i.ex.tval
        privLvl := trapToPrivLvl q i }
  else d

/-- `dm::ExceptionAddress`. -/
def DM_EXCEPTION_ADDRESS : BitVec 64 := 0x808#64

/-- `trap_vector_base_o`. -/
def trapVectorBaseO (cfg : Cfg) (q : State) (i : In) : BitVec 64 :=
  let tvec := if trapToPrivLvl q i = PRIV_LVL_S then q.stvec else q.mtvec
  let base := if q.debugMode then cfg.dmBaseAddress + DM_EXCEPTION_ADDRESS
    else tvec.extractLsb' 2 62 ++ 0#2
  if (q.mtvec.getLsbD 0 ∨ q.stvec.getLsbD 0) ∧ i.ex.cause.getLsbD 63 then
    BitField.set ⟨2⟩ (i.ex.cause.extractLsb' 0 6) base
  else base

/-- The debug-on-breakpoint bit of `dcsr` for the current privilege level,
if the level has one. -/
def ebreakBit (q : State) : Option (BitVec 1) :=
  if privLvlO q = PRIV_LVL_M then some (Dcsr.ebreakm.get q.dcsr)
  else if privLvlO q = PRIV_LVL_S then some (Dcsr.ebreaks.get q.dcsr)
  else if privLvlO q = PRIV_LVL_U then some (Dcsr.ebreaku.get q.dcsr)
  else none

abbrev CAUSE_BREAKPOINT : BitVec 3 := 1#3
abbrev CAUSE_REQUEST : BitVec 3 := 3#3
abbrev CAUSE_SINGLE_STEP : BitVec 3 := 4#3

/-- A breakpoint: debug mode is entered if the bit of the level says so. -/
def debugBreakpoint (q : State) (i : In) (d : State) : State :=
  if i.ex.valid ∧ i.ex.cause = BREAKPOINT then
    { d with
      debugMode := (ebreakBit q).elim d.debugMode (· = 1#1)
      dpc := i.pc
      dcsr := Dcsr.cause.set CAUSE_BREAKPOINT d.dcsr }
  else d

/-- A debug request. -/
def debugRequest (i : In) (d : State) : State :=
  if i.ex.valid ∧ i.ex.cause = DEBUG_REQUEST then
    { d with
      debugMode := true
      dpc := i.pc
      dcsr := Dcsr.cause.set CAUSE_REQUEST d.dcsr }
  else d

/-- The pc after the retired instruction of a single step.  `eret_o` is
still low at this point of the block, so its branch is never taken. -/
def singleStepPc (cfg : Cfg) (q : State) (i : In) : BitVec 64 :=
  if i.commitInstr0.fu = .CTRL_FLOW then i.commitInstr0.predictAddress
  else if i.ex.valid then trapVectorBaseO cfg q i
  else i.commitInstr0.pc + (if i.commitInstr0.isCompressed then 2#64 else 4#64)

/-- Single stepping is on and an instruction retires. -/
def stepping (q : State) (i : In) : Bool :=
  Dcsr.step.get q.dcsr = 1#1 ∧ i.commitAck.getLsbD 0

/-- A single step. -/
def debugStep (cfg : Cfg) (q : State) (i : In) (d : State) : State :=
  if stepping q i then
    { d with
      debugMode := true
      dpc := singleStepPc cfg q i
      dcsr := Dcsr.cause.set CAUSE_SINGLE_STEP d.dcsr }
  else d

/-- The debug entries.  Outside debug mode `dcsr.prv` follows the current
privilege level. -/
def enterDebug (cfg : Cfg) (q : State) (i : In) (d : State) : State :=
  if q.debugMode then d
  else
    debugStep cfg q i (debugRequest i (debugBreakpoint q i
      { d with dcsr := Dcsr.prv.set (privLvlO q) d.dcsr }))

/-- `mprv` counts in debug mode only if `dcsr.mprven` is set. -/
def mprv (q : State) : Bool :=
  if q.debugMode ∧ Dcsr.mprven.get q.dcsr = 0#1 then false
  else Mstatus.mprv.get q.mstatus = 1#1

/-- The translation flag of loads and stores. -/
def loadStore (q : State) (d : State) : State :=
  { d with
    enLdStTranslation :=
      if mprv q ∧ Satp.mode.get q.satp = MODE_SV39 ∧
          Mstatus.mpp.get q.mstatus ≠ PRIV_LVL_M then true
      else enTranslationO q }

def doMret (q : State) (d : State) : State :=
  { d with
    mstatus := Mstatus.mpie.set 1#1 (Mstatus.mpp.set PRIV_LVL_U
      (Mstatus.mie.set (Mstatus.mpie.get q.mstatus) d.mstatus))
    privLvl := Mstatus.mpp.get q.mstatus }

def doSret (q : State) (d : State) : State :=
  { d with
    mstatus := Mstatus.spie.set 1#1 (Mstatus.spp.set 0#1
      (Mstatus.sie.set (Mstatus.spie.get q.mstatus) d.mstatus))
    privLvl := 0#1 ++ Mstatus.spp.get q.mstatus }

def doDret (q : State) (d : State) : State :=
  { d with privLvl := Dcsr.prv.get q.dcsr, debugMode := false }

/-- The returns, applied after the trap logic. -/
def xret (q : State) (i : In) (d : State) : State :=
  match i.csrOp with
  | .MRET => doMret q d
  | .SRET => doSret q d
  | .DRET => doDret q d
  | _ => d

/-- `wfi_d`. -/
def wfiNext (q : State) (i : In) : Bool :=
  if q.mip ≠ 0#64 ∨ i.debugReq ∨ i.irq.getLsbD 1 then false
  else if q.debugMode = false ∧ i.csrOp = .WFI ∧ i.ex.valid = false then true
  else q.wfi

/-- The next values of the combinational part. -/
def nextValues (cfg : Cfg) (q : State) (i : In) : State :=
  { xret q i (loadStore q (enterDebug cfg q i (takeTrap q i
      (hardwired q i (csrWrite cfg q i))))) with
    wfi := wfiNext q i }

/-- The sequential process: only the first `NrPMPEntries` entries have
registers that change. -/
def latch (cfg : Cfg) (q d : State) : State :=
  { d with
    mtvecRstLoad := false
    pmpcfg := fun k =>
      if cfg.nrPMPEntries = 0 then 0#8
      else if k.val < cfg.nrPMPEntries then d.pmpcfg k else q.pmpcfg k
    pmpaddr := fun k =>
      if cfg.nrPMPEntries = 0 then 0#54
      else if k.val < cfg.nrPMPEntries then d.pmpaddr k else q.pmpaddr k }

/-- One cycle. -/
def step (cfg : Cfg) (q : State) (i : In) : State :=
  latch cfg q (nextValues cfg q i)

/-! ## The lines to the controller -/

/-- `flush_o`: a CSR write with a side effect, unless a trap is taken. -/
def flushO (cfg : Cfg) (q : State) (i : In) : Bool :=
  if trapTaken q i then false else (csrWrite cfg q i).flush

/-- `eret_o`. -/
def eretO (i : In) : Bool :=
  i.csrOp = .MRET ∨ i.csrOp = .SRET ∨ i.csrOp = .DRET

/-- `set_debug_pc_o`: the debug entries, and a breakpoint in debug mode. -/
def setDebugPcO (q : State) (i : In) : Bool :=
  let breakpoint : Bool := i.ex.valid ∧ i.ex.cause = BREAKPOINT
  let request : Bool := i.ex.valid ∧ i.ex.cause = DEBUG_REQUEST
  if q.debugMode then breakpoint
  else breakpoint && (ebreakBit q).elim false (· = 1#1) || request ||
    stepping q i

/-! ## `exception_ctrl` -/

/-- `csr_exception_o`: an access exception or a privilege violation is an
illegal instruction. -/
def csrExceptionO (cfg : Cfg) (q : State) (i : In) : ExceptionT :=
  if (csrWrite cfg q i).updateAccessException ∨ (csrRead q i).2 ∨
      privilegeViolation q i then
    ⟨ILLEGAL_INSTR, 0#64, true⟩
  else ExceptionT.none

end ArianeSoc.Csr
