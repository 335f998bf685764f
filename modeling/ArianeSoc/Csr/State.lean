import ArianeSoc.RiscvPkg

/-!
# The registers, the read port and the access checks of `csr_regfile`

`State` holds the `_q` registers, `In` the inputs of one cycle, `Cfg` the
parameters.  `NrCommitPorts` is two, as `ariane_pkg` sets it, `VLEN` is 64
and floating point is present; the sign extension of a `VLEN`-bit program
counter to 64 bits is therefore the identity.  `ENABLE_CYCLE_COUNT` is set
and `ZERO_TVAL` is not, the values outside the tandem simulation.

The outputs that a proof about the registers needs are here as functions
of the registers: `privLvlO` and `enTranslationO`.

Four combinational processes of the module follow: `privilege_check`,
`csr_read_process`, `csr_op_logic` and `exception_ctrl` without its
dependence on the write case, which `Csr.Update` adds.
-/

namespace ArianeSoc.Csr

/-- The parameters of the module. -/
structure Cfg where
  dmBaseAddress : BitVec 64
  asidWidth : Nat
  nrPMPEntries : Nat

/-- The fields of `commit_instr_i[0]` that the module reads. -/
structure CommitInstr where
  fu : FuT
  pc : BitVec 64
  isCompressed : Bool
  predictAddress : BitVec 64
  deriving DecidableEq

/-- The inputs of one cycle. -/
structure In where
  timeIrq : Bool
  commitInstr0 : CommitInstr
  commitAck : BitVec 2
  bootAddr : BitVec 64
  hartId : BitVec 64
  ex : ExceptionT
  csrOp : FuOp
  csrAddr : BitVec 12
  csrWdata : BitVec 64
  dirtyFpState : Bool
  csrWriteFflags : Bool
  pc : BitVec 64
  irq : BitVec 2
  ipi : Bool
  debugReq : Bool
  perfData : BitVec 64
  deriving DecidableEq

/-- The parameters that `ariane.sv` passes, at the default configuration. -/
def Cfg.ariane : Cfg := ⟨0#64, 1, 16⟩

/-- A cycle in which nothing is committed and no line is raised. -/
def In.idle : In where
  timeIrq := false
  commitInstr0 := ⟨.NONE, 0#64, false, 0#64⟩
  commitAck := 0#2
  bootAddr := 0#64
  hartId := 0#64
  ex := ExceptionT.none
  csrOp := .ADD
  csrAddr := 0#12
  csrWdata := 0#64
  dirtyFpState := false
  csrWriteFflags := false
  pc := 0#64
  irq := 0#2
  ipi := false
  debugReq := false
  perfData := 0#64

/-- The registers. -/
structure State where
  privLvl : PrivLvl
  fcsr : BitVec 32
  debugMode : Bool
  dcsr : BitVec 32
  uscratch : BitVec 64
  uie : BitVec 64
  utvec : BitVec 64
  utval : BitVec 64
  uip : BitVec 64
  dpc : BitVec 64
  dscratch0 : BitVec 64
  dscratch1 : BitVec 64
  mstatus : BitVec 64
  mtvecRstLoad : Bool
  mtvec : BitVec 64
  medeleg : BitVec 64
  mideleg : BitVec 64
  mip : BitVec 64
  mie : BitVec 64
  mepc : BitVec 64
  mcause : BitVec 64
  mcounteren : BitVec 64
  mscratch : BitVec 64
  mtval : BitVec 64
  dcache : BitVec 64
  icache : BitVec 64
  sepc : BitVec 64
  scause : BitVec 64
  stvec : BitVec 64
  scounteren : BitVec 64
  sscratch : BitVec 64
  stval : BitVec 64
  satp : BitVec 64
  cycle : BitVec 64
  instret : BitVec 64
  enLdStTranslation : Bool
  wfi : Bool
  pmpcfg : Fin 16 → PmpCfg
  pmpaddr : Fin 16 → BitVec 54

/-- The registers after a reset. -/
def reset : State where
  privLvl := PRIV_LVL_M
  fcsr := 0#32
  debugMode := false
  dcsr := Dcsr.prv.set PRIV_LVL_M 0#32
  uscratch := 0#64
  uie := 0#64
  utvec := 0#64
  utval := 0#64
  uip := 0#64
  dpc := 0#64
  dscratch0 := 0#64
  dscratch1 := 0#64
  mstatus := 0#64
  mtvecRstLoad := true
  mtvec := 0#64
  medeleg := 0#64
  mideleg := 0#64
  mip := 0#64
  mie := 0#64
  mepc := 0#64
  mcause := 0#64
  mcounteren := 0#64
  mscratch := 0#64
  mtval := 0#64
  dcache := 1#64
  icache := 1#64
  sepc := 0#64
  scause := 0#64
  stvec := 0#64
  scounteren := 0#64
  sscratch := 0#64
  stval := 0#64
  satp := 0#64
  cycle := 0#64
  instret := 0#64
  enLdStTranslation := false
  wfi := false
  pmpcfg := fun _ => 0#8
  pmpaddr := fun _ => 0#54

/-- In debug mode the hart executes with privilege level M. -/
def privLvlO (q : State) : PrivLvl :=
  if q.debugMode then PRIV_LVL_M else q.privLvl

/-- Address translation is on for SV39 below M. -/
def enTranslationO (q : State) : Bool :=
  Satp.mode.get q.satp = MODE_SV39 ∧ privLvlO q ≠ PRIV_LVL_M

/-- The flag that `uscratch` raises outside the core. -/
def weFlag0O (q : State) : Bool :=
  q.uscratch.extractLsb' 0 8 = 0xEA#8

theorem privLvlO_of_not_debug {q : State} (h : q.debugMode = false) :
    privLvlO q = q.privLvl := by
  simp [privLvlO, h]

theorem privLvlO_of_debug {q : State} (h : q.debugMode = true) :
    privLvlO q = PRIV_LVL_M := by
  simp [privLvlO, h]

end ArianeSoc.Csr

namespace ArianeSoc.Csr

/-! ## `privilege_check` -/

/-- The operations that access a CSR. -/
def isCsrAccess : FuOp → Bool
  | .CSR_WRITE | .CSR_SET | .CSR_CLEAR | .CSR_READ => true
  | _ => false

/-- The check of the privilege bits of the address.  `mcause` is exempt. -/
def privBitsViolation (q : State) (a : BitVec 12) : Bool :=
  privLvlO q &&& csrPrivLvl a ≠ csrPrivLvl a ∧ a ≠ CsrReg.MCAUSE.addr

/-- Debug CSRs are accessible in debug mode only. -/
def debugCsrViolation (q : State) (a : BitVec 12) : Bool :=
  a.extractLsb' 4 8 = 0x7B#8 ∧ q.debugMode = false

/-- The counter check, which overrides the two checks before it for the
addresses `C00` to `C1F`. -/
def counterViolation (q : State) (a : BitVec 12) (before : Bool) : Bool :=
  let n := (a.extractLsb' 0 5).toNat
  if csrPrivLvl a = PRIV_LVL_M then false
  else if csrPrivLvl a = PRIV_LVL_S then !q.mcounteren.getLsbD n
  else if csrPrivLvl a = PRIV_LVL_U then
    !q.mcounteren.getLsbD n && !q.scounteren.getLsbD n
  else before

/-- `privilege_violation`. -/
def privilegeViolation (q : State) (i : In) : Bool :=
  if isCsrAccess i.csrOp then
    let v := privBitsViolation q i.csrAddr || debugCsrViolation q i.csrAddr
    if CSR_CYCLE ≤ i.csrAddr ∧ i.csrAddr ≤ CSR_HPM_COUNTER_31 then
      counterViolation q i.csrAddr v
    else v
  else false

/-! ## `csr_op_logic` -/

/-- The strobes that `csr_op_logic` derives from the operation. -/
structure OpSelect where
  we : Bool
  re : Bool
  mret : Bool
  sret : Bool
  dret : Bool
  deriving DecidableEq

def opSelect : FuOp → OpSelect
  | .CSR_WRITE | .CSR_SET | .CSR_CLEAR => ⟨true, true, false, false, false⟩
  | .CSR_READ => ⟨false, true, false, false, false⟩
  | .SRET => ⟨false, false, false, true, false⟩
  | .MRET => ⟨false, false, true, false, false⟩
  | .DRET => ⟨false, false, false, false, true⟩
  | _ => ⟨false, false, false, false, false⟩

/-- A privilege violation drops the write and the read strobe. -/
def csrOpLogic (q : State) (i : In) : OpSelect :=
  let sel := opSelect i.csrOp
  if privilegeViolation q i then { sel with we := false, re := false }
  else sel

/-! ## `csr_read_process` -/

/-- The eight entries of `pmpcfg0` and those of `pmpcfg2`. -/
abbrev LOW_ENTRIES : Fin 2 := 0
abbrev HIGH_ENTRIES : Fin 2 := 1

/-- Eight configuration bytes as one CSR value, the lowest entry lowest. -/
def packPmpcfg (c : Fin 16 → PmpCfg) (b : Fin 2) : BitVec 64 :=
  let e : Fin 8 → PmpCfg := fun k => c ⟨b.val * 8 + k.val, by omega⟩
  e 7 ++ e 6 ++ e 5 ++ e 4 ++ e 3 ++ e 2 ++ e 1 ++ e 0

/-- The value a read of a `pmpaddr` CSR returns.  The granularity is eight
bytes, and the lowest bit follows the upper bit of the address mode. -/
def readPmpaddr (q : State) (k : Fin 16) : BitVec 64 :=
  (0#10 ++ (q.pmpaddr k).extractLsb' 1 53) ++
    (q.pmpcfg k).extractLsb' 4 1

/-- The value of a CSR and whether the read raises an access exception.
The trigger registers are not implemented and read as zero. -/
def readReg (q : State) (i : In) : CsrReg → BitVec 64 × Bool
  | .FFLAGS => fpRead ((Fcsr.fflags.get q.fcsr).setWidth 64)
  | .FRM => fpRead ((Fcsr.frm.get q.fcsr).setWidth 64)
  | .FCSR => fpRead ((Fcsr.frm.get q.fcsr ++ Fcsr.fflags.get q.fcsr).setWidth 64)
  | .FTRAN => fpRead ((Fcsr.fprec.get q.fcsr).setWidth 64)
  | .DCSR => (q.dcsr.setWidth 64, false)
  | .DPC => (q.dpc, false)
  | .DSCRATCH0 => (q.dscratch0, false)
  | .DSCRATCH1 => (q.dscratch1, false)
  | .TSELECT | .TDATA1 | .TDATA2 | .TDATA3 => (0#64, false)
  | .USCRATCH => (q.uscratch, false)
  | .UIE => (q.uie, false)
  | .UTVEC => (q.utvec, false)
  | .UTVAL => (q.utval, false)
  | .UIP => (q.uip, false)
  | .SSTATUS => (q.mstatus &&& SMODE_STATUS_READ_MASK, false)
  | .SIE => (q.mie &&& q.mideleg, false)
  | .SIP => (q.mip &&& q.mideleg, false)
  | .STVEC => (q.stvec, false)
  | .SCOUNTEREN => (q.scounteren, false)
  | .SSCRATCH => (q.sscratch, false)
  | .SEPC => (q.sepc, false)
  | .SCAUSE => (q.scause, false)
  | .STVAL => (q.stval, false)
  | .SATP =>
    if privLvlO q = PRIV_LVL_S ∧ Mstatus.tvm.get q.mstatus = 1#1 then
      (0#64, true)
    else (q.satp, false)
  | .MSTATUS => (q.mstatus, false)
  | .MISA => (ISA_CODE, false)
  | .MEDELEG => (q.medeleg, false)
  | .MIDELEG => (q.mideleg, false)
  | .MIE => (q.mie, false)
  | .MTVEC => (q.mtvec, false)
  | .MCOUNTEREN => (q.mcounteren, false)
  | .MSCRATCH => (q.mscratch, false)
  | .MEPC => (q.mepc, false)
  | .MCAUSE => (q.mcause, false)
  | .MTVAL => (q.mtval, false)
  | .MIP => (q.mip, false)
  | .MVENDORID | .MIMPID => (0#64, false)
  | .MARCHID => (ARIANE_MARCHID, false)
  | .MHARTID => (i.hartId, false)
  | .MCYCLE | .CYCLE => (q.cycle, false)
  | .MINSTRET | .INSTRET => (q.instret, false)
  | .MHPM _ => (i.perfData, false)
  | .DCACHE => (q.dcache, false)
  | .ICACHE => (q.icache, false)
  | .PMPCFG0 => (packPmpcfg q.pmpcfg LOW_ENTRIES, false)
  | .PMPCFG2 => (packPmpcfg q.pmpcfg HIGH_ENTRIES, false)
  | .PMPADDR k => (readPmpaddr q k, false)
where
  fpRead (v : BitVec 64) : BitVec 64 × Bool :=
    if Mstatus.fs.get q.mstatus = XS_OFF then (0#64, true) else (v, false)

/-- `csr_read_process`: the read data and `read_access_exception`. -/
def csrRead (q : State) (i : In) : BitVec 64 × Bool :=
  if (csrOpLogic q i).re then
    match CsrReg.ofAddr i.csrAddr with
    | some r => readReg q i r
    | none => (0#64, true)
  else (0#64, false)

/-- The value that the operation writes, from its operand and the value
read. -/
def opWdata (op : FuOp) (wdata rdata : BitVec 64) : BitVec 64 :=
  match op with
  | .CSR_SET => wdata ||| rdata
  | .CSR_CLEAR => ~~~ wdata &&& rdata
  | _ => wdata

/-- `csr_wdata`. -/
def csrWdata (q : State) (i : In) : BitVec 64 :=
  opWdata i.csrOp i.csrWdata (csrRead q i).1

/-! ## What the strobes say -/

theorem csrOpLogic_we {q : State} {i : In}
    (h : (csrOpLogic q i).we = true) :
    privilegeViolation q i = false ∧
      (i.csrOp = .CSR_WRITE ∨ i.csrOp = .CSR_SET ∨ i.csrOp = .CSR_CLEAR) := by
  rw [csrOpLogic] at h
  split at h
  · simp at h
  · rename_i hv
    refine ⟨by simpa using hv, ?_⟩
    cases hop : i.csrOp <;> simp_all [opSelect]

end ArianeSoc.Csr
