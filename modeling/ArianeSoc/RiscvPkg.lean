import ArianeSoc.BitField

/-!
# The constants and types of `riscv_pkg` and `ariane_pkg`

Registers that the source declares as packed structs stay bit vectors, and
the fields of a struct are `BitField`s: `csr_regfile` writes the same
register by field in one branch and by mask in another.  A privilege level
is a two-bit vector as well.  The source gives three of the four values a
name, but `mstatus.mpp` can be written with the fourth, `2'b10`.

`CsrReg` has one constructor for every CSR that has a case in
`csr_regfile`.  The performance counters `0xB03` to `0xB1F` share one case
in each of its `case` statements and share the constructor `MHPM`; the
sixteen `pmpaddr` registers differ in their index only.
-/

namespace ArianeSoc

/-! ## Privilege levels and access types -/

abbrev PrivLvl := BitVec 2

abbrev PRIV_LVL_M : PrivLvl := 0b11#2
abbrev PRIV_LVL_S : PrivLvl := 0b01#2
abbrev PRIV_LVL_U : PrivLvl := 0b00#2

/-- `pmp_access_t`, one bit for each kind of access. -/
abbrev PmpAccess := BitVec 3

abbrev ACCESS_NONE : PmpAccess := 0b000#3
abbrev ACCESS_READ : PmpAccess := 0b001#3
abbrev ACCESS_WRITE : PmpAccess := 0b010#3
abbrev ACCESS_EXEC : PmpAccess := 0b100#3

/-! ## Packed registers -/

-- `status_rv64_t`.
namespace Mstatus

def uie : BitField 64 1 := ⟨0⟩
def sie : BitField 64 1 := ⟨1⟩
def mie : BitField 64 1 := ⟨3⟩
def upie : BitField 64 1 := ⟨4⟩
def spie : BitField 64 1 := ⟨5⟩
def mpie : BitField 64 1 := ⟨7⟩
def spp : BitField 64 1 := ⟨8⟩
def mpp : BitField 64 2 := ⟨11⟩
def fs : BitField 64 2 := ⟨13⟩
def xs : BitField 64 2 := ⟨15⟩
def mprv : BitField 64 1 := ⟨17⟩
def tvm : BitField 64 1 := ⟨20⟩
def tw : BitField 64 1 := ⟨21⟩
def tsr : BitField 64 1 := ⟨22⟩
def uxl : BitField 64 2 := ⟨32⟩
def sxl : BitField 64 2 := ⟨34⟩
def sd : BitField 64 1 := ⟨63⟩

end Mstatus

-- `dcsr_t`.
namespace Dcsr

def prv : BitField 32 2 := ⟨0⟩
def step : BitField 32 1 := ⟨2⟩
def nmip : BitField 32 1 := ⟨3⟩
def mprven : BitField 32 1 := ⟨4⟩
def cause : BitField 32 3 := ⟨6⟩
def stoptime : BitField 32 1 := ⟨9⟩
def stopcount : BitField 32 1 := ⟨10⟩
def stepie : BitField 32 1 := ⟨11⟩
def ebreaku : BitField 32 1 := ⟨12⟩
def ebreaks : BitField 32 1 := ⟨13⟩
def ebreakm : BitField 32 1 := ⟨15⟩
def xdebugver : BitField 32 4 := ⟨28⟩

end Dcsr

-- `satp_t`.
namespace Satp

def asid : BitField 64 16 := ⟨44⟩
def mode : BitField 64 4 := ⟨60⟩

end Satp

-- `fcsr_t`.
namespace Fcsr

def fflags : BitField 32 5 := ⟨0⟩
def frm : BitField 32 3 := ⟨5⟩
def fprec : BitField 32 7 := ⟨8⟩

end Fcsr

/-- `pmp_addr_mode_t`. -/
inductive PmpAddrMode
  | OFF | TOR | NA4 | NAPOT
  deriving DecidableEq, Repr

/-- `pmpcfg_t`, one byte of a `pmpcfg` CSR. -/
abbrev PmpCfg := BitVec 8

namespace PmpCfg

def accessType : BitField 8 3 := ⟨0⟩

/-- The lock bit. -/
def locked (c : PmpCfg) : Bool := c.getLsbD 7

def addrMode (c : PmpCfg) : PmpAddrMode :=
  match c.getLsbD 4, c.getLsbD 3 with
  | false, false => .OFF
  | false, true => .TOR
  | true, false => .NA4
  | true, true => .NAPOT

end PmpCfg

/-- `pte_t`, a page table entry of SV39. -/
abbrev Pte := BitVec 64

namespace Pte

def ppnField : BitField 64 44 := ⟨10⟩

def ppn (p : Pte) : BitVec 44 := ppnField.get p
def d (p : Pte) : Bool := p.getLsbD 7
def a (p : Pte) : Bool := p.getLsbD 6
def g (p : Pte) : Bool := p.getLsbD 5
def u (p : Pte) : Bool := p.getLsbD 4
def x (p : Pte) : Bool := p.getLsbD 3
def w (p : Pte) : Bool := p.getLsbD 2
def r (p : Pte) : Bool := p.getLsbD 1
def v (p : Pte) : Bool := p.getLsbD 0

end Pte

/-- `xs_t`: the states of an extension. -/
abbrev XS_OFF : BitVec 2 := 0b00#2
abbrev XS_DIRTY : BitVec 2 := 0b11#2
abbrev XLEN_64 : BitVec 2 := 0b10#2

abbrev MODE_OFF : BitVec 4 := 0x0#4
abbrev MODE_SV39 : BitVec 4 := 0x8#4

/-! ## Masks, interrupts and exception causes -/

def SSTATUS_UIE : BitVec 64 := 0x00000001#64
def SSTATUS_SIE : BitVec 64 := 0x00000002#64
def SSTATUS_SPIE : BitVec 64 := 0x00000020#64
def SSTATUS_SPP : BitVec 64 := 0x00000100#64
def SSTATUS_FS : BitVec 64 := 0x00006000#64
def SSTATUS_XS : BitVec 64 := 0x00018000#64
def SSTATUS_SUM : BitVec 64 := 0x00040000#64
def SSTATUS_MXR : BitVec 64 := 0x00080000#64
def SSTATUS_UPIE : BitVec 64 := 0x00000010#64
def SSTATUS_UXL : BitVec 64 := 0x0000000300000000#64
def SSTATUS64_SD : BitVec 64 := 0x8000000000000000#64

def SMODE_STATUS_READ_MASK : BitVec 64 :=
  SSTATUS_UIE ||| SSTATUS_SIE ||| SSTATUS_SPIE ||| SSTATUS_SPP |||
    SSTATUS_FS ||| SSTATUS_XS ||| SSTATUS_SUM ||| SSTATUS_MXR |||
    SSTATUS_UPIE ||| SSTATUS_SPIE ||| SSTATUS_UXL ||| SSTATUS64_SD

def SMODE_STATUS_WRITE_MASK : BitVec 64 :=
  SSTATUS_SIE ||| SSTATUS_SPIE ||| SSTATUS_SPP ||| SSTATUS_FS |||
    SSTATUS_SUM ||| SSTATUS_MXR

abbrev IRQ_S_SOFT : Nat := 1
abbrev IRQ_M_SOFT : Nat := 3
abbrev IRQ_S_TIMER : Nat := 5
abbrev IRQ_M_TIMER : Nat := 7
abbrev IRQ_S_EXT : Nat := 9
abbrev IRQ_M_EXT : Nat := 11

def MIP_SSIP : BitVec 64 := 1#64 <<< IRQ_S_SOFT
def MIP_MSIP : BitVec 64 := 1#64 <<< IRQ_M_SOFT
def MIP_STIP : BitVec 64 := 1#64 <<< IRQ_S_TIMER
def MIP_MTIP : BitVec 64 := 1#64 <<< IRQ_M_TIMER
def MIP_SEIP : BitVec 64 := 1#64 <<< IRQ_S_EXT
def MIP_MEIP : BitVec 64 := 1#64 <<< IRQ_M_EXT

-- The bits of `mip` that the machine-level interrupt lines drive.
namespace Mip

def meip : BitField 64 1 := ⟨IRQ_M_EXT⟩
def msip : BitField 64 1 := ⟨IRQ_M_SOFT⟩
def mtip : BitField 64 1 := ⟨IRQ_M_TIMER⟩

end Mip

/-- The cause of an interrupt has bit 63 set. -/
def interruptCause (irq : Nat) : BitVec 64 :=
  1#64 <<< 63 ||| BitVec.ofNat 64 irq

def S_SW_INTERRUPT : BitVec 64 := interruptCause IRQ_S_SOFT
def M_SW_INTERRUPT : BitVec 64 := interruptCause IRQ_M_SOFT
def S_TIMER_INTERRUPT : BitVec 64 := interruptCause IRQ_S_TIMER
def M_TIMER_INTERRUPT : BitVec 64 := interruptCause IRQ_M_TIMER
def S_EXT_INTERRUPT : BitVec 64 := interruptCause IRQ_S_EXT
def M_EXT_INTERRUPT : BitVec 64 := interruptCause IRQ_M_EXT

abbrev INSTR_ADDR_MISALIGNED : BitVec 64 := 0#64
abbrev INSTR_ACCESS_FAULT : BitVec 64 := 1#64
abbrev ILLEGAL_INSTR : BitVec 64 := 2#64
abbrev BREAKPOINT : BitVec 64 := 3#64
abbrev LD_ADDR_MISALIGNED : BitVec 64 := 4#64
abbrev LD_ACCESS_FAULT : BitVec 64 := 5#64
abbrev ST_ADDR_MISALIGNED : BitVec 64 := 6#64
abbrev ST_ACCESS_FAULT : BitVec 64 := 7#64
abbrev ENV_CALL_UMODE : BitVec 64 := 8#64
abbrev ENV_CALL_SMODE : BitVec 64 := 9#64
abbrev ENV_CALL_MMODE : BitVec 64 := 11#64
abbrev INSTR_PAGE_FAULT : BitVec 64 := 12#64
abbrev LOAD_PAGE_FAULT : BitVec 64 := 13#64
abbrev STORE_PAGE_FAULT : BitVec 64 := 15#64
abbrev DEBUG_REQUEST : BitVec 64 := 24#64

def ARIANE_MARCHID : BitVec 64 := 3#64

/-- The extensions A, C, D, F, I and M and the modes S and U, on RV64. -/
def ISA_CODE : BitVec 64 :=
  1#64 <<< 0 ||| 1#64 <<< 2 ||| 1#64 <<< 3 ||| 1#64 <<< 5 ||| 1#64 <<< 8 |||
    1#64 <<< 12 ||| 1#64 <<< 18 ||| 1#64 <<< 20 ||| 1#64 <<< 63

/-- `exception_t`. -/
structure ExceptionT where
  cause : BitVec 64
  tval : BitVec 64
  valid : Bool
  deriving DecidableEq, Repr

/-- The exception signal when there is no exception. -/
def ExceptionT.none : ExceptionT := ⟨0#64, 0#64, false⟩

/-! ## Functional units and operations -/

/-- `fu_t`. -/
inductive FuT
  | NONE | LOAD | STORE | ALU | CTRL_FLOW | MULT | CSR | FPU | FPU_VEC
  deriving DecidableEq, Repr

/-- `fu_op`, less the vectorial floating-point operations: `XFVEC` is zero
and the decoder never selects one. -/
inductive FuOp
  | ADD | SUB | ADDW | SUBW
  | XORL | ORL | ANDL
  | SRA | SRL | SLL | SRLW | SLLW | SRAW
  | LTS | LTU | GES | GEU | EQ | NE
  | JALR | BRANCH
  | SLTS | SLTU
  | MRET | SRET | DRET | ECALL | WFI | FENCE | FENCE_I | SFENCE_VMA
  | CSR_WRITE | CSR_READ | CSR_SET | CSR_CLEAR
  | LD | SD | LW | LWU | SW | LH | LHU | SH | LB | SB | LBU
  | AMO_LRW | AMO_LRD | AMO_SCW | AMO_SCD
  | AMO_SWAPW | AMO_ADDW | AMO_ANDW | AMO_ORW | AMO_XORW | AMO_MAXW
  | AMO_MAXWU | AMO_MINW | AMO_MINWU
  | AMO_SWAPD | AMO_ADDD | AMO_ANDD | AMO_ORD | AMO_XORD | AMO_MAXD
  | AMO_MAXDU | AMO_MIND | AMO_MINDU
  | MUL | MULH | MULHU | MULHSU | MULW
  | DIV | DIVU | DIVW | DIVUW | REM | REMU | REMW | REMUW
  | FLD | FLW | FLH | FLB | FSD | FSW | FSH | FSB
  | FADD | FSUB | FMUL | FDIV | FMIN_MAX | FSQRT
  | FMADD | FMSUB | FNMSUB | FNMADD
  | FCVT_F2I | FCVT_I2F | FCVT_F2F | FSGNJ | FMV_F2X | FMV_X2F
  | FCMP | FCLASS
  deriving DecidableEq, Repr

/-! ## Extensions and scoreboard entries -/

-- The extensions beyond RV64IMAFDC, all disabled.
abbrev XF16 : Bool := false
abbrev XF16ALT : Bool := false
abbrev XF8 : Bool := false

/-- `is_rd_fpr`: the destination is a floating-point register. -/
def isRdFpr : FuOp → Bool
  | .FLD | .FLW | .FLH | .FLB
  | .FADD | .FSUB | .FMUL | .FDIV | .FMIN_MAX | .FSQRT
  | .FMADD | .FMSUB | .FNMSUB | .FNMADD
  | .FCVT_I2F | .FCVT_F2F | .FSGNJ | .FMV_X2F => true
  | _ => false

/-- `is_rs1_fpr`: the first source is a floating-point register. -/
def isRs1Fpr : FuOp → Bool
  | .FMUL | .FDIV | .FMIN_MAX | .FSQRT
  | .FMADD | .FMSUB | .FNMSUB | .FNMADD
  | .FCVT_F2I | .FCVT_F2F | .FSGNJ | .FMV_F2X | .FCMP | .FCLASS => true
  | _ => false

/-- `is_rs2_fpr`. -/
def isRs2Fpr : FuOp → Bool
  | .FSD | .FSW | .FSH | .FSB
  | .FADD | .FSUB | .FMUL | .FDIV | .FMIN_MAX
  | .FMADD | .FMSUB | .FNMSUB | .FNMADD
  | .FCVT_F2F | .FSGNJ | .FMV_F2X | .FCMP => true
  | _ => false

/-- `is_imm_fpr`: the immediate is the address of a third source. -/
def isImmFpr : FuOp → Bool
  | .FADD | .FSUB | .FMADD | .FMSUB | .FNMSUB | .FNMADD => true
  | _ => false

/-- `is_amo`. -/
def isAmo : FuOp → Bool
  | .AMO_LRW | .AMO_LRD | .AMO_SCW | .AMO_SCD
  | .AMO_SWAPW | .AMO_ADDW | .AMO_ANDW | .AMO_ORW | .AMO_XORW
  | .AMO_MAXW | .AMO_MAXWU | .AMO_MINW | .AMO_MINWU
  | .AMO_SWAPD | .AMO_ADDD | .AMO_ANDD | .AMO_ORD | .AMO_XORD
  | .AMO_MAXD | .AMO_MAXDU | .AMO_MIND | .AMO_MINDU => true
  | _ => false

/-- `scoreboard_entry_t`, with the predicted address as the only field of
`bp` that anything here reads. -/
structure ScoreboardEntry where
  pc : BitVec 64
  transId : BitVec 3
  fu : FuT
  op : FuOp
  rs1 : BitVec 6
  rs2 : BitVec 6
  rd : BitVec 6
  result : BitVec 64
  valid : Bool
  useImm : Bool
  useZimm : Bool
  usePc : Bool
  ex : ExceptionT
  predictAddress : BitVec 64
  isCompressed : Bool
  deriving DecidableEq, Repr

/-- `irq_ctrl_t`. -/
structure IrqCtrl where
  mie : BitVec 64
  mip : BitVec 64
  mideleg : BitVec 64
  sie : Bool
  globalEnable : Bool
  deriving DecidableEq, Repr

/-! ## CSR addresses -/

/-- The CSRs that have a case in `csr_regfile`. -/
inductive CsrReg
  | FFLAGS | FRM | FCSR | FTRAN
  | DCSR | DPC | DSCRATCH0 | DSCRATCH1
  | TSELECT | TDATA1 | TDATA2 | TDATA3
  | USCRATCH | UIE | UTVEC | UTVAL | UIP
  | SSTATUS | SIE | SIP | STVEC | SCOUNTEREN | SSCRATCH | SEPC | SCAUSE
  | STVAL | SATP
  | MSTATUS | MISA | MEDELEG | MIDELEG | MIE | MTVEC | MCOUNTEREN
  | MSCRATCH | MEPC | MCAUSE | MTVAL | MIP
  | MVENDORID | MARCHID | MIMPID | MHARTID
  | MCYCLE | MINSTRET | CYCLE | INSTRET
  | MHPM (n : Fin 29)
  | DCACHE | ICACHE
  | PMPCFG0 | PMPCFG2
  | PMPADDR (i : Fin 16)
  deriving DecidableEq, Repr

namespace CsrReg

/-- The address of a CSR, the value of the enumerator in `csr_reg_t`. -/
def addr : CsrReg → BitVec 12
  | USCRATCH => 0x040#12
  | UIE => 0x004#12
  | UTVEC => 0x005#12
  | UTVAL => 0x043#12
  | UIP => 0x044#12
  | FFLAGS => 0x001#12
  | FRM => 0x002#12
  | FCSR => 0x003#12
  | FTRAN => 0x800#12
  | SSTATUS => 0x100#12
  | SIE => 0x104#12
  | STVEC => 0x105#12
  | SCOUNTEREN => 0x106#12
  | SSCRATCH => 0x140#12
  | SEPC => 0x141#12
  | SCAUSE => 0x142#12
  | STVAL => 0x143#12
  | SIP => 0x144#12
  | SATP => 0x180#12
  | MSTATUS => 0x300#12
  | MISA => 0x301#12
  | MEDELEG => 0x302#12
  | MIDELEG => 0x303#12
  | MIE => 0x304#12
  | MTVEC => 0x305#12
  | MCOUNTEREN => 0x306#12
  | MSCRATCH => 0x340#12
  | MEPC => 0x341#12
  | MCAUSE => 0x342#12
  | MTVAL => 0x343#12
  | MIP => 0x344#12
  | PMPCFG0 => 0x3A0#12
  | PMPCFG2 => 0x3A2#12
  | PMPADDR i => 0x3B0#12 + BitVec.ofNat 12 i
  | MVENDORID => 0xF11#12
  | MARCHID => 0xF12#12
  | MIMPID => 0xF13#12
  | MHARTID => 0xF14#12
  | MCYCLE => 0xB00#12
  | MINSTRET => 0xB02#12
  | MHPM n => 0xB03#12 + BitVec.ofNat 12 n
  | DCACHE => 0x701#12
  | ICACHE => 0x700#12
  | TSELECT => 0x7A0#12
  | TDATA1 => 0x7A1#12
  | TDATA2 => 0x7A2#12
  | TDATA3 => 0x7A3#12
  | DCSR => 0x7B0#12
  | DPC => 0x7B1#12
  | DSCRATCH0 => 0x7B2#12
  | DSCRATCH1 => 0x7B3#12
  | CYCLE => 0xC00#12
  | INSTRET => 0xC02#12

/-- The CSRs that are not part of a family. -/
def single : List CsrReg :=
  [FFLAGS, FRM, FCSR, FTRAN, DCSR, DPC, DSCRATCH0, DSCRATCH1, TSELECT,
    TDATA1, TDATA2, TDATA3, USCRATCH, UIE, UTVEC, UTVAL, UIP, SSTATUS, SIE,
    SIP, STVEC, SCOUNTEREN, SSCRATCH, SEPC, SCAUSE, STVAL, SATP, MSTATUS,
    MISA, MEDELEG, MIDELEG, MIE, MTVEC, MCOUNTEREN, MSCRATCH, MEPC, MCAUSE,
    MTVAL, MIP, MVENDORID, MARCHID, MIMPID, MHARTID, MCYCLE, MINSTRET,
    CYCLE, INSTRET, DCACHE, ICACHE, PMPCFG0, PMPCFG2]

def all : List CsrReg :=
  single ++ (List.finRange 16).map PMPADDR ++ (List.finRange 29).map MHPM

/-- The CSR of an address, if `csr_regfile` has a case for it. -/
def ofAddr (a : BitVec 12) : Option CsrReg :=
  all.find? fun r => r.addr == a

/-- No two CSRs share an address. -/
theorem ofAddr_addr (r : CsrReg) : ofAddr r.addr = some r := by
  cases r
  case MHPM n => revert n; decide
  case PMPADDR k => revert k; decide
  all_goals decide

theorem addr_injective {r r' : CsrReg} (h : r.addr = r'.addr) : r = r' := by
  have hr : some r = some r' := by
    rw [← ofAddr_addr r, ← ofAddr_addr r', h]
  exact Option.some.inj hr

/-- The address of a decoded CSR is the address it was decoded from. -/
theorem addr_of_ofAddr {a : BitVec 12} {r : CsrReg}
    (h : ofAddr a = some r) : r.addr = a := by
  simpa using List.find?_some h

end CsrReg

/-- The privilege bits of a CSR address, `csr_decode.priv_lvl`. -/
def csrPrivLvl (a : BitVec 12) : PrivLvl := a.extractLsb' 8 2

abbrev CSR_CYCLE : BitVec 12 := 0xC00#12
abbrev CSR_HPM_COUNTER_31 : BitVec 12 := 0xC1F#12

/-! ## Regions of the physical address space

The rules of `ariane_cfg_t` that say which physical addresses are not
idempotent, executable or cached.  A rule is a base and a length; the sum
wraps around as in the source.
-/

/-- A region of the physical address space. -/
structure Region where
  base : BitVec 64
  length : BitVec 64
  deriving DecidableEq

/-- The rules of `ariane_cfg_t`. -/
structure ArianeCfg where
  nonIdempotent : List Region
  executeRegion : List Region
  cachedRegion : List Region

/-- `range_check`. -/
def rangeCheck (r : Region) (address : BitVec 64) : Bool :=
  r.base ≤ address ∧ address < r.base + r.length

/-- `is_inside_nonidempotent_regions`. -/
def isInsideNonidempotentRegions (cfg : ArianeCfg) (address : BitVec 64) :
    Bool :=
  cfg.nonIdempotent.any (rangeCheck · address)

/-- `is_inside_execute_regions`. -/
def isInsideExecuteRegions (cfg : ArianeCfg) (address : BitVec 64) : Bool :=
  cfg.executeRegion.any (rangeCheck · address)

/-- `is_inside_cacheable_regions`. -/
def isInsideCacheableRegions (cfg : ArianeCfg) (address : BitVec 64) :
    Bool :=
  cfg.cachedRegion.any (rangeCheck · address)

end ArianeSoc
