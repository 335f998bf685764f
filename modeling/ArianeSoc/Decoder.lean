import ArianeSoc.RiscvPkg

/-!
# The instruction decoder

`decodeInstr` is the `decoder` process of `decoder.sv`, with one function
for each major opcode, `immediate` is `sign_extend` and `exception` is
`exception_handling`; `decoder` puts the scoreboard entry together.

`ENABLE_WFI` is set and `XFVEC` is not, so that every vectorial encoding is
illegal.  A `case` statement whose default is illegal is an operation table
here, read by `Decoded.select`.

The last section says which words reach the CSR unit with which operation.
-/

namespace ArianeSoc.Decoder

/-! ## Instruction fields -/

abbrev Instr := BitVec 32

def opcode (w : Instr) : BitVec 7 := w.extractLsb' 0 7
def rd (w : Instr) : BitVec 5 := w.extractLsb' 7 5
def funct3 (w : Instr) : BitVec 3 := w.extractLsb' 12 3
def rs1 (w : Instr) : BitVec 5 := w.extractLsb' 15 5
def rs2 (w : Instr) : BitVec 5 := w.extractLsb' 20 5
def rs3 (w : Instr) : BitVec 5 := w.extractLsb' 27 5
def funct7 (w : Instr) : BitVec 7 := w.extractLsb' 25 7
def funct5 (w : Instr) : BitVec 5 := w.extractLsb' 27 5
/-- `itype.imm`. -/
def imm (w : Instr) : BitVec 12 := w.extractLsb' 20 12
/-- `rftype.fmt` and `r4type.funct2`. -/
def fmt (w : Instr) : BitVec 2 := w.extractLsb' 25 2

abbrev OpcodeLoad : BitVec 7 := 0b0000011#7
abbrev OpcodeLoadFp : BitVec 7 := 0b0000111#7
abbrev OpcodeMiscMem : BitVec 7 := 0b0001111#7
abbrev OpcodeOpImm : BitVec 7 := 0b0010011#7
abbrev OpcodeAuipc : BitVec 7 := 0b0010111#7
abbrev OpcodeOpImm32 : BitVec 7 := 0b0011011#7
abbrev OpcodeStore : BitVec 7 := 0b0100011#7
abbrev OpcodeStoreFp : BitVec 7 := 0b0100111#7
abbrev OpcodeAmo : BitVec 7 := 0b0101111#7
abbrev OpcodeOp : BitVec 7 := 0b0110011#7
abbrev OpcodeLui : BitVec 7 := 0b0110111#7
abbrev OpcodeOp32 : BitVec 7 := 0b0111011#7
abbrev OpcodeMadd : BitVec 7 := 0b1000011#7
abbrev OpcodeMsub : BitVec 7 := 0b1000111#7
abbrev OpcodeNmsub : BitVec 7 := 0b1001011#7
abbrev OpcodeNmadd : BitVec 7 := 0b1001111#7
abbrev OpcodeOpFp : BitVec 7 := 0b1010011#7
abbrev OpcodeBranch : BitVec 7 := 0b1100011#7
abbrev OpcodeJalr : BitVec 7 := 0b1100111#7
abbrev OpcodeJal : BitVec 7 := 0b1101111#7
abbrev OpcodeSystem : BitVec 7 := 0b1110011#7

/-! ## Inputs and the decoded instruction -/

/-- The inputs of the module. -/
structure In where
  debugReq : Bool
  pc : BitVec 64
  isCompressed : Bool
  compressedInstr : BitVec 16
  isIllegal : Bool
  instruction : Instr
  predictAddress : BitVec 64
  ex : ExceptionT
  irq : BitVec 2
  irqCtrl : IrqCtrl
  privLvl : PrivLvl
  debugMode : Bool
  fs : BitVec 2
  frm : BitVec 3
  tvm : Bool
  tw : Bool
  tsr : Bool

/-- `imm_select`. -/
inductive ImmSelect
  | NOIMM | IIMM | SIMM | SBIMM | UIMM | JIMM | RS3
  deriving DecidableEq, Repr

/-- What the `decoder` process assigns, with its defaults. -/
structure Decoded where
  fu : FuT := .NONE
  op : FuOp := .ADD
  rs1 : BitVec 6 := 0#6
  rs2 : BitVec 6 := 0#6
  rd : BitVec 6 := 0#6
  immSelect : ImmSelect := .NOIMM
  usePc : Bool := false
  useZimm : Bool := false
  isControlFlowInstr : Bool := false
  illegalInstr : Bool := false
  ecall : Bool := false
  ebreak : Bool := false
  deriving DecidableEq, Repr

/-- A `case` over operations whose default is illegal. -/
def Decoded.select (d : Decoded) : Option FuOp → Decoded
  | some op => { d with op := op }
  | none => { d with illegalInstr := true }

/-- A check that makes the instruction illegal. -/
def Decoded.illegalIf (d : Decoded) (p : Prop) [Decidable p] : Decoded :=
  { d with illegalInstr := d.illegalInstr || decide p }

/-- A five-bit register field as a register address. -/
def regAddr (r : BitVec 5) : BitVec 6 := r.setWidth 6

/-! ## System and memory ordering instructions -/

/-- `OpcodeSystem` with `funct3` zero: calls, returns, WFI and SFENCE.VMA.
The `rs1` and `rd` check is undone by DRET and SFENCE.VMA. -/
def decodePriv (i : In) (d : Decoded) : Decoded :=
  let w := i.instruction
  let d := d.illegalIf (rs1 w ≠ 0#5 ∨ rd w ≠ 0#5)
  if imm w = 0x000#12 then { d with ecall := true }
  else if imm w = 0x001#12 then { d with ebreak := true }
  else if imm w = 0x102#12 then
    if i.privLvl = PRIV_LVL_U ∨ i.privLvl = PRIV_LVL_S ∧ i.tsr then
      { d with illegalInstr := true }
    else { d with op := .SRET }
  else if imm w = 0x302#12 then
    { d with op := .MRET }.illegalIf
      (i.privLvl = PRIV_LVL_U ∨ i.privLvl = PRIV_LVL_S)
  else if imm w = 0x7B2#12 then
    { d with op := .DRET, illegalInstr := !i.debugMode }
  else if imm w = 0x105#12 then
    if i.privLvl = PRIV_LVL_S ∧ i.tw ∨ i.privLvl = PRIV_LVL_U then
      { d with illegalInstr := true }
    else { d with op := .WFI }
  else if funct7 w = 0b0001001#7 then
    { d with
      op := .SFENCE_VMA
      illegalInstr :=
        ¬ (i.privLvl = PRIV_LVL_M ∨ i.privLvl = PRIV_LVL_S) ∨
          i.privLvl = PRIV_LVL_S ∧ i.tvm }
  else d

/-- A set or clear with `rs1` zero only reads. -/
def csrSetOp (w : Instr) (op : FuOp) : FuOp :=
  if rs1 w = 0#5 then .CSR_READ else op

def decodeSystem (i : In) : Decoded :=
  let w := i.instruction
  let d : Decoded :=
    { fu := .CSR, rs1 := regAddr (rs1 w), rd := regAddr (rd w) }
  let csr : Decoded := { d with immSelect := .IIMM }
  match (funct3 w).toNat with
  | 0 => decodePriv i d
  | 1 => { csr with op := .CSR_WRITE }
  | 2 => { csr with op := csrSetOp w .CSR_SET }
  | 3 => { csr with op := csrSetOp w .CSR_CLEAR }
  | 5 => { csr with op := .CSR_WRITE, useZimm := true }
  | 6 => { csr with op := csrSetOp w .CSR_SET, useZimm := true }
  | 7 => { csr with op := csrSetOp w .CSR_CLEAR, useZimm := true }
  | _ => { d with illegalInstr := true }

def decodeMiscMem (w : Instr) : Decoded :=
  let d : Decoded :=
    match (funct3 w).toNat with
    | 0 => { fu := .CSR, op := .FENCE }
    | 1 =>
      { fu := .CSR, op := .FENCE_I, illegalInstr := imm w ≠ 0#12 }
    | _ => { fu := .CSR, illegalInstr := true }
  d.illegalIf (rs1 w ≠ 0#5 ∨ rd w ≠ 0#5 ∨ w.extractLsb' 28 4 ≠ 0#4)

/-! ## Integer instructions -/

def regRegOp (w : Instr) : Option FuOp :=
  match (funct7 w).toNat, (funct3 w).toNat with
  | 0x00, 0 => some .ADD
  | 0x20, 0 => some .SUB
  | 0x00, 2 => some .SLTS
  | 0x00, 3 => some .SLTU
  | 0x00, 4 => some .XORL
  | 0x00, 6 => some .ORL
  | 0x00, 7 => some .ANDL
  | 0x00, 1 => some .SLL
  | 0x00, 5 => some .SRL
  | 0x20, 5 => some .SRA
  | 0x01, 0 => some .MUL
  | 0x01, 1 => some .MULH
  | 0x01, 2 => some .MULHSU
  | 0x01, 3 => some .MULHU
  | 0x01, 4 => some .DIV
  | 0x01, 5 => some .DIVU
  | 0x01, 6 => some .REM
  | 0x01, 7 => some .REMU
  | _, _ => none

def regRegOp32 (w : Instr) : Option FuOp :=
  match (funct7 w).toNat, (funct3 w).toNat with
  | 0x00, 0 => some .ADDW
  | 0x20, 0 => some .SUBW
  | 0x00, 1 => some .SLLW
  | 0x00, 5 => some .SRLW
  | 0x20, 5 => some .SRAW
  | 0x01, 0 => some .MULW
  | 0x01, 4 => some .DIVW
  | 0x01, 5 => some .DIVUW
  | 0x01, 6 => some .REMW
  | 0x01, 7 => some .REMUW
  | _, _ => none

/-- The register-register format of both widths. -/
def regReg (w : Instr) : Decoded where
  fu := if funct7 w = 1#7 then .MULT else .ALU
  rs1 := regAddr (rs1 w)
  rs2 := regAddr (rs2 w)
  rd := regAddr (rd w)

/-- The prefix `10` is the vectorial floating-point format. -/
def decodeOp (w : Instr) : Decoded :=
  if w.extractLsb' 30 2 = 0b10#2 then { illegalInstr := true }
  else (regReg w).select (regRegOp w)

def decodeOp32 (w : Instr) : Decoded := (regReg w).select (regRegOp32 w)

/-- The register-immediate format. -/
def regImm (fu : FuT) (w : Instr) : Decoded where
  fu := fu
  rs1 := regAddr (rs1 w)
  rd := regAddr (rd w)
  immSelect := .IIMM

def decodeOpImm (w : Instr) : Decoded :=
  let d := regImm .ALU w
  let hi := w.extractLsb' 26 6
  match (funct3 w).toNat with
  | 0 => { d with op := .ADD }
  | 2 => { d with op := .SLTS }
  | 3 => { d with op := .SLTU }
  | 4 => { d with op := .XORL }
  | 6 => { d with op := .ORL }
  | 7 => { d with op := .ANDL }
  | 1 => { d with op := .SLL }.illegalIf (hi ≠ 0#6)
  | 5 =>
    d.select (if hi = 0#6 then some .SRL
      else if hi = 0b010000#6 then some .SRA else none)
  | _ => d

def decodeOpImm32 (w : Instr) : Decoded :=
  let d := regImm .ALU w
  match (funct3 w).toNat with
  | 0 => { d with op := .ADDW }
  | 1 => { d with op := .SLLW }.illegalIf (funct7 w ≠ 0#7)
  | 5 =>
    d.select (if funct7 w = 0#7 then some .SRLW
      else if funct7 w = 0b0100000#7 then some .SRAW else none)
  | _ => { d with illegalInstr := true }

/-! ## Loads, stores and atomics -/

/-- The store format. -/
def storeFormat (w : Instr) : Decoded where
  fu := .STORE
  rs1 := regAddr (rs1 w)
  rs2 := regAddr (rs2 w)
  immSelect := .SIMM

def storeOp (w : Instr) : Option FuOp :=
  match (funct3 w).toNat with
  | 0 => some .SB
  | 1 => some .SH
  | 2 => some .SW
  | 3 => some .SD
  | _ => none

def loadOp (w : Instr) : Option FuOp :=
  match (funct3 w).toNat with
  | 0 => some .LB
  | 1 => some .LH
  | 2 => some .LW
  | 4 => some .LBU
  | 5 => some .LHU
  | 6 => some .LWU
  | 3 => some .LD
  | _ => none

def storeFpOp (w : Instr) : Option FuOp :=
  match (funct3 w).toNat with
  | 0 => if XF8 then some .FSB else none
  | 1 => if XF16 || XF16ALT then some .FSH else none
  | 2 => some .FSW
  | 3 => some .FSD
  | _ => none

def loadFpOp (w : Instr) : Option FuOp :=
  match (funct3 w).toNat with
  | 0 => if XF8 then some .FLB else none
  | 1 => if XF16 || XF16ALT then some .FLH else none
  | 2 => some .FLW
  | 3 => some .FLD
  | _ => none

def decodeStore (w : Instr) : Decoded := (storeFormat w).select (storeOp w)

def decodeLoad (w : Instr) : Decoded :=
  (regImm .LOAD w).select (loadOp w)

def decodeStoreFp (i : In) : Decoded :=
  if i.fs = XS_OFF then { illegalInstr := true }
  else (storeFormat i.instruction).select (storeFpOp i.instruction)

def decodeLoadFp (i : In) : Decoded :=
  if i.fs = XS_OFF then { illegalInstr := true }
  else (regImm .LOAD i.instruction).select (loadFpOp i.instruction)

/-- The atomics on words and on double words, by `funct5`.  LR asks for
`rs2` zero. -/
def amoOp (word : Bool) (w : Instr) : Option FuOp :=
  let sel (opw opd : FuOp) : Option FuOp := some (if word then opw else opd)
  match (funct5 w).toNat with
  | 0x00 => sel .AMO_ADDW .AMO_ADDD
  | 0x01 => sel .AMO_SWAPW .AMO_SWAPD
  | 0x02 => sel .AMO_LRW .AMO_LRD
  | 0x03 => sel .AMO_SCW .AMO_SCD
  | 0x04 => sel .AMO_XORW .AMO_XORD
  | 0x08 => sel .AMO_ORW .AMO_ORD
  | 0x0C => sel .AMO_ANDW .AMO_ANDD
  | 0x10 => sel .AMO_MINW .AMO_MIND
  | 0x14 => sel .AMO_MAXW .AMO_MAXD
  | 0x18 => sel .AMO_MINWU .AMO_MINDU
  | 0x1C => sel .AMO_MAXWU .AMO_MAXDU
  | _ => none

def decodeAmo (w : Instr) : Decoded :=
  let d : Decoded :=
    { fu := .STORE, rs1 := regAddr (rs1 w), rs2 := regAddr (rs2 w),
      rd := regAddr (rd w) }
  if funct3 w = 2#3 ∨ funct3 w = 3#3 then
    (d.select (amoOp (funct3 w = 2#3) w)).illegalIf
      (funct5 w = 2#5 ∧ rs2 w ≠ 0#5)
  else { d with illegalInstr := true }

/-! ## Floating-point instructions -/

/-- The format bits select an extension that is not there. -/
def fpFormatIllegal (f : BitVec 2) : Bool :=
  match f.toNat with
  | 0 | 1 => false
  | 2 => !XF16 && !XF16ALT
  | _ => !XF8

/-- The dynamic rounding mode is not a legal one. -/
def frmIllegal (frm : BitVec 3) : Bool := 4#3 < frm

/-- The rounding-mode check: mode 5 is the alternative half precision, mode
7 takes the mode of the `frm` CSR. -/
def roundingModeIllegal (rm : BitVec 3) (f : BitVec 2) (frm : BitVec 3) :
    Bool :=
  if rm ≤ 4#3 then false
  else if rm = 5#3 then !XF16ALT || f ≠ 2#2 || frmIllegal frm
  else if rm = 7#3 then frmIllegal frm
  else true

/-- An operation is encoded in the rounding mode field, up to `hi`; the
alternative half precision has its own encodings from 4 up. -/
def encodedRm (rm : BitVec 3) (hi : Nat) : Bool :=
  rm.toNat ≤ hi ∨ XF16ALT ∧ 4 ≤ rm.toNat ∧ rm.toNat ≤ 4 + hi

/-- The source format of a conversion is not there. -/
def sourceFormatIllegal (f : BitVec 3) : Bool :=
  match f.toNat with
  | 0 | 1 => false
  | 2 => !XF16
  | 6 => !XF16ALT
  | 3 => !XF8
  | _ => true

def fmaOp (w : Instr) : FuOp :=
  if opcode w = OpcodeMsub then .FMSUB
  else if opcode w = OpcodeNmsub then .FNMSUB
  else if opcode w = OpcodeNmadd then .FNMADD
  else .FMADD

/-- The floating-point register format. -/
def fpFormat (w : Instr) : Decoded where
  fu := .FPU
  rs1 := regAddr (rs1 w)
  rs2 := regAddr (rs2 w)
  rd := regAddr (rd w)

def decodeFma (i : In) : Decoded :=
  let w := i.instruction
  if i.fs = XS_OFF then { illegalInstr := true }
  else
    { fpFormat w with op := fmaOp w, immSelect := .RS3 }.illegalIf
      (fpFormatIllegal (fmt w) ∨ roundingModeIllegal (funct3 w) (fmt w) i.frm)

/-- The operation of `OpcodeOpFp` and whether its rounding mode is
checked. -/
def opFpSelect (w : Instr) (d : Decoded) : Decoded × Bool :=
  let rm := funct3 w
  let rs1' := regAddr (rs1 w)
  -- operand A is zero, operand B is rs1 and operand C is rs2
  let addSub : Decoded :=
    { d with rs1 := 0#6, rs2 := rs1', immSelect := .IIMM }
  match (funct5 w).toNat with
  | 0x00 => ({ addSub with op := .FADD }, true)
  | 0x01 => ({ addSub with op := .FSUB }, true)
  | 0x02 => ({ d with op := .FMUL }, true)
  | 0x03 => ({ d with op := .FDIV }, true)
  | 0x0B => ({ d with op := .FSQRT }.illegalIf (rs2 w ≠ 0#5), true)
  | 0x04 => ({ d with op := .FSGNJ }.illegalIf (¬ encodedRm rm 2), false)
  | 0x05 => ({ d with op := .FMIN_MAX }.illegalIf (¬ encodedRm rm 1), false)
  | 0x08 =>
    ({ d with op := .FCVT_F2F, rs2 := rs1', immSelect := .IIMM }.illegalIf
      ((rs2 w).extractLsb' 3 2 ≠ 0#2 ∨
        sourceFormatIllegal ((rs2 w).extractLsb' 0 3)), true)
  | 0x14 => ({ d with op := .FCMP }.illegalIf (¬ encodedRm rm 2), false)
  | 0x18 =>
    ({ d with op := .FCVT_F2I, immSelect := .IIMM }.illegalIf
      ((rs2 w).extractLsb' 2 3 ≠ 0#3), true)
  | 0x1A =>
    ({ d with op := .FCVT_I2F, immSelect := .IIMM }.illegalIf
      ((rs2 w).extractLsb' 2 3 ≠ 0#3), true)
  | 0x1C =>
    (({ d with rs2 := rs1' }.select
      (if encodedRm rm 0 then some .FMV_F2X
        else if encodedRm rm 1 then some .FCLASS else none)).illegalIf
      (rs2 w ≠ 0#5), false)
  | 0x1E =>
    ({ d with op := .FMV_X2F, rs2 := rs1' }.illegalIf
      (¬ encodedRm rm 0 ∨ rs2 w ≠ 0#5), false)
  | _ => ({ d with illegalInstr := true }, true)

def decodeOpFp (i : In) : Decoded :=
  let w := i.instruction
  if i.fs = XS_OFF then { illegalInstr := true }
  else
    let (d, checkFprm) := opFpSelect w (fpFormat w)
    d.illegalIf (fpFormatIllegal (fmt w) ∨
      checkFprm ∧ roundingModeIllegal (funct3 w) (fmt w) i.frm)

/-! ## Control flow and the upper immediates -/

def branchOp (w : Instr) : Option FuOp :=
  match (funct3 w).toNat with
  | 0 => some .EQ
  | 1 => some .NE
  | 4 => some .LTS
  | 5 => some .GES
  | 6 => some .LTU
  | 7 => some .GEU
  | _ => none

def decodeBranch (w : Instr) : Decoded :=
  let d : Decoded :=
    { fu := .CTRL_FLOW, rs1 := regAddr (rs1 w), rs2 := regAddr (rs2 w),
      immSelect := .SBIMM, isControlFlowInstr := (branchOp w).isSome }
  d.select (branchOp w)

def decodeJalr (w : Instr) : Decoded :=
  { regImm .CTRL_FLOW w with
    op := .JALR, isControlFlowInstr := true }.illegalIf (funct3 w ≠ 0#3)

def decodeJal (w : Instr) : Decoded where
  fu := .CTRL_FLOW
  rd := regAddr (rd w)
  immSelect := .JIMM
  isControlFlowInstr := true

def decodeAuipc (w : Instr) : Decoded where
  fu := .ALU
  rd := regAddr (rd w)
  immSelect := .UIMM
  usePc := true

def decodeLui (w : Instr) : Decoded where
  fu := .ALU
  rd := regAddr (rd w)
  immSelect := .UIMM

/-! ## The processes of the module -/

/-- The opcodes of the units other than the CSR unit. -/
def decodeUnit (i : In) : Decoded :=
  let w := i.instruction
  let opc := opcode w
  if opc = OpcodeOp then decodeOp w
  else if opc = OpcodeOp32 then decodeOp32 w
  else if opc = OpcodeOpImm then decodeOpImm w
  else if opc = OpcodeOpImm32 then decodeOpImm32 w
  else if opc = OpcodeStore then decodeStore w
  else if opc = OpcodeLoad then decodeLoad w
  else if opc = OpcodeStoreFp then decodeStoreFp i
  else if opc = OpcodeLoadFp then decodeLoadFp i
  else if opc = OpcodeMadd ∨ opc = OpcodeMsub ∨ opc = OpcodeNmsub ∨
      opc = OpcodeNmadd then decodeFma i
  else if opc = OpcodeOpFp then decodeOpFp i
  else if opc = OpcodeAmo then decodeAmo w
  else if opc = OpcodeBranch then decodeBranch w
  else if opc = OpcodeJalr then decodeJalr w
  else if opc = OpcodeJal then decodeJal w
  else if opc = OpcodeAuipc then decodeAuipc w
  else if opc = OpcodeLui then decodeLui w
  else { illegalInstr := true }

/-- The `decoder` process.  After a fetch exception nothing is decoded. -/
def decodeInstr (i : In) : Decoded :=
  if i.ex.valid then {}
  else if opcode i.instruction = OpcodeSystem then decodeSystem i
  else if opcode i.instruction = OpcodeMiscMem then
    decodeMiscMem i.instruction
  else decodeUnit i

/-- `sign_extend`: the `result` field. -/
def immediate (w : Instr) : ImmSelect → BitVec 64
  | .IIMM => (imm w).signExtend 64
  | .SIMM => (funct7 w ++ rd w).signExtend 64
  | .SBIMM =>
    (w.extractLsb' 31 1 ++ w.extractLsb' 7 1 ++ w.extractLsb' 25 6 ++
      w.extractLsb' 8 4 ++ 0#1).signExtend 64
  | .UIMM => (w.extractLsb' 12 20 ++ 0#12).signExtend 64
  | .JIMM =>
    (w.extractLsb' 31 1 ++ w.extractLsb' 12 8 ++ w.extractLsb' 20 1 ++
      w.extractLsb' 21 10 ++ 0#1).signExtend 64
  | .RS3 => (rs3 w).setWidth 64
  | .NOIMM => 0#64

/-- The `use_imm` field. -/
def usesImmediate : ImmSelect → Bool
  | .IIMM | .SIMM | .SBIMM | .UIMM | .JIMM => true
  | .RS3 | .NOIMM => false

/-- `interrupt_cause`: the enabled pending interrupt of highest priority,
zero if there is none. -/
def selectInterrupt (c : IrqCtrl) (irq : BitVec 2) : BitVec 64 :=
  let pending (n : Nat) : Bool := c.mie.getLsbD n && c.mip.getLsbD n
  if pending IRQ_M_EXT then M_EXT_INTERRUPT
  else if pending IRQ_M_SOFT then M_SW_INTERRUPT
  else if pending IRQ_M_TIMER then M_TIMER_INTERRUPT
  else if c.mie.getLsbD IRQ_S_EXT &&
      (c.mip.getLsbD IRQ_S_EXT || irq.getLsbD 1) then S_EXT_INTERRUPT
  else if pending IRQ_S_SOFT then S_SW_INTERRUPT
  else if pending IRQ_S_TIMER then S_TIMER_INTERRUPT
  else 0#64

/-- The interrupt that is taken, if any.  A delegated one needs a level
below S, or S with interrupts enabled. -/
def takenInterrupt (i : In) : Option (BitVec 64) :=
  let c := i.irqCtrl
  let cause := selectInterrupt c i.irq
  if cause.getLsbD 63 ∧ c.globalEnable then
    if c.mideleg.getLsbD (cause.extractLsb' 0 6).toNat then
      if c.sie ∧ i.privLvl = PRIV_LVL_S ∨ i.privLvl = PRIV_LVL_U then
        some cause
      else none
    else some cause
  else none

/-- The cause of an ECALL; no level but these three is expected. -/
def ecallCause (i : In) : BitVec 64 :=
  if i.privLvl = PRIV_LVL_M then ENV_CALL_MMODE
  else if i.privLvl = PRIV_LVL_S then ENV_CALL_SMODE
  else if i.privLvl = PRIV_LVL_U then ENV_CALL_UMODE
  else i.ex.cause

/-- The exception of the instruction itself, after a fetch without one.
`tval` is the word, kept for an exception in the commit stage. -/
def instrException (i : In) (d : Decoded) : ExceptionT :=
  let tval := if i.isCompressed then i.compressedInstr.setWidth 64
    else i.instruction.setWidth 64
  if d.illegalInstr ∨ i.isIllegal then ⟨ILLEGAL_INSTR, tval, true⟩
  else if d.ecall then ⟨ecallCause i, tval, true⟩
  else if d.ebreak then ⟨BREAKPOINT, tval, true⟩
  else ⟨i.ex.cause, tval, false⟩

/-- `exception_handling`: an interrupt replaces the exception of the
instruction, and a debug request replaces everything. -/
def exception (i : In) (d : Decoded) : ExceptionT :=
  let ex := if i.ex.valid then i.ex
    else
      match takenInterrupt i with
      | some cause => { instrException i d with cause := cause, valid := true }
      | none => instrException i d
  if i.debugReq ∧ i.debugMode = false then
    { ex with cause := DEBUG_REQUEST, valid := true }
  else ex

/-- `instruction_o`. -/
def decoder (i : In) : ScoreboardEntry :=
  let d := decodeInstr i
  let ex := exception i d
  { pc := i.pc
    transId := 0#3
    fu := d.fu
    op := d.op
    rs1 := d.rs1
    rs2 := d.rs2
    rd := d.rd
    result := immediate i.instruction d.immSelect
    valid := ex.valid
    useImm := usesImmediate d.immSelect
    useZimm := d.useZimm
    usePc := d.usePc
    ex := ex
    predictAddress := i.predictAddress
    isCompressed := i.isCompressed }

/-! ## The words that reach the CSR unit -/

abbrev MRET_WORD : Instr := 0x30200073#32
abbrev SRET_WORD : Instr := 0x10200073#32
abbrev DRET_WORD : Instr := 0x7B200073#32

section Facts

variable {d : Decoded} {i : In} {w w' : Instr}

@[simp] theorem select_fu (o : Option FuOp) : (d.select o).fu = d.fu := by
  cases o <;> rfl

@[simp] theorem illegalIf_fu (p : Prop) [Decidable p] :
    (d.illegalIf p).fu = d.fu := rfl

@[simp] theorem illegalIf_op (p : Prop) [Decidable p] :
    (d.illegalIf p).op = d.op := rfl

theorem opFpSelect_fu : (opFpSelect w d).1.fu = d.fu := by
  unfold opFpSelect
  dsimp only
  split <;> simp

theorem regReg_fu : (regReg w).fu ≠ .CSR := by
  unfold regReg
  split_ifs <;> simp

theorem decodeOp_fu : (decodeOp w).fu ≠ .CSR := by
  unfold decodeOp
  split_ifs
  · simp
  · rw [select_fu]
    exact regReg_fu

theorem decodeOp32_fu : (decodeOp32 w).fu ≠ .CSR := by
  unfold decodeOp32
  rw [select_fu]
  exact regReg_fu

theorem decodeOpImm_fu : (decodeOpImm w).fu ≠ .CSR := by
  unfold decodeOpImm
  dsimp only
  split <;> simp [regImm]

theorem decodeOpImm32_fu : (decodeOpImm32 w).fu ≠ .CSR := by
  unfold decodeOpImm32
  dsimp only
  split <;> simp [regImm]

theorem decodeStoreFp_fu : (decodeStoreFp i).fu ≠ .CSR := by
  unfold decodeStoreFp
  split_ifs <;> simp [storeFormat]

theorem decodeLoadFp_fu : (decodeLoadFp i).fu ≠ .CSR := by
  unfold decodeLoadFp
  split_ifs <;> simp [regImm]

theorem decodeAmo_fu : (decodeAmo w).fu ≠ .CSR := by
  unfold decodeAmo
  dsimp only
  split_ifs <;> simp

theorem decodeFma_fu : (decodeFma i).fu ≠ .CSR := by
  unfold decodeFma
  dsimp only
  split_ifs <;> simp [fpFormat]

theorem decodeOpFp_fu : (decodeOpFp i).fu ≠ .CSR := by
  unfold decodeOpFp
  dsimp only
  split_ifs
  · simp
  · rw [illegalIf_fu, opFpSelect_fu]
    simp [fpFormat]

theorem ite_fu {c : Prop} [Decidable c] {a b : Decoded}
    (ha : a.fu ≠ .CSR) (hb : b.fu ≠ .CSR) :
    (if c then a else b).fu ≠ .CSR := by
  by_cases hc : c
  · rwa [if_pos hc]
  · rwa [if_neg hc]

theorem decodeUnit_fu : (decodeUnit i).fu ≠ .CSR := by
  unfold decodeUnit
  refine ite_fu decodeOp_fu <| ite_fu decodeOp32_fu <|
    ite_fu decodeOpImm_fu <| ite_fu decodeOpImm32_fu <|
    ite_fu ?store <| ite_fu ?load <| ite_fu decodeStoreFp_fu <|
    ite_fu decodeLoadFp_fu <| ite_fu decodeFma_fu <|
    ite_fu decodeOpFp_fu <| ite_fu decodeAmo_fu <| ite_fu ?branch <|
    ite_fu ?jalr <| ite_fu ?jal <| ite_fu ?auipc <| ite_fu ?lui ?illegal
  case store => simp [decodeStore, storeFormat]
  case load => simp [decodeLoad, regImm]
  case branch => simp [decodeBranch]
  case jalr => simp [decodeJalr, regImm]
  all_goals simp [decodeJal, decodeAuipc, decodeLui]

/-- Only the system and the memory ordering opcodes select the CSR unit. -/
theorem decodeInstr_of_fu_csr (h : (decodeInstr i).fu = .CSR) :
    i.ex.valid = false ∧
      (opcode i.instruction = OpcodeSystem ∧
          decodeInstr i = decodeSystem i ∨
        decodeInstr i = decodeMiscMem i.instruction) := by
  unfold decodeInstr at h ⊢
  by_cases hex : i.ex.valid = true
  · rw [if_pos hex] at h
    exact absurd h (by simp)
  · rw [if_neg hex] at h ⊢
    refine ⟨by simpa using hex, ?_⟩
    by_cases hsys : opcode i.instruction = OpcodeSystem
    · rw [if_pos hsys]
      exact Or.inl ⟨hsys, rfl⟩
    · rw [if_neg hsys] at h ⊢
      by_cases hmisc : opcode i.instruction = OpcodeMiscMem
      · rw [if_pos hmisc]
        exact Or.inr rfl
      · rw [if_neg hmisc] at h
        exact absurd h decodeUnit_fu

/-- A word is determined by the fields of the I format. -/
theorem eq_of_fields (hop : opcode w = opcode w') (hrd : rd w = rd w')
    (hf3 : funct3 w = funct3 w') (hrs1 : rs1 w = rs1 w')
    (himm : imm w = imm w') : w = w' := by
  apply BitVec.eq_of_toNat_eq
  have h1 := congrArg BitVec.toNat hop
  have h2 := congrArg BitVec.toNat hrd
  have h3 := congrArg BitVec.toNat hf3
  have h4 := congrArg BitVec.toNat hrs1
  have h5 := congrArg BitVec.toNat himm
  have hw := w.isLt
  have hw' := w'.isLt
  simp only [opcode, rd, funct3, rs1, imm, BitVec.extractLsb'_toNat,
    Nat.shiftRight_eq_div_pow] at h1 h2 h3 h4 h5
  omega

theorem decodePriv_mret (hd : d.op = .ADD)
    (h : (decodePriv i d).op = .MRET) :
    imm i.instruction = 0x302#12 ∧
      (decodePriv i d).illegalInstr =
        (d.illegalInstr ||
          decide (rs1 i.instruction ≠ 0#5 ∨ rd i.instruction ≠ 0#5) ||
          decide (i.privLvl = PRIV_LVL_U ∨ i.privLvl = PRIV_LVL_S)) := by
  unfold decodePriv at h ⊢
  dsimp only at h ⊢
  split_ifs at h ⊢ with h0 h1 h2 hs h3
  all_goals first
    | exact ⟨h3, rfl⟩
    | simp [Decoded.illegalIf, hd] at h

theorem decodePriv_sret (hd : d.op = .ADD)
    (h : (decodePriv i d).op = .SRET) :
    ¬ (i.privLvl = PRIV_LVL_U ∨ i.privLvl = PRIV_LVL_S ∧ i.tsr) := by
  unfold decodePriv at h
  dsimp only at h
  split_ifs at h with h0 h1 h2 hs h3
  all_goals first
    | exact hs
    | simp [Decoded.illegalIf, hd] at h

theorem decodePriv_dret (hd : d.op = .ADD)
    (h : (decodePriv i d).op = .DRET) :
    (decodePriv i d).illegalInstr = !i.debugMode := by
  unfold decodePriv at h ⊢
  dsimp only at h ⊢
  split_ifs at h ⊢
  all_goals first
    | rfl
    | simp [Decoded.illegalIf, hd] at h

/-- A system instruction is a return only in the `decodePriv` case. -/
theorem decodeSystem_xret
    (h : (decodeSystem i).op = .MRET ∨ (decodeSystem i).op = .SRET ∨
      (decodeSystem i).op = .DRET) :
    funct3 i.instruction = 0#3 ∧
      decodeSystem i = decodePriv i
        { fu := .CSR, rs1 := regAddr (rs1 i.instruction),
          rd := regAddr (rd i.instruction) } := by
  have hset : ∀ op, csrSetOp i.instruction op = .CSR_READ ∨
      csrSetOp i.instruction op = op := by
    intro op
    unfold csrSetOp
    split_ifs
    · exact Or.inl rfl
    · exact Or.inr rfl
  have hs := hset .CSR_SET
  have hc := hset .CSR_CLEAR
  unfold decodeSystem at h ⊢
  dsimp only at h ⊢
  split at h
  case h_1 heq => exact ⟨BitVec.eq_of_toNat_eq heq, rfl⟩
  all_goals
    exfalso
    rcases hs with hs | hs <;> rcases hc with hc | hc <;> simp [hs, hc] at h

theorem decodeMiscMem_op :
    (decodeMiscMem w).op = .FENCE ∨ (decodeMiscMem w).op = .FENCE_I ∨
      (decodeMiscMem w).op = .ADD := by
  unfold decodeMiscMem
  dsimp only
  rw [illegalIf_op]
  split <;> simp

/-- What the decoder has checked of a return that it does not reject. -/
theorem xret_of_legal (hfu : (decodeInstr i).fu = .CSR)
    (hl : (decodeInstr i).illegalInstr = false) :
    ((decodeInstr i).op = .MRET → i.instruction = MRET_WORD ∧
        i.privLvl ≠ PRIV_LVL_U ∧ i.privLvl ≠ PRIV_LVL_S) ∧
      ((decodeInstr i).op = .SRET → i.privLvl ≠ PRIV_LVL_U ∧
        ¬ (i.privLvl = PRIV_LVL_S ∧ i.tsr)) ∧
      ((decodeInstr i).op = .DRET → i.debugMode = true) := by
  obtain ⟨-, ⟨hopc, hd⟩ | hd⟩ := decodeInstr_of_fu_csr hfu
  · rw [hd] at hl ⊢
    refine ⟨fun h => ?_, fun h => ?_, fun h => ?_⟩
    · obtain ⟨hf3, hp⟩ := decodeSystem_xret (Or.inl h)
      rw [hp] at h hl
      obtain ⟨himm, hill⟩ := decodePriv_mret rfl h
      rw [hill] at hl
      simp only [Bool.or_eq_false_iff, decide_eq_false_iff_not, not_or,
        not_not] at hl
      obtain ⟨⟨-, hrs1, hrd⟩, hpriv⟩ := hl
      exact ⟨eq_of_fields hopc hrd hf3 hrs1 himm, hpriv⟩
    · obtain ⟨-, hp⟩ := decodeSystem_xret (Or.inr (Or.inl h))
      rw [hp] at h
      exact not_or.mp (decodePriv_sret rfl h)
    · obtain ⟨-, hp⟩ := decodeSystem_xret (Or.inr (Or.inr h))
      rw [hp] at h hl
      rw [decodePriv_dret rfl h] at hl
      simpa using hl
  · rw [hd]
    rcases @decodeMiscMem_op i.instruction with h | h | h <;> simp [h]

/-- A word of the system opcode with `funct3` zero. -/
theorem decodeInstr_priv (hex : i.ex.valid = false)
    (hopc : opcode i.instruction = OpcodeSystem)
    (hf3 : funct3 i.instruction = 0#3) :
    decodeInstr i = decodePriv i
      { fu := .CSR, rs1 := regAddr (rs1 i.instruction),
        rd := regAddr (rd i.instruction) } := by
  unfold decodeInstr decodeSystem
  rw [if_neg (by simp [hex]), if_pos hopc]
  dsimp only
  rw [hf3]
  rfl

/-- The returns that the decoder rejects. -/
theorem illegal_xret (hex : i.ex.valid = false)
    (h : i.instruction = MRET_WORD ∧
        (i.privLvl = PRIV_LVL_U ∨ i.privLvl = PRIV_LVL_S) ∨
      i.instruction = SRET_WORD ∧
        (i.privLvl = PRIV_LVL_U ∨ i.privLvl = PRIV_LVL_S ∧ i.tsr) ∨
      i.instruction = DRET_WORD ∧ i.debugMode = false) :
    (decodeInstr i).illegalInstr = true := by
  have hw : i.instruction = MRET_WORD ∨ i.instruction = SRET_WORD ∨
      i.instruction = DRET_WORD := by
    rcases h with h | h | h
    · exact Or.inl h.1
    · exact Or.inr (Or.inl h.1)
    · exact Or.inr (Or.inr h.1)
  have hopc : opcode i.instruction = OpcodeSystem := by
    rcases hw with h | h | h <;> rw [h] <;> decide
  have hf3 : funct3 i.instruction = 0#3 := by
    rcases hw with h | h | h <;> rw [h] <;> decide
  rw [decodeInstr_priv hex hopc hf3]
  rcases h with ⟨hw, hp⟩ | ⟨hw, hp⟩ | ⟨hw, hp⟩
  · have himm : imm i.instruction = 0x302#12 := by rw [hw]; decide
    simp [decodePriv, himm, Decoded.illegalIf, hp]
  · have himm : imm i.instruction = 0x102#12 := by rw [hw]; decide
    simp [decodePriv, himm, hp]
  · have himm : imm i.instruction = 0x7B2#12 := by rw [hw]; decide
    simp [decodePriv, himm, hp]

/-- MRET where the decoder accepts it. -/
theorem decodeInstr_mret (hex : i.ex.valid = false)
    (hw : i.instruction = MRET_WORD)
    (hp : ¬ (i.privLvl = PRIV_LVL_U ∨ i.privLvl = PRIV_LVL_S)) :
    decodeInstr i = { fu := .CSR, op := .MRET } := by
  have hopc : opcode i.instruction = OpcodeSystem := by rw [hw]; decide
  have hf3 : funct3 i.instruction = 0#3 := by rw [hw]; decide
  have hrs1 : rs1 i.instruction = 0#5 := by rw [hw]; decide
  have hrd : rd i.instruction = 0#5 := by rw [hw]; decide
  have himm : imm i.instruction = 0x302#12 := by rw [hw]; decide
  rw [decodeInstr_priv hex hopc hf3]
  simp [decodePriv, himm, hrs1, hrd, Decoded.illegalIf, hp, regAddr]

/-! ## The exception of the decoder -/

theorem instrException_valid :
    (instrException i d).valid =
      (d.illegalInstr || i.isIllegal || d.ecall || d.ebreak) := by
  unfold instrException
  dsimp only
  by_cases hill : d.illegalInstr = true ∨ i.isIllegal = true
  · rw [if_pos hill]
    rcases hill with h | h <;> simp [h]
  · rw [if_neg hill]
    obtain ⟨hill, hexp⟩ := not_or.mp hill
    cases hcall : d.ecall <;> cases hbreak : d.ebreak <;>
      simp [hill, hexp]

/-- The decoder attaches no exception exactly if there is none of the
fetch, of the instruction, of an interrupt and of a debug request. -/
theorem exception_valid_eq_false :
    (exception i d).valid = false ↔
      i.ex.valid = false ∧ (instrException i d).valid = false ∧
        takenInterrupt i = none ∧
        ¬ (i.debugReq = true ∧ i.debugMode = false) := by
  unfold exception
  by_cases hdbg : i.debugReq = true ∧ i.debugMode = false
  · simp [hdbg]
  · rw [if_neg hdbg]
    by_cases hex : i.ex.valid = true
    · simp [hex]
    · rw [if_neg hex]
      cases ht : takenInterrupt i with
      | none => simp_all
      | some cause => simp

theorem exception_of_illegal (hex : i.ex.valid = false)
    (hint : takenInterrupt i = none)
    (hdbg : ¬ (i.debugReq = true ∧ i.debugMode = false))
    (hill : d.illegalInstr = true) :
    (exception i d).valid = true ∧
      (exception i d).cause = ILLEGAL_INSTR := by
  unfold exception
  rw [if_neg hdbg, if_neg (by simp [hex]), hint]
  simp [instrException, hill]

end Facts

end ArianeSoc.Decoder
