import ArianeSoc.Decoder
import ArianeSoc.InstrFormat

/-!
# The compressed instructions of RV64GC

The tables of the C extension.  `rvc` is the base instruction that a 16-bit
instruction expands to, and `none` for the encodings that are illegal or
reserved.  A hint expands like any other instruction of its encoding, to
one that changes no register.

`Base.encode` is the 32-bit encoding of a base instruction and
`Base.operation` what it asks of the units of the core.
-/

namespace ArianeSoc.Decoder

open InstrFormat

/-! ## The base instructions -/

inductive ImmOp
  | addi | addiw | andi
  deriving DecidableEq, Repr

inductive ShiftOp
  | slli | srli | srai
  deriving DecidableEq, Repr

inductive RegOp
  | add | sub | xor | or | and | addw | subw
  deriving DecidableEq, Repr

inductive LoadOp
  | lw | ld | fld
  deriving DecidableEq, Repr

inductive StoreOp
  | sw | sd | fsd
  deriving DecidableEq, Repr

inductive BranchOp
  | beq | bne
  deriving DecidableEq, Repr

/-- The instructions that compressed ones expand to.  The offsets of
branches and jumps are counted in half words. -/
inductive Base
  | imm (op : ImmOp) (rd rs1 : Reg) (imm : BitVec 12)
  | shift (op : ShiftOp) (rd rs1 : Reg) (shamt : BitVec 6)
  | reg (op : RegOp) (rd rs1 rs2 : Reg)
  | lui (rd : Reg) (imm : BitVec 20)
  | load (op : LoadOp) (rd rs1 : Reg) (offset : BitVec 12)
  | store (op : StoreOp) (rs2 rs1 : Reg) (offset : BitVec 12)
  | branch (op : BranchOp) (rs1 rs2 : Reg) (half : BitVec 12)
  | jal (rd : Reg) (half : BitVec 20)
  | jalr (rd rs1 : Reg) (offset : BitVec 12)
  | ebreak
  deriving DecidableEq, Repr

/-- The encoding of a base instruction. -/
def Base.encode : Base → Instr
  | imm .addi rd rs1 i => iType i rs1 0b000#3 rd OpcodeOpImm
  | imm .addiw rd rs1 i => iType i rs1 0b000#3 rd OpcodeOpImm32
  | imm .andi rd rs1 i => iType i rs1 0b111#3 rd OpcodeOpImm
  | shift .slli rd rs1 s => iType (0b000000#6 ++ s) rs1 0b001#3 rd OpcodeOpImm
  | shift .srli rd rs1 s => iType (0b000000#6 ++ s) rs1 0b101#3 rd OpcodeOpImm
  | shift .srai rd rs1 s => iType (0b010000#6 ++ s) rs1 0b101#3 rd OpcodeOpImm
  | reg .add rd rs1 rs2 => rType 0b0000000#7 rs2 rs1 0b000#3 rd OpcodeOp
  | reg .sub rd rs1 rs2 => rType 0b0100000#7 rs2 rs1 0b000#3 rd OpcodeOp
  | reg .xor rd rs1 rs2 => rType 0b0000000#7 rs2 rs1 0b100#3 rd OpcodeOp
  | reg .or rd rs1 rs2 => rType 0b0000000#7 rs2 rs1 0b110#3 rd OpcodeOp
  | reg .and rd rs1 rs2 => rType 0b0000000#7 rs2 rs1 0b111#3 rd OpcodeOp
  | reg .addw rd rs1 rs2 => rType 0b0000000#7 rs2 rs1 0b000#3 rd OpcodeOp32
  | reg .subw rd rs1 rs2 => rType 0b0100000#7 rs2 rs1 0b000#3 rd OpcodeOp32
  | lui rd i => uType i rd OpcodeLui
  | load .lw rd rs1 o => iType o rs1 0b010#3 rd OpcodeLoad
  | load .ld rd rs1 o => iType o rs1 0b011#3 rd OpcodeLoad
  | load .fld rd rs1 o => iType o rs1 0b011#3 rd OpcodeLoadFp
  | store .sw rs2 rs1 o => sType o rs2 rs1 0b010#3 OpcodeStore
  | store .sd rs2 rs1 o => sType o rs2 rs1 0b011#3 OpcodeStore
  | store .fsd rs2 rs1 o => sType o rs2 rs1 0b011#3 OpcodeStoreFp
  | branch .beq rs1 rs2 h => bType h rs2 rs1 0b000#3 OpcodeBranch
  | branch .bne rs1 rs2 h => bType h rs2 rs1 0b001#3 OpcodeBranch
  | jal rd h => jType h rd OpcodeJal
  | jalr rd rs1 o => iType o rs1 0b000#3 rd OpcodeJalr
  | ebreak => iType 0x001#12 0#5 0b000#3 0#5 OpcodeSystem

/-! ## What an instruction asks for -/

/-- What a scoreboard entry asks of a unit. -/
structure Operation where
  fu : FuT
  op : FuOp
  rd : BitVec 6 := 0#6
  rs1 : BitVec 6 := 0#6
  rs2 : BitVec 6 := 0#6
  imm : Option (BitVec 64) := none
  useZimm : Bool := false
  usePc : Bool := false
  deriving DecidableEq, Repr

def ImmOp.op : ImmOp → FuOp
  | addi => .ADD
  | addiw => .ADDW
  | andi => .ANDL

def ShiftOp.op : ShiftOp → FuOp
  | slli => .SLL
  | srli => .SRL
  | srai => .SRA

def RegOp.op : RegOp → FuOp
  | add => .ADD
  | sub => .SUB
  | xor => .XORL
  | or => .ORL
  | and => .ANDL
  | addw => .ADDW
  | subw => .SUBW

def LoadOp.op : LoadOp → FuOp
  | lw => .LW
  | ld => .LD
  | fld => .FLD

def StoreOp.op : StoreOp → FuOp
  | sw => .SW
  | sd => .SD
  | fsd => .FSD

def BranchOp.op : BranchOp → FuOp
  | beq => .EQ
  | bne => .NE

/-- The operation of a base instruction.  LUI adds its immediate to zero,
the target of a jump is the sum of the program counter and the immediate,
and EBREAK asks for nothing but its exception. -/
def Base.operation : Base → Operation
  | imm op rd rs1 i =>
    { fu := .ALU
      op := op.op
      rd := regAddr rd
      rs1 := regAddr rs1
      imm := some (i.signExtend 64) }
  | shift op rd rs1 s =>
    { fu := .ALU
      op := op.op
      rd := regAddr rd
      rs1 := regAddr rs1
      imm := some (s.setWidth 64) }
  | reg op rd rs1 rs2 =>
    { fu := .ALU
      op := op.op
      rd := regAddr rd
      rs1 := regAddr rs1
      rs2 := regAddr rs2 }
  | lui rd i =>
    { fu := .ALU
      op := .ADD
      rd := regAddr rd
      imm := some ((i ++ 0#12).signExtend 64) }
  | load op rd rs1 o =>
    { fu := .LOAD
      op := op.op
      rd := regAddr rd
      rs1 := regAddr rs1
      imm := some (o.signExtend 64) }
  | store op rs2 rs1 o =>
    { fu := .STORE
      op := op.op
      rs1 := regAddr rs1
      rs2 := regAddr rs2
      imm := some (o.signExtend 64) }
  | branch op rs1 rs2 h =>
    { fu := .CTRL_FLOW
      op := op.op
      rs1 := regAddr rs1
      rs2 := regAddr rs2
      imm := some ((h ++ 0#1).signExtend 64) }
  | jal rd h =>
    { fu := .CTRL_FLOW
      op := .ADD
      rd := regAddr rd
      imm := some ((h ++ 0#1).signExtend 64) }
  | jalr rd rs1 o =>
    { fu := .CTRL_FLOW
      op := .JALR
      rd := regAddr rd
      rs1 := regAddr rs1
      imm := some (o.signExtend 64) }
  | ebreak => { fu := .CSR, op := .ADD }

/-- The instruction needs the floating-point unit. -/
def Base.usesFp : Base → Bool
  | load .fld .. | store .fsd .. => true
  | _ => false

/-- A shift looks at the lowest six bits of its operand. -/
def isShift : FuOp → Bool
  | .SLL | .SRL | .SRA => true
  | _ => false

/-- The operation that a scoreboard entry asks for. -/
def Operation.ofEntry (e : ScoreboardEntry) : Operation where
  fu := e.fu
  op := e.op
  rd := e.rd
  rs1 := e.rs1
  rs2 := e.rs2
  imm :=
    if e.useImm then
      some (if isShift e.op then (e.result.setWidth 6).setWidth 64
        else e.result)
    else none
  useZimm := e.useZimm
  usePc := e.usePc

/-! ## The tables -/

/-- The registers of three bits. -/
def Reg.prime (r : BitVec 3) : Reg := 0b01#2 ++ r

/-- An immediate of which the labels name the lowest `n` bits. -/
def unsigned (fs : Labels) (h : BitVec 16) : BitVec 12 := labelled fs h 12

def signed (fs : Labels) (n : Nat) (h : BitVec 16) : BitVec 12 :=
  (labelled fs h n).signExtend 12

/-- `nzuimm[5:4|9:6|2|3]` of C.ADDI4SPN. -/
def addi4spnLabels : Labels := [(12, [5, 4, 9, 8, 7, 6, 2, 3])]

/-- `uimm[5:3]` and `uimm[2|6]` of C.LW and C.SW. -/
def wordLabels : Labels := [(12, [5, 4, 3]), (6, [2, 6])]

/-- `uimm[5:3]` and `uimm[7:6]` of the double words. -/
def doubleLabels : Labels := [(12, [5, 4, 3]), (6, [7, 6])]

/-- `imm[5]` and `imm[4:0]`, also for a shift amount. -/
def immLabels : Labels := [(12, [5]), (6, [4, 3, 2, 1, 0])]

/-- `nzimm[9]` and `nzimm[4|6|8:7|5]` of C.ADDI16SP. -/
def addi16spLabels : Labels := [(12, [9]), (6, [4, 6, 8, 7, 5])]

/-- `nzimm[17]` and `nzimm[16:12]` of C.LUI. -/
def luiLabels : Labels := [(12, [17]), (6, [16, 15, 14, 13, 12])]

/-- `imm[11|4|9:8|10|6|7|3:1|5]` of C.J. -/
def jumpLabels : Labels := [(12, [11, 4, 9, 8, 10, 6, 7, 3, 2, 1, 5])]

/-- `imm[8|4:3]` and `imm[7:6|2:1|5]` of the branches. -/
def branchLabels : Labels := [(12, [8, 4, 3]), (6, [7, 6, 2, 1, 5])]

/-- `uimm[5]` and `uimm[4:2|7:6]` of C.LWSP. -/
def lwspLabels : Labels := [(12, [5]), (6, [4, 3, 2, 7, 6])]

/-- `uimm[5]` and `uimm[4:3|8:6]` of C.LDSP and C.FLDSP. -/
def ldspLabels : Labels := [(12, [5]), (6, [4, 3, 8, 7, 6])]

/-- `uimm[5:2|7:6]` of C.SWSP. -/
def swspLabels : Labels := [(12, [5, 4, 3, 2, 7, 6])]

/-- `uimm[5:3|8:6]` of C.SDSP and C.FSDSP. -/
def sdspLabels : Labels := [(12, [5, 4, 3, 8, 7, 6])]

/-- The offset of a jump and that of a branch, in half words. -/
def jumpHalf (h : BitVec 16) : BitVec 20 :=
  ((labelled jumpLabels h 12).signExtend 21).extractLsb' 1 20

def branchHalf (h : BitVec 16) : BitVec 12 :=
  ((labelled branchLabels h 9).signExtend 13).extractLsb' 1 12

/-- An instruction with an operand that must not be zero. -/
def nonzero {n : Nat} (x : BitVec n) (b : Base) : Option Base :=
  if x = 0#n then none else some b

section Tables

variable (h : BitVec 16)

def quadrant0 : Option Base :=
  let rd := Reg.prime (h.extractLsb' 2 3)
  let rs1 := Reg.prime (h.extractLsb' 7 3)
  match (h.extractLsb' 13 3).toNat with
  -- C.ADDI4SPN, and the illegal instruction zero
  | 0 => nonzero (unsigned addi4spnLabels h)
      (.imm .addi rd 2#5 (unsigned addi4spnLabels h))
  | 1 => some (.load .fld rd rs1 (unsigned doubleLabels h))
  | 2 => some (.load .lw rd rs1 (unsigned wordLabels h))
  | 3 => some (.load .ld rd rs1 (unsigned doubleLabels h))
  | 5 => some (.store .fsd rd rs1 (unsigned doubleLabels h))
  | 6 => some (.store .sw rd rs1 (unsigned wordLabels h))
  | 7 => some (.store .sd rd rs1 (unsigned doubleLabels h))
  | _ => none

/-- C.SRLI, C.SRAI, C.ANDI and the register-register instructions. -/
def miscAlu : Option Base :=
  let rd := Reg.prime (h.extractLsb' 7 3)
  let rs2 := Reg.prime (h.extractLsb' 2 3)
  match (h.extractLsb' 10 2).toNat, h.getLsbD 12, (h.extractLsb' 5 2).toNat with
  | 0, _, _ => some (.shift .srli rd rd (labelled immLabels h 6))
  | 1, _, _ => some (.shift .srai rd rd (labelled immLabels h 6))
  | 2, _, _ => some (.imm .andi rd rd (signed immLabels 6 h))
  | _, false, 0 => some (.reg .sub rd rd rs2)
  | _, false, 1 => some (.reg .xor rd rd rs2)
  | _, false, 2 => some (.reg .or rd rd rs2)
  | _, false, _ => some (.reg .and rd rd rs2)
  | _, true, 0 => some (.reg .subw rd rd rs2)
  | _, true, 1 => some (.reg .addw rd rd rs2)
  | _, true, _ => none

def quadrant1 : Option Base :=
  let rd := h.extractLsb' 7 5
  let rs1 := Reg.prime (h.extractLsb' 7 3)
  match (h.extractLsb' 13 3).toNat with
  | 0 => some (.imm .addi rd rd (signed immLabels 6 h))
  | 1 => nonzero rd (.imm .addiw rd rd (signed immLabels 6 h))
  | 2 => some (.imm .addi rd 0#5 (signed immLabels 6 h))
  | 3 =>
    if rd = 2#5 then
      nonzero (signed addi16spLabels 10 h)
        (.imm .addi 2#5 2#5 (signed addi16spLabels 10 h))
    else
      let nzimm := (labelled luiLabels h 18).signExtend 32
      nonzero nzimm (.lui rd (nzimm.extractLsb' 12 20))
  | 4 => miscAlu h
  | 5 => some (.jal 0#5 (jumpHalf h))
  | 6 => some (.branch .beq rs1 0#5 (branchHalf h))
  | _ => some (.branch .bne rs1 0#5 (branchHalf h))

/-- C.JR, C.MV, C.EBREAK, C.JALR and C.ADD. -/
def jumpOrMove : Option Base :=
  let rd := h.extractLsb' 7 5
  let rs2 := h.extractLsb' 2 5
  if h.getLsbD 12 then
    if rs2 = 0#5 then
      if rd = 0#5 then some .ebreak else some (.jalr 1#5 rd 0#12)
    else some (.reg .add rd rd rs2)
  else if rs2 = 0#5 then nonzero rd (.jalr 0#5 rd 0#12)
  else some (.reg .add rd 0#5 rs2)

def quadrant2 : Option Base :=
  let rd := h.extractLsb' 7 5
  let rs2 := h.extractLsb' 2 5
  match (h.extractLsb' 13 3).toNat with
  | 0 => some (.shift .slli rd rd (labelled immLabels h 6))
  | 1 => some (.load .fld rd 2#5 (unsigned ldspLabels h))
  | 2 => nonzero rd (.load .lw rd 2#5 (unsigned lwspLabels h))
  | 3 => nonzero rd (.load .ld rd 2#5 (unsigned ldspLabels h))
  | 4 => jumpOrMove h
  | 5 => some (.store .fsd rs2 2#5 (unsigned sdspLabels h))
  | 6 => some (.store .sw rs2 2#5 (unsigned swspLabels h))
  | _ => some (.store .sd rs2 2#5 (unsigned sdspLabels h))

/-- The base instruction of a 16-bit instruction, by its two lowest bits. -/
def rvc : Option Base :=
  match (h.extractLsb' 0 2).toNat with
  | 0 => quadrant0 h
  | 1 => quadrant1 h
  | 2 => quadrant2 h
  | _ => none

end Tables

end ArianeSoc.Decoder
