import ArianeSoc.InstrFormat
import Mathlib.Logic.Function.Basic

/-!
# The integer instructions of RV64IM

The instructions that only compute and jump: register-register and
register-immediate operations, the upper immediates, multiplication and
division, branches and jumps.  `decode` has the tables of the manual, with
no instruction for a word that is not in them; `value` is what an
instruction writes to its destination and `next` is the address of the
instruction that follows it.

Branch and jump offsets count half words.  An instruction has a length in
bytes, which is two where it stands for a compressed one.

Nothing here names a design.
-/

namespace Rv64Int

open InstrFormat

/-! ## Operations -/

/-- A result of 32 bits. -/
def word (v : BitVec 32) : BitVec 64 := v.signExtend 64

inductive AluOp
  | add | sub | sll | slt | sltu | xor | srl | sra | or | and
  | addw | subw | sllw | srlw | sraw
  deriving DecidableEq, Repr

/-- A shift takes the lower bits of its second operand. -/
def AluOp.eval (a b : BitVec 64) : AluOp → BitVec 64
  | add => a + b
  | sub => a - b
  | sll => a <<< (b.extractLsb' 0 6).toNat
  | slt => if a.slt b then 1#64 else 0#64
  | sltu => if a.ult b then 1#64 else 0#64
  | xor => a ^^^ b
  | srl => a >>> (b.extractLsb' 0 6).toNat
  | sra => a.sshiftRight (b.extractLsb' 0 6).toNat
  | or => a ||| b
  | and => a &&& b
  | addw => word (a.setWidth 32 + b.setWidth 32)
  | subw => word (a.setWidth 32 - b.setWidth 32)
  | sllw => word (a.setWidth 32 <<< (b.extractLsb' 0 5).toNat)
  | srlw => word (a.setWidth 32 >>> (b.extractLsb' 0 5).toNat)
  | sraw => word ((a.setWidth 32).sshiftRight (b.extractLsb' 0 5).toNat)

inductive MulOp
  | mul | mulh | mulhsu | mulhu | mulw
  deriving DecidableEq, Repr

/-- The upper half is that of a product of 128 bits. -/
def MulOp.eval (a b : BitVec 64) : MulOp → BitVec 64
  | mul => a * b
  | mulh => (a.signExtend 128 * b.signExtend 128).extractLsb' 64 64
  | mulhsu => (a.signExtend 128 * b.setWidth 128).extractLsb' 64 64
  | mulhu => (a.setWidth 128 * b.setWidth 128).extractLsb' 64 64
  | mulw => word (a.setWidth 32 * b.setWidth 32)

structure DivOp where
  rem : Bool
  signed : Bool
  word : Bool
  deriving DecidableEq, Repr

/-- The quotient by zero is all ones and the remainder is the dividend; the
one quotient that does not fit wraps. -/
def divide {n : Nat} (o : DivOp) (a b : BitVec n) : BitVec n :=
  if b = 0#n then if o.rem then a else BitVec.allOnes n
  else if o.signed then
    BitVec.ofInt n
      (if o.rem then a.toInt.tmod b.toInt else a.toInt.tdiv b.toInt)
  else BitVec.ofNat n
    (if o.rem then a.toNat % b.toNat else a.toNat / b.toNat)

def DivOp.eval (a b : BitVec 64) (o : DivOp) : BitVec 64 :=
  if o.word then Rv64Int.word (divide o (a.setWidth 32) (b.setWidth 32))
  else divide o a b

inductive Cond
  | eq | ne | lt | ge | ltu | geu
  deriving DecidableEq, Repr

def Cond.holds (a b : BitVec 64) : Cond → Bool
  | eq => a == b
  | ne => a != b
  | lt => a.slt b
  | ge => !a.slt b
  | ltu => a.ult b
  | geu => !a.ult b

/-! ## Instructions -/

inductive Instr
  | op (o : AluOp) (rd rs1 rs2 : Reg)
  | opImm (o : AluOp) (rd rs1 : Reg) (imm : BitVec 64)
  | lui (rd : Reg) (imm : BitVec 20)
  | auipc (rd : Reg) (imm : BitVec 20)
  | mul (o : MulOp) (rd rs1 rs2 : Reg)
  | div (o : DivOp) (rd rs1 rs2 : Reg)
  | branch (c : Cond) (rs1 rs2 : Reg) (half : BitVec 12)
  | jal (rd : Reg) (half : BitVec 20)
  | jalr (rd rs1 : Reg) (imm : BitVec 12)
  deriving DecidableEq, Repr

/-- An instruction of the M extension. -/
def Instr.mulDiv (rd rs1 rs2 : Reg) : MulOp ⊕ DivOp → Instr
  | .inl o => .mul o rd rs1 rs2
  | .inr o => .div o rd rs1 rs2

/-- `OP` without multiplication and division. -/
def opTable (funct7 : BitVec 7) (funct3 : BitVec 3) : Option AluOp :=
  match funct7.toNat, funct3.toNat with
  | 0x00, 0 => some .add
  | 0x20, 0 => some .sub
  | 0x00, 1 => some .sll
  | 0x00, 2 => some .slt
  | 0x00, 3 => some .sltu
  | 0x00, 4 => some .xor
  | 0x00, 5 => some .srl
  | 0x20, 5 => some .sra
  | 0x00, 6 => some .or
  | 0x00, 7 => some .and
  | _, _ => none

/-- `OP-32` without multiplication and division. -/
def opTable32 (funct7 : BitVec 7) (funct3 : BitVec 3) : Option AluOp :=
  match funct7.toNat, funct3.toNat with
  | 0x00, 0 => some .addw
  | 0x20, 0 => some .subw
  | 0x00, 1 => some .sllw
  | 0x00, 5 => some .srlw
  | 0x20, 5 => some .sraw
  | _, _ => none

/-- The M extension: the lower four of `funct3` multiply. -/
def mulTable (funct3 : BitVec 3) : MulOp ⊕ DivOp :=
  match funct3.toNat with
  | 0 => .inl .mul
  | 1 => .inl .mulh
  | 2 => .inl .mulhsu
  | 3 => .inl .mulhu
  | 4 => .inr ⟨false, true, false⟩
  | 5 => .inr ⟨false, false, false⟩
  | 6 => .inr ⟨true, true, false⟩
  | _ => .inr ⟨true, false, false⟩

def mulTable32 (funct3 : BitVec 3) : Option (MulOp ⊕ DivOp) :=
  match funct3.toNat with
  | 0 => some (.inl .mulw)
  | 4 => some (.inr ⟨false, true, true⟩)
  | 5 => some (.inr ⟨false, false, true⟩)
  | 6 => some (.inr ⟨true, true, true⟩)
  | 7 => some (.inr ⟨true, false, true⟩)
  | _ => none

/-- The immediate operations besides the shifts. -/
def immTable (funct3 : BitVec 3) : Option AluOp :=
  match funct3.toNat with
  | 0 => some .add
  | 2 => some .slt
  | 3 => some .sltu
  | 4 => some .xor
  | 6 => some .or
  | 7 => some .and
  | _ => none

/-- The shifts by an immediate, by what is above the shift amount. -/
def shiftTable (upper : BitVec 6) (funct3 : BitVec 3) : Option AluOp :=
  match upper.toNat, funct3.toNat with
  | 0x00, 1 => some .sll
  | 0x00, 5 => some .srl
  | 0x10, 5 => some .sra
  | _, _ => none

def shiftTable32 (funct7 : BitVec 7) (funct3 : BitVec 3) : Option AluOp :=
  match funct7.toNat, funct3.toNat with
  | 0x00, 1 => some .sllw
  | 0x00, 5 => some .srlw
  | 0x20, 5 => some .sraw
  | _, _ => none

def branchTable (funct3 : BitVec 3) : Option Cond :=
  match funct3.toNat with
  | 0 => some .eq
  | 1 => some .ne
  | 4 => some .lt
  | 5 => some .ge
  | 6 => some .ltu
  | 7 => some .geu
  | _ => none

def decode (w : BitVec 32) : Option Instr :=
  let opcode := w.extractLsb' 0 7
  let rd := w.extractLsb' 7 5
  let funct3 := w.extractLsb' 12 3
  let rs1 := w.extractLsb' 15 5
  let rs2 := w.extractLsb' 20 5
  let funct7 := w.extractLsb' 25 7
  let imm := w.extractLsb' 20 12
  if opcode = 0x33#7 then
    if funct7 = 1#7 then some (.mulDiv rd rs1 rs2 (mulTable funct3))
    else (opTable funct7 funct3).map fun o => .op o rd rs1 rs2
  else if opcode = 0x3b#7 then
    if funct7 = 1#7 then (mulTable32 funct3).map (.mulDiv rd rs1 rs2)
    else (opTable32 funct7 funct3).map fun o => .op o rd rs1 rs2
  else if opcode = 0x13#7 then
    if funct3 = 1#3 ∨ funct3 = 5#3 then
      (shiftTable (w.extractLsb' 26 6) funct3).map fun o =>
        .opImm o rd rs1 ((w.extractLsb' 20 6).setWidth 64)
    else (immTable funct3).map fun o => .opImm o rd rs1 (imm.signExtend 64)
  else if opcode = 0x1b#7 then
    if funct3 = 1#3 ∨ funct3 = 5#3 then
      (shiftTable32 funct7 funct3).map fun o =>
        .opImm o rd rs1 (rs2.setWidth 64)
    else if funct3 = 0#3 then some (.opImm .addw rd rs1 (imm.signExtend 64))
    else none
  else if opcode = 0x37#7 then some (.lui rd (w.extractLsb' 12 20))
  else if opcode = 0x17#7 then some (.auipc rd (w.extractLsb' 12 20))
  else if opcode = 0x63#7 then
    (branchTable funct3).map fun c => .branch c rs1 rs2
      (w.extractLsb' 31 1 ++ w.extractLsb' 7 1 ++ w.extractLsb' 25 6 ++
        w.extractLsb' 8 4)
  else if opcode = 0x6f#7 then
    some (.jal rd (w.extractLsb' 31 1 ++ w.extractLsb' 12 8 ++
      w.extractLsb' 20 1 ++ w.extractLsb' 21 10))
  else if opcode = 0x67#7 then
    if funct3 = 0#3 then some (.jalr rd rs1 imm) else none
  else none

/-! ## What an instruction does -/

section Meaning

variable (x : Reg → BitVec 64) (pc len : BitVec 64)

/-- The value for the destination; a branch has none. -/
def Instr.value : Instr → Option (BitVec 64)
  | op o _ rs1 rs2 => some (o.eval (x rs1) (x rs2))
  | opImm o _ rs1 imm => some (o.eval (x rs1) imm)
  | lui _ imm => some ((imm ++ 0#12).signExtend 64)
  | auipc _ imm => some (pc + (imm ++ 0#12).signExtend 64)
  | mul o _ rs1 rs2 => some (o.eval (x rs1) (x rs2))
  | div o _ rs1 rs2 => some (o.eval (x rs1) (x rs2))
  | branch .. => none
  | jal .. | jalr .. => some (pc + len)

/-- The registers that an instruction reads. -/
def Instr.sources : Instr → List Reg
  | op _ _ rs1 rs2 | mul _ _ rs1 rs2 | div _ _ rs1 rs2
  | branch _ rs1 rs2 _ => [rs1, rs2]
  | opImm _ _ rs1 _ | jalr _ rs1 _ => [rs1]
  | lui .. | auipc .. | jal .. => []

/-- The address of the next instruction. -/
def Instr.next : Instr → BitVec 64
  | branch c rs1 rs2 half =>
    if c.holds (x rs1) (x rs2) then pc + (half ++ 0#1).signExtend 64
    else pc + len
  | jal _ half => pc + (half ++ 0#1).signExtend 64
  | jalr _ rs1 imm => (x rs1 + imm.signExtend 64) &&& ~~~1#64
  | _ => pc + len

/-- The instructions that may go on elsewhere. -/
def Instr.jumps : Instr → Bool
  | branch .. | jal .. | jalr .. => true
  | _ => false

theorem Instr.next_of_not_jumps {i : Instr} (h : i.jumps = false) :
    i.next x pc len = pc + len := by
  cases i <;> first | rfl | cases h

/-- The destination of an instruction; a branch has register zero. -/
def Instr.rd : Instr → Reg
  | op _ rd .. | opImm _ rd .. | lui rd _ | auipc rd _ | mul _ rd ..
  | div _ rd .. | jal rd _ | jalr rd .. => rd
  | branch .. => 0#5

/-- Register zero takes no value. -/
def write (rd : Reg) (v : BitVec 64) : Reg → BitVec 64 :=
  if rd = 0#5 then x else Function.update x rd v

/-- The registers after an instruction. -/
def Instr.exec (i : Instr) : Reg → BitVec 64 :=
  (i.value x pc len).elim x (write x i.rd)

variable {x pc len} {y : Reg → BitVec 64}

@[simp] theorem write_zero (v : BitVec 64) : write x 0#5 v = x := if_pos rfl

theorem write_of_ne {rd : Reg} (h : rd ≠ 0#5) (v : BitVec 64) :
    write x rd v = Function.update x rd v := if_neg h

/-- An instruction looks at its sources only. -/
theorem Instr.value_congr {i : Instr} (h : ∀ r ∈ i.sources, x r = y r) :
    i.value x pc len = i.value y pc len := by
  cases i with
  | op o rd rs1 rs2 | mul o rd rs1 rs2 | div o rd rs1 rs2 =>
    simp only [Instr.value, h rs1 (by simp [Instr.sources]),
      h rs2 (by simp [Instr.sources])]
  | opImm o rd rs1 imm =>
    simp only [Instr.value, h rs1 (by simp [Instr.sources])]
  | _ => rfl

theorem Instr.next_congr {i : Instr} (h : ∀ r ∈ i.sources, x r = y r) :
    i.next x pc len = i.next y pc len := by
  cases i with
  | branch c rs1 rs2 half =>
    simp only [Instr.next, h rs1 (by simp [Instr.sources]),
      h rs2 (by simp [Instr.sources])]
  | jalr rd rs1 imm =>
    simp only [Instr.next, h rs1 (by simp [Instr.sources])]
  | _ => rfl

end Meaning

end Rv64Int
