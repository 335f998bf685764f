import ArianeSoc.ExStage.Alu
import ArianeSoc.Frontend.InstrQueue

/-!
# The branch unit

`branch_unit.sv`: the target of a branch or jump, the value for its
destination, and whether the prediction was wrong.  The condition comes from
the ALU.  A branch is compared with the kind of its prediction only and a
jump to an immediate not at all: that the target is right in these cases is
left to the front-end.

* `Foreseen` is what the front-end has to get right of a prediction.
* `Resolves` is what the unit says of an instruction, given this.
-/

namespace ArianeSoc.BranchUnit

open Frontend (Cf)
open ReadOperands (FuData)
open Rv64Int

/-- The inputs. -/
structure In where
  fuData : FuData
  pc : BitVec 64
  isCompressedInstr : Bool
  branchValid : Bool
  branchCompRes : Bool
  /-- `branch_predict_i` -/
  cf : Cf
  predictAddress : BitVec 64

/-- `bp_resolve_t` -/
structure BpResolve where
  valid : Bool
  pc : BitVec 64
  targetAddress : BitVec 64
  isMispredict : Bool
  isTaken : Bool
  cfType : Cf
  deriving DecidableEq, Repr

/-- `is_branch` -/
def isBranch : FuOp → Bool
  | .EQ | .NE | .LTS | .GES | .LTU | .GEU => true
  | _ => false

variable (i : In)

def isJalr : Bool := i.fuData.operator == .JALR

def jumpBase : BitVec 64 := if isJalr i then i.fuData.operandA else i.pc

def nextPc : BitVec 64 := i.pc + if i.isCompressedInstr then 2#64 else 4#64

/-- The lowest bit of the target of JALR is cleared. -/
def targetAddress : BitVec 64 :=
  let target := jumpBase i + i.fuData.imm
  if isJalr i then target.extractLsb' 1 63 ++ 0#1 else target

def branchResultO : BitVec 64 := nextPc i

/-- The outcome of a branch is not the predicted one. -/
def wrongOutcome : Bool :=
  isBranch i.fuData.operator && i.branchCompRes != (i.cf == .Branch)

/-- The target of a jump to a register is not the predicted one. -/
def wrongTarget : Bool :=
  isJalr i && (i.cf == .NoCF || targetAddress i != i.predictAddress)

def resolvedBranchO : BpResolve where
  valid := i.branchValid
  pc := i.pc
  targetAddress :=
    if i.branchValid then
      if i.branchCompRes then targetAddress i else nextPc i
    else 0#64
  isMispredict := i.branchValid && (wrongOutcome i || wrongTarget i)
  isTaken := i.branchValid && i.branchCompRes
  cfType :=
    if i.branchValid && wrongTarget i && i.cf != .Return then .JumpR
    else if i.branchValid && wrongOutcome i then .Branch
    else i.cf

def resolveBranchO : Bool := i.branchValid

def branchExceptionO : ExceptionT where
  cause := INSTR_ADDR_MISALIGNED
  tval := i.pc
  valid := i.branchValid && (targetAddress i).getLsbD 0

/-! ## What the unit says of an instruction -/

/-- The length of the instruction in bytes. -/
def In.len : BitVec 64 := if i.isCompressedInstr then 2#64 else 4#64

/-- The address where the front-end goes on. -/
def In.predicted : BitVec 64 :=
  if i.cf = .NoCF then i.pc + i.len else i.predictAddress

/-- The part of a prediction that the unit does not check: the target of a
branch that is predicted taken, and that a jump to an immediate is
taken. -/
def Foreseen (cf : Cf) (predictAddress pc : BitVec 64) : Instr → Prop
  | .branch _ _ _ half =>
    cf = .NoCF ∨
      cf = .Branch ∧ predictAddress = pc + (half ++ 0#1).signExtend 64
  | .jal _ half =>
    cf ≠ .NoCF ∧ predictAddress = pc + (half ++ 0#1).signExtend 64
  | _ => True

/-- The operands of a control flow instruction are in place. -/
structure Holds (x : InstrFormat.Reg → BitVec 64) (instr : Instr) : Prop where
  operator : i.fuData.operator =
    match instr with
    | .branch c .. => Alu.condOf c
    | .jalr .. => .JALR
    | _ => .ADD
  condition : i.branchCompRes = Alu.aluBranchResO i.fuData
  offset : i.fuData.imm =
    match instr with
    | .branch _ _ _ half => (half ++ 0#1).signExtend 64
    | .jal _ half => (half ++ 0#1).signExtend 64
    | .jalr _ _ imm => imm.signExtend 64
    | _ => 0#64
  operands :
    match instr with
    | .branch _ rs1 rs2 _ =>
      i.fuData.operandA = x rs1 ∧ i.fuData.operandB = x rs2
    | .jalr _ rs1 _ => i.fuData.operandA = x rs1
    | _ => True

/-- What the unit says of a control flow instruction: where it goes on and
what it writes; a prediction that passes was right; no target is
misaligned. -/
structure Resolves (x : InstrFormat.Reg → BitVec 64) (instr : Instr) :
    Prop where
  target : (resolvedBranchO i).targetAddress = instr.next x i.pc i.len
  value : ∀ v ∈ instr.value x i.pc i.len, branchResultO i = v
  predicted : Foreseen i.cf i.predictAddress i.pc instr →
    (resolvedBranchO i).isMispredict = false →
      i.predicted = instr.next x i.pc i.len
  aligned : i.pc.getLsbD 0 = false → (branchExceptionO i).valid = false

section Resolution

variable {i} {x : InstrFormat.Reg → BitVec 64}

theorem clear_low (v : BitVec 64) :
    v.extractLsb' 1 63 ++ 0#1 = v &&& ~~~1#64 := by
  refine BitVec.eq_of_getLsbD_eq fun k hk => ?_
  rw [BitVec.getLsbD_append, BitVec.getLsbD_and, BitVec.getLsbD_not,
    BitVec.getLsbD_extractLsb', BitVec.getLsbD_one]
  rcases Nat.eq_zero_or_pos k with rfl | hpos
  · simp
  · have hne : decide (k = 0) = false := decide_eq_false (by omega)
    have hlt : decide (k - 1 < 63) = true := decide_eq_true (by omega)
    rw [if_neg (by omega), hlt, hne, decide_eq_true hk, Bool.true_and,
      Nat.add_sub_cancel' hpos]
    simp

theorem nextPc_eq : nextPc i = i.pc + i.len := rfl

/-- The sum of an even address and an offset in half words is even. -/
theorem even_target {n : ℕ} {pc : BitVec 64} (h : pc.getLsbD 0 = false)
    (half : BitVec n) :
    (pc + (half ++ 0#1).signExtend 64).getLsbD 0 = false := by
  have hoff : ((half ++ 0#1).signExtend 64).getLsbD 0 = false := by
    rw [BitVec.getLsbD_signExtend, BitVec.getLsbD_append]
    simp
  rw [BitVec.getLsbD_add (by decide), h, hoff, BitVec.carry_zero]
  rfl

/-- The target and the prediction of a taken branch or a jump. -/
theorem resolves_branch {c : Cond} {rs1 rs2 : InstrFormat.Reg}
    {half : BitVec 12} (hv : i.branchValid = true)
    (h : Holds i x (.branch c rs1 rs2 half)) :
    Resolves i x (.branch c rs1 rs2 half) := by
  obtain ⟨hop, hcond, himm, hA, hB⟩ := h
  dsimp only at hop himm
  have hjalr : isJalr i = false := by
    rw [isJalr, hop]
    cases c <;> rfl
  have hbranch : isBranch i.fuData.operator = true := by
    rw [hop]
    cases c <;> rfl
  have htarget : targetAddress i = i.pc + (half ++ 0#1).signExtend 64 := by
    rw [targetAddress, jumpBase, hjalr, himm]
    rfl
  have hres : i.branchCompRes = c.holds (x rs1) (x rs2) := by
    rw [hcond, Alu.aluBranchResO_eq hop, hA, hB]
  refine ⟨?_, fun v hv => ?_, fun hf hm => ?_, fun heven => ?_⟩
  · simp only [resolvedBranchO, hv, if_true, hres, htarget, Instr.next,
      nextPc_eq]
  · cases hv
  · simp only [resolvedBranchO, wrongOutcome, wrongTarget, hjalr, hv, hbranch,
      Bool.true_and, Bool.false_and, Bool.or_false, bne_eq_false_iff_eq] at hm
    rw [In.predicted, Instr.next, ← hres, hm]
    rcases hf with hcf | ⟨hcf, haddr⟩
    · rw [hcf]
      rfl
    · rw [hcf, haddr]
      rfl
  · rw [branchExceptionO, hv, htarget, even_target heven]
    rfl

theorem resolves_jal {rd : InstrFormat.Reg} {half : BitVec 20}
    (hv : i.branchValid = true) (h : Holds i x (.jal rd half)) :
    Resolves i x (.jal rd half) := by
  obtain ⟨hop, hcond, himm, -⟩ := h
  dsimp only at hop himm
  have htarget : targetAddress i = i.pc + (half ++ 0#1).signExtend 64 := by
    rw [targetAddress, jumpBase, isJalr, hop, himm]
    rfl
  have hres : i.branchCompRes = true := by
    rw [hcond, Alu.aluBranchResO, hop]
  refine ⟨?_, fun v hv => ?_, fun hf _ => ?_, fun heven => ?_⟩
  · simp only [resolvedBranchO, hv, if_true, hres, htarget, Instr.next]
  · cases hv
    rfl
  · rw [In.predicted, if_neg hf.1, hf.2]
    rfl
  · rw [branchExceptionO, hv, htarget, even_target heven]
    rfl

theorem resolves_jalr {rd rs1 : InstrFormat.Reg} {imm : BitVec 12}
    (hv : i.branchValid = true) (h : Holds i x (.jalr rd rs1 imm)) :
    Resolves i x (.jalr rd rs1 imm) := by
  obtain ⟨hop, hcond, himm, hA⟩ := h
  dsimp only at hop himm hA
  have hjalr : isJalr i = true := by
    rw [isJalr, hop]
    rfl
  have htarget : targetAddress i =
      (x rs1 + imm.signExtend 64) &&& ~~~1#64 := by
    rw [targetAddress, jumpBase, hjalr, himm, ← hA]
    exact clear_low _
  have hres : i.branchCompRes = true := by
    rw [hcond, Alu.aluBranchResO, hop]
  refine ⟨?_, fun v hv => ?_, fun _ hm => ?_, fun _ => ?_⟩
  · simp only [resolvedBranchO, hv, if_true, hres, htarget, Instr.next]
  · cases hv
    rfl
  · simp only [resolvedBranchO, wrongTarget, hjalr, hv, Bool.true_and,
      Bool.or_eq_false_iff, beq_eq_false_iff_ne, bne_eq_false_iff_eq] at hm
    rw [In.predicted, if_neg hm.2.1, ← hm.2.2, htarget]
    rfl
  · have hlow : (targetAddress i).getLsbD 0 = false := by
      rw [targetAddress, hjalr, if_pos rfl, BitVec.getLsbD_append]
      rfl
    rw [branchExceptionO, hv, hlow]
    rfl

/-- What the unit says of any control flow instruction. -/
theorem resolves {instr : Instr} (hjumps : instr.jumps = true)
    (hv : i.branchValid = true) (h : Holds i x instr) :
    Resolves i x instr := by
  cases instr with
  | branch c rs1 rs2 half => exact resolves_branch hv h
  | jal rd half => exact resolves_jal hv h
  | jalr rd rs1 imm => exact resolves_jalr hv h
  | _ => cases hjumps

end Resolution

end ArianeSoc.BranchUnit
