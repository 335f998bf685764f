import ArianeSoc.BitField
import ArianeSoc.Issue.ReadOperands
import ArianeSoc.Rv64Int

/-!
# The arithmetic logic unit

`alu.sv`: one adder for sums, differences and the test for equality, one
shifter to the right for all shifts, and one comparator of 65 bits for both
signs.  A shift to the left reverses its operand before and its result after
the shifter; the adder gets its carry in as a bit below the operands.

The combinational signals are functions of `fu_data_i` under the names of
the source.  `resultO_eq` and `aluBranchResO_eq` say that the unit computes
the operations of RV64.
-/

namespace ArianeSoc.Alu

open BitField (toNat_append_add)
open ReadOperands (FuData)

variable (d : FuData)

/-! ## The adder -/

def adderOpBNegate : Bool :=
  match d.operator with
  | .EQ | .NE | .SUB | .SUBW => true
  | _ => false

def adderInA : BitVec 65 := d.operandA ++ 1#1

def operandBNeg : BitVec 65 :=
  (d.operandB ++ 0#1) ^^^
    (if adderOpBNegate d then BitVec.allOnes 65 else 0#65)

def adderResultExtO : BitVec 66 :=
  (adderInA d).setWidth 66 + (operandBNeg d).setWidth 66

def adderResult : BitVec 64 := (adderResultExtO d).extractLsb' 1 64

def adderZFlag : Bool := adderResult d == 0#64

/-! ## The shifter -/

def shiftLeft : Bool := d.operator == .SLL || d.operator == .SLLW

def shiftArithmetic : Bool := d.operator == .SRA || d.operator == .SRAW

def shiftAmt : BitVec 64 := d.operandB

def shiftOpA : BitVec 64 :=
  if shiftLeft d then d.operandA.reverse else d.operandA

def shiftOpA32 : BitVec 32 :=
  if shiftLeft d then (d.operandA.setWidth 32).reverse
  else d.operandA.setWidth 32

/-- An operand of the shifter with its sign in front. -/
def withSign {n : ℕ} (x : BitVec n) : BitVec (n + 1) :=
  BitVec.cons (shiftArithmetic d && x.msb) x

def shiftRightResult : BitVec 65 :=
  (withSign d (shiftOpA d)).sshiftRight ((shiftAmt d).extractLsb' 0 6).toNat

def shiftRightResult32 : BitVec 33 :=
  (withSign d (shiftOpA32 d)).sshiftRight ((shiftAmt d).extractLsb' 0 5).toNat

def shiftResult : BitVec 64 :=
  if shiftLeft d then ((shiftRightResult d).setWidth 64).reverse
  else (shiftRightResult d).setWidth 64

def shiftResult32 : BitVec 32 :=
  if shiftLeft d then ((shiftRightResult32 d).setWidth 32).reverse
  else (shiftRightResult32 d).setWidth 32

/-! ## The comparator -/

def sgn : Bool :=
  d.operator == .SLTS || d.operator == .LTS || d.operator == .GES

def less : Bool :=
  (BitVec.cons (sgn d && d.operandA.msb) d.operandA).slt
    (BitVec.cons (sgn d && d.operandB.msb) d.operandB)

/-! ## The outputs -/

def aluBranchResO : Bool :=
  match d.operator with
  | .EQ => adderZFlag d
  | .NE => !adderZFlag d
  | .LTS | .LTU => less d
  | .GES | .GEU => !less d
  | _ => true

/-- `sext32`. -/
def sext32 (v : BitVec 32) : BitVec 64 := v.signExtend 64

def resultO : BitVec 64 :=
  match d.operator with
  | .ANDL => d.operandA &&& d.operandB
  | .ORL => d.operandA ||| d.operandB
  | .XORL => d.operandA ^^^ d.operandB
  | .ADD | .SUB => adderResult d
  | .ADDW | .SUBW => sext32 ((adderResult d).setWidth 32)
  | .SLL | .SRL | .SRA => shiftResult d
  | .SLLW | .SRLW | .SRAW => sext32 (shiftResult32 d)
  | .SLTS | .SLTU => BitVec.setWidth 64 (BitVec.ofBool (less d))
  | _ => 0#64

/-! ## What the parts compute -/

section Parts

variable {d}

theorem adderResult_toNat : (adderResult d).toNat =
    (adderResultExtO d).toNat / 2 % 2 ^ 64 := by
  rw [adderResult, BitVec.extractLsb'_toNat, Nat.shiftRight_eq_div_pow]

theorem adderInA_toNat : (adderInA d).toNat = 2 * d.operandA.toNat + 1 := by
  rw [adderInA, toNat_append_add]
  show d.operandA.toNat * 2 ^ 1 + 1 = _
  omega

theorem operandBNeg_toNat : (operandBNeg d).toNat =
    if adderOpBNegate d then 2 * (2 ^ 64 - 1 - d.operandB.toNat) + 1
    else 2 * d.operandB.toNat := by
  have hb : (d.operandB ++ 0#1).toNat = 2 * d.operandB.toNat := by
    rw [toNat_append_add]
    show d.operandB.toNat * 2 ^ 1 + 0 = _
    omega
  have hlt := d.operandB.isLt
  rw [operandBNeg]
  cases adderOpBNegate d with
  | false => rw [if_neg Bool.false_ne_true, if_neg Bool.false_ne_true,
      BitVec.xor_zero, hb]
  | true =>
    rw [if_pos rfl, if_pos rfl, BitVec.xor_allOnes, BitVec.toNat_not, hb]
    omega

theorem adderResult_eq : adderResult d =
    if adderOpBNegate d then d.operandA - d.operandB
    else d.operandA + d.operandB := by
  have ha := d.operandA.isLt
  have hb := d.operandB.isLt
  have hsum : (adderResultExtO d).toNat =
      2 * d.operandA.toNat + 1 + (operandBNeg d).toNat := by
    have hneg := (operandBNeg d).isLt
    rw [adderResultExtO, BitVec.toNat_add, BitVec.toNat_setWidth,
      BitVec.toNat_setWidth, adderInA_toNat]
    omega
  apply BitVec.eq_of_toNat_eq
  rw [adderResult_toNat, hsum, operandBNeg_toNat]
  cases adderOpBNegate d with
  | false =>
    rw [if_neg Bool.false_ne_true, if_neg Bool.false_ne_true, BitVec.toNat_add]
    omega
  | true =>
    rw [if_pos rfl, if_pos rfl, BitVec.toNat_sub]
    omega

theorem adderZFlag_eq (h : adderOpBNegate d = true) :
    adderZFlag d = (d.operandA == d.operandB) := by
  rw [adderZFlag, adderResult_eq, if_pos h, Bool.eq_iff_iff, beq_iff_eq,
    beq_iff_eq]
  constructor
  · intro h0
    bv_omega
  · intro hab
    rw [hab, BitVec.sub_self]

/-- One more bit in front makes a number of either kind a signed one. -/
theorem toInt_cons {n : ℕ} (s : Bool) (x : BitVec n) :
    (BitVec.cons (s && x.msb) x).toInt =
      if s then x.toInt else (x.toNat : ℤ) := by
  rw [BitVec.toInt_eq_msb_cond, BitVec.msb_cons, BitVec.toNat_cons',
    BitVec.toInt_eq_msb_cond, Nat.shiftLeft_eq, Nat.pow_succ]
  cases s with
  | false => rw [Bool.false_and, if_neg Bool.false_ne_true,
      if_neg Bool.false_ne_true, Bool.toNat_false, Nat.zero_mul, Nat.zero_add]
  | true =>
    rw [Bool.true_and, if_pos rfl]
    cases x.msb with
    | false => rw [if_neg Bool.false_ne_true, if_neg Bool.false_ne_true,
        Bool.toNat_false, Nat.zero_mul, Nat.zero_add]
    | true =>
      rw [if_pos rfl, if_pos rfl, Bool.toNat_true, Nat.one_mul]
      push_cast
      omega

theorem less_eq : less d =
    if sgn d then d.operandA.slt d.operandB
    else d.operandA.ult d.operandB := by
  rw [less, BitVec.slt, toInt_cons, toInt_cons]
  cases sgn d with
  | false =>
    rw [if_neg Bool.false_ne_true, if_neg Bool.false_ne_true,
      if_neg Bool.false_ne_true, BitVec.ult]
    exact decide_eq_decide.mpr Int.ofNat_lt
  | true => rfl

/-- A bit of the shifter's result, below the bit in front. -/
theorem getLsbD_shifter {n k j : ℕ} (b : Bool) (x : BitVec n) (hj : j < n) :
    (((BitVec.cons b x).sshiftRight k).setWidth n).getLsbD j =
      if k + j < n then x.getLsbD (k + j) else b := by
  rw [BitVec.getLsbD_setWidth, decide_eq_true hj, Bool.true_and,
    BitVec.getLsbD_sshiftRight, BitVec.msb_cons, BitVec.getLsbD_cons,
    decide_eq_false (by omega), Bool.not_false, Bool.true_and]
  rcases Nat.lt_trichotomy (k + j) n with h | h | h
  · rw [if_pos (by omega), if_neg (by omega), if_pos h]
  · rw [if_pos (by omega), if_pos h, if_neg (by omega)]
  · rw [if_neg (by omega), if_neg (by omega)]

theorem shifter_false {n k : ℕ} (x : BitVec n) :
    ((BitVec.cons false x).sshiftRight k).setWidth n = x >>> k := by
  refine BitVec.eq_of_getLsbD_eq fun j hj => ?_
  rw [getLsbD_shifter false x hj, BitVec.getLsbD_ushiftRight]
  split_ifs with h
  · rfl
  · exact (BitVec.getLsbD_of_ge x _ (by omega)).symm

theorem shifter_msb {n k : ℕ} (x : BitVec n) :
    ((BitVec.cons x.msb x).sshiftRight k).setWidth n = x.sshiftRight k := by
  refine BitVec.eq_of_getLsbD_eq fun j hj => ?_
  rw [getLsbD_shifter x.msb x hj, BitVec.getLsbD_sshiftRight,
    decide_eq_false (by omega), Bool.not_false, Bool.true_and]

theorem shifter_reverse {n k : ℕ} (x : BitVec n) :
    (((BitVec.cons false x.reverse).sshiftRight k).setWidth n).reverse =
      x <<< k := by
  rw [shifter_false]
  refine BitVec.eq_of_getLsbD_eq fun j hj => ?_
  have hin : decide (j < n) = true := decide_eq_true hj
  rw [BitVec.getLsbD_reverse, BitVec.getMsbD_eq_getLsbD,
    BitVec.getLsbD_ushiftRight, BitVec.getLsbD_reverse,
    BitVec.getMsbD_eq_getLsbD, BitVec.getLsbD_shiftLeft, hin]
  by_cases hk : j < k
  · have hout : decide (k + (n - 1 - j) < n) = false :=
      decide_eq_false (by omega)
    rw [hout, decide_eq_true hk]
    rfl
  · have hout : decide (k + (n - 1 - j) < n) = true :=
      decide_eq_true (by omega)
    rw [hout, decide_eq_false hk,
      show n - 1 - (k + (n - 1 - j)) = j - k by omega]
    rfl

end Parts

/-! ## The operations of RV64 -/

section Meaning

open Rv64Int

/-- The operator for an operation. -/
def opOf : AluOp → FuOp
  | .add => .ADD
  | .sub => .SUB
  | .sll => .SLL
  | .slt => .SLTS
  | .sltu => .SLTU
  | .xor => .XORL
  | .srl => .SRL
  | .sra => .SRA
  | .or => .ORL
  | .and => .ANDL
  | .addw => .ADDW
  | .subw => .SUBW
  | .sllw => .SLLW
  | .srlw => .SRLW
  | .sraw => .SRAW

/-- The operator for the condition of a branch. -/
def condOf : Cond → FuOp
  | .eq => .EQ
  | .ne => .NE
  | .lt => .LTS
  | .ge => .GES
  | .ltu => .LTU
  | .geu => .GEU

variable {d}

theorem setWidth_sub (a b : BitVec 64) :
    (a - b).setWidth 32 = a.setWidth 32 - b.setWidth 32 := by
  bv_omega

theorem shiftResult_left (h : d.operator = .SLL) : shiftResult d =
    d.operandA <<< (d.operandB.extractLsb' 0 6).toNat := by
  have hl : shiftLeft d = true := by rw [shiftLeft, h]; rfl
  have ha : shiftArithmetic d = false := by rw [shiftArithmetic, h]; rfl
  rw [shiftResult, shiftRightResult, withSign, shiftOpA, hl, ha, if_pos rfl,
    if_pos rfl, Bool.false_and, shifter_reverse, shiftAmt]

theorem shiftResult32_left (h : d.operator = .SLLW) : shiftResult32 d =
    d.operandA.setWidth 32 <<< (d.operandB.extractLsb' 0 5).toNat := by
  have hl : shiftLeft d = true := by rw [shiftLeft, h]; rfl
  have ha : shiftArithmetic d = false := by rw [shiftArithmetic, h]; rfl
  rw [shiftResult32, shiftRightResult32, withSign, shiftOpA32, hl, ha,
    if_pos rfl, if_pos rfl, Bool.false_and, shifter_reverse, shiftAmt]

/-- The result of a shift to the right, by the kind of shift. -/
theorem shiftResult_right (hl : shiftLeft d = false) : shiftResult d =
    if shiftArithmetic d then
      d.operandA.sshiftRight (d.operandB.extractLsb' 0 6).toNat
    else d.operandA >>> (d.operandB.extractLsb' 0 6).toNat := by
  rw [shiftResult, shiftRightResult, withSign, shiftOpA, hl,
    if_neg Bool.false_ne_true, if_neg Bool.false_ne_true, shiftAmt]
  cases shiftArithmetic d with
  | false => exact shifter_false _
  | true => exact shifter_msb _

theorem shiftResult32_right (hl : shiftLeft d = false) : shiftResult32 d =
    if shiftArithmetic d then
      (d.operandA.setWidth 32).sshiftRight
        (d.operandB.extractLsb' 0 5).toNat
    else d.operandA.setWidth 32 >>> (d.operandB.extractLsb' 0 5).toNat := by
  rw [shiftResult32, shiftRightResult32, withSign, shiftOpA32, hl,
    if_neg Bool.false_ne_true, if_neg Bool.false_ne_true, shiftAmt]
  cases shiftArithmetic d with
  | false => exact shifter_false _
  | true => exact shifter_msb _

/-- The unit computes the operation that its operator stands for. -/
theorem resultO_eq {o : AluOp} (h : d.operator = opOf o) :
    resultO d = o.eval d.operandA d.operandB := by
  unfold resultO
  rw [h]
  cases o with
  | add =>
    show adderResult d = _
    rw [adderResult_eq, adderOpBNegate, h]
    rfl
  | sub =>
    show adderResult d = _
    rw [adderResult_eq, adderOpBNegate, h]
    rfl
  | addw =>
    show sext32 ((adderResult d).setWidth 32) = _
    rw [adderResult_eq, adderOpBNegate, h]
    exact congrArg sext32 (BitVec.setWidth_add _ _ (by decide))
  | subw =>
    show sext32 ((adderResult d).setWidth 32) = _
    rw [adderResult_eq, adderOpBNegate, h]
    exact congrArg sext32 (setWidth_sub _ _)
  | sll => exact shiftResult_left h
  | sllw => exact congrArg sext32 (shiftResult32_left h)
  | srl =>
    refine (shiftResult_right ?_).trans ?_
    · rw [shiftLeft, h]
      rfl
    · rw [shiftArithmetic, h]
      rfl
  | sra =>
    refine (shiftResult_right ?_).trans ?_
    · rw [shiftLeft, h]
      rfl
    · rw [shiftArithmetic, h]
      rfl
  | srlw =>
    refine congrArg sext32 ((shiftResult32_right ?_).trans ?_)
    · rw [shiftLeft, h]
      rfl
    · rw [shiftArithmetic, h]
      rfl
  | sraw =>
    refine congrArg sext32 ((shiftResult32_right ?_).trans ?_)
    · rw [shiftLeft, h]
      rfl
    · rw [shiftArithmetic, h]
      rfl
  | slt =>
    show BitVec.setWidth 64 (BitVec.ofBool (less d)) = _
    rw [less_eq, sgn, h]
    show BitVec.setWidth 64 (BitVec.ofBool (d.operandA.slt d.operandB)) =
      if d.operandA.slt d.operandB then 1#64 else 0#64
    cases d.operandA.slt d.operandB <;> rfl
  | sltu =>
    show BitVec.setWidth 64 (BitVec.ofBool (less d)) = _
    rw [less_eq, sgn, h]
    show BitVec.setWidth 64 (BitVec.ofBool (d.operandA.ult d.operandB)) =
      if d.operandA.ult d.operandB then 1#64 else 0#64
    cases d.operandA.ult d.operandB <;> rfl
  | xor => rfl
  | or => rfl
  | and => rfl

/-- The unit decides the condition that its operator stands for. -/
theorem aluBranchResO_eq {c : Cond} (h : d.operator = condOf c) :
    aluBranchResO d = c.holds d.operandA d.operandB := by
  have hz : adderOpBNegate d = true →
      adderZFlag d = (d.operandA == d.operandB) := adderZFlag_eq
  unfold aluBranchResO
  rw [h]
  cases c with
  | eq => exact hz (by rw [adderOpBNegate, h]; rfl)
  | ne => exact congrArg (!·) (hz (by rw [adderOpBNegate, h]; rfl))
  | lt =>
    refine less_eq.trans ?_
    rw [sgn, h]
    rfl
  | ltu =>
    refine less_eq.trans ?_
    rw [sgn, h]
    rfl
  | ge =>
    refine congrArg (!·) (less_eq.trans ?_)
    rw [sgn, h]
    rfl
  | geu =>
    refine congrArg (!·) (less_eq.trans ?_)
    rw [sgn, h]
    rfl

end Meaning

end ArianeSoc.Alu
