import ArianeSoc.Lsu.Bypass
import Mathlib.Order.Lattice

/-!
# The ALU of the atomics

`amo_alu` computes what an atomic memory operation writes back.  It compares
by the sign of a difference of 65 bits: the operands are extended by one bit,
with their sign for the signed operations and with zero for the unsigned
ones, so that the difference does not overflow.

`msb_signExtend_sub` and `msb_setWidth_sub` say that for words of any width,
and `amoAlu_eq` what each operation returns.
-/

namespace ArianeSoc.Amo

open Lsu (AmoT)

/-! ## The sign of a difference -/

section Compare

variable {w : ℕ} (x y : BitVec w)

theorem msb_signExtend_sub :
    (x.signExtend (w + 1) + -y.signExtend (w + 1)).msb = x.slt y := by
  have hx := BitVec.le_two_mul_toInt (x := x)
  have hx' := BitVec.two_mul_toInt_lt (x := x)
  have hy := BitVec.le_two_mul_toInt (x := y)
  have hy' := BitVec.two_mul_toInt_lt (x := y)
  have hsub : ¬ (x.signExtend (w + 1)).ssubOverflow (y.signExtend (w + 1)) := by
    rw [BitVec.ssubOverflow, BitVec.toInt_signExtend_of_le (Nat.le_succ w),
      BitVec.toInt_signExtend_of_le (Nat.le_succ w), Nat.add_sub_cancel]
    simp only [ge_iff_le, Bool.or_eq_true, decide_eq_true_eq]
    omega
  rw [← BitVec.sub_eq_add_neg, BitVec.msb_eq_toInt,
    BitVec.toInt_sub_of_not_ssubOverflow hsub,
    BitVec.toInt_signExtend_of_le (Nat.le_succ w),
    BitVec.toInt_signExtend_of_le (Nat.le_succ w), BitVec.slt]
  exact decide_eq_decide.mpr (by omega)

theorem msb_setWidth_sub :
    (x.setWidth (w + 1) + -y.setWidth (w + 1)).msb = x.ult y := by
  have hx := x.isLt
  have hy := y.isLt
  have hpow : 2 ^ (w + 1) = 2 * 2 ^ w := Nat.pow_succ'
  rw [← BitVec.sub_eq_add_neg, BitVec.msb_eq_decide, BitVec.toNat_sub,
    BitVec.toNat_setWidth_of_le (Nat.le_succ w),
    BitVec.toNat_setWidth_of_le (Nat.le_succ w), BitVec.ult, hpow,
    Nat.add_sub_cancel, decide_eq_decide]
  rcases Nat.lt_or_ge x.toNat y.toNat with hlt | hge
  · rw [Nat.mod_eq_of_lt (by omega)]
    omega
  · rw [Nat.mod_eq_sub_mod (by omega), Nat.mod_eq_of_lt (by omega)]
    omega

end Compare

/-! ## The unit -/

section Unit

variable (amoOp : AmoT) (a b : BitVec 64)

/-- The first operand of the adder. -/
def adderOperandA : BitVec 65 :=
  match amoOp with
  | .AMO_MAXU | .AMO_MINU => a.setWidth 65
  | _ => a.signExtend 65

/-- The second operand of the adder; it is extended before it is negated. -/
def adderOperandB : BitVec 65 :=
  match amoOp with
  | .AMO_MAX | .AMO_MIN => -b.signExtend 65
  | .AMO_MAXU | .AMO_MINU => -b.setWidth 65
  | _ => b.signExtend 65

def adderSum : BitVec 65 := adderOperandA amoOp a + adderOperandB amoOp b

/-- `amo_alu`. -/
def amoAlu : BitVec 64 :=
  match amoOp with
  | .AMO_SC | .AMO_SWAP => b
  | .AMO_ADD => (adderSum amoOp a b).extractLsb' 0 64
  | .AMO_AND => a &&& b
  | .AMO_OR => a ||| b
  | .AMO_XOR => a ^^^ b
  | .AMO_MAX | .AMO_MAXU => if (adderSum amoOp a b).getLsbD 64 then b else a
  | .AMO_MIN | .AMO_MINU => if (adderSum amoOp a b).getLsbD 64 then a else b
  | .AMO_NONE | .AMO_LR | .AMO_CAS1 | .AMO_CAS2 => 0#64

/-- What an atomic writes back, of the numbers that the operands stand for;
`none` for an operation that leaves nothing to compute. -/
def amoResult : Option (BitVec 64) :=
  match amoOp with
  | .AMO_MAX => some (BitVec.ofInt 64 (max a.toInt b.toInt))
  | .AMO_MIN => some (BitVec.ofInt 64 (min a.toInt b.toInt))
  | .AMO_MAXU => some (BitVec.ofNat 64 (max a.toNat b.toNat))
  | .AMO_MINU => some (BitVec.ofNat 64 (min a.toNat b.toNat))
  | .AMO_ADD => some (a + b)
  | .AMO_AND => some (a &&& b)
  | .AMO_OR => some (a ||| b)
  | .AMO_XOR => some (a ^^^ b)
  | .AMO_SC | .AMO_SWAP => some b
  | .AMO_NONE | .AMO_LR | .AMO_CAS1 | .AMO_CAS2 => none

end Unit

variable {a b : BitVec 64}

theorem adderSum_signed {amoOp : AmoT}
    (h : amoOp = .AMO_MAX ∨ amoOp = .AMO_MIN) :
    (adderSum amoOp a b).getLsbD 64 = a.slt b := by
  rw [← msb_signExtend_sub, BitVec.msb_eq_getLsbD_last]
  rcases h with rfl | rfl <;> rfl

theorem adderSum_unsigned {amoOp : AmoT}
    (h : amoOp = .AMO_MAXU ∨ amoOp = .AMO_MINU) :
    (adderSum amoOp a b).getLsbD 64 = a.ult b := by
  rw [← msb_setWidth_sub, BitVec.msb_eq_getLsbD_last]
  rcases h with rfl | rfl <;> rfl

/-- The low bits of the sum do not depend on the extension. -/
theorem adderSum_add :
    (adderSum .AMO_ADD a b).extractLsb' 0 64 = a + b := by
  have hlow : ∀ x : BitVec 64, (x.signExtend 65).setWidth 64 = x := by
    intro x
    ext k hk
    rw [BitVec.getElem_setWidth, BitVec.getLsbD_signExtend, if_pos hk,
      decide_eq_true (by omega), Bool.true_and, BitVec.getLsbD_eq_getElem hk]
  show (a.signExtend 65 + b.signExtend 65).extractLsb' 0 64 = a + b
  rw [← BitVec.setWidth_eq_extractLsb' (by omega),
    BitVec.setWidth_add _ _ (by omega), hlow, hlow]

section Select

variable {α β : Type*} [LinearOrder β] {f : α → β} {g : β → α} {x y : α}
  {less : Bool}

theorem select_max (h : Function.LeftInverse g f)
    (hless : less = true ↔ f x < f y) :
    (if less then y else x) = g (max (f x) (f y)) := by
  rcases lt_or_ge (f x) (f y) with hlt | hge
  · rw [if_pos (hless.mpr hlt), max_eq_right hlt.le, h]
  · rw [if_neg fun ht => hge.not_gt (hless.mp ht), max_eq_left hge, h]

theorem select_min (h : Function.LeftInverse g f)
    (hless : less = true ↔ f x < f y) :
    (if less then x else y) = g (min (f x) (f y)) := by
  rcases lt_or_ge (f x) (f y) with hlt | hge
  · rw [if_pos (hless.mpr hlt), min_eq_left hlt.le, h]
  · rw [if_neg fun ht => hge.not_gt (hless.mp ht), min_eq_right hge, h]

end Select

/-- The ALU returns what the operation asks for, and zero for an operation
that asks for nothing. -/
theorem amoAlu_eq (amoOp : AmoT) (a b : BitVec 64) :
    amoAlu amoOp a b = (amoResult amoOp a b).getD 0#64 := by
  have hint : Function.LeftInverse (BitVec.ofInt 64) BitVec.toInt :=
    fun _ => BitVec.ofInt_toInt
  have hnat : Function.LeftInverse (BitVec.ofNat 64) BitVec.toNat :=
    fun x => by rw [BitVec.ofNat_toNat, BitVec.setWidth_eq]
  cases amoOp with
  | AMO_MAX =>
    rw [amoAlu, adderSum_signed (Or.inl rfl)]
    exact select_max hint BitVec.slt_iff_toInt_lt
  | AMO_MIN =>
    rw [amoAlu, adderSum_signed (Or.inr rfl)]
    exact select_min hint BitVec.slt_iff_toInt_lt
  | AMO_MAXU =>
    rw [amoAlu, adderSum_unsigned (Or.inl rfl)]
    exact select_max hnat BitVec.ult_iff_toNat_lt
  | AMO_MINU =>
    rw [amoAlu, adderSum_unsigned (Or.inr rfl)]
    exact select_min hnat BitVec.ult_iff_toNat_lt
  | AMO_ADD => exact adderSum_add
  | _ => rfl

/-- An operation that asks for nothing does not return the second operand. -/
theorem amoAlu_loadReserved :
    ¬ ∀ amoOp a b, amoAlu amoOp a b = (amoResult amoOp a b).getD b := by
  intro h
  have hlr := h .AMO_LR 0#64 1#64
  exact absurd hlr (by decide)

end ArianeSoc.Amo
