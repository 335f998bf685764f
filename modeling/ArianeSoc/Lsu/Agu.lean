import ArianeSoc.Issue.ReadOperands
import ArianeSoc.Lsu.Bypass

/-!
# The address generation unit

The part of `load_store_unit.sv` that makes a request out of the operands
and finds out at once whether the address is misaligned or out of range.

`overflow` looks at the bits of the 64-bit sum from `VLEN - 1` up.
`overflow_iff` says that it finds the sums that are not the sign extension
of their lower `VLEN` bits, and `overflow_VLEN` that with a `VLEN` of 64
there are none.
-/

namespace ArianeSoc.Lsu

open ReadOperands (FuData)

abbrev VLEN : Nat := 64

variable (d : FuData) (r : LsuCtrl)

/-! ## The request -/

/-- `vaddr64`, of which all bits are the virtual address. -/
def vaddr : BitVec 64 := d.imm + d.operandA

/-- `overflow`. -/
def overflow (vlen : Nat) (a : BitVec 64) : Bool :=
  !(a.extractLsb' (vlen - 1) (65 - vlen) = BitVec.allOnes (65 - vlen) ∨
    a.extractLsb' (vlen - 1) (65 - vlen) = 0#(65 - vlen))

/-- `be_gen`. -/
def beGen (addr : BitVec 3) (size : BitVec 2) : BitVec 8 :=
  if size = 3#2 then 0xFF#8
  else if size = 2#2 then
    if addr.toNat ≤ 4 then 0x0F#8 <<< addr.toNat else 0#8
  else if size = 1#2 then
    if addr.toNat ≤ 6 then 0x03#8 <<< addr.toNat else 0#8
  else 0x01#8 <<< addr.toNat

/-- `lsu_req_i`. -/
def lsuReqI (valid : Bool) : LsuCtrl where
  valid := valid
  vaddr := vaddr d
  overflow := overflow VLEN (vaddr d)
  data := d.operandB
  be := beGen ((vaddr d).extractLsb' 0 3) (extractTransferSize d.operator)
  fu := d.fu
  operator := d.operator
  transId := d.transId

/-! ## The exceptions -/

/-- The low bits of the address that an operator wants to be zero. -/
def alignment : FuOp → Nat
  | .LD | .SD | .FLD | .FSD
  | .AMO_LRD | .AMO_SCD | .AMO_SWAPD | .AMO_ADDD | .AMO_ANDD | .AMO_ORD
  | .AMO_XORD | .AMO_MAXD | .AMO_MAXDU | .AMO_MIND | .AMO_MINDU => 3
  | .LW | .LWU | .SW | .FLW | .FSW
  | .AMO_LRW | .AMO_SCW | .AMO_SWAPW | .AMO_ADDW | .AMO_ANDW | .AMO_ORW
  | .AMO_XORW | .AMO_MAXW | .AMO_MAXWU | .AMO_MINW | .AMO_MINWU => 2
  | .LH | .LHU | .SH | .FLH | .FSH => 1
  | _ => 0

/-- `data_misaligned`. -/
def dataMisaligned : Bool :=
  r.valid && r.vaddr.extractLsb' 0 (alignment r.operator) != 0#_

/-- An exception of the request, by its functional unit. -/
def dataException (ld st : BitVec 64) (ex : ExceptionT) : ExceptionT :=
  match r.fu with
  | .LOAD => ⟨ld, r.vaddr, true⟩
  | .STORE => ⟨st, r.vaddr, true⟩
  | _ => ex

/-- `misaligned_exception`: the access fault of an overflow comes last and
overrides. -/
def misalignedException (enLdStTranslation : Bool) : ExceptionT :=
  let ex :=
    if dataMisaligned r then
      dataException r LD_ADDR_MISALIGNED ST_ADDR_MISALIGNED ExceptionT.none
    else ExceptionT.none
  if enLdStTranslation && r.overflow then
    dataException r LD_ACCESS_FAULT ST_ACCESS_FAULT ex
  else ex

/-! ## The range of the address -/

/-- The bits are all one or all zero if and only if they are equal. -/
theorem allOnes_or_zero_iff {n : Nat} {x : BitVec (n + 1)} :
    x = BitVec.allOnes (n + 1) ∨ x = 0#(n + 1) ↔
      ∀ k < n + 1, x.getLsbD k = x.getLsbD 0 := by
  constructor
  · rintro (rfl | rfl) k hk
    · simp [hk]
    · simp
  · intro h
    cases hb : x.getLsbD 0 with
    | true =>
      refine Or.inl (BitVec.eq_of_getLsbD_eq fun k hk => ?_)
      rw [h k hk, hb, BitVec.getLsbD_allOnes]
      simp [hk]
    | false =>
      refine Or.inr (BitVec.eq_of_getLsbD_eq fun k hk => ?_)
      rw [h k hk, hb, BitVec.getLsbD_zero]

/-- The check finds the addresses that are not sign-extended. -/
theorem overflow_eq_false_iff (vlen : Nat) (hpos : 1 ≤ vlen) (hle : vlen ≤ 64)
    {a : BitVec 64} : overflow vlen a = false ↔
      ∀ k, vlen ≤ k → k < 64 → a.getLsbD k = a.getLsbD (vlen - 1) := by
  obtain ⟨n, hn⟩ : ∃ n, 65 - vlen = n + 1 := ⟨64 - vlen, by omega⟩
  unfold overflow
  rw [hn]
  simp only [Bool.not_eq_eq_eq_not, Bool.not_false, decide_eq_true_eq]
  rw [allOnes_or_zero_iff]
  constructor
  · intro h k hk hlt
    have hbit := h (k - (vlen - 1)) (by omega)
    rw [BitVec.getLsbD_extractLsb', BitVec.getLsbD_extractLsb',
      show vlen - 1 + (k - (vlen - 1)) = k by omega, Nat.add_zero] at hbit
    simpa [show k - (vlen - 1) < n + 1 by omega] using hbit
  · intro h k hk
    rw [BitVec.getLsbD_extractLsb', BitVec.getLsbD_extractLsb', Nat.add_zero,
      decide_eq_true hk, decide_eq_true (Nat.succ_pos n), Bool.true_and,
      Bool.true_and]
    by_cases hz : k = 0
    · rw [hz, Nat.add_zero]
    · exact h (vlen - 1 + k) (by omega) (by omega)

/-- With a `VLEN` of 64 no address is out of range. -/
theorem overflow_VLEN (a : BitVec 64) : overflow VLEN a = false :=
  (overflow_eq_false_iff VLEN (by decide) (by decide)).mpr fun _ hk hlt =>
    absurd hlt (Nat.not_lt.mpr hk)

/-- So the only exception before the translation is that of a misaligned
address. -/
theorem misalignedException_lsuReqI (valid en : Bool) :
    misalignedException (lsuReqI d valid) en =
      if dataMisaligned (lsuReqI d valid) then
        dataException (lsuReqI d valid) LD_ADDR_MISALIGNED ST_ADDR_MISALIGNED
          ExceptionT.none
      else ExceptionT.none := by
  have hno : (lsuReqI d valid).overflow = false := overflow_VLEN (vaddr d)
  unfold misalignedException
  rw [hno, Bool.and_false, if_neg Bool.false_ne_true]

end ArianeSoc.Lsu
