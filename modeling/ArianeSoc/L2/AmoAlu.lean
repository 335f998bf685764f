import ArianeSoc.BitField
import ArianeSoc.ByteLanes
import ArianeSoc.Cache.AmoAlu
import ArianeSoc.Noc.Msg

/-!
# The ALU of the atomics in the L2

`l2_amo_alu` computes the line that an atomic leaves in the L2.  It takes a
dword of each line, puts the addressed bytes at the top of an operand,
computes with operands of 64 bits, and puts the top of the result back.
With `SWAP_ENDIANESS` the bytes of a dword count from its high end.

An operand whose low bits are zero computes as its high bits do.  That is
said for words of any width (`add_up`, `ult_up`, `slt_up`), and with it
`tmp_up` reduces the unit to the access.  `byte_amoResult` says which byte of
the line is which byte of the result.
-/

namespace ArianeSoc.L2.AmoAlu

open ByteLanes Chipset

/-! ## Words at the top of a wider one -/

section Up

variable {n w k : ℕ}

/-- `x` from bit `k` of a word of zeros. -/
def up (n k : ℕ) (x : BitVec w) : BitVec n := x.setWidth n <<< k

theorem set_zero (f : BitField n w) (x : BitVec w) :
    f.set x 0#n = up n f.lo x := by
  rw [BitField.set, BitVec.zero_and, BitVec.zero_or, up]

theorem toNat_up (h : w + k = n) (x : BitVec w) :
    (up n k x).toNat = x.toNat * 2 ^ k := by
  have hlt : x.toNat * 2 ^ k < 2 ^ n := by
    rw [← h, Nat.pow_add]
    exact Nat.mul_lt_mul_of_pos_right x.isLt (Nat.two_pow_pos k)
  rw [up, BitVec.toNat_shiftLeft, BitVec.toNat_setWidth_of_le (by omega),
    Nat.shiftLeft_eq, Nat.mod_eq_of_lt hlt]

theorem extract_up (h : w + k = n) (x : BitVec w) :
    (up n k x).extractLsb' k w = x := by
  apply BitVec.eq_of_toNat_eq
  rw [BitVec.extractLsb'_toNat, toNat_up h, Nat.shiftRight_eq_div_pow,
    Nat.mul_div_cancel _ (Nat.two_pow_pos k), Nat.mod_eq_of_lt x.isLt]

/-- Nothing comes up from the zeros below. -/
theorem add_up (h : w + k = n) (x y : BitVec w) :
    up n k x + up n k y = up n k (x + y) := by
  apply BitVec.eq_of_toNat_eq
  rw [BitVec.toNat_add, toNat_up h, toNat_up h, toNat_up h, BitVec.toNat_add,
    ← Nat.add_mul, ← h, Nat.pow_add, Nat.mul_mod_mul_right]

theorem and_up (x y : BitVec w) :
    up n k x &&& up n k y = up n k (x &&& y) := by
  rw [up, up, up, BitVec.setWidth_and, BitVec.shiftLeft_and_distrib]

theorem or_up (x y : BitVec w) :
    up n k x ||| up n k y = up n k (x ||| y) := by
  rw [up, up, up, BitVec.setWidth_or, BitVec.shiftLeft_or_distrib]

theorem xor_up (x y : BitVec w) :
    up n k x ^^^ up n k y = up n k (x ^^^ y) := by
  rw [up, up, up, BitVec.setWidth_xor, BitVec.shiftLeft_xor_distrib]

theorem ult_up (h : w + k = n) (x y : BitVec w) :
    (up n k x).ult (up n k y) = x.ult y := by
  rw [BitVec.ult, BitVec.ult, toNat_up h, toNat_up h]
  exact decide_eq_decide.2 (Nat.mul_lt_mul_right (Nat.two_pow_pos k))

theorem msb_up (h : w + k = n) (x : BitVec w) : (up n k x).msb = x.msb := by
  rcases Nat.eq_zero_or_pos w with rfl | hpos
  · have hx : x = 0#0 := BitVec.eq_of_toNat_eq (by omega)
    rw [hx, up, BitVec.setWidth_zero, BitVec.zero_shiftLeft, BitVec.msb_zero,
      BitVec.msb_zero]
  · rw [BitVec.msb_eq_getLsbD_last, BitVec.msb_eq_getLsbD_last, up,
      BitVec.getLsbD_shiftLeft, BitVec.getLsbD_setWidth,
      decide_eq_true (show n - 1 < n by omega),
      decide_eq_false (show ¬ n - 1 < k by omega),
      decide_eq_true (show n - 1 - k < n by omega),
      show n - 1 - k = w - 1 by omega]
    rfl

theorem slt_up (h : w + k = n) (x y : BitVec w) :
    (up n k x).slt (up n k y) = x.slt y := by
  rw [BitVec.slt_eq_ult, BitVec.slt_eq_ult, msb_up h, msb_up h, ult_up h]

end Up

/-! ## The unit -/

inductive Op
  | NOP | ADD | AND | OR | XOR | MAX | MAXU | MIN | MINU
  deriving DecidableEq, Repr

/-- `L2_AMO_ALU_*`; an encoding without a name does nothing. -/
def Op.ofBits (amoAluOp : BitVec 4) : Op :=
  if amoAluOp = 1#4 then .ADD
  else if amoAluOp = 2#4 then .AND
  else if amoAluOp = 3#4 then .OR
  else if amoAluOp = 4#4 then .XOR
  else if amoAluOp = 5#4 then .MAX
  else if amoAluOp = 6#4 then .MAXU
  else if amoAluOp = 7#4 then .MIN
  else if amoAluOp = 8#4 then .MINU
  else .NOP

/-- `L2_DATA_DATA_WIDTH`. -/
abbrev Line := BitVec 128

section Select

variable (address : BitVec 40)

/-- The dword of a line at `dword_offset`. -/
def dword : BitField 128 64 := ⟨(address.extractLsb' 3 1).toNat * 64⟩

/-- `[address[2:0]*8 +: 8]`. -/
def byteLane : BitField 64 8 := ⟨(address.extractLsb' 0 3).toNat * 8⟩

/-- `[address[2:1]*16 +: 16]`. -/
def halfLane : BitField 64 16 := ⟨(address.extractLsb' 1 2).toNat * 16⟩

/-- `[address[2:2]*32 +: 32]`. -/
def wordLane : BitField 64 32 := ⟨(address.extractLsb' 2 1).toNat * 32⟩

def topByte : BitField 64 8 := ⟨56⟩
def topHalf : BitField 64 16 := ⟨48⟩
def topWord : BitField 64 32 := ⟨32⟩

def swapBytes (x : BitVec 64) : BitVec 64 :=
  x.extractLsb' 0 8 ++ x.extractLsb' 8 8 ++ x.extractLsb' 16 8 ++
    x.extractLsb' 24 8 ++ x.extractLsb' 32 8 ++ x.extractLsb' 40 8 ++
    x.extractLsb' 48 8 ++ x.extractLsb' 56 8

/-- `amo_operand_a_swp` and `amo_operand_b_swp`, and the way back. -/
def swp (swapEndianess : Bool) (x : BitVec 64) : BitVec 64 :=
  if swapEndianess then swapBytes x else x

variable (dataSize : BitVec 3) (x : BitVec 64)

/-- `amo_operand_a` and `amo_operand_b`. -/
def amoOperand : BitVec 64 :=
  if dataSize = MSG_DATA_SIZE_1B then
    topByte.set ((byteLane address).get x) 0#64
  else if dataSize = MSG_DATA_SIZE_2B then
    topHalf.set ((halfLane address).get x) 0#64
  else if dataSize = MSG_DATA_SIZE_4B then
    topWord.set ((wordLane address).get x) 0#64
  else if dataSize = MSG_DATA_SIZE_8B then x
  else 0#64

/-- `amo_64b_result`. -/
def amo64bResult (tmp : BitVec 64) : BitVec 64 :=
  if dataSize = MSG_DATA_SIZE_1B then
    (byteLane address).set (topByte.get tmp) x
  else if dataSize = MSG_DATA_SIZE_2B then
    (halfLane address).set (topHalf.get tmp) x
  else if dataSize = MSG_DATA_SIZE_4B then
    (wordLane address).set (topWord.get tmp) x
  else if dataSize = MSG_DATA_SIZE_8B then tmp
  else x

end Select

section Unit

variable (op : Op) (a b : BitVec 64)

def adderOperandA : BitVec 65 :=
  match op with
  | .MAXU | .MINU => a.setWidth 65
  | _ => a.signExtend 65

def adderOperandB : BitVec 65 :=
  match op with
  | .MAX | .MIN => -b.signExtend 65
  | .MAXU | .MINU => -b.setWidth 65
  | _ => b.signExtend 65

def adderSum : BitVec 65 := adderOperandA op a + adderOperandB op b

/-- `amo_64b_tmp`. -/
def amo64bTmp : BitVec 64 :=
  match op with
  | .NOP => a
  | .ADD => (adderSum op a b).extractLsb' 0 64
  | .AND => a &&& b
  | .OR => a ||| b
  | .XOR => a ^^^ b
  | .MAX | .MAXU => if (adderSum op a b).getLsbD 64 then b else a
  | .MIN | .MINU => if (adderSum op a b).getLsbD 64 then a else b

end Unit

/-- `l2_amo_alu`. -/
def amoResult (swapEndianess : Bool) (amoAluOp : BitVec 4)
    (address : BitVec 40) (dataSize : BitVec 3)
    (memoryOperand cpuOperand : Line) : Line :=
  let aSwp := swp swapEndianess ((dword address).get memoryOperand)
  let bSwp := swp swapEndianess ((dword address).get cpuOperand)
  let tmp := amo64bTmp (Op.ofBits amoAluOp)
    (amoOperand address dataSize aSwp) (amoOperand address dataSize bSwp)
  (dword address).set
    (swp swapEndianess (amo64bResult address dataSize aSwp tmp))
    memoryOperand

/-! ## What an atomic asks for -/

/-- The result of an operation on words of the width of the access. -/
def Op.result {w : ℕ} (op : Op) (x y : BitVec w) : BitVec w :=
  match op with
  | .NOP => x
  | .ADD => x + y
  | .AND => x &&& y
  | .OR => x ||| y
  | .XOR => x ^^^ y
  | .MAX => BitVec.ofInt w (max x.toInt y.toInt)
  | .MIN => BitVec.ofInt w (min x.toInt y.toInt)
  | .MAXU => BitVec.ofNat w (max x.toNat y.toNat)
  | .MINU => BitVec.ofNat w (min x.toNat y.toNat)

/-- The number of bytes of an access of one to eight bytes. -/
def accessBytes (dataSize : BitVec 3) : Option ℕ :=
  if dataSize = MSG_DATA_SIZE_1B then some 1
  else if dataSize = MSG_DATA_SIZE_2B then some 2
  else if dataSize = MSG_DATA_SIZE_4B then some 4
  else if dataSize = MSG_DATA_SIZE_8B then some 8
  else none

section Bytes

variable (swapEndianess : Bool) (line : Line)

/-- The byte at an address of the line. -/
def lineByte (j : ℕ) : BitVec 8 :=
  byte line (8 * (j / 8) + if swapEndianess then 7 - j % 8 else j % 8)

/-- The value of the `m` bytes from the address `a` of the line. -/
def value (a m : ℕ) : BitVec (8 * m) :=
  gather (8 * m) (fun i => lineByte swapEndianess line (a + i)) m

end Bytes

/-! ## The operation -/

/-- On operands whose low bits are zero the unit computes with their high
bits. -/
theorem tmp_up {w k : ℕ} (h : w + k = 64) (op : Op) (x y : BitVec w) :
    amo64bTmp op (up 64 k x) (up 64 k y) = up 64 k (op.result x y) := by
  have hint : Function.LeftInverse (BitVec.ofInt w) BitVec.toInt :=
    fun _ => BitVec.ofInt_toInt
  have hnat : Function.LeftInverse (BitVec.ofNat w) BitVec.toNat :=
    fun x => by rw [BitVec.ofNat_toNat, BitVec.setWidth_eq]
  cases op with
  | NOP => rfl
  | ADD => exact Amo.adderSum_add.trans (add_up h x y)
  | AND => exact and_up x y
  | OR => exact or_up x y
  | XOR => exact xor_up x y
  | MAX =>
    have hless : (adderSum .MAX (up 64 k x) (up 64 k y)).getLsbD 64 = x.slt y :=
      (Amo.adderSum_signed (Or.inl rfl)).trans (slt_up h x y)
    rw [amo64bTmp, hless, ← apply_ite (up 64 k)]
    exact congrArg (up 64 k) (Amo.select_max hint BitVec.slt_iff_toInt_lt)
  | MIN =>
    have hless : (adderSum .MIN (up 64 k x) (up 64 k y)).getLsbD 64 = x.slt y :=
      (Amo.adderSum_signed (Or.inr rfl)).trans (slt_up h x y)
    rw [amo64bTmp, hless, ← apply_ite (up 64 k)]
    exact congrArg (up 64 k) (Amo.select_min hint BitVec.slt_iff_toInt_lt)
  | MAXU =>
    have hless : (adderSum .MAXU (up 64 k x) (up 64 k y)).getLsbD 64 = x.ult y :=
      (Amo.adderSum_unsigned (Or.inl rfl)).trans (ult_up h x y)
    rw [amo64bTmp, hless, ← apply_ite (up 64 k)]
    exact congrArg (up 64 k) (Amo.select_max hnat BitVec.ult_iff_toNat_lt)
  | MINU =>
    have hless : (adderSum .MINU (up 64 k x) (up 64 k y)).getLsbD 64 = x.ult y :=
      (Amo.adderSum_unsigned (Or.inr rfl)).trans (ult_up h x y)
    rw [amo64bTmp, hless, ← apply_ite (up 64 k)]
    exact congrArg (up 64 k) (Amo.select_min hnat BitVec.ult_iff_toNat_lt)

/-! ## The bytes of a dword -/

theorem byte_swapBytes (x : BitVec 64) {j : ℕ} (hj : j < 8) :
    byte (swapBytes x) j = byte x (7 - j) := by
  rw [swapBytes]
  obtain rfl | rfl | rfl | rfl | rfl | rfl | rfl | rfl : j = 0 ∨ j = 1 ∨
      j = 2 ∨ j = 3 ∨ j = 4 ∨ j = 5 ∨ j = 6 ∨ j = 7 := by omega
  · exact byte_append_zero _ _
  · rw [byte_append_succ]
    exact byte_append_zero _ _
  · rw [byte_append_succ, byte_append_succ]
    exact byte_append_zero _ _
  · rw [byte_append_succ, byte_append_succ, byte_append_succ]
    exact byte_append_zero _ _
  · rw [byte_append_succ, byte_append_succ, byte_append_succ,
      byte_append_succ]
    exact byte_append_zero _ _
  · rw [byte_append_succ, byte_append_succ, byte_append_succ,
      byte_append_succ, byte_append_succ]
    exact byte_append_zero _ _
  · rw [byte_append_succ, byte_append_succ, byte_append_succ,
      byte_append_succ, byte_append_succ, byte_append_succ]
    exact byte_append_zero _ _
  · rw [byte_append_succ, byte_append_succ, byte_append_succ,
      byte_append_succ, byte_append_succ, byte_append_succ,
      byte_append_succ]
    exact BitVec.extractLsb'_eq_self

theorem byte_swp (swapEndianess : Bool) (x : BitVec 64) {j : ℕ} (hj : j < 8) :
    byte (swp swapEndianess x) j =
      byte x (if swapEndianess then 7 - j else j) := by
  cases swapEndianess with
  | false => rfl
  | true => exact byte_swapBytes x hj

/-- The bytes of a register after a field of `m` bytes has been written. -/
theorem byte_set {w n : ℕ} (f : BitField w n) (v : BitVec n) (x : BitVec w)
    {o m j : ℕ} (hlo : f.lo = 8 * o) (hn : n = 8 * m) (hj : 8 * j + 8 ≤ w) :
    byte (f.set v x) j =
      if o ≤ j ∧ j < o + m then byte v (j - o) else byte x j := by
  by_cases hin : o ≤ j ∧ j < o + m
  · rw [if_pos hin]
    apply byte_congr
    intro i hi
    rw [BitField.getLsbD_set, if_pos (by omega)]
    congr 1
    omega
  · rw [if_neg hin]
    apply byte_congr
    intro i hi
    rw [BitField.getLsbD_set, if_neg (by omega)]

/-! ## The operand and the result -/

section Access

variable {address : BitVec 40} {dataSize : BitVec 3} {m : ℕ}

/-- The sizes of an access. -/
theorem accessBytes_cases (h : accessBytes dataSize = some m) :
    (dataSize = MSG_DATA_SIZE_1B ∧ m = 1) ∨
      (dataSize = MSG_DATA_SIZE_2B ∧ m = 2) ∨
      (dataSize = MSG_DATA_SIZE_4B ∧ m = 4) ∨
      (dataSize = MSG_DATA_SIZE_8B ∧ m = 8) := by
  unfold accessBytes at h
  split at h
  · exact Or.inl ⟨by assumption, (Option.some.inj h).symm⟩
  split at h
  · exact Or.inr (Or.inl ⟨by assumption, (Option.some.inj h).symm⟩)
  split at h
  · exact Or.inr (Or.inr (Or.inl ⟨by assumption, (Option.some.inj h).symm⟩))
  split at h
  · exact Or.inr (Or.inr (Or.inr ⟨by assumption, (Option.some.inj h).symm⟩))
  · exact absurd h (by simp)

theorem byteLane_lo : (byteLane address).lo = 8 * (address.toNat % 8) := by
  rw [byteLane, BitVec.extractLsb'_toNat, Nat.shiftRight_zero, Nat.mul_comm]

theorem halfLane_lo (h : 2 ∣ address.toNat) :
    (halfLane address).lo = 8 * (address.toNat % 8) := by
  rw [halfLane, BitVec.extractLsb'_toNat, Nat.shiftRight_eq_div_pow]
  show address.toNat / 2 % 4 * 16 = 8 * (address.toNat % 8)
  omega

theorem wordLane_lo (h : 4 ∣ address.toNat) :
    (wordLane address).lo = 8 * (address.toNat % 8) := by
  rw [wordLane, BitVec.extractLsb'_toNat, Nat.shiftRight_eq_div_pow]
  show address.toNat / 4 % 2 * 32 = 8 * (address.toNat % 8)
  omega

theorem dword_lo :
    (dword address).lo = 8 * (8 * (address.toNat / 8 % 2)) := by
  rw [dword, BitVec.extractLsb'_toNat, Nat.shiftRight_eq_div_pow]
  show address.toNat / 8 % 2 * 64 = 8 * (8 * (address.toNat / 8 % 2))
  omega

variable (hsize : accessBytes dataSize = some m)
  (halign : m ∣ address.toNat)

include hsize halign

/-- An operand is the addressed bytes at the top of a word of zeros. -/
theorem amoOperand_eq (x : BitVec 64) :
    amoOperand address dataSize x =
      up 64 (64 - 8 * m)
        (x.extractLsb' (8 * (address.toNat % 8)) (8 * m)) := by
  rcases accessBytes_cases hsize with
    ⟨rfl, rfl⟩ | ⟨rfl, rfl⟩ | ⟨rfl, rfl⟩ | ⟨rfl, rfl⟩
  · rw [← byteLane_lo]
    exact set_zero topByte _
  · rw [← halfLane_lo halign]
    exact set_zero topHalf _
  · rw [← wordLane_lo halign]
    exact set_zero topWord _
  · have hlo : address.toNat % 8 = 0 := Nat.mod_eq_zero_of_dvd halign
    rw [hlo]
    show x = up 64 0 (x.extractLsb' 0 64)
    rw [BitVec.extractLsb'_eq_self, up, BitVec.setWidth_eq,
      BitVec.shiftLeft_zero]

/-- The bytes of the dword that is put back. -/
theorem byte_amo64bResult (x tmp : BitVec 64) {j : ℕ} (hj : j < 8) :
    byte (amo64bResult address dataSize x tmp) j =
      if address.toNat % 8 ≤ j ∧ j < address.toNat % 8 + m then
        byte (tmp.extractLsb' (64 - 8 * m) (8 * m)) (j - address.toNat % 8)
      else byte x j := by
  rcases accessBytes_cases hsize with
    ⟨rfl, rfl⟩ | ⟨rfl, rfl⟩ | ⟨rfl, rfl⟩ | ⟨rfl, rfl⟩
  · exact byte_set _ _ x byteLane_lo rfl (by omega)
  · exact byte_set _ _ x (halfLane_lo halign) rfl (by omega)
  · exact byte_set _ _ x (wordLane_lo halign) rfl (by omega)
  · have hlo : address.toNat % 8 = 0 := Nat.mod_eq_zero_of_dvd halign
    rw [hlo, if_pos (by omega)]
    show byte tmp j = byte (tmp.extractLsb' 0 64) (j - 0)
    rw [BitVec.extractLsb'_eq_self, Nat.sub_zero]

/-- The addressed bytes do not leave the dword. -/
theorem access_le : address.toNat % 8 + m ≤ 8 := by
  rcases accessBytes_cases hsize with
    ⟨-, rfl⟩ | ⟨-, rfl⟩ | ⟨-, rfl⟩ | ⟨-, rfl⟩ <;> omega

end Access

/-! ## The bytes of a line -/

section Line

variable {swapEndianess : Bool} {f : BitField 128 64} {d : ℕ}

theorem byte_swp_get (hf : f.lo = 8 * (8 * d)) (line : Line) {i : ℕ}
    (hi : i < 8) :
    byte (swp swapEndianess (f.get line)) i =
      lineByte swapEndianess line (8 * d + i) := by
  have hdiv : (8 * d + i) / 8 = d := by omega
  have hmod : (8 * d + i) % 8 = i := by omega
  rw [byte_swp swapEndianess _ hi, BitField.get, hf, lineByte, hdiv, hmod]
  exact byte_extractLsb' line (by split <;> omega)

theorem lineByte_set (hf : f.lo = 8 * (8 * d)) (r : BitVec 64) (line : Line)
    {j : ℕ} (hj : j < 16) :
    lineByte swapEndianess (f.set (swp swapEndianess r) line) j =
      if j / 8 = d then byte r (j % 8)
      else lineByte swapEndianess line j := by
  have hj8 : j % 8 < 8 := Nat.mod_lt j (by decide)
  have hp : (if swapEndianess then 7 - j % 8 else j % 8) < 8 := by
    split <;> omega
  rw [lineByte, byte_set f _ line hf (show 64 = 8 * 8 by rfl) (by omega)]
  by_cases hd : j / 8 = d
  · rw [if_pos hd, if_pos (by omega), hd, Nat.add_sub_cancel_left,
      byte_swp swapEndianess r hp]
    cases swapEndianess with
    | false => rfl
    | true =>
      show byte r (7 - (7 - j % 8)) = byte r (j % 8)
      congr 1
      omega
  · rw [if_neg hd, if_neg (by omega), lineByte]

/-- The value of an access is a part of the dword that it lies in. -/
theorem value_eq (hf : f.lo = 8 * (8 * d)) (line : Line) {o m : ℕ}
    (hm : o + m ≤ 8) :
    (swp swapEndianess (f.get line)).extractLsb' (8 * o) (8 * m) =
      value swapEndianess line (8 * d + o) m := by
  apply eq_of_byte_eq (Nat.le_refl (8 * m))
  intro i hi
  rw [byte_extractLsb' _ (by omega), byte_swp_get hf line (by omega), value,
    byte_gather _ hi (Nat.le_refl _), Nat.add_assoc]

end Line

/-- The line is the old one with the addressed bytes replaced by the result
of the operation on the addressed values. -/
theorem byte_amoResult (swapEndianess : Bool) (amoAluOp : BitVec 4)
    (address : BitVec 40) (dataSize : BitVec 3)
    (memoryOperand cpuOperand : Line) {m : ℕ}
    (hsize : accessBytes dataSize = some m) (halign : m ∣ address.toNat)
    {j : ℕ} (hj : j < 16) :
    lineByte swapEndianess
        (amoResult swapEndianess amoAluOp address dataSize memoryOperand
          cpuOperand) j =
      if address.toNat % 16 ≤ j ∧ j < address.toNat % 16 + m then
        byte
          ((Op.ofBits amoAluOp).result
            (value swapEndianess memoryOperand (address.toNat % 16) m)
            (value swapEndianess cpuOperand (address.toNat % 16) m))
          (j - address.toNat % 16)
      else lineByte swapEndianess memoryOperand j := by
  have hle := access_le hsize halign
  have hat : address.toNat % 16 =
      8 * (address.toNat / 8 % 2) + address.toNat % 8 := by omega
  have hj8 : j % 8 < 8 := Nat.mod_lt j (by decide)
  rw [amoResult, lineByte_set dword_lo _ memoryOperand hj,
    byte_amo64bResult hsize halign _ _ hj8,
    amoOperand_eq hsize halign, amoOperand_eq hsize halign,
    value_eq dword_lo memoryOperand hle, value_eq dword_lo cpuOperand hle,
    ← hat, tmp_up (by omega), extract_up (by omega)]
  by_cases hd : j / 8 = address.toNat / 8 % 2
  · rw [if_pos hd]
    have hin : address.toNat % 8 ≤ j % 8 ∧ j % 8 < address.toNat % 8 + m ↔
        address.toNat % 16 ≤ j ∧ j < address.toNat % 16 + m := by omega
    have hoff : j % 8 - address.toNat % 8 = j - address.toNat % 16 := by omega
    have hback : 8 * (address.toNat / 8 % 2) + j % 8 = j := by omega
    rw [hoff, byte_swp_get dword_lo memoryOperand hj8, hback]
    exact if_congr hin rfl rfl
  · rw [if_neg hd, if_neg (by omega)]

/-- The signed maximum of two bytes, of which the old one is negative. -/
theorem byte_amoResult_max :
    lineByte true
      (amoResult true 5#4 9#40 MSG_DATA_SIZE_1B
        0x11fe334455667788_0102030405060708#128
        0x0022000000000000_0000000000000000#128) 9 = 0x22#8 := by
  have hsize : accessBytes MSG_DATA_SIZE_1B = some 1 := rfl
  rw [byte_amoResult true 5#4 9#40 MSG_DATA_SIZE_1B _ _ hsize (by decide)
    (by decide)]
  decide

end ArianeSoc.L2.AmoAlu
