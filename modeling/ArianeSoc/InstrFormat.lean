import Mathlib.Tactic.Common

/-!
# The instruction formats of RISC-V

The 32-bit formats R, I, S, B, U and J, and the immediates of the 16-bit
ones.  A format takes its immediate whole and puts its bits where the manual
has them; branch and jump offsets are counted in half words, so that an odd
offset cannot be written.

`labelled` reads an immediate off a 16-bit instruction from the labels that
the manual writes over its fields.
-/

namespace InstrFormat

/-! ## The 32-bit formats -/

abbrev Reg := BitVec 5

def rType (funct7 : BitVec 7) (rs2 rs1 : Reg) (funct3 : BitVec 3) (rd : Reg)
    (opcode : BitVec 7) : BitVec 32 :=
  funct7 ++ rs2 ++ rs1 ++ funct3 ++ rd ++ opcode

def iType (imm : BitVec 12) (rs1 : Reg) (funct3 : BitVec 3) (rd : Reg)
    (opcode : BitVec 7) : BitVec 32 :=
  imm ++ rs1 ++ funct3 ++ rd ++ opcode

/-- The immediate is split into `imm[11:5]` and `imm[4:0]`. -/
def sType (imm : BitVec 12) (rs2 rs1 : Reg) (funct3 : BitVec 3)
    (opcode : BitVec 7) : BitVec 32 :=
  imm.extractLsb' 5 7 ++ rs2 ++ rs1 ++ funct3 ++ imm.extractLsb' 0 5 ++ opcode

/-- `imm[12|10:5]` above and `imm[4:1|11]` below the registers. -/
def bType (half : BitVec 12) (rs2 rs1 : Reg) (funct3 : BitVec 3)
    (opcode : BitVec 7) : BitVec 32 :=
  (half.extractLsb' 11 1 ++ half.extractLsb' 4 6) ++ rs2 ++ rs1 ++ funct3 ++
    (half.extractLsb' 0 4 ++ half.extractLsb' 10 1) ++ opcode

def uType (imm : BitVec 20) (rd : Reg) (opcode : BitVec 7) : BitVec 32 :=
  imm ++ rd ++ opcode

/-- `imm[20|10:1|11|19:12]`. -/
def jType (half : BitVec 20) (rd : Reg) (opcode : BitVec 7) : BitVec 32 :=
  (half.extractLsb' 19 1 ++ half.extractLsb' 0 10 ++ half.extractLsb' 10 1 ++
    half.extractLsb' 11 8) ++ rd ++ opcode

section Fields

variable {n k : Nat} {imm half : BitVec 12} {rs1 rs2 rd : Reg}
  {funct3 : BitVec 3} {funct7 opcode : BitVec 7}

/-- A field of the lower part of a word. -/
theorem field_low {x : BitVec n} {y : BitVec k} {lo len : Nat}
    (h : lo + len ≤ k) :
    (x ++ y).extractLsb' lo len = y.extractLsb' lo len :=
  BitVec.extractLsb'_append_eq_of_add_le h

/-- A field of the upper part of a word. -/
theorem field_high {x : BitVec n} {y : BitVec k} {lo len : Nat}
    (h : k ≤ lo) :
    (x ++ y).extractLsb' lo len = x.extractLsb' (lo - k) len :=
  BitVec.extractLsb'_append_eq_of_le h

/-- The fields of the register format. -/
theorem rType_fields :
    (rType funct7 rs2 rs1 funct3 rd opcode).extractLsb' 0 7 = opcode ∧
      (rType funct7 rs2 rs1 funct3 rd opcode).extractLsb' 7 5 = rd ∧
      (rType funct7 rs2 rs1 funct3 rd opcode).extractLsb' 12 3 = funct3 ∧
      (rType funct7 rs2 rs1 funct3 rd opcode).extractLsb' 15 5 = rs1 ∧
      (rType funct7 rs2 rs1 funct3 rd opcode).extractLsb' 20 5 = rs2 ∧
      (rType funct7 rs2 rs1 funct3 rd opcode).extractLsb' 25 7 = funct7 := by
  unfold rType
  simp (disch := decide) only [field_low, field_high, Nat.reduceSub,
    BitVec.extractLsb'_eq_self, and_self]

/-- The fields of the immediate format, with the upper parts of the
immediate that a shift has. -/
theorem iType_fields :
    (iType imm rs1 funct3 rd opcode).extractLsb' 0 7 = opcode ∧
      (iType imm rs1 funct3 rd opcode).extractLsb' 7 5 = rd ∧
      (iType imm rs1 funct3 rd opcode).extractLsb' 12 3 = funct3 ∧
      (iType imm rs1 funct3 rd opcode).extractLsb' 15 5 = rs1 ∧
      (iType imm rs1 funct3 rd opcode).extractLsb' 20 12 = imm ∧
      (iType imm rs1 funct3 rd opcode).extractLsb' 26 6 =
        imm.extractLsb' 6 6 := by
  unfold iType
  simp (disch := decide) only [field_low, field_high, Nat.reduceSub,
    BitVec.extractLsb'_eq_self, and_self]

/-- The fields of the store format; the two parts of the immediate are put
together again. -/
theorem sType_fields :
    (sType imm rs2 rs1 funct3 opcode).extractLsb' 0 7 = opcode ∧
      (sType imm rs2 rs1 funct3 opcode).extractLsb' 12 3 = funct3 ∧
      (sType imm rs2 rs1 funct3 opcode).extractLsb' 15 5 = rs1 ∧
      (sType imm rs2 rs1 funct3 opcode).extractLsb' 20 5 = rs2 ∧
      (sType imm rs2 rs1 funct3 opcode).extractLsb' 25 7 ++
        (sType imm rs2 rs1 funct3 opcode).extractLsb' 7 5 = imm := by
  unfold sType
  simp (disch := decide) only [field_low, field_high, Nat.reduceSub,
    BitVec.extractLsb'_eq_self, true_and]
  exact BitVec.extractLsb'_append_extractLsb'

/-- The fields of the branch format. -/
theorem bType_fields :
    (bType half rs2 rs1 funct3 opcode).extractLsb' 0 7 = opcode ∧
      (bType half rs2 rs1 funct3 opcode).extractLsb' 12 3 = funct3 ∧
      (bType half rs2 rs1 funct3 opcode).extractLsb' 15 5 = rs1 ∧
      (bType half rs2 rs1 funct3 opcode).extractLsb' 20 5 = rs2 ∧
      (bType half rs2 rs1 funct3 opcode).extractLsb' 31 1 ++
        (bType half rs2 rs1 funct3 opcode).extractLsb' 7 1 ++
        (bType half rs2 rs1 funct3 opcode).extractLsb' 25 6 ++
        (bType half rs2 rs1 funct3 opcode).extractLsb' 8 4 = half := by
  unfold bType
  simp (disch := decide) only [field_low, field_high, Nat.reduceSub,
    BitVec.extractLsb'_eq_self, true_and]
  refine ⟨BitVec.extractLsb'_eq_self, BitVec.extractLsb'_eq_self,
    BitVec.extractLsb'_eq_self, ?_⟩
  show BitVec.extractLsb' 0 1 (half.extractLsb' 11 1) ++
    half.extractLsb' 10 1 ++ BitVec.extractLsb' 0 6 (half.extractLsb' 4 6) ++
      half.extractLsb' 0 4 = half
  rw [BitVec.extractLsb'_eq_self, BitVec.extractLsb'_eq_self,
    BitVec.extractLsb'_append_extractLsb'_eq_extractLsb' (by decide),
    BitVec.extractLsb'_append_extractLsb'_eq_extractLsb' (by decide),
    BitVec.extractLsb'_append_extractLsb'_eq_extractLsb' (by decide)]
  exact BitVec.extractLsb'_eq_self

theorem uType_fields {imm : BitVec 20} :
    (uType imm rd opcode).extractLsb' 0 7 = opcode ∧
      (uType imm rd opcode).extractLsb' 7 5 = rd ∧
      (uType imm rd opcode).extractLsb' 12 20 = imm := by
  unfold uType
  simp (disch := decide) only [field_low, field_high, Nat.reduceSub,
    BitVec.extractLsb'_eq_self, and_self]

/-- The fields of the jump format. -/
theorem jType_fields {half : BitVec 20} :
    (jType half rd opcode).extractLsb' 0 7 = opcode ∧
      (jType half rd opcode).extractLsb' 7 5 = rd ∧
      (jType half rd opcode).extractLsb' 31 1 ++
        (jType half rd opcode).extractLsb' 12 8 ++
        (jType half rd opcode).extractLsb' 20 1 ++
        (jType half rd opcode).extractLsb' 21 10 = half := by
  unfold jType
  simp (disch := decide) only [field_low, field_high, Nat.reduceSub,
    BitVec.extractLsb'_eq_self, true_and]
  rw [BitVec.extractLsb'_append_extractLsb'_eq_extractLsb' (by decide),
    BitVec.extractLsb'_append_extractLsb'_eq_extractLsb' (by decide),
    BitVec.extractLsb'_append_extractLsb'_eq_extractLsb' (by decide)]
  exact BitVec.extractLsb'_eq_self

end Fields

/-! ## The labels of a 16-bit instruction -/

/-- The fields of an immediate: the field from the instruction bit `hi` down
holds the immediate bits that its labels say. -/
abbrev Labels := List (Nat × List Nat)

/-- The instruction bit with the label `k`. -/
def Labels.place (k : Nat) : Labels → Option Nat
  | [] => none
  | (hi, labels) :: fs =>
    if k ∈ labels then some (hi - labels.idxOf k) else place k fs

/-- The lowest `n` bits of the immediate.  A bit without a label is zero. -/
def labelled (fs : Labels) (h : BitVec 16) : (n : Nat) → BitVec n
  | 0 => 0#0
  | n + 1 =>
    BitVec.cons ((Labels.place n fs).elim false h.getLsbD) (labelled fs h n)

theorem getLsbD_labelled (fs : Labels) (h : BitVec 16) (n k : Nat) :
    (labelled fs h n).getLsbD k =
      (decide (k < n) && (Labels.place k fs).elim false h.getLsbD) := by
  induction n with
  | zero => simp [labelled]
  | succ n ih =>
    rw [labelled, BitVec.getLsbD_cons, ih]
    by_cases hk : k = n
    · rw [if_pos hk, hk, decide_eq_true (Nat.lt_succ_self n), Bool.true_and]
    · rw [if_neg hk]
      have hiff : k < n ↔ k < n + 1 := by omega
      simp only [hiff]

end InstrFormat
