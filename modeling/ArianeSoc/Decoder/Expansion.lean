import Mathlib.Tactic.IntervalCases
import ArianeSoc.BitField
import ArianeSoc.Decoder.Compressed
import ArianeSoc.Decoder.Rvc

/-!
# The expansion against the tables

`compressed_decoder` shuffles the bits of an immediate with a concatenation,
the tables name the place of each bit.  The first two sections compare the
two for every immediate, `c0_matches` to `c2_matches` go through the rows of
the quadrants, and `compressedDecoder_matches` puts them together.
-/

namespace ArianeSoc.Decoder

open InstrFormat

/-- The lower half of a fetched word. -/
def half (w : Instr) : BitVec 16 := w.extractLsb' 0 16

/-! ## The immediates, bit for bit -/

section Immediates

variable (w : Instr)

theorem half_field {lo len : Nat} (h : lo + len ≤ 16) :
    (half w).extractLsb' lo len = w.extractLsb' lo len := by
  apply BitVec.eq_of_getLsbD_eq
  intro k hk
  have hlt : lo + k < 16 := by omega
  simp only [half, BitVec.getLsbD_extractLsb', hlt, Nat.zero_add,
    decide_true, Bool.true_and]

theorem half_bit {k : Nat} (h : k < 16) :
    (half w).getLsbD k = w.getLsbD k := by
  simp only [half, BitVec.getLsbD_extractLsb', h, Nat.zero_add, decide_true,
    Bool.true_and]

/-- An immediate that has the labelled bits. -/
theorem labelled_eq {fs : Labels} {n : Nat} {x : BitVec n}
    (h : ∀ k < n, (Labels.place k fs).elim false (half w).getLsbD =
      x.getLsbD k) : labelled fs (half w) n = x := by
  apply BitVec.eq_of_getLsbD_eq
  intro k hk
  rw [getLsbD_labelled, decide_eq_true hk, Bool.true_and]
  exact h k hk

theorem addi4spn_imm :
    unsigned addi4spnLabels (half w) =
      0b00#2 ++ w.extractLsb 10 7 ++ w.extractLsb 12 11 ++ w.extractLsb 5 5 ++
        w.extractLsb 6 6 ++ 0b00#2 := by
  refine labelled_eq w fun k hk => ?_
  simp only [BitVec.getLsbD_append, BitVec.getLsbD_extractLsb]
  interval_cases k <;>
    simp [addi4spnLabels, Labels.place, List.idxOf_cons, half]

theorem word_imm :
    unsigned wordLabels (half w) =
      0#5 ++ w.extractLsb 5 5 ++ w.extractLsb 12 10 ++ w.extractLsb 6 6 ++
        0b00#2 := by
  refine labelled_eq w fun k hk => ?_
  simp only [BitVec.getLsbD_append, BitVec.getLsbD_extractLsb]
  interval_cases k <;>
    simp [wordLabels, Labels.place, List.idxOf_cons, half]

theorem double_imm :
    unsigned doubleLabels (half w) =
      0#4 ++ w.extractLsb 6 5 ++ w.extractLsb 12 10 ++ 0b000#3 := by
  refine labelled_eq w fun k hk => ?_
  simp only [BitVec.getLsbD_append, BitVec.getLsbD_extractLsb]
  interval_cases k <;>
    simp [doubleLabels, Labels.place, List.idxOf_cons, half]

theorem lwsp_imm :
    unsigned lwspLabels (half w) =
      0#4 ++ w.extractLsb 3 2 ++ w.extractLsb 12 12 ++ w.extractLsb 6 4 ++
        0b00#2 := by
  refine labelled_eq w fun k hk => ?_
  simp only [BitVec.getLsbD_append, BitVec.getLsbD_extractLsb]
  interval_cases k <;>
    simp [lwspLabels, Labels.place, List.idxOf_cons, half]

theorem ldsp_imm :
    unsigned ldspLabels (half w) =
      0#3 ++ w.extractLsb 4 2 ++ w.extractLsb 12 12 ++ w.extractLsb 6 5 ++
        0b000#3 := by
  refine labelled_eq w fun k hk => ?_
  simp only [BitVec.getLsbD_append, BitVec.getLsbD_extractLsb]
  interval_cases k <;>
    simp [ldspLabels, Labels.place, List.idxOf_cons, half]

/-- The immediates of the stores, in the two parts that a store has. -/
theorem word_split :
    unsigned wordLabels (half w) =
      (0#5 ++ w.extractLsb 5 5 ++ w.extractLsb 12 12) ++
        (w.extractLsb 11 10 ++ w.extractLsb 6 6 ++ 0b00#2) := by
  refine labelled_eq w fun k hk => ?_
  simp only [BitVec.getLsbD_append, BitVec.getLsbD_extractLsb]
  interval_cases k <;>
    simp [wordLabels, Labels.place, List.idxOf_cons, half]

theorem double_split :
    unsigned doubleLabels (half w) =
      (0#4 ++ w.extractLsb 6 5 ++ w.extractLsb 12 12) ++
        (w.extractLsb 11 10 ++ 0b000#3) := by
  refine labelled_eq w fun k hk => ?_
  simp only [BitVec.getLsbD_append, BitVec.getLsbD_extractLsb]
  interval_cases k <;>
    simp [doubleLabels, Labels.place, List.idxOf_cons, half]

theorem swsp_split :
    unsigned swspLabels (half w) =
      (0#4 ++ w.extractLsb 8 7 ++ w.extractLsb 12 12) ++
        (w.extractLsb 11 9 ++ 0b00#2) := by
  refine labelled_eq w fun k hk => ?_
  simp only [BitVec.getLsbD_append, BitVec.getLsbD_extractLsb]
  interval_cases k <;>
    simp [swspLabels, Labels.place, List.idxOf_cons, half]

theorem sdsp_split :
    unsigned sdspLabels (half w) =
      (0#3 ++ w.extractLsb 9 7 ++ w.extractLsb 12 12) ++
        (w.extractLsb 11 10 ++ 0b000#3) := by
  refine labelled_eq w fun k hk => ?_
  simp only [BitVec.getLsbD_append, BitVec.getLsbD_extractLsb]
  interval_cases k <;>
    simp [sdspLabels, Labels.place, List.idxOf_cons, half]

theorem shamt :
    labelled immLabels (half w) 6 = w.extractLsb 12 12 ++ w.extractLsb 6 2 := by
  refine labelled_eq w fun k hk => ?_
  simp only [BitVec.getLsbD_append, BitVec.getLsbD_extractLsb]
  interval_cases k <;>
    simp [immLabels, Labels.place, List.idxOf_cons, half]

theorem addi16sp_imm :
    labelled addi16spLabels (half w) 10 =
      w.extractLsb 12 12 ++ w.extractLsb 4 3 ++ w.extractLsb 5 5 ++
        w.extractLsb 2 2 ++ w.extractLsb 6 6 ++ 0#4 := by
  refine labelled_eq w fun k hk => ?_
  simp only [BitVec.getLsbD_append, BitVec.getLsbD_extractLsb]
  interval_cases k <;>
    simp [addi16spLabels, Labels.place, List.idxOf_cons, half]

theorem lui_imm :
    labelled luiLabels (half w) 18 =
      w.extractLsb 12 12 ++ w.extractLsb 6 2 ++ 0#12 := by
  refine labelled_eq w fun k hk => ?_
  simp only [BitVec.getLsbD_append, BitVec.getLsbD_extractLsb]
  interval_cases k <;>
    simp [luiLabels, Labels.place, List.idxOf_cons, half]

theorem jump_imm :
    labelled jumpLabels (half w) 12 =
      w.extractLsb 12 12 ++ w.extractLsb 8 8 ++ w.extractLsb 10 9 ++
        w.extractLsb 6 6 ++ w.extractLsb 7 7 ++ w.extractLsb 2 2 ++
        w.extractLsb 11 11 ++ w.extractLsb 5 3 ++ 0#1 := by
  refine labelled_eq w fun k hk => ?_
  simp only [BitVec.getLsbD_append, BitVec.getLsbD_extractLsb]
  interval_cases k <;>
    simp [jumpLabels, Labels.place, List.idxOf_cons, half]

theorem branch_imm :
    labelled branchLabels (half w) 9 =
      w.extractLsb 12 12 ++ w.extractLsb 6 5 ++ w.extractLsb 2 2 ++
        w.extractLsb 11 10 ++ w.extractLsb 4 3 ++ 0#1 := by
  refine labelled_eq w fun k hk => ?_
  simp only [BitVec.getLsbD_append, BitVec.getLsbD_extractLsb]
  interval_cases k <;>
    simp [branchLabels, Labels.place, List.idxOf_cons, half]

/-! ## The signed immediates and the split ones -/

theorem signed_imm :
    signed immLabels 6 (half w) =
      sign 6 w ++ w.extractLsb 12 12 ++ w.extractLsb 6 2 := by
  apply BitVec.eq_of_getLsbD_eq
  intro k hk
  simp only [signed, shamt, sign, BitVec.getLsbD_signExtend,
    BitVec.msb_eq_getLsbD_last, BitVec.getLsbD_append,
    BitVec.getLsbD_extractLsb, BitVec.getLsbD_fill]
  interval_cases k <;> simp

theorem signed_addi16sp :
    signed addi16spLabels 10 (half w) =
      sign 3 w ++ w.extractLsb 4 3 ++ w.extractLsb 5 5 ++
        w.extractLsb 2 2 ++ w.extractLsb 6 6 ++ 0#4 := by
  apply BitVec.eq_of_getLsbD_eq
  intro k hk
  simp only [signed, addi16sp_imm, sign, BitVec.getLsbD_signExtend,
    BitVec.msb_eq_getLsbD_last, BitVec.getLsbD_append,
    BitVec.getLsbD_extractLsb, BitVec.getLsbD_fill]
  interval_cases k <;> simp

theorem signed_lui :
    ((labelled luiLabels (half w) 18).signExtend 32).extractLsb' 12 20 =
      sign 15 w ++ w.extractLsb 6 2 := by
  apply BitVec.eq_of_getLsbD_eq
  intro k hk
  simp only [lui_imm, sign, BitVec.getLsbD_extractLsb',
    BitVec.getLsbD_signExtend, BitVec.msb_eq_getLsbD_last,
    BitVec.getLsbD_append, BitVec.getLsbD_extractLsb, BitVec.getLsbD_fill]
  interval_cases k <;> simp

/-- The bits of the offset as a jump has them. -/
theorem jump_split :
    (jumpHalf (half w)).extractLsb' 19 1 ++
        (jumpHalf (half w)).extractLsb' 0 10 ++
        (jumpHalf (half w)).extractLsb' 10 1 ++
        (jumpHalf (half w)).extractLsb' 11 8 =
      w.extractLsb 12 12 ++ w.extractLsb 8 8 ++ w.extractLsb 10 9 ++
        w.extractLsb 6 6 ++ w.extractLsb 7 7 ++ w.extractLsb 2 2 ++
        w.extractLsb 11 11 ++ w.extractLsb 5 3 ++ sign 9 w := by
  apply BitVec.eq_of_getLsbD_eq
  intro k hk
  simp only [jumpHalf, jump_imm, sign, BitVec.getLsbD_extractLsb',
    BitVec.getLsbD_signExtend, BitVec.msb_eq_getLsbD_last,
    BitVec.getLsbD_append, BitVec.getLsbD_extractLsb, BitVec.getLsbD_fill]
  interval_cases k <;> simp

theorem branch_split_high :
    (branchHalf (half w)).extractLsb' 11 1 ++
        (branchHalf (half w)).extractLsb' 4 6 =
      sign 4 w ++ w.extractLsb 6 5 ++ w.extractLsb 2 2 := by
  apply BitVec.eq_of_getLsbD_eq
  intro k hk
  simp only [branchHalf, branch_imm, sign, BitVec.getLsbD_extractLsb',
    BitVec.getLsbD_signExtend, BitVec.msb_eq_getLsbD_last,
    BitVec.getLsbD_append, BitVec.getLsbD_extractLsb, BitVec.getLsbD_fill]
  interval_cases k <;> simp

theorem branch_split_low :
    (branchHalf (half w)).extractLsb' 0 4 ++
        (branchHalf (half w)).extractLsb' 10 1 =
      w.extractLsb 11 10 ++ w.extractLsb 4 3 ++ w.extractLsb 12 12 := by
  apply BitVec.eq_of_getLsbD_eq
  intro k hk
  simp only [branchHalf, branch_imm, BitVec.getLsbD_extractLsb',
    BitVec.getLsbD_signExtend, BitVec.msb_eq_getLsbD_last,
    BitVec.getLsbD_append, BitVec.getLsbD_extractLsb]
  interval_cases k <;> simp

end Immediates

/-! ## Row by row -/

/-- A quadrant of the decoder does what the table says: the expansion of the
instruction or, for a reserved one, the illegal flag. -/
def Matches (x : Instr × Bool) (b : Option Base) : Prop :=
  b.elim (x.2 = true) fun b => x = (b.encode, false)

theorem matches_some {x : Instr} {b : Base} (h : x = b.encode) :
    Matches (x, false) (some b) := by
  rw [h]
  exact rfl

/-- An instruction with a reserved operand zero, which `p` recognises. -/
theorem matches_nonzero {n : Nat} {v : BitVec n} {x : Instr} {b : Base}
    {p : Prop} [Decidable p] (hp : v = 0#n ↔ p) (h : x = b.encode) :
    Matches (x, decide p) (nonzero v b) := by
  unfold nonzero
  by_cases hv : v = 0#n
  · rw [if_pos hv]
    exact decide_eq_true (hp.mp hv)
  · rw [if_neg hv, h, decide_eq_false fun hc => hv (hp.mpr hc)]
    exact rfl

/-- A store from the two parts of its immediate. -/
theorem sType_parts {imm : BitVec 12} {hi : BitVec 7} {lo : BitVec 5}
    (h : imm = hi ++ lo) (rs2 rs1 : Reg) (funct3 : BitVec 3)
    (opcode : BitVec 7) :
    sType imm rs2 rs1 funct3 opcode =
      hi ++ rs2 ++ rs1 ++ funct3 ++ lo ++ opcode := by
  have hhi : imm.extractLsb' 5 7 = hi := by
    rw [h]
    exact (field_high (Nat.le_refl 5)).trans BitVec.extractLsb'_eq_self
  have hlo : imm.extractLsb' 0 5 = lo := by
    rw [h]
    exact (field_low (Nat.le_refl 5)).trans BitVec.extractLsb'_eq_self
  rw [sType, hhi, hlo]

section Rows

variable (w : Instr)

theorem prime_rd : Reg.prime ((half w).extractLsb' 2 3) = rdPrime w := by
  rw [half_field w (by decide)]
  rfl

theorem prime_rs1 : Reg.prime ((half w).extractLsb' 7 3) = rs1Prime w := by
  rw [half_field w (by decide)]
  rfl

theorem field_rd : (half w).extractLsb' 7 5 = crd w :=
  half_field w (by decide)

theorem field_rs2 : (half w).extractLsb' 2 5 = crs2 w :=
  half_field w (by decide)

theorem field_funct3 : (half w).extractLsb' 13 3 = w.extractLsb 15 13 :=
  half_field w (by decide)

theorem addi4spn_zero :
    unsigned addi4spnLabels (half w) = 0#12 ↔ w.extractLsb 12 5 = 0#8 := by
  rw [addi4spn_imm, ← BitVec.toNat_inj, ← BitVec.toNat_inj]
  simp only [BitField.toNat_append_add, BitVec.extractLsb_toNat,
    Nat.shiftRight_eq_div_pow, BitVec.toNat_ofNat]
  omega

theorem signExtend_eq_zero {n v : Nat} {x : BitVec n} (h : n ≤ v) :
    x.signExtend v = 0#v ↔ x = 0#n := by
  constructor
  · intro hz
    apply BitVec.eq_of_toInt_eq
    rw [← BitVec.toInt_signExtend_of_le h, hz, BitVec.toInt_zero,
      BitVec.toInt_zero]
  · rintro rfl
    apply BitVec.eq_of_toInt_eq
    rw [BitVec.toInt_signExtend_of_le h, BitVec.toInt_zero,
      BitVec.toInt_zero]

theorem addi16sp_zero :
    signed addi16spLabels 10 (half w) = 0#12 ↔
      w.extractLsb 12 12 ++ w.extractLsb 6 2 = 0#6 := by
  rw [signed, signExtend_eq_zero (by decide), addi16sp_imm,
    ← BitVec.toNat_inj, ← BitVec.toNat_inj]
  simp only [BitField.toNat_append_add, BitVec.extractLsb_toNat,
    Nat.shiftRight_eq_div_pow, BitVec.toNat_ofNat]
  omega

theorem lui_zero :
    (labelled luiLabels (half w) 18).signExtend 32 = 0#32 ↔
      w.extractLsb 12 12 ++ w.extractLsb 6 2 = 0#6 := by
  rw [signExtend_eq_zero (by decide), lui_imm, ← BitVec.toNat_inj,
    ← BitVec.toNat_inj]
  simp only [BitField.toNat_append_add, BitVec.extractLsb_toNat,
    Nat.shiftRight_eq_div_pow, BitVec.toNat_ofNat]
  omega

theorem c0_matches : Matches (c0 w) (quadrant0 (half w)) := by
  unfold c0 quadrant0
  simp only [prime_rd, prime_rs1, field_funct3]
  have hlt := (w.extractLsb 15 13).isLt
  generalize (w.extractLsb 15 13).toNat = f at hlt
  interval_cases f
  · refine matches_nonzero (addi4spn_zero w) ?_
    rw [addi4spn_imm]
    rfl
  · apply matches_some
    rw [double_imm]
    rfl
  · apply matches_some
    rw [word_imm]
    rfl
  · apply matches_some
    rw [double_imm]
    rfl
  · exact rfl
  · exact matches_some (sType_parts (double_split w) _ _ _ _).symm
  · exact matches_some (sType_parts (word_split w) _ _ _ _).symm
  · exact matches_some (sType_parts (double_split w) _ _ _ _).symm

/-- A conditional row whose other case is illegal. -/
theorem matches_ite {n : Nat} {v : BitVec n} {x y : Instr} {b : Base}
    (h : x = b.encode) :
    Matches (if v ≠ 0#n then (x, false) else (y, true)) (nonzero v b) := by
  unfold nonzero
  by_cases hv : v = 0#n
  · rw [if_pos hv, if_neg fun hc => hc hv]
    exact rfl
  · rw [if_neg hv, if_pos hv, h]
    exact rfl

/-- A shift amount below the six bits that select the shift. -/
theorem shift_imm (x : BitVec 6) :
    (x ++ (w.extractLsb 12 12 ++ w.extractLsb 6 2) : BitVec 12) =
      x ++ w.extractLsb 12 12 ++ w.extractLsb 6 2 := by
  apply BitVec.eq_of_toNat_eq
  simp only [BitField.toNat_append_add]
  omega

/-- The two bits of the source that tell SRLI from SRAI. -/
theorem shift_select {n : Nat} (hn : (w.extractLsb 11 10).toNat = n) :
    (n = 0 → 0#1 ++ w.extractLsb 10 10 ++ 0#4 = 0b000000#6) ∧
      (n = 1 → 0#1 ++ w.extractLsb 10 10 ++ 0#4 = 0b010000#6) := by
  rw [BitVec.extractLsb_toNat, Nat.shiftRight_eq_div_pow] at hn
  rw [← BitVec.toNat_inj, ← BitVec.toNat_inj]
  simp only [BitField.toNat_append_add, BitVec.extractLsb_toNat,
    Nat.shiftRight_eq_div_pow, BitVec.toNat_ofNat]
  omega

theorem bit12 : (w.extractLsb 12 12).toNat = (w.getLsbD 12).toNat := by
  rw [BitVec.extractLsb_toNat, Nat.shiftRight_eq_div_pow]
  exact (Nat.toNat_testBit _ _).symm

/-- The selector of the register-register instructions is bit 12 and the
bits 6 and 5. -/
theorem regReg_select :
    (w.extractLsb 12 12 ++ w.extractLsb 6 5).toNat =
      (if w.getLsbD 12 then 4 else 0) + (w.extractLsb 6 5).toNat := by
  rw [BitField.toNat_append_add, bit12]
  cases w.getLsbD 12 <;> rfl

theorem c1MiscAlu_matches : Matches (c1MiscAlu w) (miscAlu (half w)) := by
  have hfunct : (half w).extractLsb' 10 2 = w.extractLsb 11 10 :=
    half_field w (by decide)
  have hsel : (half w).extractLsb' 5 2 = w.extractLsb 6 5 :=
    half_field w (by decide)
  unfold c1MiscAlu miscAlu
  simp only [prime_rs1, prime_rd, hfunct, hsel, half_bit w (k := 12) (by decide)]
  have hlt := (w.extractLsb 11 10).isLt
  generalize hf : (w.extractLsb 11 10).toNat = f at hlt
  interval_cases f
  · apply matches_some
    rw [(shift_select w hf).1 rfl, ← shift_imm, shamt]
    rfl
  · apply matches_some
    rw [(shift_select w hf).2 rfl, ← shift_imm, shamt]
    rfl
  · apply matches_some
    rw [signed_imm]
    rfl
  · have hsel := (w.extractLsb 6 5).isLt
    have hregs := regReg_select w
    unfold c1RegReg
    generalize (w.extractLsb 12 12 ++ w.extractLsb 6 5).toNat = r at hregs
    generalize (w.extractLsb 6 5).toNat = g at hsel hregs
    cases hbit : w.getLsbD 12 with
    | false =>
      rw [hbit, if_neg Bool.false_ne_true, Nat.zero_add] at hregs
      subst hregs
      interval_cases r
      · exact matches_some rfl
      · exact matches_some rfl
      · exact matches_some rfl
      · exact matches_some rfl
    | true =>
      rw [hbit, if_pos rfl] at hregs
      subst hregs
      interval_cases g
      · exact matches_some rfl
      · exact matches_some rfl
      · exact rfl
      · exact rfl

/-- The link register of C.J is `x0`. -/
theorem jump_rd (hf : w.toNat / 2 ^ 13 % 2 ^ 3 = 5) :
    0#4 ++ ~~~ w.extractLsb 15 15 = 0#5 := by
  rw [← BitVec.toNat_inj]
  simp only [BitField.toNat_append_add, BitVec.extractLsb_toNat,
    Nat.shiftRight_eq_div_pow, BitVec.toNat_ofNat, BitVec.toNat_not]
  omega

/-- Bit 13 tells BEQ from BNE. -/
theorem branch_funct3 {n : Nat} (hf : w.toNat / 2 ^ 13 % 2 ^ 3 = n) :
    (n = 6 → 0b00#2 ++ w.extractLsb 13 13 = 0b000#3) ∧
      (n = 7 → 0b00#2 ++ w.extractLsb 13 13 = 0b001#3) := by
  rw [← BitVec.toNat_inj, ← BitVec.toNat_inj]
  simp only [BitField.toNat_append_add, BitVec.extractLsb_toNat,
    Nat.shiftRight_eq_div_pow, BitVec.toNat_ofNat]
  omega

theorem c1_matches : Matches (c1 w) (quadrant1 (half w)) := by
  unfold c1 quadrant1
  simp only [prime_rs1, field_rd, field_funct3]
  have hb : (w.extractLsb 15 13).toNat = w.toNat / 2 ^ 13 % 2 ^ 3 := by
    rw [BitVec.extractLsb_toNat, Nat.shiftRight_eq_div_pow]
  have hlt := (w.extractLsb 15 13).isLt
  generalize (w.extractLsb 15 13).toNat = f at hb hlt
  interval_cases f
  · apply matches_some
    rw [signed_imm]
    rfl
  · apply matches_ite
    rw [signed_imm]
    rfl
  · apply matches_some
    rw [signed_imm]
    rfl
  · by_cases hrd : crd w = 2#5
    · simp only [if_pos hrd]
      refine matches_nonzero (addi16sp_zero w) ?_
      rw [signed_addi16sp]
      rfl
    · simp only [if_neg hrd]
      refine matches_nonzero (lui_zero w) ?_
      rw [signed_lui]
      rfl
  · exact c1MiscAlu_matches w
  · apply matches_some
    rw [jump_rd w hb.symm, ← jump_split]
    rfl
  · apply matches_some
    rw [(branch_funct3 w hb.symm).1 rfl, ← branch_split_high,
      ← branch_split_low]
    rfl
  · apply matches_some
    rw [(branch_funct3 w hb.symm).2 rfl, ← branch_split_high,
      ← branch_split_low]
    rfl

theorem c2JalrMvAdd_matches :
    Matches (c2JalrMvAdd w) (jumpOrMove (half w)) := by
  have hbit : w.extractLsb 12 12 = 0#1 ↔ w.getLsbD 12 = false := by
    rw [← BitVec.toNat_inj, bit12]
    cases w.getLsbD 12 <;> decide
  unfold c2JalrMvAdd jumpOrMove
  simp only [field_rd, field_rs2, half_bit w (k := 12) (by decide), hbit]
  cases w.getLsbD 12 with
  | false =>
    rw [if_pos rfl, if_neg Bool.false_ne_true]
    by_cases hrs2 : crs2 w = 0#5
    · rw [if_pos hrs2, if_pos hrs2]
      exact matches_nonzero Iff.rfl rfl
    · rw [if_neg hrs2, if_neg hrs2]
      exact matches_some rfl
  | true =>
    rw [if_neg (by decide), if_pos rfl]
    by_cases hrs2 : crs2 w = 0#5
    · rw [if_pos hrs2]
      by_cases hrd : crd w = 0#5
      · rw [if_pos ⟨hrd, hrs2⟩, if_pos hrd]
        exact matches_some rfl
      · rw [if_neg fun hc => hrd hc.1, if_pos ⟨hrd, hrs2⟩, if_neg hrd]
        exact matches_some rfl
    · rw [if_neg fun hc => hrs2 hc.2, if_neg fun hc => hrs2 hc.2,
        if_neg hrs2]
      exact matches_some rfl

theorem c2_matches : Matches (c2 w) (quadrant2 (half w)) := by
  unfold c2 quadrant2
  simp only [field_rd, field_rs2, field_funct3]
  have hlt := (w.extractLsb 15 13).isLt
  generalize (w.extractLsb 15 13).toNat = f at hlt
  interval_cases f
  · apply matches_some
    rw [← shift_imm, ← shamt]
    rfl
  · apply matches_some
    rw [ldsp_imm]
    rfl
  · refine matches_nonzero Iff.rfl ?_
    rw [lwsp_imm]
    rfl
  · refine matches_nonzero Iff.rfl ?_
    rw [ldsp_imm]
    rfl
  · exact c2JalrMvAdd_matches w
  · exact matches_some (sType_parts (sdsp_split w) _ _ _ _).symm
  · exact matches_some (sType_parts (swsp_split w) _ _ _ _).symm
  · exact matches_some (sType_parts (sdsp_split w) _ _ _ _).symm

/-- The module against the tables. -/
theorem compressedDecoder_matches (hq : w.extractLsb 1 0 ≠ 3#2) :
    (compressedDecoder w).isCompressed = true ∧
      (rvc (half w)).elim
        ((compressedDecoder w).illegalInstr = true)
        fun b => (compressedDecoder w).illegalInstr = false ∧
          (compressedDecoder w).instr = b.encode := by
  have hquad : (half w).extractLsb' 0 2 = w.extractLsb 1 0 :=
    half_field w (by decide)
  have hof : ∀ (x : Instr × Bool) (o : Option Base), Matches x o →
      (Expanded.ofQuadrant w x).isCompressed = true ∧
        o.elim ((Expanded.ofQuadrant w x).illegalInstr = true)
          fun b => (Expanded.ofQuadrant w x).illegalInstr = false ∧
            (Expanded.ofQuadrant w x).instr = b.encode := by
    intro x o hm
    refine ⟨rfl, ?_⟩
    cases o with
    | none => exact hm
    | some b =>
      have hx : x = (b.encode, false) := hm
      rw [hx]
      exact ⟨rfl, rfl⟩
  have hlt := (w.extractLsb 1 0).isLt
  unfold compressedDecoder rvc
  rw [hquad]
  generalize hn : (w.extractLsb 1 0).toNat = n at hlt
  interval_cases n
  · exact hof _ _ (c0_matches w)
  · exact hof _ _ (c1_matches w)
  · exact hof _ _ (c2_matches w)
  · exact absurd (BitVec.eq_of_toNat_eq hn) hq

end Rows

end ArianeSoc.Decoder
