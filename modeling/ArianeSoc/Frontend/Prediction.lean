import ArianeSoc.Decoder.Expansion
import ArianeSoc.Frontend.Frontend

/-!
# What the front end foretells

`instr_scan.sv` and the control flow speculation of `frontend.sv`.  The
scanner recognises the branches and jumps of a packet before they are
decoded, compressed or not; `predict` chooses a target for each place, and
the lowest place that is predicted taken has the last word.  What the
predictors say is an input.

* `Scanned` compares the scanner with the decoder behind the expansion.
* `Foretold` is what holds of every item that the queue is offered: the
  target of a branch or of a jump to an immediate is computed, and nothing
  else is predicted taken but a jump to a register.
-/

namespace ArianeSoc.Frontend

open Decoder (OpcodeBranch OpcodeJalr OpcodeJal)

/-! ## The scanner -/

abbrev OpcodeC1 : BitVec 2 := 0b01#2
abbrev OpcodeC1J : BitVec 3 := 0b101#3
abbrev OpcodeC1Beqz : BitVec 3 := 0b110#3
abbrev OpcodeC1Bnez : BitVec 3 := 0b111#3
abbrev OpcodeC2 : BitVec 2 := 0b10#2
abbrev OpcodeC2JalrMvAdd : BitVec 3 := 0b100#3

section Scanner

variable (w : BitVec 32)

/-- `uj_imm` -/
def ujImm : BitVec 64 :=
  BitVec.fill 44 (w.getLsbD 31) ++ w.extractLsb 19 12 ++ w.extractLsb 20 20 ++
    w.extractLsb 30 21 ++ 0#1

/-- `sb_imm` -/
def sbImm : BitVec 64 :=
  BitVec.fill 51 (w.getLsbD 31) ++ w.extractLsb 31 31 ++ w.extractLsb 7 7 ++
    w.extractLsb 30 25 ++ w.extractLsb 11 8 ++ 0#1

namespace InstrScan

def isRvc : Bool := w.extractLsb 1 0 != 3#2

/-- The link registers. -/
def isLink (r : BitVec 5) : Bool := r == 1#5 || r == 5#5

def rviBranchO : Bool := w.extractLsb 6 0 == OpcodeBranch

def rviJalrO : Bool := w.extractLsb 6 0 == OpcodeJalr

def rviJumpO : Bool := w.extractLsb 6 0 == OpcodeJal

def rviReturnO : Bool :=
  rviJalrO w && isLink (w.extractLsb 19 15) &&
    w.extractLsb 19 15 != w.extractLsb 11 7

def rviCallO : Bool :=
  (rviJalrO w || rviJumpO w) && isLink (w.extractLsb 11 7)

def rviImmO : BitVec 64 := if w.getLsbD 3 then ujImm w else sbImm w

def rvcJumpO : Bool :=
  w.extractLsb 15 13 == OpcodeC1J && isRvc w && w.extractLsb 1 0 == OpcodeC1

def isJalR : Bool :=
  w.extractLsb 15 13 == OpcodeC2JalrMvAdd && w.extractLsb 6 2 == 0#5 &&
    w.extractLsb 1 0 == OpcodeC2 && isRvc w

def rvcJrO : Bool := isJalR w && !w.getLsbD 12

def rvcJalrO : Bool := isJalR w && w.getLsbD 12

def rvcCallO : Bool := rvcJalrO w

def rvcBranchO : Bool :=
  (w.extractLsb 15 13 == OpcodeC1Beqz || w.extractLsb 15 13 == OpcodeC1Bnez) &&
    w.extractLsb 1 0 == OpcodeC1 && isRvc w

def rvcReturnO : Bool := isLink (w.extractLsb 11 7) && rvcJrO w

def rvcImmO : BitVec 64 :=
  if w.getLsbD 14 then
    BitVec.fill 56 (w.getLsbD 12) ++ w.extractLsb 6 5 ++ w.extractLsb 2 2 ++
      w.extractLsb 11 10 ++ w.extractLsb 4 3 ++ 0#1
  else
    BitVec.fill 53 (w.getLsbD 12) ++ w.extractLsb 8 8 ++ w.extractLsb 10 9 ++
      w.extractLsb 6 6 ++ w.extractLsb 7 7 ++ w.extractLsb 2 2 ++
      w.extractLsb 11 11 ++ w.extractLsb 5 3 ++ 0#1

end InstrScan

end Scanner

/-! ## The scanner against the decoder -/

section Scanned

open Decoder InstrFormat InstrScan

variable {w : BitVec 32}

theorem ujImm_eq : ujImm w = immediate w .JIMM := by
  refine BitVec.eq_of_getLsbD_eq fun k hk => ?_
  simp only [ujImm, immediate, BitVec.getLsbD_signExtend,
    BitVec.msb_eq_getLsbD_last, BitVec.getLsbD_append,
    BitVec.getLsbD_extractLsb, BitVec.getLsbD_extractLsb',
    BitVec.getLsbD_fill]
  interval_cases k <;> simp

theorem sbImm_eq : sbImm w = immediate w .SBIMM := by
  refine BitVec.eq_of_getLsbD_eq fun k hk => ?_
  simp only [sbImm, immediate, BitVec.getLsbD_signExtend,
    BitVec.msb_eq_getLsbD_last, BitVec.getLsbD_append,
    BitVec.getLsbD_extractLsb, BitVec.getLsbD_extractLsb',
    BitVec.getLsbD_fill]
  interval_cases k <;> simp

theorem rvcImm_jump (h : w.getLsbD 14 = false) :
    rvcImmO w = (jumpHalf (half w) ++ 0#1).signExtend 64 := by
  rw [rvcImmO, if_neg (Bool.eq_false_iff.mp h)]
  refine BitVec.eq_of_getLsbD_eq fun k hk => ?_
  simp only [jumpHalf, jump_imm, BitVec.getLsbD_signExtend,
    BitVec.msb_eq_getLsbD_last, BitVec.getLsbD_append,
    BitVec.getLsbD_extractLsb, BitVec.getLsbD_extractLsb',
    BitVec.getLsbD_fill]
  interval_cases k <;> simp

theorem rvcImm_branch (h : w.getLsbD 14 = true) :
    rvcImmO w = (branchHalf (half w) ++ 0#1).signExtend 64 := by
  rw [rvcImmO, if_pos h]
  refine BitVec.eq_of_getLsbD_eq fun k hk => ?_
  simp only [branchHalf, branch_imm, BitVec.getLsbD_signExtend,
    BitVec.msb_eq_getLsbD_last, BitVec.getLsbD_append,
    BitVec.getLsbD_extractLsb, BitVec.getLsbD_extractLsb',
    BitVec.getLsbD_fill]
  interval_cases k <;> simp

/-! ### The expansions -/

/-- Neither a branch nor a jump. -/
def plain : Base → Bool
  | .branch .. | .jal .. | .jalr .. => false
  | _ => true

/-- The opcodes that change the control flow. -/
def flowOpcodes : List (BitVec 7) := [OpcodeBranch, OpcodeJal, OpcodeJalr]

theorem opcode_plain {b : Base} (h : plain b = true) :
    opcode b.encode ∉ flowOpcodes := by
  have hi : ∀ {imm rs1 f3 rd op},
      opcode (iType imm rs1 f3 rd op) = op := iType_fields.1
  have hr : ∀ {f7 rs2 rs1 f3 rd op},
      opcode (rType f7 rs2 rs1 f3 rd op) = op := rType_fields.1
  have hs : ∀ {imm rs2 rs1 f3 op},
      opcode (sType imm rs2 rs1 f3 op) = op := sType_fields.1
  have hu : ∀ {imm rd op}, opcode (uType imm rd op) = op := uType_fields.1
  cases b with
  | branch => cases h
  | jal => cases h
  | jalr => cases h
  | lui => rw [Base.encode, hu]; decide
  | ebreak => rw [Base.encode, hi]; decide
  | imm op => cases op <;> rw [Base.encode, hi] <;> decide
  | shift op => cases op <;> rw [Base.encode, hi] <;> decide
  | reg op => cases op <;> rw [Base.encode, hr] <;> decide
  | load op => cases op <;> rw [Base.encode, hi] <;> decide
  | store op => cases op <;> rw [Base.encode, hs] <;> decide

theorem nonzero_eq {n : ℕ} {x : BitVec n} {b b' : Base}
    (h : nonzero x b = some b') : b = b' := by
  unfold nonzero at h
  split_ifs at h
  exact Option.some.inj h

variable {h : BitVec 16} {b : Base}

theorem plain_quadrant0 (hb : quadrant0 h = some b) : plain b = true := by
  unfold quadrant0 at hb
  dsimp only at hb
  split at hb <;>
    first
      | (cases nonzero_eq hb; rfl)
      | (cases hb <;> rfl)

theorem plain_miscAlu (hb : miscAlu h = some b) : plain b = true := by
  unfold miscAlu at hb
  dsimp only at hb
  split at hb <;> cases hb <;> rfl

/-- A quadrant whose jumps and branches have their own rows. -/
theorem quadrant1_cases (hb : quadrant1 h = some b) :
    ((h.extractLsb' 13 3).toNat < 5 ∧ plain b = true) ∨
      ((h.extractLsb' 13 3).toNat = 5 ∧ b = .jal 0#5 (jumpHalf h)) ∨
        (6 ≤ (h.extractLsb' 13 3).toNat ∧
          ∃ op rs1, b = .branch op rs1 0#5 (branchHalf h)) := by
  unfold quadrant1 at hb
  dsimp only at hb
  have hlt := (h.extractLsb' 13 3).isLt
  generalize (h.extractLsb' 13 3).toNat = f at hb hlt ⊢
  interval_cases f
  · cases hb
    exact Or.inl ⟨by omega, rfl⟩
  · cases nonzero_eq hb
    exact Or.inl ⟨by omega, rfl⟩
  · cases hb
    exact Or.inl ⟨by omega, rfl⟩
  · refine Or.inl ⟨by omega, ?_⟩
    split_ifs at hb <;> cases nonzero_eq hb <;> rfl
  · exact Or.inl ⟨by omega, plain_miscAlu hb⟩
  · cases hb
    exact Or.inr (Or.inl ⟨rfl, rfl⟩)
  · cases hb
    exact Or.inr (Or.inr ⟨by omega, _, _, rfl⟩)
  · cases hb
    exact Or.inr (Or.inr ⟨by omega, _, _, rfl⟩)

/-- A jump to a register, or an instruction that does not jump. -/
theorem quadrant2_cases (hb : quadrant2 h = some b) :
    ((h.extractLsb' 13 3).toNat = 4 ∧ h.extractLsb' 2 5 = 0#5 ∧
      ∃ rd rs1, b = .jalr rd rs1 0#12) ∨
      (plain b = true ∧ ((h.extractLsb' 13 3).toNat = 4 →
        h.extractLsb' 2 5 = 0#5 → h.getLsbD 12 = true)) := by
  unfold quadrant2 at hb
  dsimp only at hb
  have hlt := (h.extractLsb' 13 3).isLt
  generalize (h.extractLsb' 13 3).toNat = f at hb hlt ⊢
  interval_cases f
  case «4» =>
    unfold jumpOrMove at hb
    dsimp only at hb
    split_ifs at hb with h12 hrs2 hrd hrs2
    · cases hb
      exact Or.inr ⟨rfl, fun _ _ => h12⟩
    · cases hb
      exact Or.inl ⟨rfl, hrs2, _, _, rfl⟩
    · cases hb
      exact Or.inr ⟨rfl, fun _ hz => absurd hz hrs2⟩
    · cases nonzero_eq hb
      exact Or.inl ⟨rfl, hrs2, _, _, rfl⟩
    · cases hb
      exact Or.inr ⟨rfl, fun _ hz => absurd hz hrs2⟩
  all_goals
    refine Or.inr ⟨?_, fun hf => absurd hf (by decide)⟩
    first
      | (cases nonzero_eq hb; rfl)
      | (cases hb; rfl)

/-! ### The words -/

/-- What the scanner says of the fetched word `w`, whose expansion is
`e`. -/
structure Scanned (w e : BitVec 32) : Prop where
  branch : (rviBranchO w || rvcBranchO w) = decide (opcode e = OpcodeBranch)
  jump : (rviJumpO w || rvcJumpO w) = decide (opcode e = OpcodeJal)
  jalr : (rviJalrO w || rvcJrO w) = true → opcode e = OpcodeJalr
  rviBranch : rviBranchO w = true → rviImmO w = immediate e .SBIMM
  rvcBranch : rvcBranchO w = true → rvcImmO w = immediate e .SBIMM
  rviJump : rviJumpO w = true → rviImmO w = immediate e .JIMM
  rvcJump : rvcJumpO w = true → rvcImmO w = immediate e .JIMM

/-- The scanner looks at the opcode of a whole instruction. -/
theorem scanned_whole (hq : w.extractLsb 1 0 = 3#2) : Scanned w w := by
  have hno : isRvc w = false := by
    rw [isRvc, hq]
    rfl
  have hbranch : rvcBranchO w = false := by
    rw [rvcBranchO, hno, Bool.and_false]
  have hjump : rvcJumpO w = false := by
    rw [rvcJumpO, hno, Bool.and_false, Bool.false_and]
  have hjr : rvcJrO w = false := by
    rw [rvcJrO, isJalR, hno, Bool.and_false, Bool.false_and]
  have hbit : w.getLsbD 3 = (opcode w).getLsbD 3 := by
    rw [opcode, BitVec.getLsbD_extractLsb']
    rfl
  have hop : ∀ {op : BitVec 7}, (w.extractLsb 6 0 == op) = true →
      opcode w = op := fun h => beq_iff_eq.mp h
  refine ⟨?_, ?_, ?_, fun ho => ?_, fun hc => ?_, fun ho => ?_, fun hc => ?_⟩
  · rw [hbranch, Bool.or_false]
    rfl
  · rw [hjump, Bool.or_false]
    rfl
  · rw [hjr, Bool.or_false]
    exact hop
  · rw [rviImmO, hbit, hop ho, ← sbImm_eq]
    rfl
  · rw [hbranch] at hc
    exact absurd hc Bool.false_ne_true
  · rw [rviImmO, hbit, hop ho, ← ujImm_eq]
    rfl
  · rw [hjump] at hc
    exact absurd hc Bool.false_ne_true

/-- Bits that the scanner of whole instructions looks for are not there. -/
theorem rvi_of_rvc (hq : w.extractLsb 1 0 ≠ 3#2) :
    rviBranchO w = false ∧ rviJumpO w = false ∧ rviJalrO w = false := by
  have hlow : (w.extractLsb 6 0).extractLsb 1 0 = w.extractLsb 1 0 := by
    refine BitVec.eq_of_getLsbD_eq fun k hk => ?_
    simp only [BitVec.getLsbD_extractLsb]
    interval_cases k <;> simp
  have hne : ∀ op : BitVec 7, op.extractLsb 1 0 = 3#2 →
      (w.extractLsb 6 0 == op) = false := by
    intro op hop
    rw [beq_eq_false_iff_ne]
    rintro rfl
    exact hq (hlow.symm.trans hop)
  exact ⟨hne _ rfl, hne _ rfl, hne _ rfl⟩

theorem scanned_compressed {e : BitVec 32} (hq : w.extractLsb 1 0 ≠ 3#2)
    (hbranch : rvcBranchO w = decide (opcode e = OpcodeBranch))
    (hjump : rvcJumpO w = decide (opcode e = OpcodeJal))
    (hjr : rvcJrO w = true → opcode e = OpcodeJalr)
    (hbimm : rvcBranchO w = true → rvcImmO w = immediate e .SBIMM)
    (hjimm : rvcJumpO w = true → rvcImmO w = immediate e .JIMM) :
    Scanned w e := by
  obtain ⟨hb, hj, hr⟩ := rvi_of_rvc hq
  refine ⟨?_, ?_, ?_, fun h => ?_, hbimm, fun h => ?_, hjimm⟩
  · rw [hb, Bool.false_or, hbranch]
  · rw [hj, Bool.false_or, hjump]
  · rw [hr, Bool.false_or]
    exact hjr
  · rw [hb] at h
    exact absurd h Bool.false_ne_true
  · rw [hj] at h
    exact absurd h Bool.false_ne_true

/-- A word that is expanded to an instruction which does not jump. -/
theorem scanned_plain (hq : w.extractLsb 1 0 ≠ 3#2) {b : Base}
    (hp : plain b = true) (hbranch : rvcBranchO w = false)
    (hjump : rvcJumpO w = false) (hjr : rvcJrO w = false) :
    Scanned w b.encode := by
  have hno := opcode_plain hp
  simp only [flowOpcodes, List.mem_cons, List.not_mem_nil, or_false,
    not_or] at hno
  obtain ⟨h1, h2, -⟩ := hno
  refine scanned_compressed hq ?_ ?_ (fun h => ?_) (fun h => ?_)
    (fun h => ?_)
  · rw [hbranch, decide_eq_false h1]
  · rw [hjump, decide_eq_false h2]
  · rw [hjr] at h
    exact absurd h Bool.false_ne_true
  · rw [hbranch] at h
    exact absurd h Bool.false_ne_true
  · rw [hjump] at h
    exact absurd h Bool.false_ne_true

/-- Branches and jumps to an immediate are in the second quadrant. -/
theorem not_quadrant1 (hq : w.extractLsb 1 0 ≠ OpcodeC1) :
    rvcBranchO w = false ∧ rvcJumpO w = false := by
  have hne := beq_eq_false_iff_ne.mpr hq
  constructor
  · rw [rvcBranchO, hne, Bool.and_false, Bool.false_and]
  · rw [rvcJumpO, hne, Bool.and_false]

/-- Jumps to a register are in the third one. -/
theorem not_quadrant2 (hq : w.extractLsb 1 0 ≠ OpcodeC2) :
    rvcJrO w = false := by
  rw [rvcJrO, isJalR, beq_eq_false_iff_ne.mpr hq, Bool.and_false,
    Bool.false_and, Bool.false_and]

/-- A compressed jump. -/
theorem scanned_jal (hq : w.extractLsb 1 0 = OpcodeC1)
    (hf : w.extractLsb 15 13 = OpcodeC1J) :
    Scanned w (Base.jal 0#5 (jumpHalf (half w))).encode := by
  have hfields := @jType_fields 0#5 OpcodeJal (jumpHalf (half w))
  have hop : opcode (Base.jal 0#5 (jumpHalf (half w))).encode = OpcodeJal :=
    hfields.1
  have hbranch : rvcBranchO w = false := by
    rw [rvcBranchO, hf]
    rfl
  have hjump : rvcJumpO w = true := by
    rw [rvcJumpO, isRvc, hf, hq]
    rfl
  have h14 : w.getLsbD 14 = (w.extractLsb 15 13).getLsbD 1 := by
    rw [BitVec.getLsbD_extractLsb]
    simp
  refine scanned_compressed (by rw [hq]; decide) ?_ ?_ (fun h => ?_)
    (fun h => ?_) (fun _ => ?_)
  · rw [hbranch, hop]
    rfl
  · rw [hjump, hop]
    rfl
  · rw [not_quadrant2 (by rw [hq]; decide)] at h
    exact absurd h Bool.false_ne_true
  · rw [hbranch] at h
    exact absurd h Bool.false_ne_true
  · rw [rvcImm_jump (by rw [h14, hf]; rfl)]
    exact congrArg (fun x : BitVec 20 => (x ++ 0#1).signExtend 64)
      hfields.2.2.symm

/-- A compressed branch. -/
theorem scanned_branch (hq : w.extractLsb 1 0 = OpcodeC1)
    (hf : w.extractLsb 15 13 = OpcodeC1Beqz ∨
      w.extractLsb 15 13 = OpcodeC1Bnez) (op : BranchOp)
    (rs1 : InstrFormat.Reg) :
    Scanned w (Base.branch op rs1 0#5 (branchHalf (half w))).encode := by
  have hfields : opcode (Base.branch op rs1 0#5
        (branchHalf (half w))).encode = OpcodeBranch ∧
      immediate (Base.branch op rs1 0#5 (branchHalf (half w))).encode .SBIMM =
        (branchHalf (half w) ++ 0#1).signExtend 64 := by
    cases op
    all_goals
      rw [Base.encode]
      exact ⟨bType_fields.1, congrArg
        (fun x : BitVec 12 => (x ++ 0#1).signExtend 64)
        bType_fields.2.2.2.2⟩
  obtain ⟨hop, himm⟩ := hfields
  have hbranch : rvcBranchO w = true := by
    rw [rvcBranchO, isRvc, hq]
    rcases hf with hf | hf <;> rw [hf] <;> rfl
  have hjump : rvcJumpO w = false := by
    rw [rvcJumpO]
    rcases hf with hf | hf <;> rw [hf] <;> rfl
  have h14 : w.getLsbD 14 = (w.extractLsb 15 13).getLsbD 1 := by
    rw [BitVec.getLsbD_extractLsb]
    simp
  refine scanned_compressed (by rw [hq]; decide) ?_ ?_ (fun h => ?_)
    (fun _ => ?_) (fun h => ?_)
  · rw [hbranch, hop]
    rfl
  · rw [hjump, hop]
    rfl
  · rw [not_quadrant2 (by rw [hq]; decide)] at h
    exact absurd h Bool.false_ne_true
  · rw [himm, rvcImm_branch]
    rcases hf with hf | hf <;> rw [h14, hf] <;> rfl
  · rw [hjump] at h
    exact absurd h Bool.false_ne_true

/-- A compressed jump to a register. -/
theorem scanned_jalr (hq : w.extractLsb 1 0 = OpcodeC2)
    (rd rs1 : InstrFormat.Reg) :
    Scanned w (Base.jalr rd rs1 0#12).encode := by
  have hop : opcode (Base.jalr rd rs1 0#12).encode = OpcodeJalr :=
    iType_fields.1
  obtain ⟨hbranch, hjump⟩ := not_quadrant1 (w := w) (by rw [hq]; decide)
  refine scanned_compressed (by rw [hq]; decide) ?_ ?_ (fun _ => hop)
    (fun h => ?_) (fun h => ?_)
  · rw [hbranch, hop]
    rfl
  · rw [hjump, hop]
    rfl
  · rw [hbranch] at h
    exact absurd h Bool.false_ne_true
  · rw [hjump] at h
    exact absurd h Bool.false_ne_true

theorem funct3_ne {f : BitVec 3} (h : (w.extractLsb 15 13).toNat ≠ f.toNat) :
    (w.extractLsb 15 13 == f) = false := by
  rw [beq_eq_false_iff_ne]
  exact fun heq => h (congrArg BitVec.toNat heq)

theorem scanned_quadrant1 (hq : w.extractLsb 1 0 = OpcodeC1)
    (hb : quadrant1 (half w) = some b) : Scanned w b.encode := by
  have hcases := quadrant1_cases hb
  rw [field_funct3] at hcases
  rcases hcases with ⟨hlt, hp⟩ | ⟨hf, rfl⟩ | ⟨hle, op, rs1, rfl⟩
  · refine scanned_plain (by rw [hq]; decide) hp ?_ ?_ ?_
    · have h6 : (w.extractLsb 15 13).toNat ≠ OpcodeC1Beqz.toNat := by
        show _ ≠ 6
        omega
      have h7 : (w.extractLsb 15 13).toNat ≠ OpcodeC1Bnez.toNat := by
        show _ ≠ 7
        omega
      rw [rvcBranchO, funct3_ne h6, funct3_ne h7]
      rfl
    · have h5 : (w.extractLsb 15 13).toNat ≠ OpcodeC1J.toNat := by
        show _ ≠ 5
        omega
      rw [rvcJumpO, funct3_ne h5]
      rfl
    · exact not_quadrant2 (by rw [hq]; decide)
  · exact scanned_jal hq (BitVec.eq_of_toNat_eq hf)
  · refine scanned_branch hq ?_ op rs1
    have hlt := (w.extractLsb 15 13).isLt
    have hcase : (w.extractLsb 15 13).toNat = 6 ∨
        (w.extractLsb 15 13).toNat = 7 := by omega
    exact hcase.imp BitVec.eq_of_toNat_eq BitVec.eq_of_toNat_eq

theorem scanned_quadrant2 (hq : w.extractLsb 1 0 = OpcodeC2)
    (hb : quadrant2 (half w) = some b) : Scanned w b.encode := by
  have hcases := quadrant2_cases hb
  rw [field_funct3, field_rs2, half_bit w (by decide)] at hcases
  rcases hcases with ⟨-, -, rd, rs1, rfl⟩ | ⟨hp, h12⟩
  · exact scanned_jalr hq rd rs1
  · obtain ⟨hbranch, hjump⟩ := not_quadrant1 (w := w) (by rw [hq]; decide)
    refine scanned_plain (by rw [hq]; decide) hp hbranch hjump ?_
    rw [rvcJrO, Bool.and_eq_false_iff, or_iff_not_imp_left]
    intro hjr
    rw [Bool.not_eq_false, isJalR, Bool.and_eq_true, Bool.and_eq_true,
      Bool.and_eq_true, beq_iff_eq, beq_iff_eq] at hjr
    obtain ⟨⟨⟨hf, hrs2⟩, -⟩, -⟩ := hjr
    rw [h12 (congrArg BitVec.toNat hf) hrs2]
    rfl

/-- The scanner recognises the branches and jumps of legal instructions, and
reads their offsets. -/
theorem scanned (hl : (compressedDecoder w).illegalInstr = false) :
    Scanned w (compressedDecoder w).instr := by
  by_cases hq : w.extractLsb 1 0 = 3#2
  · have hsame : (compressedDecoder w).instr = w := by
      rw [compressedDecoder, hq]
      rfl
    rw [hsame]
    exact scanned_whole hq
  · obtain ⟨-, hmatch⟩ := compressedDecoder_matches w hq
    cases hb : rvc (half w) with
    | none =>
      rw [hb] at hmatch
      have hill : (compressedDecoder w).illegalInstr = true := hmatch
      rw [hl] at hill
      exact absurd hill Bool.false_ne_true
    | some b =>
      rw [hb] at hmatch
      rw [hmatch.2]
      have hquad : (half w).extractLsb' 0 2 = w.extractLsb 1 0 :=
        half_field w (by decide)
      unfold rvc at hb
      rw [hquad] at hb
      have hlt := (w.extractLsb 1 0).isLt
      have hn : ∀ n : ℕ, n < 4 → (w.extractLsb 1 0).toNat = n →
          w.extractLsb 1 0 = BitVec.ofNat 2 n := by
        intro n hn h
        refine BitVec.eq_of_toNat_eq ?_
        rw [h, BitVec.toNat_ofNat, Nat.mod_eq_of_lt hn]
      generalize hv : (w.extractLsb 1 0).toNat = n at hlt hb
      have heq := hn n hlt hv
      interval_cases n
      · obtain ⟨hbranch, hjump⟩ :=
          not_quadrant1 (w := w) (by rw [heq]; decide)
        exact scanned_plain hq (plain_quadrant0 hb) hbranch hjump
          (not_quadrant2 (by rw [heq]; decide))
      · exact scanned_quadrant1 heq hb
      · exact scanned_quadrant2 heq hb
      · cases hb

end Scanned

/-! ## The control flow speculation -/

/-- `bht_prediction_t` -/
structure BhtPrediction where
  valid : Bool
  taken : Bool

/-- `btb_prediction_t` -/
structure BtbPrediction where
  valid : Bool
  targetAddress : BitVec 64

/-- What the predictors say: of the two places, as they are shifted, and of
the last return address. -/
structure Predictors where
  bht : BitVec 1 → BhtPrediction
  btb : BitVec 1 → BtbPrediction
  ra : BitVec 64

/-- What the `case` statement assigns for one place, with its defaults. -/
structure Choice where
  takenRviCf : Bool := false
  takenRvcCf : Bool := false
  cf : Cf := .NoCF
  target : Option (BitVec 64) := none

section Speculation

open InstrScan

variable (s : State) (p : Predictors) (k : BitVec 1)

def isBranch : Bool :=
  (slot s k).valid &&
    (rviBranchO (slot s k).instr || rvcBranchO (slot s k).instr)

def isCall : Bool :=
  (slot s k).valid &&
    (rviCallO (slot s k).instr || rvcCallO (slot s k).instr)

def isReturn : Bool :=
  (slot s k).valid &&
    (rviReturnO (slot s k).instr || rvcReturnO (slot s k).instr)

def isJump : Bool :=
  (slot s k).valid &&
    (rviJumpO (slot s k).instr || rvcJumpO (slot s k).instr)

def isJalr : Bool :=
  (slot s k).valid && !isReturn s k && !isCall s k &&
    (rviJalrO (slot s k).instr || rvcJalrO (slot s k).instr ||
      rvcJrO (slot s k).instr)

/-- The prediction of a branch: dynamic, else by the sign of its offset. -/
def branchTaken (imm : BitVec 64) : Bool :=
  if (p.bht k).valid then (p.bht k).taken else imm.getLsbD 63

def choice : Choice :=
  let w := (slot s k).instr
  match isBranch s k, isReturn s k, isJump s k, isJalr s k with
  | false, false, false, true =>
    if (p.btb k).valid then
      { cf := .JumpR, target := some (p.btb k).targetAddress }
    else {}
  | false, false, true, false =>
    { takenRviCf := rviJumpO w, takenRvcCf := rvcJumpO w, cf := .Jump }
  | false, true, false, false => { cf := .Return, target := some p.ra }
  | true, false, false, false =>
    let rvi := rviBranchO w && branchTaken p k (rviImmO w)
    let rvc := rvcBranchO w && branchTaken p k (rvcImmO w)
    { takenRviCf := rvi, takenRvcCf := rvc
      cf := if rvi || rvc then .Branch else .NoCF }
  | _, _, _, _ => {}

/-- `predict_address` after the place, with the value `a` before. -/
def addressAfter (a : BitVec 64) : BitVec 64 :=
  let c := choice s p k
  let w := (slot s k).instr
  if c.takenRvcCf || c.takenRviCf then
    (slot s k).addr + if c.takenRvcCf then rvcImmO w else rviImmO w
  else c.target.getD a

/-- The lowest place comes last. -/
def predictAddress : BitVec 64 :=
  addressAfter s p 0#1 (addressAfter s p 1#1 0#64)

/-- The inputs with what is predicted in this cycle. -/
def In.speculate (i : In) : In :=
  { i with
    predict := fun k => (choice s p k).cf
    predictAddress := Frontend.predictAddress s p }

end Speculation

/-! ## What is foretold -/

section Foretold

open Decoder InstrScan
open InstrQueue (Item item offered packet bit)

/-- The prediction of an item is one that the branch unit can check, if the
instruction is legal. -/
def Foretold (x : Item) : Prop :=
  (compressedDecoder x.data.instr).illegalInstr = false →
    let e := (compressedDecoder x.data.instr).instr
    (opcode e = OpcodeBranch → x.data.cf = .NoCF ∨
      x.data.cf = .Branch ∧ x.target = x.addr + immediate e .SBIMM) ∧
    (opcode e = OpcodeJal →
      x.data.cf ≠ .NoCF ∧ x.target = x.addr + immediate e .JIMM) ∧
    (x.data.cf ≠ .NoCF → opcode e ∈ flowOpcodes)

variable {s : State} {p : Predictors} {k : BitVec 1} {i : In}

/-- What is not predicted taken leaves the address as it was. -/
theorem addressAfter_of_noCF (h : (choice s p k).cf = .NoCF)
    (a : BitVec 64) : addressAfter s p k a = a := by
  have hrow : (choice s p k).takenRviCf = false ∧
      (choice s p k).takenRvcCf = false ∧ (choice s p k).target = none := by
    unfold choice at h ⊢
    dsimp only at h ⊢
    split at h
    · split_ifs at h ⊢
      exact ⟨rfl, rfl, rfl⟩
    · cases h
    · cases h
    · dsimp only at h ⊢
      split_ifs at h with hc
      rw [Bool.not_eq_true, Bool.or_eq_false_iff] at hc
      exact ⟨hc.1, hc.2, rfl⟩
    · exact ⟨rfl, rfl, rfl⟩
  unfold addressAfter
  dsimp only
  rw [hrow.1, hrow.2.1, hrow.2.2]
  rfl

theorem choice_invalid (h : (slot s k).valid = false) :
    (choice s p k).cf = .NoCF := by
  have hb : isBranch s k = false := by rw [isBranch, h, Bool.false_and]
  have hr : isReturn s k = false := by rw [isReturn, h, Bool.false_and]
  have hj : isJump s k = false := by rw [isJump, h, Bool.false_and]
  have hl : isJalr s k = false := by
    rw [isJalr, h, Bool.false_and, Bool.false_and, Bool.false_and]
  unfold choice
  rw [hb, hr, hj, hl]

theorem cfType_speculate :
    cfType s (i.speculate s p) k = (choice s p k).cf := by
  rw [cfType]
  split_ifs with hv
  · rfl
  · exact (choice_invalid (Bool.eq_false_iff.mpr hv)).symm

/-- The flags of a place, by the opcode of the expansion. -/
theorem flags (hv : (slot s k).valid = true)
    (hl : (compressedDecoder (slot s k).instr).illegalInstr = false) :
    let o := opcode (compressedDecoder (slot s k).instr).instr
    isBranch s k = decide (o = OpcodeBranch) ∧
      isJump s k = decide (o = OpcodeJal) ∧
      ((isReturn s k || isJalr s k) = true → o = OpcodeJalr) := by
  intro o
  have hs := scanned hl
  refine ⟨?_, ?_, fun h => hs.jalr ?_⟩
  · rw [isBranch, hv, Bool.true_and, hs.branch]
  · rw [isJump, hv, Bool.true_and, hs.jump]
  · rw [isJalr, isCall, rvcCallO, isReturn, rviReturnO, rvcReturnO, hv] at h
    generalize rviJalrO (slot s k).instr = rvi at h ⊢
    generalize rvcJrO (slot s k).instr = rvc at h ⊢
    cases rvi
    · cases rvc
      · -- a jump that links is a call
        generalize rvcJalrO (slot s k).instr = link at h
        cases link <;> simp at h
      · rfl
    · rfl

/-- A branch: its target is computed, or it is not predicted taken. -/
theorem choice_branch (hv : (slot s k).valid = true)
    (hl : (compressedDecoder (slot s k).instr).illegalInstr = false)
    (ho : opcode (compressedDecoder (slot s k).instr).instr = OpcodeBranch) :
    (choice s p k).cf = .NoCF ∨ (choice s p k).cf = .Branch ∧
      ∀ a, addressAfter s p k a = (slot s k).addr +
        immediate (compressedDecoder (slot s k).instr).instr .SBIMM := by
  obtain ⟨hb, hj, hr⟩ := flags hv hl
  have hs := scanned hl
  rw [ho] at hb hj hr
  have hno : (isReturn s k || isJalr s k) = false := by
    rw [← Bool.not_eq_true]
    exact fun h => absurd (hr h) (by decide)
  rw [Bool.or_eq_false_iff] at hno
  have hrow : choice s p k =
      { takenRviCf := rviBranchO (slot s k).instr &&
          branchTaken p k (rviImmO (slot s k).instr)
        takenRvcCf := rvcBranchO (slot s k).instr &&
          branchTaken p k (rvcImmO (slot s k).instr)
        cf := if rviBranchO (slot s k).instr &&
            branchTaken p k (rviImmO (slot s k).instr) ||
          rvcBranchO (slot s k).instr &&
            branchTaken p k (rvcImmO (slot s k).instr) then .Branch
          else .NoCF } := by
    unfold choice
    rw [hb, hj, hno.1, hno.2]
    rfl
  have hafter : ∀ a, addressAfter s p k a = _ := fun a => by
    rw [addressAfter, hrow]
  rw [hrow]
  dsimp only at hafter ⊢
  cases hrvc : rvcBranchO (slot s k).instr &&
      branchTaken p k (rvcImmO (slot s k).instr) with
  | true =>
    refine Or.inr ⟨by rw [Bool.or_true, if_pos rfl], fun a => ?_⟩
    rw [hafter, hrvc, Bool.true_or, if_pos rfl, if_pos rfl]
    rw [Bool.and_eq_true] at hrvc
    rw [hs.rvcBranch hrvc.1]
  | false =>
    cases hrvi : rviBranchO (slot s k).instr &&
        branchTaken p k (rviImmO (slot s k).instr) with
    | true =>
      refine Or.inr ⟨rfl, fun a => ?_⟩
      rw [hafter, hrvc, hrvi, Bool.false_or, if_pos rfl,
        if_neg Bool.false_ne_true]
      rw [Bool.and_eq_true] at hrvi
      rw [hs.rviBranch hrvi.1]
    | false => exact Or.inl rfl

/-- A jump to an immediate is predicted, and its target is computed. -/
theorem choice_jump (hv : (slot s k).valid = true)
    (hl : (compressedDecoder (slot s k).instr).illegalInstr = false)
    (ho : opcode (compressedDecoder (slot s k).instr).instr = OpcodeJal) :
    (choice s p k).cf ≠ .NoCF ∧
      ∀ a, addressAfter s p k a = (slot s k).addr +
        immediate (compressedDecoder (slot s k).instr).instr .JIMM := by
  obtain ⟨hb, hj, hr⟩ := flags hv hl
  have hs := scanned hl
  have hjump := hs.jump
  rw [ho] at hb hj hr hjump
  have hno : (isReturn s k || isJalr s k) = false := by
    rw [← Bool.not_eq_true]
    exact fun h => absurd (hr h) (by decide)
  rw [Bool.or_eq_false_iff] at hno
  have hrow : choice s p k =
      { takenRviCf := rviJumpO (slot s k).instr
        takenRvcCf := rvcJumpO (slot s k).instr
        cf := .Jump } := by
    unfold choice
    rw [hb, hj, hno.1, hno.2]
    rfl
  refine ⟨by rw [hrow]; exact Cf.noConfusion, fun a => ?_⟩
  rw [addressAfter, hrow]
  dsimp only
  cases hrvc : rvcJumpO (slot s k).instr with
  | true => rw [Bool.true_or, if_pos rfl, if_pos rfl, hs.rvcJump hrvc]
  | false =>
    rw [hrvc, Bool.or_false] at hjump
    have hrvi : rviJumpO (slot s k).instr = true := hjump
    rw [hrvi, Bool.or_true, if_pos rfl, if_neg Bool.false_ne_true,
      hs.rviJump hrvi]

/-- Nothing but a branch or a jump is predicted taken. -/
theorem choice_plain (hv : (slot s k).valid = true)
    (hl : (compressedDecoder (slot s k).instr).illegalInstr = false)
    (hcf : (choice s p k).cf ≠ .NoCF) :
    opcode (compressedDecoder (slot s k).instr).instr ∈ flowOpcodes := by
  obtain ⟨hb, hj, hr⟩ := flags hv hl
  by_contra hno
  simp only [flowOpcodes, List.mem_cons, List.not_mem_nil, or_false,
    not_or] at hno
  obtain ⟨h1, h2, h3⟩ := hno
  rw [decide_eq_false h1] at hb
  rw [decide_eq_false h2] at hj
  have hjr := Bool.eq_false_iff.mpr (mt hr h3)
  rw [Bool.or_eq_false_iff] at hjr
  refine hcf ?_
  unfold choice
  rw [hb, hj, hjr.1, hjr.2]

theorem foretold_item (hv : (slot s k).valid = true)
    (ha : (choice s p k).cf ≠ .NoCF →
      ∃ a, predictAddress s p = addressAfter s p k a) :
    Foretold (item (queueIn s (i.speculate s p)) k) := by
  intro hl
  have hcf : (item (queueIn s (i.speculate s p)) k).data.cf =
      (choice s p k).cf := cfType_speculate
  rw [hcf]
  refine ⟨fun ho => ?_, fun ho => ?_, fun hne => choice_plain hv hl hne⟩
  · refine (choice_branch hv hl ho).imp_right fun ⟨hb, htarget⟩ => ?_
    obtain ⟨a, ha⟩ := ha (by rw [hb]; exact Cf.noConfusion)
    exact ⟨hb, ha.trans (htarget a)⟩
  · obtain ⟨hne, htarget⟩ := choice_jump hv hl ho
    obtain ⟨a, ha⟩ := ha hne
    exact ⟨hne, ha.trans (htarget a)⟩

/-- An item that is offered comes from the first place, or from the second
one behind an item that is not taken. -/
theorem mem_offered {j : InstrQueue.In} {x : Item} (h : x ∈ offered j) :
    (x = item j 0#1 ∧ bit j.valid 0#1 = true) ∨
      (x = item j 1#1 ∧ bit j.valid 1#1 = true ∧
        (bit j.valid 0#1 = true → (item j 0#1).taken = false)) := by
  unfold offered packet at h
  cases h0 : bit j.valid 0#1 with
  | false =>
    rw [h0, if_neg Bool.false_ne_true, List.nil_append] at h
    split_ifs at h with h1
    · have hx := List.mem_singleton.mp (InstrQueue.mem_of_mem_cut h)
      exact Or.inr ⟨hx, h1, fun hno => absurd hno Bool.false_ne_true⟩
    · cases h
  | true =>
    rw [h0, if_pos rfl, List.singleton_append, InstrQueue.cut] at h
    split_ifs at h with ht h1
    · exact Or.inl ⟨List.mem_singleton.mp h, rfl⟩
    · rcases List.mem_cons.mp h with hx | hx
      · exact Or.inl ⟨hx, rfl⟩
      · have hx := List.mem_singleton.mp (InstrQueue.mem_of_mem_cut hx)
        exact Or.inr ⟨hx, h1, fun _ => Bool.eq_false_iff.mpr ht⟩
    · rcases List.mem_cons.mp h with hx | hx
      · exact Or.inl ⟨hx, rfl⟩
      · cases hx

/-- Every item that the queue is offered is foretold. -/
theorem foretold_of_offered {x : Item}
    (h : x ∈ offered (queueIn s (i.speculate s p))) : Foretold x := by
  rcases mem_offered h with ⟨rfl, hv⟩ | ⟨rfl, hv, hfirst⟩
  · rw [Linked.bit_valid] at hv
    exact foretold_item hv fun _ => ⟨_, rfl⟩
  · rw [Linked.bit_valid] at hv hfirst
    refine foretold_item hv fun _ => ⟨0#64, ?_⟩
    refine addressAfter_of_noCF ?_ _
    cases h0 : (slot s 0#1).valid with
    | false => exact choice_invalid h0
    | true =>
      have htaken : (cfType s (i.speculate s p) 0#1 != .NoCF) = false :=
        hfirst h0
      rw [cfType_speculate, bne_eq_false_iff_eq] at htaken
      exact htaken

end Foretold

end ArianeSoc.Frontend
