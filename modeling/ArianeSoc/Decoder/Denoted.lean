import ArianeSoc.Decoder.Expansion
import ArianeSoc.Decoder.System

/-!
# The decoder on the expansion of a compressed instruction

`decodes` says that the decoder turns the encoding of a base instruction into
its operation, with one lemma for each format.  Together with the expansion
it gives `compressed_denotes`: every 16-bit instruction is expanded and
decoded to what it stands for, and every reserved one raises the illegal
instruction exception.
-/

namespace ArianeSoc.Decoder

open InstrFormat

/-- The operation that the decoder's assignments ask for. -/
def Operation.ofDecoded (d : Decoded) (w : Instr) : Operation where
  fu := d.fu
  op := d.op
  rd := d.rd
  rs1 := d.rs1
  rs2 := d.rs2
  imm :=
    if usesImmediate d.immSelect then
      some (if isShift d.op then
          ((immediate w d.immSelect).setWidth 6).setWidth 64
        else immediate w d.immSelect)
    else none
  useZimm := d.useZimm
  usePc := d.usePc

/-- The decoder accepts the word and asks for the operation of `b`. -/
structure Decodes (j : In) (b : Base) : Prop where
  operation : Operation.ofDecoded (decodeInstr j) j.instruction = b.operation
  legal : (decodeInstr j).illegalInstr = false
  ecall : (decodeInstr j).ecall = false
  ebreak : (decodeInstr j).ebreak = decide (b = .ebreak)

section Formats

variable {j : In} {rd rs1 rs2 : Reg} {funct3 : BitVec 3}
  {funct7 opc : BitVec 7}

theorem decodes_of {b : Base} {d : Decoded} (hd : decodeInstr j = d)
    (hop : Operation.ofDecoded d j.instruction = b.operation)
    (hl : d.illegalInstr = false) (hc : d.ecall = false)
    (hb : d.ebreak = decide (b = .ebreak)) : Decodes j b := by
  subst hd
  exact ⟨hop, hl, hc, hb⟩

theorem fields_r
    (hw : j.instruction = rType funct7 rs2 rs1 funct3 rd opc) :
    opcode j.instruction = opc ∧ Decoder.rd j.instruction = rd ∧
      Decoder.funct3 j.instruction = funct3 ∧
      Decoder.rs1 j.instruction = rs1 ∧ Decoder.rs2 j.instruction = rs2 ∧
      Decoder.funct7 j.instruction = funct7 := by
  rw [hw]
  exact rType_fields

theorem fields_i {i : BitVec 12}
    (hw : j.instruction = iType i rs1 funct3 rd opc) :
    opcode j.instruction = opc ∧ Decoder.rd j.instruction = rd ∧
      Decoder.funct3 j.instruction = funct3 ∧
      Decoder.rs1 j.instruction = rs1 ∧ imm j.instruction = i ∧
      j.instruction.extractLsb' 26 6 = i.extractLsb' 6 6 := by
  rw [hw]
  exact iType_fields

theorem fields_s {i : BitVec 12}
    (hw : j.instruction = sType i rs2 rs1 funct3 opc) :
    opcode j.instruction = opc ∧ Decoder.funct3 j.instruction = funct3 ∧
      Decoder.rs1 j.instruction = rs1 ∧ Decoder.rs2 j.instruction = rs2 ∧
      Decoder.funct7 j.instruction ++ Decoder.rd j.instruction = i := by
  rw [hw]
  exact sType_fields

theorem decodes_imm {op : ImmOp} {i : BitVec 12} (hex : j.ex.valid = false)
    (hw : j.instruction = (Base.imm op rd rs1 i).encode) :
    Decodes j (.imm op rd rs1 i) := by
  have hd : decodeInstr j =
      { fu := .ALU
        op := op.op
        rs1 := regAddr rs1
        rd := regAddr rd
        immSelect := .IIMM } ∧ imm j.instruction = i := by
    cases op with
    | addi =>
      obtain ⟨hopc, hrd, hf3, hrs1, himm, -⟩ := fields_i hw
      simp only [decodeInstr, hex, hopc, decodeUnit, decodeOpImm, hf3, regImm,
        hrs1, hrd]
      exact ⟨rfl, himm⟩
    | addiw =>
      obtain ⟨hopc, hrd, hf3, hrs1, himm, -⟩ := fields_i hw
      simp only [decodeInstr, hex, hopc, decodeUnit, decodeOpImm32, hf3,
        regImm, hrs1, hrd]
      exact ⟨rfl, himm⟩
    | andi =>
      obtain ⟨hopc, hrd, hf3, hrs1, himm, -⟩ := fields_i hw
      simp only [decodeInstr, hex, hopc, decodeUnit, decodeOpImm, hf3, regImm,
        hrs1, hrd]
      exact ⟨rfl, himm⟩
  refine decodes_of hd.1 ?_ rfl rfl rfl
  simp only [Operation.ofDecoded, immediate, hd.2]
  cases op <;> rfl

/-- The shift amount in a shift immediate. -/
theorem shamt_of_imm (x s : BitVec 6) :
    ((x ++ s : BitVec 12).signExtend 64).setWidth 6 = s := by
  apply BitVec.eq_of_getLsbD_eq
  intro k hk
  have h12 : k < 12 := by omega
  have h64 : k < 64 := by omega
  simp only [BitVec.getLsbD_setWidth, BitVec.getLsbD_signExtend,
    BitVec.getLsbD_append, hk, h12, h64, decide_true, Bool.true_and, if_true]

theorem decodes_shift {op : ShiftOp} {s : BitVec 6}
    (hex : j.ex.valid = false)
    (hw : j.instruction = (Base.shift op rd rs1 s).encode) :
    Decodes j (.shift op rd rs1 s) := by
  have hhigh : ∀ x : BitVec 6, (x ++ s : BitVec 12).extractLsb' 6 6 = x :=
    fun x => (field_high (Nat.le_refl 6)).trans BitVec.extractLsb'_eq_self
  have hd : decodeInstr j =
      { fu := .ALU
        op := op.op
        rs1 := regAddr rs1
        rd := regAddr rd
        immSelect := .IIMM } ∧ ∃ x : BitVec 6, imm j.instruction = x ++ s := by
    cases op with
    | slli =>
      obtain ⟨hopc, hrd, hf3, hrs1, himm, hhi⟩ := fields_i hw
      rw [hhigh] at hhi
      simp only [decodeInstr, hex, hopc, decodeUnit, decodeOpImm, hf3, regImm,
        hrs1, hrd, hhi]
      exact ⟨rfl, _, himm⟩
    | srli =>
      obtain ⟨hopc, hrd, hf3, hrs1, himm, hhi⟩ := fields_i hw
      rw [hhigh] at hhi
      simp only [decodeInstr, hex, hopc, decodeUnit, decodeOpImm, hf3, regImm,
        hrs1, hrd, hhi]
      exact ⟨rfl, _, himm⟩
    | srai =>
      obtain ⟨hopc, hrd, hf3, hrs1, himm, hhi⟩ := fields_i hw
      rw [hhigh] at hhi
      simp only [decodeInstr, hex, hopc, decodeUnit, decodeOpImm, hf3, regImm,
        hrs1, hrd, hhi]
      exact ⟨rfl, _, himm⟩
  obtain ⟨hd, x, himm⟩ := hd
  refine decodes_of hd ?_ rfl rfl rfl
  simp only [Operation.ofDecoded, immediate, himm, shamt_of_imm]
  cases op <;> rfl

/-- The prefix of the vectorial format is the top of `funct7`. -/
theorem prefix_of_funct7 (w : Instr) :
    w.extractLsb' 30 2 = (Decoder.funct7 w).extractLsb' 5 2 := by
  apply BitVec.eq_of_getLsbD_eq
  intro k hk
  have h7 : 5 + k < 7 := by omega
  have hsum : 25 + (5 + k) = 30 + k := by omega
  simp only [Decoder.funct7, BitVec.getLsbD_extractLsb', h7, hsum,
    decide_true, Bool.true_and]

/-- A word of `OpcodeOp` with a `funct7` of the base instructions. -/
theorem decodeInstr_op (hex : j.ex.valid = false)
    (hopc : opcode j.instruction = OpcodeOp)
    (hf7 : Decoder.funct7 j.instruction = 0b0000000#7 ∨
      Decoder.funct7 j.instruction = 0b0100000#7) :
    decodeInstr j = (regReg j.instruction).select (regRegOp j.instruction) := by
  have hprefix : j.instruction.extractLsb' 30 2 ≠ 0b10#2 := by
    rw [prefix_of_funct7]
    rcases hf7 with h | h <;> rw [h] <;> decide
  have hd : decodeInstr j = decodeOp j.instruction := by
    simp only [decodeInstr, hex, hopc, decodeUnit]
    rfl
  rw [hd, decodeOp, if_neg hprefix]

theorem decodeInstr_op32 (hex : j.ex.valid = false)
    (hopc : opcode j.instruction = OpcodeOp32) :
    decodeInstr j =
      (regReg j.instruction).select (regRegOp32 j.instruction) := by
  simp only [decodeInstr, hex, hopc, decodeUnit]
  rfl

theorem decodes_reg {op : RegOp} (hex : j.ex.valid = false)
    (hw : j.instruction = (Base.reg op rd rs1 rs2).encode) :
    Decodes j (.reg op rd rs1 rs2) := by
  have hd : decodeInstr j =
      { fu := .ALU
        op := op.op
        rs1 := regAddr rs1
        rs2 := regAddr rs2
        rd := regAddr rd } := by
    cases op
    case addw | subw =>
      obtain ⟨hopc, hrd, hf3, hrs1, hrs2, hf7⟩ := fields_r hw
      rw [decodeInstr_op32 hex hopc]
      simp only [regReg, regRegOp32, hf3, hf7, hrd, hrs1, hrs2]
      rfl
    all_goals
      obtain ⟨hopc, hrd, hf3, hrs1, hrs2, hf7⟩ := fields_r hw
      rw [decodeInstr_op hex hopc (by simp [hf7])]
      simp only [regReg, regRegOp, hf3, hf7, hrd, hrs1, hrs2]
      rfl
  refine decodes_of hd ?_ rfl rfl rfl
  cases op <;> rfl

theorem decodes_load {op : LoadOp} {o : BitVec 12} (hex : j.ex.valid = false)
    (hfs : op = .fld → j.fs ≠ XS_OFF)
    (hw : j.instruction = (Base.load op rd rs1 o).encode) :
    Decodes j (.load op rd rs1 o) := by
  have hd : decodeInstr j =
      { fu := .LOAD
        op := op.op
        rs1 := regAddr rs1
        rd := regAddr rd
        immSelect := .IIMM } ∧ imm j.instruction = o := by
    cases op with
    | lw =>
      obtain ⟨hopc, hrd, hf3, hrs1, himm, -⟩ := fields_i hw
      simp only [decodeInstr, hex, hopc, decodeUnit, decodeLoad, loadOp, hf3,
        regImm, hrs1, hrd]
      exact ⟨rfl, himm⟩
    | ld =>
      obtain ⟨hopc, hrd, hf3, hrs1, himm, -⟩ := fields_i hw
      simp only [decodeInstr, hex, hopc, decodeUnit, decodeLoad, loadOp, hf3,
        regImm, hrs1, hrd]
      exact ⟨rfl, himm⟩
    | fld =>
      obtain ⟨hopc, hrd, hf3, hrs1, himm, -⟩ := fields_i hw
      simp only [decodeInstr, hex, hopc, decodeUnit, decodeLoadFp, loadFpOp,
        hf3, regImm, hrs1, hrd, hfs rfl]
      exact ⟨rfl, himm⟩
  refine decodes_of hd.1 ?_ rfl rfl rfl
  simp only [Operation.ofDecoded, immediate, hd.2]
  cases op <;> rfl

theorem decodes_store {op : StoreOp} {o : BitVec 12}
    (hex : j.ex.valid = false) (hfs : op = .fsd → j.fs ≠ XS_OFF)
    (hw : j.instruction = (Base.store op rs2 rs1 o).encode) :
    Decodes j (.store op rs2 rs1 o) := by
  have hd : decodeInstr j =
      { fu := .STORE
        op := op.op
        rs1 := regAddr rs1
        rs2 := regAddr rs2
        immSelect := .SIMM } ∧
      Decoder.funct7 j.instruction ++ Decoder.rd j.instruction = o := by
    cases op with
    | sw =>
      obtain ⟨hopc, hf3, hrs1, hrs2, himm⟩ := fields_s hw
      simp only [decodeInstr, hex, hopc, decodeUnit, decodeStore, storeOp, hf3,
        storeFormat, hrs1, hrs2]
      exact ⟨rfl, himm⟩
    | sd =>
      obtain ⟨hopc, hf3, hrs1, hrs2, himm⟩ := fields_s hw
      simp only [decodeInstr, hex, hopc, decodeUnit, decodeStore, storeOp, hf3,
        storeFormat, hrs1, hrs2]
      exact ⟨rfl, himm⟩
    | fsd =>
      obtain ⟨hopc, hf3, hrs1, hrs2, himm⟩ := fields_s hw
      simp only [decodeInstr, hex, hopc, decodeUnit, decodeStoreFp, storeFpOp,
        hf3, storeFormat, hrs1, hrs2, hfs rfl]
      exact ⟨rfl, himm⟩
  refine decodes_of hd.1 ?_ rfl rfl rfl
  simp only [Operation.ofDecoded, immediate, hd.2]
  cases op <;> rfl

theorem decodes_branch {op : BranchOp} {h : BitVec 12}
    (hex : j.ex.valid = false)
    (hw : j.instruction = (Base.branch op rs1 rs2 h).encode) :
    Decodes j (.branch op rs1 rs2 h) := by
  have hfields : ∀ f3, j.instruction = bType h rs2 rs1 f3 OpcodeBranch →
      opcode j.instruction = OpcodeBranch ∧
        Decoder.funct3 j.instruction = f3 ∧
        Decoder.rs1 j.instruction = rs1 ∧ Decoder.rs2 j.instruction = rs2 ∧
        j.instruction.extractLsb' 31 1 ++ j.instruction.extractLsb' 7 1 ++
          j.instruction.extractLsb' 25 6 ++
          j.instruction.extractLsb' 8 4 = h := by
    intro f3 hb
    rw [hb]
    exact bType_fields
  have hd : decodeInstr j =
      { fu := .CTRL_FLOW
        op := op.op
        rs1 := regAddr rs1
        rs2 := regAddr rs2
        immSelect := .SBIMM
        isControlFlowInstr := true } ∧
      j.instruction.extractLsb' 31 1 ++ j.instruction.extractLsb' 7 1 ++
        j.instruction.extractLsb' 25 6 ++ j.instruction.extractLsb' 8 4 = h := by
    cases op with
    | beq =>
      obtain ⟨hopc, hf3, hrs1, hrs2, himm⟩ := hfields _ hw
      simp only [decodeInstr, hex, hopc, decodeUnit, decodeBranch, branchOp,
        hf3, hrs1, hrs2]
      exact ⟨rfl, himm⟩
    | bne =>
      obtain ⟨hopc, hf3, hrs1, hrs2, himm⟩ := hfields _ hw
      simp only [decodeInstr, hex, hopc, decodeUnit, decodeBranch, branchOp,
        hf3, hrs1, hrs2]
      exact ⟨rfl, himm⟩
  refine decodes_of hd.1 ?_ rfl rfl rfl
  simp only [Operation.ofDecoded, immediate, hd.2]
  cases op <;> rfl

theorem decodes_jal {h : BitVec 20} (hex : j.ex.valid = false)
    (hw : j.instruction = (Base.jal rd h).encode) :
    Decodes j (.jal rd h) := by
  obtain ⟨hopc, hrd, himm⟩ : opcode j.instruction = OpcodeJal ∧
      Decoder.rd j.instruction = rd ∧
      j.instruction.extractLsb' 31 1 ++ j.instruction.extractLsb' 12 8 ++
        j.instruction.extractLsb' 20 1 ++
        j.instruction.extractLsb' 21 10 = h := by
    rw [hw]
    exact jType_fields
  have hd : decodeInstr j =
      { fu := .CTRL_FLOW
        rd := regAddr rd
        immSelect := .JIMM
        isControlFlowInstr := true } := by
    simp only [decodeInstr, hex, hopc, decodeUnit, decodeJal, hrd]
    rfl
  refine decodes_of hd ?_ rfl rfl rfl
  simp only [Operation.ofDecoded, immediate, himm]
  rfl

theorem decodes_jalr {o : BitVec 12} (hex : j.ex.valid = false)
    (hw : j.instruction = (Base.jalr rd rs1 o).encode) :
    Decodes j (.jalr rd rs1 o) := by
  obtain ⟨hopc, hrd, hf3, hrs1, himm, -⟩ := fields_i hw
  have hd : decodeInstr j =
      { fu := .CTRL_FLOW
        op := .JALR
        rs1 := regAddr rs1
        rd := regAddr rd
        immSelect := .IIMM
        isControlFlowInstr := true } := by
    simp only [decodeInstr, hex, hopc, decodeUnit, decodeJalr, regImm, hf3,
      hrs1, hrd]
    rfl
  refine decodes_of hd ?_ rfl rfl rfl
  simp only [Operation.ofDecoded, immediate, himm]
  rfl

theorem decodes_lui {i : BitVec 20} (hex : j.ex.valid = false)
    (hw : j.instruction = (Base.lui rd i).encode) :
    Decodes j (.lui rd i) := by
  obtain ⟨hopc, hrd, himm⟩ : opcode j.instruction = OpcodeLui ∧
      Decoder.rd j.instruction = rd ∧
      j.instruction.extractLsb' 12 20 = i := by
    rw [hw]
    exact uType_fields
  have hd : decodeInstr j =
      { fu := .ALU
        rd := regAddr rd
        immSelect := .UIMM } := by
    simp only [decodeInstr, hex, hopc, decodeUnit, decodeLui, hrd]
    rfl
  refine decodes_of hd ?_ rfl rfl rfl
  simp only [Operation.ofDecoded, immediate, himm]
  rfl

theorem decodes_ebreak (hex : j.ex.valid = false)
    (hw : j.instruction = Base.ebreak.encode) : Decodes j .ebreak := by
  obtain ⟨hopc, hrd, hf3, hrs1, himm, -⟩ := fields_i hw
  have hd : decodeInstr j = { fu := .CSR, ebreak := true } := by
    rw [decodeInstr_priv hex hopc hf3]
    simp only [decodePriv, himm, hrs1, hrd]
    rfl
  exact decodes_of hd rfl rfl rfl rfl

end Formats

/-- The decoder on the encoding of a base instruction. -/
theorem decodes {j : In} {b : Base} (hex : j.ex.valid = false)
    (hfs : b.usesFp = true → j.fs ≠ XS_OFF)
    (hw : j.instruction = b.encode) : Decodes j b := by
  cases b with
  | imm op rd rs1 i => exact decodes_imm hex hw
  | shift op rd rs1 s => exact decodes_shift hex hw
  | reg op rd rs1 rs2 => exact decodes_reg hex hw
  | lui rd i => exact decodes_lui hex hw
  | load op rd rs1 o =>
    refine decodes_load hex (fun hop => hfs ?_) hw
    rw [hop]
    rfl
  | store op rs2 rs1 o =>
    refine decodes_store hex (fun hop => hfs ?_) hw
    rw [hop]
    rfl
  | branch op rs1 rs2 h => exact decodes_branch hex hw
  | jal rd h => exact decodes_jal hex hw
  | jalr rd rs1 o => exact decodes_jalr hex hw
  | ebreak => exact decodes_ebreak hex hw

/-- Without the floating-point unit its loads and stores are illegal. -/
theorem illegal_of_fs_off {j : In} {b : Base} (hex : j.ex.valid = false)
    (hfp : b.usesFp = true) (hfs : j.fs = XS_OFF)
    (hw : j.instruction = b.encode) :
    (decodeInstr j).illegalInstr = true := by
  cases b
  case load op rd rs1 o =>
    cases op
    case fld =>
      obtain ⟨hopc, -⟩ := fields_i hw
      simp only [decodeInstr, hex, hopc, decodeUnit, decodeLoadFp, hfs]
      rfl
    all_goals exact Bool.noConfusion hfp
  case store op rs2 rs1 o =>
    cases op
    case fsd =>
      obtain ⟨hopc, -⟩ := fields_s hw
      simp only [decodeInstr, hex, hopc, decodeUnit, decodeStoreFp, hfs]
      rfl
    all_goals exact Bool.noConfusion hfp
  all_goals exact Bool.noConfusion hfp

/-! ## Every compressed instruction -/

/-- The cause of the exception that a base instruction raises: EBREAK a
breakpoint, a floating-point load or store without the unit an illegal
instruction. -/
def Base.raises (fs : BitVec 2) (b : Base) : Option (BitVec 64) :=
  if b = .ebreak then some BREAKPOINT
  else if b.usesFp ∧ fs = XS_OFF then some ILLEGAL_INSTR
  else none

/-- The exception of the fetched instruction itself. -/
def raised (i : In) (w : Instr) : ExceptionT :=
  instrException (idStage i w) (decodeInstr (idStage i w))

/-- The instruction is flagged and raises the illegal instruction exception
with its sixteen bits. -/
structure Rejected (i : In) (w : Instr) : Prop where
  illegal : (compressedDecoder w).illegalInstr = true
  exception : raised i w = ⟨ILLEGAL_INSTR, (half w).setWidth 64, true⟩

/-- The instruction is expanded to `b` and decoded to the operation of `b`. -/
structure Denotes (i : In) (w : Instr) (b : Base) : Prop where
  legal : (compressedDecoder w).illegalInstr = false
  instr : (compressedDecoder w).instr = b.encode
  exception : raised i w =
    (b.raises i.fs).elim ⟨i.ex.cause, (half w).setWidth 64, false⟩
      fun cause => ⟨cause, (half w).setWidth 64, true⟩
  operation : b.raises i.fs ≠ some ILLEGAL_INSTR →
    Operation.ofEntry (decodeFetched i w) = b.operation

section Composed

variable {i : In} {w : Instr}

/-- The exception of a compressed instruction has its sixteen bits. -/
theorem raised_eq (hc : (compressedDecoder w).isCompressed = true) :
    raised i w =
      if (decodeInstr (idStage i w)).illegalInstr ∨
          (compressedDecoder w).illegalInstr then
        ⟨ILLEGAL_INSTR, (half w).setWidth 64, true⟩
      else if (decodeInstr (idStage i w)).ecall then
        ⟨ecallCause (idStage i w), (half w).setWidth 64, true⟩
      else if (decodeInstr (idStage i w)).ebreak then
        ⟨BREAKPOINT, (half w).setWidth 64, true⟩
      else ⟨i.ex.cause, (half w).setWidth 64, false⟩ := by
  have htval : (if (idStage i w).isCompressed then
        (idStage i w).compressedInstr.setWidth 64
      else (idStage i w).instruction.setWidth 64) =
      (half w).setWidth 64 := if_pos hc
  unfold raised instrException
  rw [htval]
  rfl

theorem rejected_of_illegal
    (hc : (compressedDecoder w).isCompressed = true)
    (hi : (compressedDecoder w).illegalInstr = true) : Rejected i w := by
  refine ⟨hi, ?_⟩
  rw [raised_eq hc, if_pos (Or.inr hi)]

theorem denotes_of_expansion {b : Base} (hex : i.ex.valid = false)
    (hc : (compressedDecoder w).isCompressed = true)
    (hi : (compressedDecoder w).illegalInstr = false)
    (hw : (compressedDecoder w).instr = b.encode) : Denotes i w b := by
  by_cases hoff : b.usesFp = true ∧ i.fs = XS_OFF
  · have hbreak : b ≠ .ebreak := by
      rintro rfl
      exact Bool.noConfusion hoff.1
    have hraise : b.raises i.fs = some ILLEGAL_INSTR := by
      rw [Base.raises, if_neg hbreak, if_pos hoff]
    have hill := illegal_of_fs_off (j := idStage i w) hex hoff.1 hoff.2 hw
    refine ⟨hi, hw, ?_, fun hne => absurd hraise hne⟩
    rw [raised_eq hc, if_pos (Or.inl hill), hraise]
    rfl
  · have hd : Decodes (idStage i w) b :=
      decodes hex (fun hfp hfs => hoff ⟨hfp, hfs⟩) hw
    refine ⟨hi, hw, ?_, fun _ => hd.operation⟩
    rw [raised_eq hc, hd.legal, hi, hd.ecall, hd.ebreak,
      if_neg (by decide), if_neg Bool.false_ne_true]
    unfold Base.raises
    by_cases hb : b = .ebreak
    · rw [if_pos hb, if_pos (decide_eq_true hb)]
      rfl
    · rw [if_neg hb, if_neg hoff, if_neg (by simpa using hb)]
      rfl

end Composed

/-- Every 16-bit instruction that is not reserved is expanded to the word of
the base instruction that it stands for and decoded to its operation; every
other one is flagged and rejected.  Without the floating-point unit its loads
and stores raise an illegal instruction exception. -/
theorem compressed_denotes (i : In) (w : Instr) (hex : i.ex.valid = false)
    (hq : w.extractLsb 1 0 ≠ 3#2) :
    (compressedDecoder w).isCompressed = true ∧
      (rvc (half w)).elim (Rejected i w) (Denotes i w) := by
  obtain ⟨hc, hm⟩ := compressedDecoder_matches w hq
  refine ⟨hc, ?_⟩
  cases hr : rvc (half w) with
  | none =>
    rw [hr] at hm
    exact rejected_of_illegal hc hm
  | some b =>
    rw [hr] at hm
    exact denotes_of_expansion hex hc hm.1 hm.2

/-- C.LI of 0 to `x10`. -/
theorem compressed_denotes_li :
    (compressedDecoder 0x4501#32).isCompressed = true ∧
      (rvc (half 0x4501#32)).elim
        (Rejected (atLevel PRIV_LVL_U 0#32) 0x4501#32)
        (Denotes (atLevel PRIV_LVL_U 0#32) 0x4501#32) :=
  compressed_denotes (atLevel PRIV_LVL_U 0#32) 0x4501#32 rfl (by decide)

end ArianeSoc.Decoder
