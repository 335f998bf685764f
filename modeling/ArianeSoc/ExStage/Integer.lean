import ArianeSoc.Decoder.Denoted
import ArianeSoc.ExStage.Alu

/-!
# The integer instructions in the decoder

A word that the decoder gives to the ALU, to the branch unit or to the
multiplier is an instruction of RV64IM, and each of these instructions is
accepted.

* `asks` is what the decoder assigns for an instruction.
* `agrees` goes through the opcodes: the decoder accepts a word of
  `Rv64Int.decode` for its unit and operands, and no other word for these
  units.
-/

namespace ArianeSoc.Execute

open Decoder Rv64Int

/-! ## The decoder -/

/-- The operator of a multiplication. -/
def mulOf : MulOp → FuOp
  | .mul => .MUL
  | .mulh => .MULH
  | .mulhsu => .MULHSU
  | .mulhu => .MULHU
  | .mulw => .MULW

/-- The operator of a division. -/
def divOf (o : DivOp) : FuOp :=
  match o.rem, o.signed, o.word with
  | false, true, false => .DIV
  | false, false, false => .DIVU
  | false, true, true => .DIVW
  | false, false, true => .DIVUW
  | true, true, false => .REM
  | true, false, false => .REMU
  | true, true, true => .REMW
  | true, false, true => .REMUW

/-- What the decoder assigns for an instruction. -/
def asks : Rv64Int.Instr → Decoded
  | .op o rd rs1 rs2 =>
    { fu := .ALU, op := Alu.opOf o, rs1 := regAddr rs1, rs2 := regAddr rs2,
      rd := regAddr rd }
  | .opImm o rd rs1 _ =>
    { fu := .ALU, op := Alu.opOf o, rs1 := regAddr rs1, rd := regAddr rd,
      immSelect := .IIMM }
  | .lui rd _ => { fu := .ALU, rd := regAddr rd, immSelect := .UIMM }
  | .auipc rd _ =>
    { fu := .ALU, rd := regAddr rd, immSelect := .UIMM, usePc := true }
  | .mul o rd rs1 rs2 =>
    { fu := .MULT, op := mulOf o, rs1 := regAddr rs1, rs2 := regAddr rs2,
      rd := regAddr rd }
  | .div o rd rs1 rs2 =>
    { fu := .MULT, op := divOf o, rs1 := regAddr rs1, rs2 := regAddr rs2,
      rd := regAddr rd }
  | .branch c rs1 rs2 _ =>
    { fu := .CTRL_FLOW, op := Alu.condOf c, rs1 := regAddr rs1,
      rs2 := regAddr rs2, immSelect := .SBIMM, isControlFlowInstr := true }
  | .jal rd _ =>
    { fu := .CTRL_FLOW, rd := regAddr rd, immSelect := .JIMM,
      isControlFlowInstr := true }
  | .jalr rd rs1 _ =>
    { fu := .CTRL_FLOW, op := .JALR, rs1 := regAddr rs1, rd := regAddr rd,
      immSelect := .IIMM, isControlFlowInstr := true }

/-- The immediate of the word is that of the instruction; a shift looks at
its lowest bits only. -/
def ImmediateOf (w : Decoder.Instr) : Rv64Int.Instr → Prop
  | .opImm o _ _ imm =>
    ∀ a, o.eval a ((Decoder.imm w).signExtend 64) = o.eval a imm
  | .lui _ imm => immediate w .UIMM = (imm ++ 0#12).signExtend 64
  | .auipc _ imm => immediate w .UIMM = (imm ++ 0#12).signExtend 64
  | .branch _ _ _ half => immediate w .SBIMM = (half ++ 0#1).signExtend 64
  | .jal _ half => immediate w .JIMM = (half ++ 0#1).signExtend 64
  | .jalr _ _ imm => immediate w .IIMM = imm.signExtend 64
  | _ => True

section Tables

variable {w : Decoder.Instr} {j : Decoder.In} {instr : Rv64Int.Instr}

/-- A word of the register format with the two function fields of `w`: the
operation tables look at nothing else. -/
def functWord (f7 : BitVec 7) (f3 : BitVec 3) : Decoder.Instr :=
  InstrFormat.rType f7 0#5 0#5 f3 0#5 0#7

theorem funct3_functWord (f7 : BitVec 7) (f3 : BitVec 3) :
    funct3 (functWord f7 f3) = f3 :=
  InstrFormat.rType_fields.2.2.1

theorem funct7_functWord (f7 : BitVec 7) (f3 : BitVec 3) :
    funct7 (functWord f7 f3) = f7 :=
  InstrFormat.rType_fields.2.2.2.2.2

theorem regRegOp_eq (h : funct7 w ≠ 1#7) :
    regRegOp w = (opTable (funct7 w) (funct3 w)).map Alu.opOf := by
  have hword : regRegOp w = regRegOp (functWord (funct7 w) (funct3 w)) := by
    rw [regRegOp, regRegOp, funct3_functWord, funct7_functWord]
  have htable : ∀ (f7 : BitVec 7) (f3 : BitVec 3), f7 ≠ 1#7 →
      regRegOp (functWord f7 f3) = (opTable f7 f3).map Alu.opOf := by
    decide +kernel
  rw [hword, htable _ _ h]

theorem regRegOp32_eq (h : funct7 w ≠ 1#7) :
    regRegOp32 w = (opTable32 (funct7 w) (funct3 w)).map Alu.opOf := by
  have hword : regRegOp32 w =
      regRegOp32 (functWord (funct7 w) (funct3 w)) := by
    rw [regRegOp32, regRegOp32, funct3_functWord, funct7_functWord]
  have htable : ∀ (f7 : BitVec 7) (f3 : BitVec 3), f7 ≠ 1#7 →
      regRegOp32 (functWord f7 f3) = (opTable32 f7 f3).map Alu.opOf := by
    decide +kernel
  rw [hword, htable _ _ h]

/-- The operator of the M extension. -/
def mulDivOf : MulOp ⊕ DivOp → FuOp := Sum.elim mulOf divOf

theorem regRegOp_mul (h : funct7 w = 1#7) :
    regRegOp w = some (mulDivOf (mulTable (funct3 w))) := by
  have hword : regRegOp w = regRegOp (functWord 1#7 (funct3 w)) := by
    rw [regRegOp, regRegOp, funct3_functWord, funct7_functWord, h]
  have htable : ∀ f3 : BitVec 3, regRegOp (functWord 1#7 f3) =
      some (mulDivOf (mulTable f3)) := by
    decide +kernel
  rw [hword, htable]

theorem regRegOp32_mul (h : funct7 w = 1#7) :
    regRegOp32 w = (mulTable32 (funct3 w)).map mulDivOf := by
  have hword : regRegOp32 w = regRegOp32 (functWord 1#7 (funct3 w)) := by
    rw [regRegOp32, regRegOp32, funct3_functWord, funct7_functWord, h]
  have htable : ∀ f3 : BitVec 3, regRegOp32 (functWord 1#7 f3) =
      (mulTable32 f3).map mulDivOf := by
    decide +kernel
  rw [hword, htable]

theorem branchOp_eq :
    branchOp w = (branchTable (funct3 w)).map Alu.condOf := by
  have hword : branchOp w = branchOp (functWord 0#7 (funct3 w)) := by
    rw [branchOp, branchOp, funct3_functWord]
  have htable : ∀ f3 : BitVec 3, branchOp (functWord 0#7 f3) =
      (branchTable f3).map Alu.condOf := by
    decide +kernel
  rw [hword, htable]

end Tables

/-! ## The opcodes -/

section Manual

/-! The rows of `decode` in the decoder's names for the fields. -/

variable {w : Decoder.Instr}

theorem decode_op (h : opcode w = OpcodeOp) : decode w =
    if funct7 w = 1#7 then
      some (.mulDiv (Decoder.rd w) (rs1 w) (rs2 w) (mulTable (funct3 w)))
    else (opTable (funct7 w) (funct3 w)).map fun o =>
      .op o (Decoder.rd w) (rs1 w) (rs2 w) := by
  unfold decode
  rw [show w.extractLsb' 0 7 = _ from h, if_pos rfl]
  rfl

theorem decode_op32 (h : opcode w = OpcodeOp32) : decode w =
    if funct7 w = 1#7 then
      (mulTable32 (funct3 w)).map (.mulDiv (Decoder.rd w) (rs1 w) (rs2 w))
    else (opTable32 (funct7 w) (funct3 w)).map fun o =>
      .op o (Decoder.rd w) (rs1 w) (rs2 w) := by
  unfold decode
  rw [show w.extractLsb' 0 7 = _ from h, if_neg (by decide), if_pos rfl]
  rfl

theorem decode_opImm (h : opcode w = OpcodeOpImm) : decode w =
    if funct3 w = 1#3 ∨ funct3 w = 5#3 then
      (shiftTable (w.extractLsb' 26 6) (funct3 w)).map fun o =>
        .opImm o (Decoder.rd w) (rs1 w) ((w.extractLsb' 20 6).setWidth 64)
    else (immTable (funct3 w)).map fun o =>
      .opImm o (Decoder.rd w) (rs1 w) ((Decoder.imm w).signExtend 64) := by
  unfold decode
  rw [show w.extractLsb' 0 7 = _ from h, if_neg (by decide),
    if_neg (by decide), if_pos rfl]
  rfl

theorem decode_opImm32 (h : opcode w = OpcodeOpImm32) : decode w =
    if funct3 w = 1#3 ∨ funct3 w = 5#3 then
      (shiftTable32 (funct7 w) (funct3 w)).map fun o =>
        .opImm o (Decoder.rd w) (rs1 w) ((rs2 w).setWidth 64)
    else if funct3 w = 0#3 then
      some (.opImm .addw (Decoder.rd w) (rs1 w)
        ((Decoder.imm w).signExtend 64))
    else none := by
  unfold decode
  rw [show w.extractLsb' 0 7 = _ from h, if_neg (by decide),
    if_neg (by decide), if_neg (by decide), if_pos rfl]
  rfl

end Manual

section Opcodes

variable {j : Decoder.In} {instr : Rv64Int.Instr}

/-- The decoder accepts the word for the unit and the operands of the
instruction. -/
structure Accepts (j : Decoder.In) (instr : Rv64Int.Instr) : Prop where
  decoded : decodeInstr j = asks instr
  immediate : ImmediateOf j.instruction instr

/-- The units of the integer instructions. -/
def integerUnit : FuT → Bool
  | .ALU | .CTRL_FLOW | .MULT => true
  | _ => false

/-- The decoder gives the word to none of these units. -/
def Passes (j : Decoder.In) : Prop :=
  (decodeInstr j).illegalInstr = true ∨
    integerUnit (decodeInstr j).fu = false

/-- What the decoder does with a word that may be an instruction. -/
def Agrees (j : Decoder.In) (o : Option Rv64Int.Instr) : Prop :=
  o.elim (Passes j) (Accepts j)

theorem agrees_of_none {o : Option Rv64Int.Instr} (ho : o = none)
    (h : Passes j) : Agrees j o := by
  subst ho
  exact h

theorem agrees_of_some {o : Option Rv64Int.Instr} (ho : o = some instr)
    (hd : decodeInstr j = asks instr)
    (hi : ImmediateOf j.instruction instr) : Agrees j o := by
  subst ho
  exact ⟨hd, hi⟩

/-- The register-register formats: an operation table of the decoder against
one of the manual. -/
theorem agrees_select {d : Decoded} {o : Option FuOp} {α : Type}
    {t : Option α} {of : α → FuOp} {mk : α → Rv64Int.Instr}
    (hd : decodeInstr j = d.select o) (ho : o = t.map of)
    (hmk : ∀ a, { d with op := of a } = asks (mk a))
    (himm : ∀ a, t = some a → ImmediateOf j.instruction (mk a)) :
    Agrees j (t.map mk) := by
  subst ho
  cases htable : t with
  | none =>
    refine agrees_of_none rfl (Or.inl ?_)
    rw [hd, htable]
    rfl
  | some a =>
    refine agrees_of_some rfl ?_ (himm a htable)
    rw [hd, htable]
    exact hmk a

/-- The prefix of the vectorial format is in no row of the table. -/
theorem opTable_vectorial {f7 : BitVec 7} (f3 : BitVec 3)
    (h : f7.extractLsb' 5 2 = 0b10#2) : f7 ≠ 1#7 ∧ opTable f7 f3 = none := by
  revert h
  revert f7 f3
  decide +kernel

theorem agrees_op (hex : j.ex.valid = false)
    (hopc : opcode j.instruction = OpcodeOp) :
    Agrees j (decode j.instruction) := by
  have hd : decodeInstr j = decodeOp j.instruction := by
    simp only [decodeInstr, hex, hopc, decodeUnit]
    rfl
  rw [decode_op hopc]
  unfold decodeOp at hd
  rw [prefix_of_funct7] at hd
  split_ifs at hd with hv
  · obtain ⟨hm, hnone⟩ := opTable_vectorial (funct3 j.instruction) hv
    rw [if_neg hm]
    refine agrees_of_none ?_ (Or.inl (by rw [hd]))
    exact congrArg (Option.map _) hnone
  · split_ifs with hm
    · unfold regReg at hd
      rw [if_pos hm] at hd
      refine agrees_select (t := some (mulTable (funct3 j.instruction)))
        hd (regRegOp_mul hm) (fun o => ?_) (fun o _ => ?_) <;>
        cases o <;> first | rfl | trivial
    · unfold regReg at hd
      rw [if_neg hm] at hd
      exact agrees_select hd (regRegOp_eq hm) (fun _ => rfl)
        fun _ _ => trivial

theorem agrees_op32 (hex : j.ex.valid = false)
    (hopc : opcode j.instruction = OpcodeOp32) :
    Agrees j (decode j.instruction) := by
  have hd : decodeInstr j = decodeOp32 j.instruction := by
    simp only [decodeInstr, hex, hopc, decodeUnit]
    rfl
  rw [decode_op32 hopc]
  unfold decodeOp32 regReg at hd
  split_ifs with hm
  · rw [if_pos hm] at hd
    refine agrees_select hd (regRegOp32_mul hm) (fun o => ?_)
      (fun o _ => ?_) <;> cases o <;> first | rfl | trivial
  · rw [if_neg hm] at hd
    exact agrees_select hd (regRegOp32_eq hm) (fun _ => rfl)
      fun _ _ => trivial

/-! ### The immediate operations -/

theorem low_imm (w : Decoder.Instr) {n : ℕ} (hn : n ≤ 12) :
    ((Decoder.imm w).signExtend 64).extractLsb' 0 n =
      w.extractLsb' 20 n := by
  refine BitVec.eq_of_getLsbD_eq fun k hk => ?_
  have h12 : k < 12 := by omega
  have h64 : k < 64 := by omega
  simp only [Decoder.imm, BitVec.getLsbD_extractLsb', BitVec.getLsbD_signExtend,
    Nat.zero_add, hk, h12, h64, decide_true, Bool.true_and, if_true]

theorem low_setWidth {n : ℕ} (hn : n ≤ 64) (x : BitVec n) :
    (x.setWidth 64).extractLsb' 0 n = x := by
  refine BitVec.eq_of_getLsbD_eq fun k hk => ?_
  have h64 : k < 64 := by omega
  simp only [BitVec.getLsbD_extractLsb', BitVec.getLsbD_setWidth,
    Nat.zero_add, hk, h64, decide_true, Bool.true_and]

/-- A shift looks at the lowest bits of the immediate, which the upper field
of the word does not reach. -/
theorem eval_shift {o : AluOp} {f3 : BitVec 3} {upper : BitVec 6}
    (h : shiftTable upper f3 = some o) (w : Decoder.Instr) (a : BitVec 64) :
    o.eval a ((Decoder.imm w).signExtend 64) =
      o.eval a ((w.extractLsb' 20 6).setWidth 64) := by
  have htable : ∀ (upper : BitVec 6) (f3 : BitVec 3), shiftTable upper f3 ∈
      [none, some AluOp.sll, some AluOp.srl, some AluOp.sra] := by
    decide +kernel
  have hlow : ((Decoder.imm w).signExtend 64).extractLsb' 0 6 =
      ((w.extractLsb' 20 6).setWidth 64).extractLsb' 0 6 :=
    (low_imm w (by decide)).trans (low_setWidth (by decide) _).symm
  have hrow := htable upper f3
  simp only [h, List.mem_cons, List.not_mem_nil, or_false, reduceCtorEq,
    false_or, Option.some.injEq] at hrow
  rcases hrow with rfl | rfl | rfl
  · exact congrArg (fun b : BitVec 6 => a <<< b.toNat) hlow
  · exact congrArg (fun b : BitVec 6 => a >>> b.toNat) hlow
  · exact congrArg (fun b : BitVec 6 => a.sshiftRight b.toNat) hlow

theorem eval_shift32 {o : AluOp} {f3 : BitVec 3} {f7 : BitVec 7}
    (h : shiftTable32 f7 f3 = some o) (w : Decoder.Instr) (a : BitVec 64) :
    o.eval a ((Decoder.imm w).signExtend 64) =
      o.eval a ((Decoder.rs2 w).setWidth 64) := by
  have htable : ∀ (f7 : BitVec 7) (f3 : BitVec 3), shiftTable32 f7 f3 ∈
      [none, some AluOp.sllw, some AluOp.srlw, some AluOp.sraw] := by
    decide +kernel
  have hlow : ((Decoder.imm w).signExtend 64).extractLsb' 0 5 =
      ((Decoder.rs2 w).setWidth 64).extractLsb' 0 5 :=
    (low_imm w (by decide)).trans (low_setWidth (by decide) _).symm
  have hrow := htable f7 f3
  simp only [h, List.mem_cons, List.not_mem_nil, or_false, reduceCtorEq,
    false_or, Option.some.injEq] at hrow
  rcases hrow with rfl | rfl | rfl
  · exact congrArg
      (fun b : BitVec 5 => word (a.setWidth 32 <<< b.toNat)) hlow
  · exact congrArg
      (fun b : BitVec 5 => word (a.setWidth 32 >>> b.toNat)) hlow
  · exact congrArg
      (fun b : BitVec 5 => word ((a.setWidth 32).sshiftRight b.toNat)) hlow

/-- The eight values of the function field. -/
theorem funct3_cases (f3 : BitVec 3) :
    f3 = 0#3 ∨ f3 = 1#3 ∨ f3 = 2#3 ∨ f3 = 3#3 ∨ f3 = 4#3 ∨ f3 = 5#3 ∨
      f3 = 6#3 ∨ f3 = 7#3 := by
  revert f3
  decide

theorem illegalIf_of_not {d : Decoded} {p : Prop} [Decidable p] (h : ¬ p) :
    d.illegalIf p = d := by
  rw [Decoded.illegalIf, decide_eq_false h, Bool.or_false]

theorem illegalIf_of {d : Decoded} {p : Prop} [Decidable p] (h : p) :
    (d.illegalIf p).illegalInstr = true := by
  rw [Decoded.illegalIf, decide_eq_true h, Bool.or_true]

/-- A shift to the left, where the decoder only checks the upper field. -/
theorem agrees_shiftLeft {a : AluOp} {row : Option AluOp} {imm : BitVec 64}
    {p : Prop} [Decidable p] (hrow : row = if p then none else some a)
    (hd : decodeInstr j =
      { regImm .ALU j.instruction with op := Alu.opOf a }.illegalIf p)
    (himm : row = some a → ∀ b,
      a.eval b ((Decoder.imm j.instruction).signExtend 64) = a.eval b imm) :
    Agrees j (row.map fun o => .opImm o (Decoder.rd j.instruction)
      (rs1 j.instruction) imm) := by
  subst hrow
  by_cases hp : p
  · refine agrees_of_none (by rw [if_pos hp]; rfl) (Or.inl ?_)
    rw [hd]
    exact illegalIf_of hp
  · rw [illegalIf_of_not hp] at hd
    rw [if_neg hp] at himm ⊢
    exact agrees_of_some rfl hd (himm rfl)

/-- The rows of the two shifts to the left. -/
theorem shiftTable_one (upper : BitVec 6) : shiftTable upper 1#3 =
    if upper ≠ 0#6 then none else some .sll := by
  revert upper
  decide +kernel

theorem shiftTable32_one (f7 : BitVec 7) : shiftTable32 f7 1#3 =
    if f7 ≠ 0#7 then none else some .sllw := by
  revert f7
  decide +kernel

/-- The rows of the shifts to the right. -/
theorem shiftTable_five (upper : BitVec 6) :
    (if upper = 0#6 then some FuOp.SRL
      else if upper = 0b010000#6 then some .SRA else none) =
      (shiftTable upper 5#3).map Alu.opOf := by
  revert upper
  decide +kernel

theorem shiftTable32_five (f7 : BitVec 7) :
    (if f7 = 0#7 then some FuOp.SRLW
      else if f7 = 0b0100000#7 then some .SRAW else none) =
      (shiftTable32 f7 5#3).map Alu.opOf := by
  revert f7
  decide +kernel

theorem agrees_opImm (hex : j.ex.valid = false)
    (hopc : opcode j.instruction = OpcodeOpImm) :
    Agrees j (decode j.instruction) := by
  have hd : decodeInstr j = decodeOpImm j.instruction := by
    simp only [decodeInstr, hex, hopc, decodeUnit]
    rfl
  rw [decode_opImm hopc]
  unfold decodeOpImm at hd
  dsimp only at hd
  rcases funct3_cases (funct3 j.instruction) with
    hf | hf | hf | hf | hf | hf | hf | hf
  case inr.inl =>
    rw [hf] at hd ⊢
    rw [if_pos (Or.inl rfl)]
    exact agrees_shiftLeft (shiftTable_one _) hd
      fun hrow => eval_shift hrow _
  case inr.inr.inr.inr.inr.inl =>
    rw [hf] at hd ⊢
    rw [if_pos (Or.inr rfl)]
    exact agrees_select hd (shiftTable_five _) (fun _ => rfl)
      fun _ hrow => eval_shift hrow _
  all_goals
    rw [hf] at hd ⊢
    rw [if_neg (by decide)]
    exact agrees_of_some rfl hd fun _ => rfl

theorem agrees_opImm32 (hex : j.ex.valid = false)
    (hopc : opcode j.instruction = OpcodeOpImm32) :
    Agrees j (decode j.instruction) := by
  have hd : decodeInstr j = decodeOpImm32 j.instruction := by
    simp only [decodeInstr, hex, hopc, decodeUnit]
    rfl
  rw [decode_opImm32 hopc]
  unfold decodeOpImm32 at hd
  dsimp only at hd
  rcases funct3_cases (funct3 j.instruction) with
    hf | hf | hf | hf | hf | hf | hf | hf
  case inl =>
    rw [hf] at hd ⊢
    rw [if_neg (by decide), if_pos rfl]
    exact agrees_of_some rfl hd fun _ => rfl
  case inr.inl =>
    rw [hf] at hd ⊢
    rw [if_pos (Or.inl rfl)]
    exact agrees_shiftLeft (shiftTable32_one _) hd
      fun hrow => eval_shift32 hrow _
  case inr.inr.inr.inr.inr.inl =>
    rw [hf] at hd ⊢
    rw [if_pos (Or.inr rfl)]
    exact agrees_select hd (shiftTable32_five _) (fun _ => rfl)
      fun _ hrow => eval_shift32 hrow _
  all_goals
    rw [hf] at hd ⊢
    rw [if_neg (by decide), if_neg (by decide)]
    exact agrees_of_none rfl (Or.inl (congrArg Decoded.illegalInstr hd))

/-! ### Upper immediates and control flow -/

theorem agrees_lui (hex : j.ex.valid = false)
    (hopc : opcode j.instruction = OpcodeLui) :
    Agrees j (decode j.instruction) := by
  have hd : decodeInstr j = decodeLui j.instruction := by
    simp only [decodeInstr, hex, hopc, decodeUnit]
    rfl
  have hdec : decode j.instruction =
      some (.lui (Decoder.rd j.instruction)
        (j.instruction.extractLsb' 12 20)) := by
    unfold decode
    rw [show j.instruction.extractLsb' 0 7 = _ from hopc, if_neg (by decide),
      if_neg (by decide), if_neg (by decide), if_neg (by decide), if_pos rfl]
    rfl
  rw [hdec]
  exact agrees_of_some rfl hd rfl

theorem agrees_auipc (hex : j.ex.valid = false)
    (hopc : opcode j.instruction = OpcodeAuipc) :
    Agrees j (decode j.instruction) := by
  have hd : decodeInstr j = decodeAuipc j.instruction := by
    simp only [decodeInstr, hex, hopc, decodeUnit]
    rfl
  have hdec : decode j.instruction =
      some (.auipc (Decoder.rd j.instruction)
        (j.instruction.extractLsb' 12 20)) := by
    unfold decode
    rw [show j.instruction.extractLsb' 0 7 = _ from hopc, if_neg (by decide),
      if_neg (by decide), if_neg (by decide), if_neg (by decide),
      if_neg (by decide), if_pos rfl]
    rfl
  rw [hdec]
  exact agrees_of_some rfl hd rfl

theorem agrees_branch (hex : j.ex.valid = false)
    (hopc : opcode j.instruction = OpcodeBranch) :
    Agrees j (decode j.instruction) := by
  have hd : decodeInstr j = decodeBranch j.instruction := by
    simp only [decodeInstr, hex, hopc, decodeUnit]
    rfl
  have hdec : decode j.instruction =
      (branchTable (funct3 j.instruction)).map fun c =>
        .branch c (rs1 j.instruction) (rs2 j.instruction)
          (j.instruction.extractLsb' 31 1 ++ j.instruction.extractLsb' 7 1 ++
            j.instruction.extractLsb' 25 6 ++
            j.instruction.extractLsb' 8 4) := by
    unfold decode
    rw [show j.instruction.extractLsb' 0 7 = _ from hopc, if_neg (by decide),
      if_neg (by decide), if_neg (by decide), if_neg (by decide),
      if_neg (by decide), if_neg (by decide), if_pos rfl]
    rfl
  rw [hdec]
  unfold decodeBranch at hd
  have hop := branchOp_eq (w := j.instruction)
  cases hrow : branchTable (funct3 j.instruction) with
  | none =>
    rw [hrow] at hop
    refine agrees_of_none rfl (Or.inl ?_)
    rw [hd, hop]
    rfl
  | some c =>
    rw [hrow] at hop
    refine agrees_of_some rfl ?_ rfl
    rw [hd, hop]
    rfl

theorem agrees_jal (hex : j.ex.valid = false)
    (hopc : opcode j.instruction = OpcodeJal) :
    Agrees j (decode j.instruction) := by
  have hd : decodeInstr j = decodeJal j.instruction := by
    simp only [decodeInstr, hex, hopc, decodeUnit]
    rfl
  have hdec : decode j.instruction =
      some (.jal (Decoder.rd j.instruction)
        (j.instruction.extractLsb' 31 1 ++ j.instruction.extractLsb' 12 8 ++
          j.instruction.extractLsb' 20 1 ++
          j.instruction.extractLsb' 21 10)) := by
    unfold decode
    rw [show j.instruction.extractLsb' 0 7 = _ from hopc, if_neg (by decide),
      if_neg (by decide), if_neg (by decide), if_neg (by decide),
      if_neg (by decide), if_neg (by decide), if_neg (by decide), if_pos rfl]
    rfl
  rw [hdec]
  exact agrees_of_some rfl hd rfl

theorem agrees_jalr (hex : j.ex.valid = false)
    (hopc : opcode j.instruction = OpcodeJalr) :
    Agrees j (decode j.instruction) := by
  have hd : decodeInstr j = decodeJalr j.instruction := by
    simp only [decodeInstr, hex, hopc, decodeUnit]
    rfl
  have hdec : decode j.instruction = if funct3 j.instruction = 0#3 then
      some (.jalr (Decoder.rd j.instruction) (rs1 j.instruction)
        (Decoder.imm j.instruction)) else none := by
    unfold decode
    rw [show j.instruction.extractLsb' 0 7 = _ from hopc, if_neg (by decide),
      if_neg (by decide), if_neg (by decide), if_neg (by decide),
      if_neg (by decide), if_neg (by decide), if_neg (by decide),
      if_neg (by decide), if_pos rfl]
    rfl
  unfold decodeJalr at hd
  rw [hdec]
  split_ifs with hf
  · rw [illegalIf_of_not (not_not.mpr hf)] at hd
    exact agrees_of_some rfl hd rfl
  · exact agrees_of_none rfl
      (Or.inl ((congrArg Decoded.illegalInstr hd).trans (illegalIf_of hf)))

/-! ### The other opcodes -/

/-- The opcodes of RV64IM that only compute or jump. -/
def integerOpcodes : List (BitVec 7) :=
  [OpcodeOp, OpcodeOp32, OpcodeOpImm, OpcodeOpImm32, OpcodeLui, OpcodeAuipc,
    OpcodeBranch, OpcodeJal, OpcodeJalr]

theorem decode_eq_none {w : Decoder.Instr}
    (h : opcode w ∉ integerOpcodes) : decode w = none := by
  simp only [integerOpcodes, List.mem_cons, List.not_mem_nil, or_false,
    not_or, Decoder.opcode] at h
  obtain ⟨h1, h2, h3, h4, h5, h6, h7, h8, h9⟩ := h
  unfold decode
  dsimp only
  rw [if_neg h1, if_neg h2, if_neg h3, if_neg h4, if_neg h5, if_neg h6,
    if_neg h7, if_neg h8, if_neg h9]

/-- A unit that is none of the three, or an illegal word. -/
def Outside (d : Decoded) : Prop :=
  d.illegalInstr = true ∨ integerUnit d.fu = false

theorem outside_of_fu {d : Decoded} (h : integerUnit d.fu = false) :
    Outside d := Or.inr h

theorem outside_ite {c : Prop} [Decidable c] {a b : Decoded}
    (ha : Outside a) (hb : Outside b) : Outside (if c then a else b) := by
  by_cases hc : c
  · rwa [if_pos hc]
  · rwa [if_neg hc]

theorem outside_system : Outside (decodeSystem j) := by
  refine outside_of_fu ?_
  unfold decodeSystem decodePriv
  dsimp only
  split <;> try rfl
  split_ifs <;> rfl

theorem outside_miscMem {w : Decoder.Instr} : Outside (decodeMiscMem w) := by
  refine outside_of_fu ?_
  unfold decodeMiscMem
  dsimp only
  rw [illegalIf_fu]
  split <;> rfl

theorem outside_opFp : Outside (decodeOpFp j) := by
  unfold decodeOpFp
  dsimp only
  refine outside_ite (Or.inl rfl) (outside_of_fu ?_)
  rw [illegalIf_fu, opFpSelect_fu]
  rfl

theorem outside_amo {w : Decoder.Instr} : Outside (decodeAmo w) := by
  unfold decodeAmo
  dsimp only
  refine outside_ite (outside_of_fu ?_) (Or.inl rfl)
  rw [illegalIf_fu, select_fu]
  rfl

theorem outside_select {d : Decoded} (h : integerUnit d.fu = false)
    (o : Option FuOp) : Outside (d.select o) := by
  refine outside_of_fu ?_
  rwa [select_fu]

theorem outside_other (h : opcode j.instruction ∉ integerOpcodes) :
    Outside (decodeUnit j) := by
  simp only [integerOpcodes, List.mem_cons, List.not_mem_nil, or_false,
    not_or] at h
  obtain ⟨h1, h2, h3, h4, h5, h6, h7, h8, h9⟩ := h
  unfold decodeUnit
  dsimp only
  rw [if_neg h1, if_neg h2, if_neg h3, if_neg h4]
  refine outside_ite (outside_select rfl _) <|
    outside_ite (outside_select rfl _) <|
    outside_ite (outside_ite (Or.inl rfl) (outside_select rfl _)) <|
    outside_ite (outside_ite (Or.inl rfl) (outside_select rfl _)) <|
    outside_ite (outside_ite (Or.inl rfl) (outside_of_fu rfl)) <|
    outside_ite outside_opFp <| outside_ite outside_amo ?_
  rw [if_neg h7, if_neg h9, if_neg h8, if_neg h6, if_neg h5]
  exact Or.inl rfl

theorem agrees_other (hex : j.ex.valid = false)
    (h : opcode j.instruction ∉ integerOpcodes) :
    Agrees j (decode j.instruction) := by
  refine agrees_of_none (decode_eq_none h) ?_
  show Outside (decodeInstr j)
  unfold decodeInstr
  rw [hex, if_neg Bool.false_ne_true]
  exact outside_ite outside_system <|
    outside_ite outside_miscMem (outside_other h)

/-- The decoder accepts the instructions of RV64IM for these units, and
nothing else. -/
theorem agrees (hex : j.ex.valid = false) :
    Agrees j (decode j.instruction) := by
  by_cases h : opcode j.instruction ∈ integerOpcodes
  · simp only [integerOpcodes, List.mem_cons, List.not_mem_nil,
      or_false] at h
    rcases h with h | h | h | h | h | h | h | h | h
    · exact agrees_op hex h
    · exact agrees_op32 hex h
    · exact agrees_opImm hex h
    · exact agrees_opImm32 hex h
    · exact agrees_lui hex h
    · exact agrees_auipc hex h
    · exact agrees_branch hex h
    · exact agrees_jal hex h
    · exact agrees_jalr hex h
  · exact agrees_other hex h

end Opcodes

end ArianeSoc.Execute
