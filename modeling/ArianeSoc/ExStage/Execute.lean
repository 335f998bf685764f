import ArianeSoc.ExStage.BranchUnit
import ArianeSoc.ExStage.Integer
import ArianeSoc.Issue.Operands

/-!
# The integer instructions in their units

The operand multiplexers and the units against `Rv64Int`: the unit that
gets an instruction computes its value and its successor.

* `Reads` says that the operand multiplexers see the registers of the hart.
* `executes` is the result, for every run of the issue stage.
-/

namespace ArianeSoc.Execute

open Decoder Rv64Int
open Frontend (Cf)

/-! ## The operands -/

section Operands

open ReadOperands (FuData reName source)

/-- The entry of the scoreboard for what the decoder gives, issued under the
id `k`. -/
def entry (j : Decoder.In) (k : BitVec 3) : ScoreboardEntry :=
  { reName (decoder j) with transId := k }

/-- The operand multiplexers see the registers `x` that the instruction
reads. -/
structure Reads (q : ReadOperands.State) (i : ReadOperands.In)
    (x : InstrFormat.Reg → BitVec 64) (instr : Rv64Int.Instr) : Prop where
  zero : source q i true Reg.zero = 0#64
  source : ∀ r ∈ instr.sources, source q i true ⟨false, regAddr r⟩ = x r

variable {j : Decoder.In} {q : ReadOperands.State} {i : ReadOperands.In}
  {k : BitVec 3} {d : Decoded} {r : InstrFormat.Reg} {v : BitVec 64}

theorem rename_regAddr : ((regAddr r).setWidth 5).setWidth 6 = regAddr r := by
  rw [regAddr, BitVec.setWidth_setWidth_of_le r (by decide : 5 ≤ 6),
    BitVec.setWidth_eq]

theorem rs1_entry (hd : decodeInstr j = d) (hr : d.rs1 = regAddr r)
    (hf : isRs1Fpr d.op = false) :
    ReadOperands.rs1 (entry j k) = ⟨false, regAddr r⟩ := by
  subst hd
  simp only [ReadOperands.rs1, entry, reName, decoder, hf, hr,
    rename_regAddr]

theorem rs2_entry (hd : decodeInstr j = d) (hr : d.rs2 = regAddr r)
    (hf : isRs2Fpr d.op = false) :
    ReadOperands.rs2 (entry j k) = ⟨false, regAddr r⟩ := by
  subst hd
  simp only [ReadOperands.rs2, entry, reName, decoder, hf, hr,
    rename_regAddr]

theorem operandAN_eq (hi : i.issueInstr = entry j k)
    (hd : decodeInstr j = d) (hz : d.useZimm = false)
    (hr : d.rs1 = regAddr r) (hf : isRs1Fpr d.op = false)
    (hv : source q i true ⟨false, regAddr r⟩ = v) :
    ReadOperands.operandAN q i = if d.usePc then j.pc else v := by
  have hreg := rs1_entry (k := k) hd hr hf
  subst hd
  have hzimm : (entry j k).useZimm = false := hz
  unfold ReadOperands.operandAN
  dsimp only
  rw [hi, hzimm, hreg, Bool.not_false, hv]
  rfl

theorem operandBN_reg (hi : i.issueInstr = entry j k)
    (hd : decodeInstr j = d)
    (himm : usesImmediate d.immSelect = false ∨ d.fu = .CTRL_FLOW)
    (hr : d.rs2 = regAddr r) (hf : isRs2Fpr d.op = false)
    (hv : source q i true ⟨false, regAddr r⟩ = v) :
    ReadOperands.operandBN q i = v := by
  have hreg := rs2_entry (k := k) hd hr hf
  subst hd
  have hno : ReadOperands.immediateB (entry j k) = false := by
    rcases himm with h | h <;>
      simp [ReadOperands.immediateB, entry, reName, decoder, h]
  unfold ReadOperands.operandBN
  dsimp only
  rw [hi, hno, hreg, if_neg Bool.false_ne_true, hv]

theorem result_entry (hf : isImmFpr (decodeInstr j).op = false) :
    (entry j k).result = immediate j.instruction (decodeInstr j).immSelect := by
  show (if isImmFpr (decodeInstr j).op then _ else _ : BitVec 64) = _
  rw [hf, if_neg Bool.false_ne_true]
  rfl

theorem operandBN_imm (hi : i.issueInstr = entry j k)
    (hd : decodeInstr j = d) (himm : usesImmediate d.immSelect = true)
    (hfu : d.fu = .ALU) (hf : isRs2Fpr d.op = false)
    (hf' : isImmFpr d.op = false) :
    ReadOperands.operandBN q i = immediate j.instruction d.immSelect := by
  subst hd
  have hyes : ReadOperands.immediateB (entry j k) = true := by
    simp [ReadOperands.immediateB, entry, reName, decoder, himm, hfu, hf]
  unfold ReadOperands.operandBN
  dsimp only
  rw [hi, hyes, if_pos rfl, result_entry hf']

theorem immN_eq (hi : i.issueInstr = entry j k) (hd : decodeInstr j = d)
    (hf : isImmFpr d.op = false) :
    ReadOperands.immN q i = immediate j.instruction d.immSelect := by
  subst hd
  have hop : isImmFpr (entry j k).op = false := hf
  unfold ReadOperands.immN
  dsimp only
  rw [hi, hop, if_neg Bool.false_ne_true, result_entry hf]

end Operands

/-! ## The units -/

section Units

open ReadOperands (FuData)

/-- The branch unit's inputs for the operands of an instruction. -/
def branchIn (j : Decoder.In) (d : FuData) (cf : Cf) : BranchUnit.In where
  fuData := d
  pc := j.pc
  isCompressedInstr := j.isCompressed
  branchValid := true
  branchCompRes := Alu.aluBranchResO d
  cf := cf
  predictAddress := j.predictAddress

/-- The length of the instruction in bytes. -/
def len (j : Decoder.In) : BitVec 64 :=
  if j.isCompressed then 2#64 else 4#64

/-- The operands that the multiplier and the divider get. -/
def Multiplies (d : FuData) (x : InstrFormat.Reg → BitVec 64) :
    Rv64Int.Instr → Prop
  | .mul o _ rs1 rs2 =>
    d.operator = mulOf o ∧ d.operandA = x rs1 ∧ d.operandB = x rs2
  | .div o _ rs1 rs2 =>
    d.operator = divOf o ∧ d.operandA = x rs1 ∧ d.operandB = x rs2
  | _ => True

/-- The unit that `d` goes to does what the instruction asks for. -/
structure Executes (j : Decoder.In) (d : FuData)
    (x : InstrFormat.Reg → BitVec 64) (instr : Rv64Int.Instr) : Prop where
  legal : (decodeInstr j).illegalInstr = false
  rd : (decodeInstr j).rd = (asks instr).rd
  unit : d.fu = (asks instr).fu
  alu : d.fu = .ALU →
    some (Alu.resultO d) = instr.value x j.pc (len j) ∧
      instr.next x j.pc (len j) = j.pc + len j
  branch : d.fu = .CTRL_FLOW →
    ∀ cf, BranchUnit.Resolves (branchIn j d cf) x instr
  mult : d.fu = .MULT → Multiplies d x instr

variable {j : Decoder.In} {q : ReadOperands.State} {i : ReadOperands.In}
  {x : InstrFormat.Reg → BitVec 64} {k : BitVec 3} {instr : Rv64Int.Instr}

/-- The operation of an ALU operation is on integer registers. -/
theorem opOf_fpr (o : AluOp) :
    isRs1Fpr (Alu.opOf o) = false ∧ isRs2Fpr (Alu.opOf o) = false ∧
      isImmFpr (Alu.opOf o) = false := by
  cases o <;> exact ⟨rfl, rfl, rfl⟩

theorem condOf_fpr (c : Cond) :
    isRs1Fpr (Alu.condOf c) = false ∧ isRs2Fpr (Alu.condOf c) = false ∧
      isImmFpr (Alu.condOf c) = false := by
  cases c <;> exact ⟨rfl, rfl, rfl⟩

theorem mulDivOf_fpr (o : MulOp ⊕ DivOp) :
    isRs1Fpr (mulDivOf o) = false ∧ isRs2Fpr (mulDivOf o) = false := by
  rcases o with o | ⟨_ | _, _ | _, _ | _⟩
  · cases o <;> exact ⟨rfl, rfl⟩
  all_goals exact ⟨rfl, rfl⟩

/-- The registers of an accepted instruction are those of its entry. -/
theorem sources_entry (hd : decodeInstr j = asks instr)
    {r : InstrFormat.Reg} (hr : r ∈ instr.sources) :
    ReadOperands.rs1 (entry j k) = ⟨false, regAddr r⟩ ∨
      ReadOperands.rs2 (entry j k) = ⟨false, regAddr r⟩ := by
  cases instr with
  | op o rd rs1 rs2 =>
    obtain ⟨h1, h2, -⟩ := opOf_fpr o
    rcases List.mem_pair.mp hr with rfl | rfl
    · exact Or.inl (rs1_entry hd rfl h1)
    · exact Or.inr (rs2_entry hd rfl h2)
  | opImm o rd rs1 imm =>
    rw [List.mem_singleton.mp hr]
    exact Or.inl (rs1_entry hd rfl (opOf_fpr o).1)
  | mul o rd rs1 rs2 =>
    obtain ⟨h1, h2⟩ := mulDivOf_fpr (.inl o)
    rcases List.mem_pair.mp hr with rfl | rfl
    · exact Or.inl (rs1_entry hd rfl h1)
    · exact Or.inr (rs2_entry hd rfl h2)
  | div o rd rs1 rs2 =>
    obtain ⟨h1, h2⟩ := mulDivOf_fpr (.inr o)
    rcases List.mem_pair.mp hr with rfl | rfl
    · exact Or.inl (rs1_entry hd rfl h1)
    · exact Or.inr (rs2_entry hd rfl h2)
  | branch c rs1 rs2 half =>
    obtain ⟨h1, h2, -⟩ := condOf_fpr c
    rcases List.mem_pair.mp hr with rfl | rfl
    · exact Or.inl (rs1_entry hd rfl h1)
    · exact Or.inr (rs2_entry hd rfl h2)
  | jalr rd rs1 imm =>
    rw [List.mem_singleton.mp hr]
    exact Or.inl (rs1_entry hd rfl rfl)
  | _ => cases hr

/-- What the operand registers get besides the operands. -/
theorem fuData_of (hi : i.issueInstr = entry j k)
    (hd : decodeInstr j = asks instr) :
    (ReadOperands.step q i).fuData.fu = (asks instr).fu ∧
      (ReadOperands.step q i).fuData.operator = (asks instr).op := by
  rw [← hd]
  exact ⟨congrArg ScoreboardEntry.fu hi, congrArg ScoreboardEntry.op hi⟩

theorem executes_alu (hi : i.issueInstr = entry j k)
    (hd : decodeInstr j = asks instr) (hunit : (asks instr).fu = .ALU)
    (h : some (Alu.resultO (ReadOperands.step q i).fuData) =
      instr.value x j.pc (len j)) :
    Executes j (ReadOperands.step q i).fuData x instr := by
  have hu := (fuData_of (q := q) hi hd).1
  refine ⟨by rw [hd]; cases instr <;> rfl, congrArg Decoded.rd hd, hu,
    fun _ => ⟨h, ?_⟩, fun hf => ?_, fun hf => ?_⟩
  · cases instr <;> first | rfl | cases hunit
  · rw [hu, hunit] at hf
    cases hf
  · rw [hu, hunit] at hf
    cases hf

theorem executes_branch (hi : i.issueInstr = entry j k)
    (hd : decodeInstr j = asks instr) (hunit : (asks instr).fu = .CTRL_FLOW)
    (h : ∀ cf, BranchUnit.Holds
      (branchIn j (ReadOperands.step q i).fuData cf) x instr) :
    Executes j (ReadOperands.step q i).fuData x instr := by
  have hu := (fuData_of (q := q) hi hd).1
  refine ⟨by rw [hd]; cases instr <;> rfl, congrArg Decoded.rd hd, hu,
    fun hf => ?_, fun _ cf => BranchUnit.resolves ?_ rfl (h cf),
    fun hf => ?_⟩
  · rw [hu, hunit] at hf
    cases hf
  · cases instr <;> first | rfl | cases hunit
  · rw [hu, hunit] at hf
    cases hf

theorem executes_mult (hi : i.issueInstr = entry j k)
    (hd : decodeInstr j = asks instr) (hunit : (asks instr).fu = .MULT)
    (h : Multiplies (ReadOperands.step q i).fuData x instr) :
    Executes j (ReadOperands.step q i).fuData x instr := by
  have hu := (fuData_of (q := q) hi hd).1
  refine ⟨by rw [hd]; cases instr <;> rfl, congrArg Decoded.rd hd, hu,
    fun hf => ?_, fun hf => ?_, fun _ => h⟩
  · rw [hu, hunit] at hf
    cases hf
  · rw [hu, hunit] at hf
    cases hf

/-- An accepted instruction is executed. -/
theorem executes_of_accepts (ha : Accepts j instr)
    (hi : i.issueInstr = entry j k) (hx : Reads q i x instr) :
    Executes j (ReadOperands.step q i).fuData x instr := by
  obtain ⟨hd, himm⟩ := ha
  have hop := (fuData_of (q := q) hi hd).2
  cases instr with
  | op o rd rs1 rs2 =>
    obtain ⟨h1, h2, -⟩ := opOf_fpr o
    refine executes_alu hi hd rfl (congrArg some ?_)
    rw [Alu.resultO_eq hop]
    show o.eval (ReadOperands.operandAN q i) (ReadOperands.operandBN q i) = _
    rw [operandAN_eq hi hd rfl rfl h1 (hx.source _ (by simp [Instr.sources])),
      operandBN_reg hi hd (Or.inl rfl) rfl h2
        (hx.source _ (by simp [Instr.sources]))]
    rfl
  | opImm o rd rs1 imm =>
    obtain ⟨h1, h2, h3⟩ := opOf_fpr o
    refine executes_alu hi hd rfl (congrArg some ?_)
    rw [Alu.resultO_eq hop]
    show o.eval (ReadOperands.operandAN q i) (ReadOperands.operandBN q i) = _
    rw [operandAN_eq hi hd rfl rfl h1 (hx.source _ (by simp [Instr.sources])),
      operandBN_imm hi hd rfl rfl h2 h3]
    exact himm _
  | lui rd imm =>
    refine executes_alu hi hd rfl (congrArg some ?_)
    rw [Alu.resultO_eq (o := .add) hop]
    show ReadOperands.operandAN q i + ReadOperands.operandBN q i = _
    rw [operandAN_eq (r := 0#5) hi hd rfl rfl rfl hx.zero,
      operandBN_imm hi hd rfl rfl rfl rfl]
    exact (BitVec.zero_add _).trans himm
  | auipc rd imm =>
    refine executes_alu hi hd rfl (congrArg some ?_)
    rw [Alu.resultO_eq (o := .add) hop]
    show ReadOperands.operandAN q i + ReadOperands.operandBN q i = _
    rw [operandAN_eq (r := 0#5) hi hd rfl rfl rfl hx.zero,
      operandBN_imm hi hd rfl rfl rfl rfl]
    exact congrArg (j.pc + ·) himm
  | mul o rd rs1 rs2 =>
    obtain ⟨h1, h2⟩ := mulDivOf_fpr (.inl o)
    exact executes_mult hi hd rfl ⟨hop,
      operandAN_eq hi hd rfl rfl h1 (hx.source _ (by simp [Instr.sources])),
      operandBN_reg hi hd (Or.inl rfl) rfl h2
        (hx.source _ (by simp [Instr.sources]))⟩
  | div o rd rs1 rs2 =>
    obtain ⟨h1, h2⟩ := mulDivOf_fpr (.inr o)
    exact executes_mult hi hd rfl ⟨hop,
      operandAN_eq hi hd rfl rfl h1 (hx.source _ (by simp [Instr.sources])),
      operandBN_reg hi hd (Or.inl rfl) rfl h2
        (hx.source _ (by simp [Instr.sources]))⟩
  | branch c rs1 rs2 half =>
    obtain ⟨h1, h2, h3⟩ := condOf_fpr c
    exact executes_branch hi hd rfl fun cf => ⟨hop, rfl,
      (immN_eq hi hd h3).trans himm,
      operandAN_eq hi hd rfl rfl h1 (hx.source _ (by simp [Instr.sources])),
      operandBN_reg hi hd (Or.inr rfl) rfl h2
        (hx.source _ (by simp [Instr.sources]))⟩
  | jal rd half =>
    exact executes_branch hi hd rfl fun cf => ⟨hop, rfl,
      (immN_eq hi hd rfl).trans himm, trivial⟩
  | jalr rd rs1 imm =>
    exact executes_branch hi hd rfl fun cf => ⟨hop, rfl,
      (immN_eq hi hd rfl).trans himm,
      operandAN_eq hi hd rfl rfl rfl
        (hx.source _ (by simp [Instr.sources]))⟩

end Units

/-! ## The pipeline -/

section Pipeline

open IssueStage

variable {b : ℕ} {wtDcache : Bool} {t : Tracked b} {e : Env b}
  {x : InstrFormat.Reg → BitVec 64} {instr : Rv64Int.Instr}

/-- Register `r` is `v` for the instruction of this cycle: the value of its
youngest writer in flight or, without one, that of the register file.  No
writer of `r` is going to be taken back, and no port carries the id of an
instruction that was. -/
structure Settled (t : Tracked b) (e : Env b) (r : InstrFormat.Reg)
    (v : BitVec 64) : Prop where
  fresh : FreshPorts t e ⟨false, regAddr r⟩
  sound : ∀ w ∈ t.inflight, dest w.entry = ⟨false, regAddr r⟩ → Sound w
  value : valueOf (fun _ => true) t e.wb ⟨false, regAddr r⟩ = some v

theorem issueInstr_readIn : (readIn wtDcache t.st e).issueInstr =
    entry e.dec (t.st.sb.issuePointer.setWidth 3) := rfl

/-- Register zero is never forwarded. -/
theorem source_zero (h : Inv t) :
    ReadOperands.source t.st.iro (readIn wtDcache t.st e) true Reg.zero =
      0#64 := by
  have hfree : (readIn wtDcache t.st e).rdClobber Reg.zero = .NONE := rfl
  have hno : ReadOperands.forward (readIn wtDcache t.st e) true Reg.zero =
      false := by
    simp [ReadOperands.forward, hfree]
  rw [ReadOperands.source, hno]
  exact h.zero

/-- A register that does not make the instruction wait is read. -/
theorem source_of_settled (h : Inv t) {r : InstrFormat.Reg} {v : BitVec 64}
    (hs : Settled t e r v)
    (hstall : ReadOperands.stallOn (readIn wtDcache t.st e) true
      ⟨false, regAddr r⟩ = false) :
    ReadOperands.source t.st.iro (readIn wtDcache t.st e) true
      ⟨false, regAddr r⟩ = v := by
  have hd := (delivered_source h hs.fresh hstall).youngest hs.sound
  rw [hs.value] at hd
  exact (Option.some.inj hd).symm

/-- The registers of an instruction do not make it wait, if it goes to a
unit. -/
theorem reads_of_unitValid (h : Inv t)
    (hd : decodeInstr e.dec = asks instr)
    (hstall : ReadOperands.stall (readIn wtDcache t.st e) = false)
    (hs : ∀ r ∈ instr.sources, Settled t e r (x r)) :
    Reads t.st.iro (readIn wtDcache t.st e) x instr := by
  refine ⟨source_zero h, fun r hr =>
    source_of_settled h (hs r hr) ?_⟩
  simp only [ReadOperands.stall, Bool.or_eq_false_iff] at hstall
  obtain ⟨⟨h1, h2⟩, -⟩ := hstall
  have hzimm : (readIn wtDcache t.st e).issueInstr.useZimm = false := by
    show (decodeInstr e.dec).useZimm = false
    rw [hd]
    cases instr <;> rfl
  rw [hzimm, Bool.not_false] at h1
  rcases sources_entry hd hr with heq | heq
  · rw [← heq]
    exact h1
  · rw [← heq]
    exact h2

/-- Whenever a unit gets an instruction, in any run, it is an instruction of
RV64IM exactly if the unit is one of the three, and the unit executes it on
the registers at this point of the program. -/
theorem executes (wtDcache : Bool) (es : List (Env b)) (e : Env b)
    (x : InstrFormat.Reg → BitVec 64) :
    let t := Sync.run (track wtDcache) (Tracked.reset b) es
    let next := (track wtDcache t e).st.iro
    next.unitValid = true →
      match decode e.dec.instruction with
      | none => integerUnit next.fuData.fu = false
      | some instr =>
        (∀ r ∈ instr.sources, Settled t e r (x r)) →
          Executes e.dec next.fuData x instr := by
  intro t next hunit
  have h : Inv t := inv_run wtDcache es
  obtain ⟨hhanded, hfu⟩ := ReadOperands.unitValid_step.mp hunit
  simp only [ReadOperands.handed, Bool.and_eq_true,
    Bool.not_eq_true'] at hhanded
  obtain ⟨hstall, -⟩ :=
    ReadOperands.ready_of_issueAck hhanded.1.2 hhanded.1.1.1 hfu
  have hvalid : (exception e.dec (decodeInstr e.dec)).valid = false :=
    hhanded.1.1.1
  obtain ⟨hex, hown, -, -⟩ := exception_valid_eq_false.mp hvalid
  have hlegal : (decodeInstr e.dec).illegalInstr = false := by
    by_contra hill
    rw [instrException, if_pos (Or.inl (Bool.eq_true_of_not_eq_false hill))]
      at hown
    cases hown
  have hagrees := agrees (j := e.dec) hex
  cases hdec : decode e.dec.instruction with
  | none =>
    rw [hdec] at hagrees
    rcases hagrees with hill | hother
    · rw [hlegal] at hill
      cases hill
    · exact hother
  | some instr =>
    rw [hdec] at hagrees
    exact fun hs => executes_of_accepts hagrees issueInstr_readIn
      (reads_of_unitValid h hagrees.decoded hstall hs)

/-- `addi x6, x5, 0` reads the value of `x5` from the port on which it is
written back. -/
theorem executes_forwarded :
    let t := Sync.run (track false) (Tracked.reset 3) [Env.fetched SET_ONE]
    let e := (Env.fetched COPY).writing 0#3 1#64
    Executes e.dec (track false t e).st.iro.fuData
      (fun r => if r = 5#5 then 1#64 else 0#64)
      (.opImm .add 6#5 5#5 0#64) := by
  have h := executes false [Env.fetched SET_ONE]
    ((Env.fetched COPY).writing 0#3 1#64)
    (fun r => if r = 5#5 then 1#64 else 0#64) (by decide +kernel)
  have hdec : decode ((Env.fetched COPY : Env 3).writing 0#3
      1#64).dec.instruction = some (.opImm .add 6#5 5#5 0#64) := by
    decide +kernel
  rw [hdec] at h
  refine h fun r hr => ?_
  obtain rfl := List.mem_singleton.mp hr
  have hsound : ∀ w ∈ (Sync.run (track false) (Tracked.reset 3)
      [Env.fetched SET_ONE]).inflight,
      w.entry.ex.valid = false ∧ w.entry.op ≠ .SFENCE_VMA := by
    decide +kernel
  exact ⟨by decide +kernel, fun w hw _ => hsound w hw, by decide +kernel⟩

end Pipeline

end ArianeSoc.Execute
