import ArianeSoc.Issue.Scoreboard
import Mathlib.Data.List.FinRange

/-!
# Issue and operand read

The other outputs of `scoreboard.sv` come first: which unit is going to
write a register, and the value of a source register that is still in
flight.  The arbiters of the source give the lowest index; the write-back
ports come before the cells.  A register is an address with its register
file, so that the outputs for the two files, and for the three sources,
differ in the register only.

The rest is `issue_read_operands.sv`: the stall logic, the operand
multiplexers, the acknowledge with the write-after-write check, the
registers towards the functional units and the two register files.
`reName` is `re_name.sv` with `ENABLE_RENAME` clear.

The scoreboard is polled with a register, so its answers are functions
here.  What the units need besides the operands (the program counter, the
branch prediction, the format of a floating-point operation) is left out.
-/

namespace ArianeSoc

/-- A register of one of the two register files. -/
structure Reg where
  fpr : Bool
  addr : BitVec 6
  deriving DecidableEq, Repr

/-- The integer register that is always zero. -/
def Reg.zero : Reg := ⟨false, 0#6⟩

namespace Scoreboard

variable {b : ℕ}

/-- The cells in the order of their index. -/
def cells (b : ℕ) : List (BitVec b) :=
  (List.finRange (2 ^ b)).map BitVec.ofFin

theorem mem_cells (k : BitVec b) : k ∈ cells b :=
  List.mem_map.mpr ⟨k.toFin, List.mem_finRange _, rfl⟩

/-- The register that the instruction of a cell writes. -/
def Slot.dest (c : Slot) : Reg := ⟨c.isRdFprFlag, c.sbe.rd⟩

/-- `rd_clobber_gpr_o` and `rd_clobber_fpr_o`; register zero is always
free. -/
def rdClobberO (s : State b) (r : Reg) : FuT :=
  if r = Reg.zero then .NONE
  else
    match (cells b).find? fun k =>
        (s.mem k).issued && (s.mem k).dest == r with
    | some k => (s.mem k).sbe.fu
    | none => .NONE

/-- The write-back ports that ask to forward `r`. -/
def fwdPort (s : State b) (i : In b) (r : Reg) : Option (WbPort b) :=
  i.wb.find? fun p =>
    p.valid && !p.ex.valid && (s.mem p.transId).dest == r

/-- The cells that ask to forward `r`. -/
def fwdCell (s : State b) (r : Reg) : Option (BitVec b) :=
  (cells b).find? fun k =>
    (s.mem k).issued && (s.mem k).sbe.valid && (s.mem k).dest == r

/-- The value that the arbiter selects, if there is a request. -/
def rsFwd (s : State b) (i : In b) (r : Reg) : Option (BitVec 64) :=
  match fwdPort s i r with
  | some p => some p.wbdata
  | none => (fwdCell s r).map fun k => (s.mem k).sbe.result

/-- `rs1_o`, `rs2_o` and `rs3_o`. -/
def rsO (s : State b) (i : In b) (r : Reg) : BitVec 64 :=
  (rsFwd s i r).getD 0#64

/-- `rs1_valid_o`, `rs2_valid_o` and `rs3_valid_o`. -/
def rsValidO (s : State b) (i : In b) (r : Reg) : Bool :=
  (rsFwd s i r).isSome && r ≠ Reg.zero

end Scoreboard

end ArianeSoc

namespace ArianeSoc.ReadOperands

/-- Without renaming only the five address bits are left. -/
def reName (e : ScoreboardEntry) : ScoreboardEntry :=
  { e with
    rs1 := (e.rs1.setWidth 5).setWidth 6
    rs2 := (e.rs2.setWidth 5).setWidth 6
    rd := (e.rd.setWidth 5).setWidth 6
    result :=
      if isImmFpr e.op then (e.result.setWidth 5).setWidth 64 else e.result }

/-- `fu_data_t`. -/
structure FuData where
  fu : FuT
  operator : FuOp
  operandA : BitVec 64
  operandB : BitVec 64
  imm : BitVec 64
  transId : BitVec 3
  deriving DecidableEq, Repr

/-- The registers. -/
structure State where
  fuData : FuData
  aluValid : Bool
  branchValid : Bool
  multValid : Bool
  fpuValid : Bool
  lsuValid : Bool
  csrValid : Bool
  gpr : BitVec 5 → BitVec 64
  fpr : BitVec 5 → BitVec 64

/-- A write port of the register files. -/
structure WritePort where
  waddr : BitVec 5
  wdata : BitVec 64
  weGpr : Bool
  weFpr : Bool

/-- The inputs of one cycle. -/
structure In where
  flush : Bool
  issueInstr : ScoreboardEntry
  issueInstrValid : Bool
  rs : Reg → BitVec 64
  rsValid : Reg → Bool
  rdClobber : Reg → FuT
  fluReady : Bool
  lsuReady : Bool
  fpuReady : Bool
  commit0 : WritePort
  commit1 : WritePort

/-- The registers after a reset. -/
def reset : State where
  fuData := ⟨.NONE, .ADD, 0#64, 0#64, 0#64, 0#3⟩
  aluValid := false
  branchValid := false
  multValid := false
  fpuValid := false
  lsuValid := false
  csrValid := false
  gpr := fun _ => 0#64
  fpr := fun _ => 0#64

/-! ## Registers of an instruction -/

def rs1 (e : ScoreboardEntry) : Reg := ⟨isRs1Fpr e.op, e.rs1⟩
def rs2 (e : ScoreboardEntry) : Reg := ⟨isRs2Fpr e.op, e.rs2⟩
/-- The third source is in the immediate. -/
def rs3 (e : ScoreboardEntry) : Reg := ⟨true, e.result.setWidth 6⟩
def rd (e : ScoreboardEntry) : Reg := ⟨isRdFpr e.op, e.rd⟩

/-! ## The process `operands_available` -/

variable (q : State) (i : In)

/-- The value of `r` can be forwarded; that of a CSR instruction cannot. -/
def available (r : Reg) : Bool :=
  i.rsValid r && (r.fpr || i.rdClobber r ≠ .CSR)

/-- `forward_rs1`, `forward_rs2` and `forward_rs3`. -/
def forward (used : Bool) (r : Reg) : Bool :=
  used && i.rdClobber r ≠ .NONE && available i r

/-- The source makes the instruction wait. -/
def stallOn (used : Bool) (r : Reg) : Bool :=
  used && i.rdClobber r ≠ .NONE && !available i r

/-- `stall`. -/
def stall : Bool :=
  stallOn i (!i.issueInstr.useZimm) (rs1 i.issueInstr) ||
    stallOn i true (rs2 i.issueInstr) ||
    stallOn i (isImmFpr i.issueInstr.op) (rs3 i.issueInstr)

/-! ## The process `forwarding_operand_select` -/

/-- The read ports of the register files. -/
def regfile (r : Reg) : BitVec 64 :=
  if r.fpr then q.fpr (r.addr.setWidth 5) else q.gpr (r.addr.setWidth 5)

/-- A source register, forwarded or from its register file. -/
def source (used : Bool) (r : Reg) : BitVec 64 :=
  if forward i used r then i.rs r else regfile q r

/-- `operand_a_n`. -/
def operandAN : BitVec 64 :=
  let e := i.issueInstr
  let a := source q i (!e.useZimm) (rs1 e)
  let a := if e.usePc then e.pc else a
  if e.useZimm then (e.rs1.setWidth 5).setWidth 64 else a

/-- The immediate takes the place of operand B. -/
def immediateB (e : ScoreboardEntry) : Bool :=
  e.useImm && e.fu ≠ .STORE && e.fu ≠ .CTRL_FLOW && !isRs2Fpr e.op

/-- `operand_b_n`. -/
def operandBN : BitVec 64 :=
  let e := i.issueInstr
  if immediateB e then e.result else source q i true (rs2 e)

/-- `imm_n`. -/
def immN : BitVec 64 :=
  let e := i.issueInstr
  if isImmFpr e.op then source q i (isImmFpr e.op) (rs3 e) else e.result

/-! ## The process `issue_scoreboard` -/

/-- `fu_busy`. -/
def fuBusy : Bool :=
  match i.issueInstr.fu with
  | .NONE => false
  | .ALU | .CTRL_FLOW | .CSR | .MULT => !i.fluReady
  | .FPU | .FPU_VEC => !i.fpuReady
  | .LOAD | .STORE => !i.lsuReady

/-- The commit port writes `r` in this cycle. -/
def WritePort.writes (p : WritePort) (r : Reg) : Bool :=
  (if r.fpr then p.weFpr else p.weGpr) && p.waddr.setWidth 6 == r.addr

theorem writes_iff {p : WritePort} {r : Reg} :
    p.writes r = true ↔
      (if r.fpr then p.weFpr else p.weGpr) = true ∧
        p.waddr.setWidth 6 = r.addr := by
  rw [WritePort.writes, Bool.and_eq_true, beq_iff_eq]

/-- No instruction in flight has the same destination, or the commit stage
writes it in this cycle. -/
def wawFree : Bool :=
  let r := rd i.issueInstr
  i.rdClobber r = .NONE || i.commit0.writes r || i.commit1.writes r

/-- `issue_ack_o`.  An instruction that has an exception or needs no unit
does not wait. -/
def issueAck : Bool :=
  let e := i.issueInstr
  if q.multValid ∧ e.fu ≠ .MULT then false
  else
    i.issueInstrValid &&
      (!stall i && !fuBusy i && wawFree i || e.ex.valid || e.fu = .NONE)

/-! ## The registers -/

/-- A unit gets the instruction of this cycle. -/
def handed : Bool :=
  !i.issueInstr.ex.valid && i.issueInstrValid && issueAck q i && !i.flush

/-- A write port of a register file. -/
def writePort (we : Bool) (p : WritePort) (f : BitVec 5 → BitVec 64) :
    BitVec 5 → BitVec 64 := fun a =>
  if we ∧ a = p.waddr then p.wdata else f a

def gprNext : BitVec 5 → BitVec 64 := fun a =>
  if a = 0#5 then 0#64
  else writePort i.commit1.weGpr i.commit1
    (writePort i.commit0.weGpr i.commit0 q.gpr) a

def fprNext : BitVec 5 → BitVec 64 :=
  writePort i.commit1.weFpr i.commit1
    (writePort i.commit0.weFpr i.commit0 q.fpr)

/-- One cycle. -/
def step : State :=
  let e := i.issueInstr
  let unit (fu : FuT) : Bool := handed q i && e.fu = fu
  { fuData :=
      { fu := e.fu
        operator := e.op
        operandA := operandAN q i
        operandB := operandBN q i
        imm := immN q i
        transId := e.transId }
    aluValid := unit .ALU
    branchValid := unit .CTRL_FLOW
    multValid := unit .MULT
    fpuValid := unit .FPU || unit .FPU_VEC
    lsuValid := unit .LOAD || unit .STORE
    csrValid := unit .CSR
    gpr := gprNext q i
    fpr := fprNext q i }

/-- A unit has an instruction to work on. -/
def State.unitValid (q : State) : Bool :=
  q.aluValid || q.branchValid || q.multValid || q.fpuValid || q.lsuValid ||
    q.csrValid

/-! ## What is handed to a unit -/

variable {q i}

theorem unitValid_step :
    (step q i).unitValid = true ↔
      handed q i = true ∧ i.issueInstr.fu ≠ .NONE := by
  cases hh : handed q i with
  | false => simp [step, State.unitValid, hh]
  | true => cases hfu : i.issueInstr.fu <;> simp [step, State.unitValid, hh, hfu]

/-- An instruction that is acknowledged for a unit has its operands, and
nothing else writes its destination. -/
theorem ready_of_issueAck (h : issueAck q i = true)
    (hex : i.issueInstr.ex.valid = false)
    (hfu : i.issueInstr.fu ≠ .NONE) : stall i = false ∧ wawFree i = true := by
  unfold issueAck at h
  dsimp only at h
  split_ifs at h
  simp only [hex, hfu, Bool.and_eq_true, Bool.or_eq_true,
    Bool.not_eq_true', or_false, Bool.false_eq_true,
    decide_false] at h
  exact ⟨h.2.1.1, h.2.2⟩

/-- A source that does not make the instruction wait comes from its
register file, or is forwarded if something in flight writes it. -/
theorem source_of_stallOn {r : Reg} (h : stallOn i true r = false) :
    i.rdClobber r = .NONE ∧ source q i true r = regfile q r ∨
      i.rdClobber r ≠ .NONE ∧ i.rsValid r = true ∧
        source q i true r = i.rs r := by
  by_cases hc : i.rdClobber r = .NONE
  · exact Or.inl ⟨hc, by simp [source, forward, hc]⟩
  · have ha : available i r = true := by simpa [stallOn, hc] using h
    refine Or.inr ⟨hc, ?_, by simp [source, forward, hc, ha]⟩
    rw [available, Bool.and_eq_true] at ha
    exact ha.1

end ArianeSoc.ReadOperands
