import ArianeSoc.RiscvPkg

/-!
# The commit stage

`In` holds the inputs of `commit_stage.sv` and each definition is one
output.  Port 0 commits every kind of instruction, port 1 only those that
need nothing but a register write.  `RVA` is set.
-/

namespace ArianeSoc.CommitStage

/-- The inputs of the module. -/
structure In where
  halt : Bool
  flushDcache : Bool
  singleStep : Bool
  commitInstr0 : ScoreboardEntry
  commitInstr1 : ScoreboardEntry
  amoRespAck : Bool
  csrException : ExceptionT
  commitLsuReady : Bool
  noStPending : Bool

variable (i : In)

/-- The instruction of port 0 has no exception and the core is not
halted. -/
def commits0 : Bool :=
  i.commitInstr0.valid && !i.commitInstr0.ex.valid && !i.halt

/-- `csr_op_o`; `ADD` is no operation on a CSR. -/
def csrOpO : FuOp :=
  if commits0 i ∧ i.commitInstr0.fu = .CSR then i.commitInstr0.op else .ADD

/-- `amo_valid_commit_o`. -/
def amoValidCommitO : Bool := commits0 i && isAmo i.commitInstr0.op

/-- `commit_ack_o[0]`. -/
def commitAck0 : Bool :=
  let e := i.commitInstr0
  let ack := true
  let ack := if e.fu = .STORE ∧ isAmo e.op = false then i.commitLsuReady
    else ack
  let ack := if e.fu = .FPU ∨ e.fu = .FPU_VEC then true else ack
  let ack := if e.fu = .CSR then !i.csrException.valid else ack
  let ack := if e.op = .SFENCE_VMA then i.noStPending else ack
  let ack := if e.op = .FENCE_I ∨ i.flushDcache ∧ e.fu ≠ .STORE then
    i.noStPending else ack
  let ack := if e.op = .FENCE then i.noStPending else ack
  let ack := if isAmo e.op then i.amoRespAck else ack
  commits0 i && ack

/-- `exception_o`: an exception that the instruction brings along goes
before one of the CSR file, and a halted core takes none. -/
def exceptionO : ExceptionT :=
  let e := i.commitInstr0
  let ex :=
    if e.valid = false then ExceptionT.none
    else if e.ex.valid then e.ex
    else if i.csrException.valid ∧ amoValidCommitO i = false then
      { i.csrException with tval := e.ex.tval }
    else ExceptionT.none
  if i.halt then { ex with valid := false } else ex

/-- The units that port 1 may retire. -/
def port1Unit : FuT → Bool
  | .ALU | .LOAD | .CTRL_FLOW | .MULT | .FPU | .FPU_VEC => true
  | _ => false

/-- `commit_ack_o[1]`. -/
def commitAck1 : Bool :=
  commitAck0 i && i.commitInstr1.valid && !i.halt &&
    i.commitInstr0.fu != .CSR && !i.flushDcache && !i.singleStep &&
    !(exceptionO i).valid && !i.commitInstr1.ex.valid &&
    port1Unit i.commitInstr1.fu

/-- `commit_ack_o`. -/
def commitAckO : BitVec 2 :=
  BitVec.ofBool (commitAck1 i) ++ BitVec.ofBool (commitAck0 i)

/-- The entry belongs to the floating-point unit. -/
def isFpu (e : ScoreboardEntry) : Bool := e.fu = .FPU ∨ e.fu = .FPU_VEC

def fflags0 : Bool := commits0 i && isFpu i.commitInstr0

def fflags1 : Bool := commitAck1 i && isFpu i.commitInstr1

/-- `csr_write_fflags_o`. -/
def csrWriteFflagsO : Bool := fflags0 i || fflags1 i

/-- The floating-point flags of an entry. -/
def flagsOf (e : ScoreboardEntry) : BitVec 64 :=
  (e.ex.cause.extractLsb' 0 5).setWidth 64

/-- `csr_wdata_o`. -/
def csrWdataO : BitVec 64 :=
  if fflags1 i then
    if fflags0 i then flagsOf i.commitInstr0 ||| flagsOf i.commitInstr1
    else flagsOf i.commitInstr1
  else if commits0 i ∧ i.commitInstr0.fu = .CSR then i.commitInstr0.result
  else if fflags0 i then flagsOf i.commitInstr0
  else 0#64

/-- `dirty_fp_state_o`. -/
def dirtyFpStateO : Bool :=
  (commitAck0 i && (isFpu i.commitInstr0 || isRdFpr i.commitInstr0.op)) ||
    (commitAck1 i && (isFpu i.commitInstr1 || isRdFpr i.commitInstr1.op))

/-- `we_gpr_o[0]`. -/
def weGpr0 : Bool :=
  let e := i.commitInstr0
  let we := !isRdFpr e.op
  let we := if e.fu = .CSR ∧ i.csrException.valid then false else we
  let we := if isAmo e.op then i.amoRespAck else we
  commits0 i && we

/-- `we_fpr_o[0]`. -/
def weFpr0 : Bool := commits0 i && isRdFpr i.commitInstr0.op

/-- `we_gpr_o[1]`. -/
def weGpr1 : Bool := commitAck1 i && !isRdFpr i.commitInstr1.op

/-- `we_fpr_o[1]`. -/
def weFpr1 : Bool := commitAck1 i && isRdFpr i.commitInstr1.op

/-- `commit_lsu_o`. -/
def commitLsuO : Bool :=
  commits0 i && i.commitInstr0.fu = .STORE && !isAmo i.commitInstr0.op &&
    i.commitLsuReady

/-- `commit_csr_o`. -/
def commitCsrO : Bool :=
  commits0 i && i.commitInstr0.fu = .CSR && !i.csrException.valid

/-- `sfence_vma_o`. -/
def sfenceVmaO : Bool :=
  commits0 i && i.commitInstr0.op = .SFENCE_VMA && i.noStPending

/-- `fence_i_o`. -/
def fenceIO : Bool :=
  let e := i.commitInstr0
  commits0 i && (e.op = .FENCE_I ∨ i.flushDcache ∧ e.fu ≠ .STORE) &&
    i.noStPending

/-- `fence_o`. -/
def fenceO : Bool :=
  commits0 i && i.commitInstr0.op = .FENCE && i.noStPending

/-- `flush_commit_o`: an atomic finishes. -/
def flushCommitO : Bool := amoValidCommitO i && i.amoRespAck

/-- `wdata_o[0]`: the result of an atomic and the value of a CSR come from
outside. -/
def wdataO0 (amoResult csrRdata : BitVec 64) : BitVec 64 :=
  if commits0 i ∧ i.commitInstr0.fu = .CSR ∧ i.csrException.valid = false then
    csrRdata
  else if i.amoRespAck then amoResult
  else i.commitInstr0.result

/-- What a cycle does to the register files, the store buffer and the CSR
file. -/
structure Updates where
  weGpr : BitVec 2
  weFpr : BitVec 2
  commitLsu : Bool
  commitCsr : Bool
  csrOp : FuOp
  csrWdata : BitVec 64
  csrWriteFflags : Bool
  dirtyFpState : Bool

def updates : Updates where
  weGpr := BitVec.ofBool (weGpr1 i) ++ BitVec.ofBool (weGpr0 i)
  weFpr := BitVec.ofBool (weFpr1 i) ++ BitVec.ofBool (weFpr0 i)
  commitLsu := commitLsuO i
  commitCsr := commitCsrO i
  csrOp := csrOpO i
  csrWdata := csrWdataO i
  csrWriteFflags := csrWriteFflagsO i
  dirtyFpState := dirtyFpStateO i

/-! ## What the outputs say -/

variable {i}

/-- An operation on a CSR comes from an instruction without an exception. -/
theorem csrOpO_ne_add (h : csrOpO i ≠ .ADD) :
    commits0 i = true ∧ i.commitInstr0.fu = .CSR ∧
      csrOpO i = i.commitInstr0.op := by
  by_cases hc : commits0 i = true ∧ i.commitInstr0.fu = .CSR
  · exact ⟨hc.1, hc.2, if_pos hc⟩
  · exact absurd (if_neg hc) h

theorem commits0_iff :
    commits0 i = true ↔ i.commitInstr0.valid = true ∧
      i.commitInstr0.ex.valid = false ∧ i.halt = false := by
  simp [commits0, and_assoc]

/-- The exception of the instruction is the one that is taken. -/
theorem exceptionO_of_ex (hv : i.commitInstr0.valid = true)
    (hex : i.commitInstr0.ex.valid = true) (hh : i.halt = false) :
    exceptionO i = i.commitInstr0.ex := by
  simp [exceptionO, hv, hex, hh]

/-- Without an exception of the instruction or of the CSR file none is
taken. -/
theorem exceptionO_none (hex : i.commitInstr0.ex.valid = false)
    (hcsr : i.csrException.valid = false) : (exceptionO i).valid = false := by
  simp only [exceptionO, hex, hcsr]
  split_ifs <;> simp_all [ExceptionT.none]

end ArianeSoc.CommitStage
