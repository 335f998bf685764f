import ArianeSoc.CommitStage
import ArianeSoc.Csr.Debug
import ArianeSoc.Csr.Privilege
import ArianeSoc.Decoder

/-!
# An instruction from the decoder to the CSR file

`Core` composes the decoder, the write-back into the scoreboard, port 0 and
port 1 of the commit stage and `csr_regfile`, wired as in `ariane.sv`.  The
state is the CSR state.  One step commits, or fails to commit, the
instruction at the head of the scoreboard.

A change of a CSR field that the decoder reads flushes the pipeline, so the
head of the scoreboard was decoded under the current fields.  Interrupt and
debug requests come and go without a flush, so the decoder's view of them
is an input of its own.

The CSR file takes its debug entries from the commit stage.  There an
instruction that brings an exception along does not commit, and DRET
commits alone, so a debug entry of the core is a `DebugEntry` and a DRET of
the core is a `DebugExit`.
-/

namespace ArianeSoc.Core

open Csr

/-- The inputs of one cycle. -/
structure In where
  /-- The instruction word from the fetch stage, with its flags. -/
  instruction : BitVec 32
  pc : BitVec 64
  isCompressed : Bool
  compressedInstr : BitVec 16
  isIllegal : Bool
  predictAddress : BitVec 64
  fetchEx : ExceptionT
  /-- Interrupts and debug request when the instruction was decoded. -/
  decIrqCtrl : IrqCtrl
  decIrq : BitVec 2
  decDebugReq : Bool
  /-- The functional unit has written its result back. -/
  written : Bool
  result : BitVec 64
  fuEx : ExceptionT
  csrAddr : BitVec 12
  /-- The rest of the commit stage. -/
  fenceActive : Bool
  flushDcache : Bool
  commitInstr1 : ScoreboardEntry
  amoRespAck : Bool
  commitLsuReady : Bool
  noStPending : Bool
  /-- The lines into the CSR file. -/
  timeIrq : Bool
  bootAddr : BitVec 64
  hartId : BitVec 64
  irq : BitVec 2
  ipi : Bool
  debugReq : Bool
  perfData : BitVec 64

/-- The inputs of the decoder. -/
def decoderIn (q : State) (i : In) : Decoder.In where
  debugReq := i.decDebugReq
  pc := i.pc
  isCompressed := i.isCompressed
  compressedInstr := i.compressedInstr
  isIllegal := i.isIllegal
  instruction := i.instruction
  predictAddress := i.predictAddress
  ex := i.fetchEx
  irq := i.decIrq
  irqCtrl := i.decIrqCtrl
  privLvl := privLvlO q
  debugMode := q.debugMode
  fs := Mstatus.fs.get q.mstatus
  frm := Fcsr.frm.get q.fcsr
  tvm := Mstatus.tvm.get q.mstatus = 1#1
  tw := Mstatus.tw.get q.mstatus = 1#1
  tsr := Mstatus.tsr.get q.mstatus = 1#1

/-- The write-back.  An instruction with an exception is not issued, and
the CSR buffer raises none; the floating-point unit leaves its flags in the
cause. -/
def writeBack (e : ScoreboardEntry) (i : In) : ScoreboardEntry :=
  if e.ex.valid then e
  else
    { e with
      valid := i.written
      result := i.result
      ex :=
        if e.fu = .CSR then e.ex
        else if i.fuEx.valid then i.fuEx
        else if e.fu = .FPU ∨ e.fu = .FPU_VEC then
          { e.ex with cause := i.fuEx.cause }
        else e.ex }

/-- The head of the scoreboard. -/
def commitInstr0 (q : State) (i : In) : ScoreboardEntry :=
  writeBack (Decoder.decoder (decoderIn q i)) i

/-- The inputs of the commit stage, for an exception of the CSR file. -/
def commitIn (q : State) (i : In) (csrException : ExceptionT) :
    CommitStage.In where
  halt := q.wfi || i.fenceActive
  flushDcache := i.flushDcache
  singleStep := Dcsr.step.get q.dcsr = 1#1
  commitInstr0 := commitInstr0 q i
  commitInstr1 := i.commitInstr1
  amoRespAck := i.amoRespAck
  csrException := csrException
  commitLsuReady := i.commitLsuReady
  noStPending := i.noStPending

/-- The inputs of the CSR file for an exception that it reports itself. -/
def csrInWith (q : State) (i : In) (csrException : ExceptionT) : Csr.In :=
  let c := commitIn q i csrException
  { timeIrq := i.timeIrq
    commitInstr0 :=
      { fu := c.commitInstr0.fu
        pc := c.commitInstr0.pc
        isCompressed := c.commitInstr0.isCompressed
        predictAddress := c.commitInstr0.predictAddress }
    commitAck := CommitStage.commitAckO c
    bootAddr := i.bootAddr
    hartId := i.hartId
    ex := CommitStage.exceptionO c
    csrOp := CommitStage.csrOpO c
    csrAddr := i.csrAddr
    csrWdata := CommitStage.csrWdataO c
    dirtyFpState := CommitStage.dirtyFpStateO c
    csrWriteFflags := CommitStage.csrWriteFflagsO c
    pc := c.commitInstr0.pc
    irq := i.irq
    ipi := i.ipi
    debugReq := i.debugReq
    perfData := i.perfData }

/-- The exception of the CSR file.  It depends on the operation only, which
does not depend on it. -/
def csrException (cfg : Cfg) (q : State) (i : In) : ExceptionT :=
  csrExceptionO cfg q (csrInWith q i ExceptionT.none)

/-- The inputs of the CSR file. -/
def csrIn (cfg : Cfg) (q : State) (i : In) : Csr.In :=
  csrInWith q i (csrException cfg q i)

/-- One cycle. -/
def step (cfg : Cfg) (q : State) (i : In) : State :=
  Csr.step cfg q (csrIn cfg q i)

/-! ## What reaches the CSR file -/

variable {cfg : Cfg} {q : State} {i : In}

/-- The operation does not depend on the exception of the CSR file. -/
theorem csrOp_csrIn :
    (csrIn cfg q i).csrOp =
      CommitStage.csrOpO (commitIn q i ExceptionT.none) := by
  show CommitStage.csrOpO (commitIn q i _) = _
  unfold CommitStage.csrOpO
  rfl

theorem writeBack_fu_op (e : ScoreboardEntry) :
    (writeBack e i).fu = e.fu ∧ (writeBack e i).op = e.op := by
  unfold writeBack
  split_ifs <;> exact ⟨rfl, rfl⟩

theorem writeBack_ex_csr {e : ScoreboardEntry} (h : e.fu = .CSR) :
    (writeBack e i).ex = e.ex := by
  unfold writeBack
  split_ifs <;> rfl

/-- An operation other than `ADD` reaches the CSR file from an instruction
that the decoder has not rejected and that brings no exception along. -/
theorem csrOp_ne_add (h : (csrIn cfg q i).csrOp ≠ .ADD) :
    let d := Decoder.decodeInstr (decoderIn q i)
    d.fu = .CSR ∧ (csrIn cfg q i).csrOp = d.op ∧
      (Decoder.exception (decoderIn q i) d).valid = false ∧
      (commitInstr0 q i).valid = true ∧
      (q.wfi || i.fenceActive) = false := by
  intro d
  rw [csrOp_csrIn] at h ⊢
  obtain ⟨hc, hfu, hop⟩ := CommitStage.csrOpO_ne_add h
  obtain ⟨hv, hex, hhalt⟩ := CommitStage.commits0_iff.mp hc
  have hwb := writeBack_fu_op (i := i) (Decoder.decoder (decoderIn q i))
  have hfu' : d.fu = .CSR := hwb.1.symm.trans hfu
  have hex' := writeBack_ex_csr (e := Decoder.decoder (decoderIn q i))
    (i := i) hfu'
  refine ⟨hfu', hop.trans hwb.2, ?_, hv, hhalt⟩
  have hdec : (Decoder.decoder (decoderIn q i)).ex =
      Decoder.exception (decoderIn q i) d := rfl
  rw [← hdec, ← hex']
  exact hex

end ArianeSoc.Core

namespace ArianeSoc.CommitStage

variable {i : In}

/-- An exception that the CSR file did not raise is the instruction's own,
and nothing commits beside it. -/
theorem uncommitted_of_exception (hv : (exceptionO i).valid = true)
    (hc : (exceptionO i).cause ≠ i.csrException.cause) :
    commitAckO i = 0#2 ∧ csrOpO i = .ADD ∧ dirtyFpStateO i = false := by
  have hcommit : commits0 i = false := by
    by_contra h
    obtain ⟨hvalid, hex, hhalt⟩ :=
      commits0_iff.mp (Bool.not_eq_false _ ▸ h)
    by_cases hcsr : i.csrException.valid = true ∧ amoValidCommitO i = false
    · exact hc (by simp [exceptionO, hvalid, hex, hhalt, hcsr])
    · simp [exceptionO, hvalid, hex, hhalt, hcsr, ExceptionT.none] at hv
  have h0 : commitAck0 i = false := by simp [commitAck0, hcommit]
  have h1 : commitAck1 i = false := by simp [commitAck1, h0]
  refine ⟨?_, ?_, ?_⟩
  · rw [commitAckO, h0, h1]
    rfl
  · simp [csrOpO, hcommit]
  · simp [dirtyFpStateO, h0, h1]

end ArianeSoc.CommitStage

namespace ArianeSoc.Core

open Csr

variable {cfg : Cfg} {q : State} {i : In}

/-- The exceptions of the CSR file are illegal instructions. -/
theorem csrException_cause_ne (cfg : Cfg) (c : BitVec 64) (h0 : c ≠ 0#64)
    (hi : c ≠ ILLEGAL_INSTR) : c ≠ (csrException cfg q i).cause := by
  unfold csrException csrExceptionO
  split_ifs
  · exact hi
  · exact h0

/-- Each of the three causes, outside debug mode, is a debug entry. -/
theorem debugEntry_csrIn (hd : q.debugMode = false)
    (hc : haltEntry (csrIn cfg q i) ∨ ebreakEntry q (csrIn cfg q i) ∨
      stepping q (csrIn cfg q i) = true) :
    DebugEntry q (csrIn cfg q i) := by
  refine ⟨hd, hc, ?_⟩
  rintro (⟨hv, hcause⟩ | ⟨⟨hv, hcause⟩, -⟩)
  · refine CommitStage.uncommitted_of_exception hv ?_
    have hne := csrException_cause_ne cfg (q := q) (i := i)
      DEBUG_REQUEST (by decide) (by decide)
    rwa [← hcause] at hne
  · refine CommitStage.uncommitted_of_exception hv ?_
    have hne := csrException_cause_ne cfg (q := q) (i := i)
      BREAKPOINT (by decide) (by decide)
    rwa [← hcause] at hne

/-- No floating-point instruction commits beside DRET. -/
theorem debugExit_csrIn (hop : (csrIn cfg q i).csrOp = .DRET) :
    DebugExit (csrIn cfg q i) := by
  refine ⟨hop, ?_⟩
  have hne : CommitStage.csrOpO (commitIn q i (csrException cfg q i)) ≠
      .ADD := by
    intro h
    exact absurd (hop.symm.trans h) (by decide)
  obtain ⟨-, hfu, hop'⟩ := CommitStage.csrOpO_ne_add hne
  have hdret := hop'.symm.trans hop
  have h1 : CommitStage.commitAck1
      (commitIn q i (csrException cfg q i)) = false := by
    simp [CommitStage.commitAck1, hfu]
  show CommitStage.dirtyFpStateO _ = false
  simp [CommitStage.dirtyFpStateO, CommitStage.isFpu, h1, hfu, hdret,
    isRdFpr]

end ArianeSoc.Core
