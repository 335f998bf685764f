import ArianeSoc.Controller
import ArianeSoc.Core.Escalation
import ArianeSoc.Decoder.Units

/-!
# The second commit port beside a flush

The commit stage retires up to two instructions.  If the first one makes
the controller flush the pipeline, the second one is fetched again, so it
must not have retired.

`flushes` is the flush of the execute stage with all its causes wired as in
`ariane.sv`, `Port1Quiet` says that the cycle does what it would do without
a second instruction.  One cause is not excluded by the enable of port 1:
an atomic that finishes.

Most causes of a flush come from another instruction at the head of the
scoreboard than a store.  A plain store that commits is beside a flush only
while the hart is single-stepped outside debug mode (`flushes_iff_of_commitLsu`).
-/

namespace ArianeSoc

namespace CommitStage

/-- The same cycle without an instruction on port 1. -/
def In.withoutPort1 (i : In) : In :=
  { i with commitInstr1 := { i.commitInstr1 with valid := false } }

/-- Port 1 retires nothing, and what the cycle does is what it does without
an instruction on port 1. -/
def Port1Quiet (i : In) : Prop :=
  commitAck1 i = false ∧ updates i = updates i.withoutPort1

/-- The instruction on port 1 can retire beside one that does not flush. -/
def port1Ready (i : In) : Bool :=
  i.commitInstr1.valid && !i.commitInstr1.ex.valid &&
    port1Unit i.commitInstr1.fu && !i.flushDcache && !i.singleStep

/-- The atomic on port 0 has its response. -/
def amoFinishes (i : In) : Bool :=
  commits0 i && isAmo i.commitInstr0.op && i.amoRespAck

variable {i : In}

/-- Without an acknowledge of port 1 nothing comes from port 1. -/
theorem port1Quiet_iff : Port1Quiet i ↔ commitAck1 i = false := by
  refine ⟨And.left, fun h => ⟨h, ?_⟩⟩
  have h' : commitAck1 i.withoutPort1 = false := by
    simp [commitAck1, In.withoutPort1]
  have hdirty : dirtyFpStateO i = dirtyFpStateO i.withoutPort1 := by
    simp only [dirtyFpStateO, h, h', Bool.false_and, Bool.or_false]
    rfl
  have hflags : csrWriteFflagsO i = csrWriteFflagsO i.withoutPort1 := by
    simp only [csrWriteFflagsO, fflags1, h, h', Bool.false_and,
      Bool.or_false]
    rfl
  have hdata : csrWdataO i = csrWdataO i.withoutPort1 := by
    simp only [csrWdataO, fflags1, h, h', Bool.false_and]
    rfl
  unfold updates
  rw [hdirty, hflags, hdata]
  simp only [weGpr1, weFpr1, h, h', Bool.false_and]
  rfl

/-- Port 1 is not acknowledged beside an instruction of the CSR unit, in a
data cache flush, while single stepping and beside an exception. -/
theorem commitAck1_eq_false
    (h : i.commitInstr0.fu = .CSR ∨ i.flushDcache = true ∨
      i.singleStep = true ∨ (exceptionO i).valid = true) :
    commitAck1 i = false := by
  unfold commitAck1
  rcases h with h | h | h | h <;> simp [h]

/-- No exception is taken beside an atomic. -/
theorem exceptionO_of_amo (hc : commits0 i = true)
    (ha : isAmo i.commitInstr0.op = true) :
    (exceptionO i).valid = false := by
  obtain ⟨hv, hex, hh⟩ := commits0_iff.mp hc
  have hamo : amoValidCommitO i = true := by
    unfold amoValidCommitO
    rw [hc, ha]
    rfl
  simp [exceptionO, hv, hex, hh, hamo, ExceptionT.none]

/-- Port 1 is acknowledged beside an atomic that finishes exactly if its
instruction is ready. -/
theorem commitAck1_of_amo (hfu : i.commitInstr0.fu = .STORE)
    (h : amoFinishes i = true) : commitAck1 i = port1Ready i := by
  simp only [amoFinishes, Bool.and_eq_true] at h
  obtain ⟨⟨hc, ha⟩, hr⟩ := h
  have hex := exceptionO_of_amo hc ha
  have hack : commitAck0 i = true := by
    simp [commitAck0, hc, ha, hr]
  have hhalt : i.halt = false := (commits0_iff.mp hc).2.2
  unfold commitAck1 port1Ready
  rw [hack, hhalt, hfu, hex]
  cases i.commitInstr1.valid <;> cases i.commitInstr1.ex.valid <;>
    cases i.flushDcache <;> cases i.singleStep <;> simp

end CommitStage

/-- Without an operation a CSR write has no side effect. -/
theorem Csr.flushO_of_add {cfg : Csr.Cfg} {q : Csr.State} {i : Csr.In}
    (h : i.csrOp = .ADD) : Csr.flushO cfg q i = false := by
  unfold Csr.flushO
  split_ifs
  · rfl
  rw [← Bool.not_eq_true]
  intro hflush
  unfold Csr.csrWrite at hflush
  dsimp only at hflush
  split_ifs at hflush with hwe
  obtain ⟨-, hop⟩ := Csr.csrOpLogic_we hwe
  rw [h] at hop
  exact absurd hop (by decide)

namespace Core

open Csr

variable {cfg : Cfg} {q : State} {i : In}

/-- The inputs of the commit stage in a cycle. -/
def commitStageIn (cfg : Cfg) (q : State) (i : In) : CommitStage.In :=
  commitIn q i (csrException cfg q i)

/-- The inputs of the controller in a cycle; the acknowledge of the data
cache and a mispredicted branch come from elsewhere. -/
def controllerIn (cfg : Cfg) (q : State) (i : In)
    (flushDcacheAck isMispredict : Bool) : Controller.In where
  fenceActive := i.fenceActive
  flushDcacheAck := flushDcacheAck
  eret := eretO (csrIn cfg q i)
  exValid := (CommitStage.exceptionO (commitStageIn cfg q i)).valid
  setDebugPc := setDebugPcO q (csrIn cfg q i)
  isMispredict := isMispredict
  flushCsr := flushO cfg q (csrIn cfg q i)
  fenceI := CommitStage.fenceIO (commitStageIn cfg q i)
  fence := CommitStage.fenceO (commitStageIn cfg q i)
  sfenceVma := CommitStage.sfenceVmaO (commitStageIn cfg q i)
  flushCommit := CommitStage.flushCommitO (commitStageIn cfg q i)

/-- The pipeline is flushed. -/
def flushes (cfg : Cfg) (wtDcache : Bool) (q : State) (i : In)
    (flushDcacheAck isMispredict : Bool) : Bool :=
  (Controller.flushCtrl wtDcache
    (controllerIn cfg q i flushDcacheAck isMispredict)).flushEx

/-- An operation other than `ADD` comes from an instruction of the CSR
unit. -/
theorem commitInstr0_fu (cfg : Cfg) (h : (csrIn cfg q i).csrOp ≠ .ADD) :
    (commitInstr0 q i).fu = .CSR :=
  (CommitStage.csrOpO_ne_add (csrOp_csrIn ▸ h)).2.1

/-- The head of the scoreboard has the unit that the decoder gives to its
operation. -/
theorem commitInstr0_matched :
    (Decoder.isFence (commitInstr0 q i).op = true →
        (commitInstr0 q i).fu = .CSR) ∧
      (isAmo (commitInstr0 q i).op = true →
        (commitInstr0 q i).fu = .STORE) := by
  obtain ⟨hfu, hop⟩ :=
    writeBack_fu_op (i := i) (Decoder.decoder (decoderIn q i))
  have hd : (Decoder.decodeInstr (decoderIn q i)).Matched :=
    Decoder.decodeInstr_matched
  unfold commitInstr0
  rw [hfu, hop]
  exact ⟨hd.fence, hd.amo⟩

/-- A side effect of a CSR write, or a return, is the effect of an
instruction of the CSR unit. -/
theorem fu_of_csr_flush
    (h : flushO cfg q (csrIn cfg q i) = true ∨
      eretO (csrIn cfg q i) = true) :
    (commitInstr0 q i).fu = .CSR := by
  refine commitInstr0_fu cfg fun hadd => ?_
  rcases h with h | h
  · exact absurd (h.symm.trans (flushO_of_add hadd)) (by decide)
  · simp [eretO, hadd] at h

/-- The debug pc is set for an exception or while single stepping. -/
theorem debugPc_cases (h : setDebugPcO q (csrIn cfg q i) = true) :
    (CommitStage.exceptionO (commitStageIn cfg q i)).valid = true ∨
      (commitStageIn cfg q i).singleStep = true := by
  by_cases hex : (CommitStage.exceptionO (commitStageIn cfg q i)).valid = true
  · exact Or.inl hex
  · have hex' : (csrIn cfg q i).ex.valid = false :=
      Bool.eq_false_iff.mpr hex
    simp only [setDebugPcO, hex', stepping] at h
    refine Or.inr ?_
    show decide (Dcsr.step.get q.dcsr = 1#1) = true
    split_ifs at h <;> simp_all

/-- Beside every flush but the one of an atomic port 1 is not
acknowledged. -/
theorem commitAck1_of_flushes {wtDcache flushDcacheAck isMispredict : Bool}
    (h : flushes cfg wtDcache q i flushDcacheAck isMispredict = true)
    (hamo : CommitStage.amoFinishes (commitStageIn cfg q i) = false) :
    CommitStage.commitAck1 (commitStageIn cfg q i) = false := by
  apply CommitStage.commitAck1_eq_false
  obtain ⟨hfence, -⟩ := commitInstr0_matched (q := q) (i := i)
  have hunit : ∀ op, Decoder.isFence op = true →
      (commitInstr0 q i).op = op → (commitInstr0 q i).fu = .CSR :=
    fun op hop heq => hfence (heq ▸ hop)
  rcases Controller.flushEx_iff.mp h with h | h | h | h | h | h | h | h
  · simp only [controllerIn, CommitStage.fenceO, Bool.and_eq_true,
      decide_eq_true_eq] at h
    exact Or.inl (hunit .FENCE rfl h.1.2)
  · simp only [controllerIn, CommitStage.fenceIO, Bool.and_eq_true,
      decide_eq_true_eq] at h
    rcases h.1.2 with hop | ⟨hflush, -⟩
    · exact Or.inl (hunit .FENCE_I rfl hop)
    · exact Or.inr (Or.inl hflush)
  · simp only [controllerIn, CommitStage.sfenceVmaO, Bool.and_eq_true,
      decide_eq_true_eq] at h
    exact Or.inl (hunit .SFENCE_VMA rfl h.1.2)
  · exact Or.inl (fu_of_csr_flush (Or.inl h))
  · -- the request of the commit stage is the end of an atomic
    have hreq : CommitStage.amoFinishes (commitStageIn cfg q i) = true := h
    exact absurd hreq (by simp [hamo])
  · exact Or.inr (Or.inr (Or.inr h))
  · exact Or.inl (fu_of_csr_flush (Or.inr h))
  · rcases debugPc_cases h with h | h
    · exact Or.inr (Or.inr (Or.inr h))
    · exact Or.inr (Or.inr (Or.inl h))

/-- An atomic that finishes flushes the pipeline. -/
theorem flushes_of_amo (wtDcache flushDcacheAck isMispredict : Bool)
    (h : CommitStage.amoFinishes (commitStageIn cfg q i) = true) :
    flushes cfg wtDcache q i flushDcacheAck isMispredict = true := by
  apply Controller.flushEx_iff.mpr
  exact Or.inr (Or.inr (Or.inr (Or.inr (Or.inl h))))

/-- Port 1 is quiet beside a flush exactly if no atomic finishes beside an
instruction that is ready on port 1. -/
theorem port1_quiet_iff (cfg : Cfg) (q : State) (i : In)
    (wtDcache flushDcacheAck isMispredict : Bool) :
    (flushes cfg wtDcache q i flushDcacheAck isMispredict = true →
        CommitStage.Port1Quiet (commitStageIn cfg q i)) ↔
      ¬ (CommitStage.amoFinishes (commitStageIn cfg q i) = true ∧
        CommitStage.port1Ready (commitStageIn cfg q i) = true) := by
  rw [CommitStage.port1Quiet_iff]
  by_cases hamo : CommitStage.amoFinishes (commitStageIn cfg q i) = true
  · have hop : isAmo (commitInstr0 q i).op = true := by
      simp only [CommitStage.amoFinishes, Bool.and_eq_true] at hamo
      exact hamo.1.2
    have hfu := (commitInstr0_matched (q := q) (i := i)).2 hop
    have hack := CommitStage.commitAck1_of_amo
      (i := commitStageIn cfg q i) hfu hamo
    have hflush :=
      flushes_of_amo wtDcache flushDcacheAck isMispredict hamo
    rw [hack]
    constructor
    · rintro hquiet ⟨-, hready⟩
      exact absurd (hquiet hflush) (by simp [hready])
    · intro hnot _
      simpa [hamo] using hnot
  · constructor
    · rintro - ⟨h, -⟩
      exact hamo h
    · intro _ hflush
      exact commitAck1_of_flushes hflush (by simpa using hamo)

/-- `amoadd.w x5, x6, (x7)` with its response, beside `addi x1, x1, 1`. -/
def amoBesideAddi : In :=
  { commits 0x0063A2AF#32 with
    amoRespAck := true
    commitInstr1 :=
      { (commits 0x13#32).commitInstr1 with
        rd := 1#6, rs1 := 1#6, result := 1#64, valid := true } }

/-- After a reset the pipeline is flushed and yet both retire, the second
one with a write to its register. -/
theorem amo_port1_retires :
    ¬ ∀ q, Sync.Reachable (step Cfg.ariane) reset q →
        ∀ i wtDcache flushDcacheAck isMispredict,
          flushes Cfg.ariane wtDcache q i flushDcacheAck isMispredict =
              true →
            CommitStage.Port1Quiet (commitStageIn Cfg.ariane q i) := by
  intro h
  have hflush : flushes Cfg.ariane true reset amoBesideAddi false false =
      true := by decide +kernel
  have hack : CommitStage.commitAck1
      (commitStageIn Cfg.ariane reset amoBesideAddi) = true := by
    decide +kernel
  have hquiet := h reset (Sync.Reachable.refl reset) amoBesideAddi true
    false false hflush
  exact absurd hquiet.1 (by simp [hack])

end Core

end ArianeSoc

namespace ArianeSoc.CommitStage

variable {i : In}

theorem commitLsuO_iff :
    commitLsuO i = true ↔ commits0 i = true ∧ i.commitInstr0.fu = .STORE ∧
      isAmo i.commitInstr0.op = false ∧ i.commitLsuReady = true := by
  simp only [commitLsuO, Bool.and_eq_true, decide_eq_true_eq,
    Bool.not_eq_true', and_assoc]

/-- A plain store whose operator is no fence is acknowledged. -/
theorem commitAck0_of_commitLsu (h : commitLsuO i = true)
    (hv : i.commitInstr0.op ≠ .SFENCE_VMA) (hi : i.commitInstr0.op ≠ .FENCE_I)
    (hf : i.commitInstr0.op ≠ .FENCE) : commitAck0 i = true := by
  obtain ⟨hc, hfu, hamo, hready⟩ := commitLsuO_iff.mp h
  simp [commitAck0, hc, hfu, hamo, hready, hv, hi, hf]

end ArianeSoc.CommitStage

namespace ArianeSoc.Core

open Csr

variable {cfg : Cfg} {q : State} {i : In}

/-- A store is no fence. -/
theorem op_ne_of_store {op : FuOp} (hop : Decoder.isFence op = true)
    (h : (commitInstr0 q i).fu = .STORE) : (commitInstr0 q i).op ≠ op := by
  intro heq
  have hcsr := (commitInstr0_matched (q := q) (i := i)).1 (heq ▸ hop)
  exact absurd (hcsr.symm.trans h) (by decide)

/-- A store that commits raises no exception. -/
theorem exceptionO_of_commitLsu
    (h : CommitStage.commitLsuO (commitStageIn cfg q i) = true) :
    (CommitStage.exceptionO (commitStageIn cfg q i)).valid = false := by
  obtain ⟨hc, hfu, -⟩ := CommitStage.commitLsuO_iff.mp h
  obtain ⟨hvalid, hex, -⟩ := CommitStage.commits0_iff.mp hc
  have hop : (csrIn cfg q i).csrOp = .ADD := by
    by_contra hne
    have hcsr := commitInstr0_fu cfg hne
    exact absurd (hcsr.symm.trans hfu) (by decide)
  have hnone : csrException cfg q i = ExceptionT.none := by
    refine csrExceptionO_of_not_access ?_
    show isCsrAccess (csrIn cfg q i).csrOp = false
    rw [hop]
    rfl
  have hcsr : (commitStageIn cfg q i).csrException = ExceptionT.none := hnone
  simp [CommitStage.exceptionO, hvalid, hex, hcsr, ExceptionT.none]

/-- A store commits beside a flush exactly if it is single-stepped outside
debug mode. -/
theorem flushes_iff_of_commitLsu
    {wtDcache flushDcacheAck isMispredict : Bool}
    (h : CommitStage.commitLsuO (commitStageIn cfg q i) = true) :
    flushes cfg wtDcache q i flushDcacheAck isMispredict = true ↔
      q.debugMode = false ∧ Dcsr.step.get q.dcsr = 1#1 := by
  obtain ⟨hc, hfu, hamo, -⟩ := CommitStage.commitLsuO_iff.mp h
  have hfu' : (commitInstr0 q i).fu = .STORE := hfu
  have hamo' : isAmo (commitInstr0 q i).op = false := hamo
  have hno := exceptionO_of_commitLsu h
  have hnop : ∀ op, Decoder.isFence op = true →
      (commitInstr0 q i).op ≠ op := fun op hop => op_ne_of_store hop hfu'
  have hcsr : ¬ (flushO cfg q (csrIn cfg q i) = true ∨
      eretO (csrIn cfg q i) = true) := by
    intro hf
    exact absurd ((fu_of_csr_flush hf).symm.trans hfu') (by decide)
  have hack : (csrIn cfg q i).commitAck.getLsbD 0 = true := by
    have h0 := CommitStage.commitAck0_of_commitLsu h (hnop _ rfl)
      (hnop _ rfl) (hnop _ rfl)
    show (CommitStage.commitAckO (commitStageIn cfg q i)).getLsbD 0 = true
    rw [CommitStage.commitAckO, h0]
    cases CommitStage.commitAck1 (commitStageIn cfg q i) <;> rfl
  have hdebug : setDebugPcO q (csrIn cfg q i) = true ↔
      q.debugMode = false ∧ Dcsr.step.get q.dcsr = 1#1 := by
    have hex : (csrIn cfg q i).ex.valid = false := hno
    unfold setDebugPcO stepping
    rw [hex, hack]
    cases q.debugMode <;> simp
  unfold flushes
  rw [Controller.flushEx_iff, ← hdebug]
  constructor
  · rintro (hf | hf | hf | hf | hf | hf | hf | hf)
    · exact absurd hf (by simp [controllerIn, CommitStage.fenceO,
        show (commitStageIn cfg q i).commitInstr0.op ≠ .FENCE from
          hnop _ rfl])
    · exact absurd hf (by simp [controllerIn, CommitStage.fenceIO, hfu,
        show (commitStageIn cfg q i).commitInstr0.op ≠ .FENCE_I from
          hnop _ rfl])
    · exact absurd hf (by simp [controllerIn, CommitStage.sfenceVmaO,
        show (commitStageIn cfg q i).commitInstr0.op ≠ .SFENCE_VMA from
          hnop _ rfl])
    · exact absurd (Or.inl hf) hcsr
    · exact absurd hf (by simp [controllerIn, CommitStage.flushCommitO,
        CommitStage.amoValidCommitO, hamo])
    · exact absurd (hno.symm.trans hf) Bool.false_ne_true
    · exact absurd (Or.inr hf) hcsr
    · exact hf
  · intro hf
    simp [controllerIn, hf]

end ArianeSoc.Core
