import ArianeSoc.Core.Commit
import ArianeSoc.Sync

/-!
# How the privilege level rises

`EscalatesByTrap` is the rule for one cycle: the level rises only with a
trap or on entry into debug mode, and a return that the level is not
entitled to is an illegal instruction, after which the level is the one of
that trap.

The decoder rejects MRET in U and in S mode.  `mstatus.mpp` also holds the
value `2'b10`, which names no level, and at that level MRET is executed.
`escalatesByTrap_iff` says that this is the only case in which a cycle
breaks the rule, and `run_escalatesByTrap_iff` says so for runs.
-/

namespace ArianeSoc.Core

open Csr Sync
open Decoder (MRET_WORD SRET_WORD DRET_WORD takenInterrupt)

/-! ## The rule -/

/-- The instruction at the head of the scoreboard came without a fetch
exception, an interrupt or a debug request, and the commit stage looks at
it. -/
structure Executes (q : State) (i : In) : Prop where
  fetched : i.fetchEx.valid = false
  expanded : i.isIllegal = false
  no_interrupt : takenInterrupt (decoderIn q i) = none
  no_debug_req : ¬ (i.decDebugReq = true ∧ q.debugMode = false)
  at_head : (commitInstr0 q i).valid = true
  not_halted : (q.wfi || i.fenceActive) = false

instance (q : State) (i : In) : Decidable (Executes q i) :=
  decidable_of_iff (i.fetchEx.valid = false ∧ i.isIllegal = false ∧
      takenInterrupt (decoderIn q i) = none ∧
      ¬ (i.decDebugReq = true ∧ q.debugMode = false) ∧
      (commitInstr0 q i).valid = true ∧ (q.wfi || i.fenceActive) = false)
    ⟨fun ⟨h1, h2, h3, h4, h5, h6⟩ => ⟨h1, h2, h3, h4, h5, h6⟩,
      fun ⟨h1, h2, h3, h4, h5, h6⟩ => ⟨h1, h2, h3, h4, h5, h6⟩⟩

/-- A return that the current level is not entitled to: MRET below M, SRET
in U or in S with TSR set, DRET outside debug mode. -/
def Unentitled (q : State) (w : BitVec 32) : Prop :=
  w = MRET_WORD ∧ privLvlO q ≠ PRIV_LVL_M ∨
    w = SRET_WORD ∧ (privLvlO q = PRIV_LVL_U ∨
      privLvlO q = PRIV_LVL_S ∧ Mstatus.tsr.get q.mstatus = 1#1) ∨
    w = DRET_WORD ∧ q.debugMode = false

/-- The level rises only with a trap or a debug entry, and an unentitled
return raises an illegal instruction and is not performed. -/
structure EscalatesByTrap (cfg : Cfg) (q : State) (i : In) : Prop where
  rise : privLvlO q < privLvlO (step cfg q i) →
    trapTaken q (csrIn cfg q i) = true ∨
      q.debugMode = false ∧ (step cfg q i).debugMode = true
  unentitled : Executes q i → Unentitled q i.instruction →
    (csrIn cfg q i).ex.valid = true ∧
      (csrIn cfg q i).ex.cause = ILLEGAL_INSTR ∧
      (step cfg q i).privLvl = trapToPrivLvl q (csrIn cfg q i)

/-- MRET is executed at the level that has no name. -/
def MretAtReserved (q : State) (i : In) : Prop :=
  Executes q i ∧ i.instruction = MRET_WORD ∧ privLvlO q = 0b10#2

instance (q : State) (i : In) : Decidable (MretAtReserved q i) :=
  inferInstanceAs (Decidable (_ ∧ _ ∧ _))

/-! ## The returns that are performed -/

variable {cfg : Cfg} {q : State} {i : In}

/-- What holds when a return reaches the CSR file. -/
theorem xret_csrIn (h : isXret (csrIn cfg q i).csrOp = true) :
    ((csrIn cfg q i).csrOp = .MRET →
        Executes q i ∧ i.instruction = MRET_WORD ∧
          privLvlO q ≠ PRIV_LVL_U ∧ privLvlO q ≠ PRIV_LVL_S) ∧
      ((csrIn cfg q i).csrOp = .SRET → privLvlO q ≠ PRIV_LVL_U) ∧
      ((csrIn cfg q i).csrOp = .DRET → q.debugMode = true) := by
  have hadd : (csrIn cfg q i).csrOp ≠ .ADD := by
    intro hop
    rw [hop] at h
    exact absurd h (by decide)
  obtain ⟨hfu, hop, hex, hv, hhalt⟩ := csrOp_ne_add hadd
  obtain ⟨hf, hinstr, hint, hdbg⟩ := Decoder.exception_valid_eq_false.mp hex
  rw [Decoder.instrException_valid] at hinstr
  simp only [Bool.or_eq_false_iff] at hinstr
  obtain ⟨⟨⟨hill, hexp⟩, -⟩, -⟩ := hinstr
  obtain ⟨hm, hs, hd⟩ := Decoder.xret_of_legal hfu hill
  rw [hop]
  refine ⟨fun h => ?_, fun h => (hs h).1, fun h => hd h⟩
  obtain ⟨hw, hu, hsup⟩ := hm h
  exact ⟨⟨hf, hexp, hint, hdbg, hv, hhalt⟩, hw, hu, hsup⟩

/-- A rise of the level is a trap, a debug entry or MRET at the level
without a name. -/
theorem rise_cases (h : privLvlO q < privLvlO (step cfg q i)) :
    trapTaken q (csrIn cfg q i) = true ∨
      (q.debugMode = false ∧ (step cfg q i).debugMode = true) ∨
      MretAtReserved q i := by
  have hq : q.debugMode = false := by
    by_contra hd
    rw [Bool.not_eq_false] at hd
    rw [privLvlO_of_debug hd] at h
    bv_omega
  by_cases hd' : (step cfg q i).debugMode = true
  · exact Or.inr (Or.inl ⟨hq, hd'⟩)
  rw [Bool.not_eq_true] at hd'
  have hnext : (step cfg q i).privLvl = _ :=
    privLvl_step cfg q (csrIn cfg q i)
  rw [privLvlO_of_not_debug hd', privLvlO_of_not_debug hq, hnext] at h
  by_cases hx : isXret (csrIn cfg q i).csrOp = true
  · rw [if_pos hx] at h
    obtain ⟨hm, hs, hdret⟩ := xret_csrIn hx
    rw [isXret, decide_eq_true_eq] at hx
    rcases hx with hop | hop | hop
    · obtain ⟨hexec, hw, hu, hsup⟩ := hm hop
      refine Or.inr (Or.inr ⟨hexec, hw, ?_⟩)
      rw [privLvlO_of_not_debug hq] at hu hsup ⊢
      bv_omega
    · have hu := hs hop
      rw [privLvlO_of_not_debug hq] at hu
      rw [hop, returnLvl] at h
      have hspp : ∀ x : BitVec 1, (0#1 ++ x : BitVec 2) ≤ 1#2 := by decide
      have hle := hspp (Mstatus.spp.get q.mstatus)
      bv_omega
    · rw [hdret hop] at hq
      exact Bool.noConfusion hq
  · rw [if_neg hx] at h
    by_cases ht : trapTaken q (csrIn cfg q i) = true
    · exact Or.inl ht
    · rw [if_neg ht] at h
      exact absurd h (BitVec.lt_irrefl _)

/-! ## The returns that are rejected -/

/-- The decoder rejects an unentitled return, unless it is MRET at the
level without a name. -/
theorem illegal_of_unentitled (hx : Executes q i)
    (hu : Unentitled q i.instruction) (hr : ¬ MretAtReserved q i) :
    (Decoder.decodeInstr (decoderIn q i)).illegalInstr = true := by
  refine Decoder.illegal_xret (i := decoderIn q i) hx.fetched ?_
  rcases hu with ⟨hw, hp⟩ | ⟨hw, hp⟩ | ⟨hw, hd⟩
  · refine Or.inl ⟨hw, ?_⟩
    have hp' : privLvlO q ≠ 0b10#2 := fun h => hr ⟨hx, hw, h⟩
    have hlvl : ∀ p : PrivLvl, p ≠ PRIV_LVL_M → p ≠ 0b10#2 →
        p = PRIV_LVL_U ∨ p = PRIV_LVL_S := by decide
    exact hlvl _ hp hp'
  · refine Or.inr (Or.inl ⟨hw, ?_⟩)
    rcases hp with hu | ⟨hs, ht⟩
    · exact Or.inl hu
    · exact Or.inr ⟨hs, by simpa [decoderIn] using ht⟩
  · exact Or.inr (Or.inr ⟨hw, hd⟩)

theorem Unentitled.not_debug (hu : Unentitled q i.instruction) :
    q.debugMode = false := by
  by_contra hd
  rw [Bool.not_eq_false] at hd
  have hm := privLvlO_of_debug hd
  rcases hu with ⟨-, hp⟩ | ⟨-, hp | ⟨hp, -⟩⟩ | ⟨-, hp⟩
  · exact hp hm
  · exact absurd (hm.symm.trans hp) (by decide)
  · exact absurd (hm.symm.trans hp) (by decide)
  · rw [hd] at hp
    exact Bool.noConfusion hp

/-- An executed instruction that the decoder rejects traps as an illegal
instruction, and the trap decides the next level. -/
theorem illegal_traps (hx : Executes q i) (hd : q.debugMode = false)
    (hill : (Decoder.decodeInstr (decoderIn q i)).illegalInstr = true) :
    (csrIn cfg q i).ex.valid = true ∧
      (csrIn cfg q i).ex.cause = ILLEGAL_INSTR ∧
      (step cfg q i).privLvl = trapToPrivLvl q (csrIn cfg q i) := by
  obtain ⟨hv, hc⟩ := Decoder.exception_of_illegal (i := decoderIn q i)
    hx.fetched hx.no_interrupt hx.no_debug_req hill
  have hwb : commitInstr0 q i = Decoder.decoder (decoderIn q i) :=
    if_pos hv
  have hvh : (commitInstr0 q i).ex.valid = true := by
    rw [hwb]
    exact hv
  have hex : (csrIn cfg q i).ex = (commitInstr0 q i).ex :=
    CommitStage.exceptionO_of_ex hx.at_head hvh hx.not_halted
  have hv' : (csrIn cfg q i).ex.valid = true := by
    rw [hex, hwb]
    exact hv
  have hc' : (csrIn cfg q i).ex.cause = ILLEGAL_INSTR := by
    rw [hex, hwb]
    exact hc
  have hop : (csrIn cfg q i).csrOp = .ADD := by
    by_contra hne
    have hlegal := (csrOp_ne_add hne).2.2.1
    rw [hv] at hlegal
    exact Bool.noConfusion hlegal
  refine ⟨hv', hc', ?_⟩
  have htrap : trapTaken q (csrIn cfg q i) = true := by
    simp [trapTaken, hd, hv', hc', ILLEGAL_INSTR, DEBUG_REQUEST]
  have hnext : (step cfg q i).privLvl = _ :=
    privLvl_step cfg q (csrIn cfg q i)
  rw [hnext, hop, if_neg (by decide), if_pos htrap]

/-- MRET at the level without a name raises no exception. -/
theorem mretAtReserved_no_exception (h : MretAtReserved q i) :
    (csrIn cfg q i).ex.valid = false := by
  obtain ⟨hx, hw, hp⟩ := h
  have hlvl : ¬ (privLvlO q = PRIV_LVL_U ∨ privLvlO q = PRIV_LVL_S) := by
    rw [hp]
    decide
  have hd := Decoder.decodeInstr_mret (i := decoderIn q i) hx.fetched hw hlvl
  have hinstr : (Decoder.instrException (decoderIn q i)
      (Decoder.decodeInstr (decoderIn q i))).valid = false := by
    rw [Decoder.instrException_valid, hd]
    simpa [decoderIn] using hx.expanded
  have hex := Decoder.exception_valid_eq_false.mpr
    ⟨hx.fetched, hinstr, hx.no_interrupt, hx.no_debug_req⟩
  have hfu : (Decoder.decoder (decoderIn q i)).fu = .CSR :=
    congrArg Decoder.Decoded.fu hd
  have hop : (Decoder.decoder (decoderIn q i)).op = .MRET :=
    congrArg Decoder.Decoded.op hd
  have hhead : (commitInstr0 q i).ex.valid = false := by
    rw [commitInstr0, writeBack_ex_csr hfu]
    exact hex
  have hacc : isCsrAccess (csrInWith q i ExceptionT.none).csrOp = false := by
    by_cases hadd : (csrIn cfg q i).csrOp = .ADD
    · rw [csrOp_csrIn] at hadd
      have hsame : (csrInWith q i ExceptionT.none).csrOp = .ADD := hadd
      rw [hsame]
      rfl
    · have hsame : (csrInWith q i ExceptionT.none).csrOp = .MRET :=
        (csrOp_ne_add hadd).2.1.trans hop
      rw [hsame]
      rfl
  refine CommitStage.exceptionO_none hhead ?_
  have hcsr : csrException cfg q i = ExceptionT.none :=
    csrExceptionO_of_not_access hacc
  exact congrArg ExceptionT.valid hcsr

/-! ## The rule, for a cycle and for a run -/

/-- A cycle follows the rule exactly if it does not execute MRET at the
level without a name. -/
theorem escalatesByTrap_iff (cfg : Cfg) (q : State) (i : In) :
    EscalatesByTrap cfg q i ↔ ¬ MretAtReserved q i := by
  constructor
  · rintro h hr
    have hu : Unentitled q i.instruction := by
      refine Or.inl ⟨hr.2.1, ?_⟩
      rw [hr.2.2]
      decide
    have hex := (h.unentitled hr.1 hu).1
    rw [mretAtReserved_no_exception hr] at hex
    exact Bool.noConfusion hex
  · intro hr
    refine ⟨fun hlt => ?_, fun hx hu => ?_⟩
    · rcases rise_cases hlt with h | h | h
      · exact Or.inl h
      · exact Or.inr h
      · exact absurd h hr
    · exact illegal_traps hx hu.not_debug (illegal_of_unentitled hx hu hr)

/-- Every cycle of a run follows the rule exactly if none executes MRET at
the level without a name. -/
theorem run_escalatesByTrap_iff (cfg : Cfg) (s : State) (is : List In) :
    Along (step cfg) (EscalatesByTrap cfg) s is ↔
      Along (step cfg) (fun q i => ¬ MretAtReserved q i) s is :=
  Along.congr (escalatesByTrap_iff cfg) s is

/-- A committed instruction word, from a state without interrupts. -/
def commits (w : BitVec 32) : In where
  instruction := w
  pc := 0#64
  isCompressed := false
  compressedInstr := 0#16
  isIllegal := false
  predictAddress := 0#64
  fetchEx := ExceptionT.none
  decIrqCtrl := ⟨0#64, 0#64, 0#64, false, false⟩
  decIrq := 0#2
  decDebugReq := false
  written := true
  result := 0#64
  fuEx := ExceptionT.none
  csrAddr := 0#12
  fenceActive := false
  flushDcache := false
  commitInstr1 := Decoder.decoder
    { debugReq := false, pc := 0#64, isCompressed := false,
      compressedInstr := 0#16, isIllegal := false, instruction := 0x13#32,
      predictAddress := 0#64, ex := ExceptionT.none, irq := 0#2,
      irqCtrl := ⟨0#64, 0#64, 0#64, false, false⟩, privLvl := PRIV_LVL_M,
      debugMode := false, fs := 0#2, frm := 0#3, tvm := false, tw := false,
      tsr := false }
  amoRespAck := false
  commitLsuReady := true
  noStPending := true
  timeIrq := false
  bootAddr := 0#64
  hartId := 0#64
  irq := 0#2
  ipi := false
  debugReq := false
  perfData := 0#64

/-- `csrrw x0, mstatus, x1` with `v` in `x1`. -/
def writeMstatus (v : BitVec 64) : In :=
  { commits 0x30009073#32 with csrAddr := 0x300#12, result := v }

/-- M mode returns to level `2'b10`; a debug request, and in debug mode
`mstatus.mpp` is set to M; DRET returns to level `2'b10`. -/
def toReserved : List In :=
  [writeMstatus 0x1000#64, commits MRET_WORD,
    { commits 0x13#32 with decDebugReq := true, debugReq := true },
    writeMstatus 0x1800#64, commits DRET_WORD]

/-- From there MRET raises the level to M without a trap. -/
theorem mret_escalates :
    let s := Sync.run (step Cfg.ariane) reset toReserved
    let s' := step Cfg.ariane s (commits MRET_WORD)
    privLvlO s = 0b10#2 ∧ privLvlO s' = PRIV_LVL_M ∧
      trapTaken s (csrIn Cfg.ariane s (commits MRET_WORD)) = false ∧
      s'.debugMode = false ∧
      ¬ EscalatesByTrap Cfg.ariane s (commits MRET_WORD) := by
  intro s s'
  refine ⟨by decide +kernel, by decide +kernel, by decide +kernel,
    by decide +kernel, fun h => ?_⟩
  have hlt : privLvlO s < privLvlO s' := by decide +kernel
  have hno : trapTaken s (csrIn Cfg.ariane s (commits MRET_WORD)) = false ∧
      s'.debugMode = false := by decide +kernel
  rcases h.rise hlt with ht | ⟨-, hd⟩
  · rw [hno.1] at ht
    exact Bool.noConfusion ht
  · have hd' : s'.debugMode = true := hd
    rw [hno.2] at hd'
    exact Bool.noConfusion hd'

end ArianeSoc.Core
