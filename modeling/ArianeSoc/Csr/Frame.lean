import ArianeSoc.Csr.Update
import ArianeSoc.Sync

/-!
# What each part of `csr_update` leaves alone

`SoftRegs` are the registers that no part of the block but the write case
changes: no trap, no debug entry, no return and no hardware update reaches
them.  `softRegs_nextValues` says so, and the two lemma groups after it say
what the write case does to the PMP registers and to `uscratch`.

`Settled` is what every reachable state satisfies: the pending load of
`mtvec` and, without PMP entries, the constant PMP registers.

`Quiet` describes the cycles without a trap, a debug entry or a return.
`nextValues_quiet` is the next state of such a cycle.
-/

namespace ArianeSoc.Csr

open Sync

/-! ## The registers that only the write case changes -/

/-- The registers that only software changes. -/
structure SoftRegs where
  uscratch : BitVec 64
  utval : BitVec 64
  dscratch0 : BitVec 64
  dscratch1 : BitVec 64
  mtvec : BitVec 64
  medeleg : BitVec 64
  mideleg : BitVec 64
  mie : BitVec 64
  mcounteren : BitVec 64
  mscratch : BitVec 64
  pmpcfg : Fin 16 → PmpCfg
  pmpaddr : Fin 16 → BitVec 54

def softRegs (d : State) : SoftRegs where
  uscratch := d.uscratch
  utval := d.utval
  dscratch0 := d.dscratch0
  dscratch1 := d.dscratch1
  mtvec := d.mtvec
  medeleg := d.medeleg
  mideleg := d.mideleg
  mie := d.mie
  mcounteren := d.mcounteren
  mscratch := d.mscratch
  pmpcfg := d.pmpcfg
  pmpaddr := d.pmpaddr

variable (cfg : Cfg) (q : State) (i : In) (d : State)

theorem softRegs_hardwired (u : Upd) :
    softRegs (hardwired q i u) = softRegs u.d := rfl

theorem softRegs_takeTrap : softRegs (takeTrap q i d) = softRegs d := by
  unfold takeTrap
  split_ifs <;> rfl

theorem softRegs_enterDebug :
    softRegs (enterDebug cfg q i d) = softRegs d := by
  unfold enterDebug debugStep debugRequest debugBreakpoint
  split_ifs <;> rfl

theorem softRegs_xret : softRegs (xret q i d) = softRegs d := by
  unfold xret
  split <;> rfl

theorem softRegs_nextValues :
    softRegs (nextValues cfg q i) = softRegs (csrWrite cfg q i).d := by
  have hwfi : softRegs (nextValues cfg q i) =
      softRegs (xret q i (loadStore q (enterDebug cfg q i (takeTrap q i
        (hardwired q i (csrWrite cfg q i)))))) := rfl
  have hload : ∀ d, softRegs (loadStore q d) = softRegs d := fun _ => rfl
  rw [hwfi, softRegs_xret, hload, softRegs_enterDebug, softRegs_takeTrap,
    softRegs_hardwired]

/-! ## The write case, register by register -/

/-- The write case starts from the default next values and changes them
only with the write strobe up, at the register of the address. -/
theorem csrWrite_cases :
    (csrWrite cfg q i).d = defaults q i ∨
      ∃ r w u, (csrOpLogic q i).we = true ∧ r.addr = i.csrAddr ∧
        w = csrWdata q i ∧ u.d = defaults q i ∧
        (csrWrite cfg q i).d = (writeReg cfg q u w r).d := by
  unfold csrWrite
  split
  · rename_i hwe
    split
    · rename_i r hr
      exact Or.inr ⟨r, _, _, hwe, CsrReg.addr_of_ofAddr hr, rfl, rfl, rfl⟩
    · exact Or.inl rfl
  · exact Or.inl rfl

/-- Without the write strobe the write case assigns nothing. -/
theorem csrWrite_of_not_we (h : (csrOpLogic q i).we = false) :
    csrWrite cfg q i = ⟨defaults q i, false, false, false, none⟩ := by
  unfold csrWrite
  rw [h]
  rfl

section WriteReg

variable {cfg q} {u : Upd} {w : BitVec 64} {r : CsrReg}

theorem fpWrite_d (fcsr : BitVec 32) :
    (fpWrite q u fcsr).d = u.d ∨
      (fpWrite q u fcsr).d = { u.d with fcsr := fcsr } := by
  unfold fpWrite
  split
  · exact Or.inl rfl
  · exact Or.inr rfl

/-- A write to `satp` changes nothing else. -/
theorem writeReg_satp_d :
    (writeReg cfg q u w .SATP).d = u.d ∨
      (writeReg cfg q u w .SATP).d =
        { u.d with satp := legalSatp cfg q w } := by
  simp only [writeReg]
  split
  · exact Or.inl rfl
  · exact Or.inr rfl

/-- A view of the registers that does not look at the floating-point
register and at `satp` does not see the writes whose effect depends on a
check. -/
theorem view_writeReg_guarded {τ : Type*} (view : State → τ)
    (hf : ∀ (d : State) f, view { d with fcsr := f } = view d)
    (hs : ∀ (d : State) s, view { d with satp := s } = view d)
    (hr : r = .FFLAGS ∨ r = .FRM ∨ r = .FCSR ∨ r = .FTRAN ∨ r = .SATP) :
    view (writeReg cfg q u w r).d = view u.d := by
  have hfp : ∀ f, view (fpWrite q u f).d = view u.d := by
    intro f
    rcases fpWrite_d (q := q) (u := u) f with h | h <;> rw [h]
    exact hf _ _
  rcases hr with rfl | rfl | rfl | rfl | rfl
  · exact hfp _
  · exact hfp _
  · exact hfp _
  · exact hfp _
  · rcases @writeReg_satp_d cfg q u w with h | h
      <;> rw [h]
    exact hs _ _

theorem writeReg_pmpcfg (h0 : r ≠ .PMPCFG0) (h2 : r ≠ .PMPCFG2) :
    (writeReg cfg q u w r).d.pmpcfg = u.d.pmpcfg := by
  cases r
  case PMPCFG0 => exact absurd rfl h0
  case PMPCFG2 => exact absurd rfl h2
  case FFLAGS | FRM | FCSR | FTRAN | SATP =>
    exact view_writeReg_guarded State.pmpcfg (fun _ _ => rfl)
      (fun _ _ => rfl) (by simp)
  all_goals rfl

theorem writeReg_pmpaddr (h : ∀ k, r ≠ .PMPADDR k) :
    (writeReg cfg q u w r).d.pmpaddr = u.d.pmpaddr := by
  cases r
  case PMPADDR k => exact absurd rfl (h k)
  case FFLAGS | FRM | FCSR | FTRAN | SATP =>
    exact view_writeReg_guarded State.pmpaddr (fun _ _ => rfl)
      (fun _ _ => rfl) (by simp)
  all_goals rfl

theorem writeReg_uscratch (h : r ≠ .USCRATCH) :
    (writeReg cfg q u w r).d.uscratch = u.d.uscratch := by
  cases r
  case USCRATCH => exact absurd rfl h
  case FFLAGS | FRM | FCSR | FTRAN | SATP =>
    exact view_writeReg_guarded State.uscratch (fun _ _ => rfl)
      (fun _ _ => rfl) (by simp)
  all_goals rfl

end WriteReg

/-- The default next values differ from the registers in the counters and
in `mtvec` only. -/
theorem defaults_eq :
    ∃ instret cycle mtvec,
      defaults q i =
        { q with instret := instret, cycle := cycle, mtvec := mtvec } ∧
      (q.mtvecRstLoad = false → mtvec = q.mtvec) := by
  exact ⟨_, _, _, rfl, fun hrst => if_neg (by simp [hrst])⟩

/-! ## The reachable states -/

/-- The first cycle runs in M mode, and without PMP entries the PMP
registers keep their reset value. -/
structure Settled (cfg : Cfg) (q : State) : Prop where
  rst_load : q.mtvecRstLoad = true → q.privLvl = PRIV_LVL_M
  no_pmp : cfg.nrPMPEntries = 0 →
    (q.pmpcfg = fun _ => 0#8) ∧ q.pmpaddr = fun _ => 0#54

theorem settled_reset : Settled cfg reset :=
  ⟨fun _ => rfl, fun _ => ⟨rfl, rfl⟩⟩

theorem settled_step : Settled cfg (step cfg q i) := by
  refine ⟨fun h => ?_, fun h => ⟨?_, ?_⟩⟩
  · have hrst : (step cfg q i).mtvecRstLoad = false := rfl
    rw [hrst] at h
    exact absurd h Bool.false_ne_true
  · funext k
    exact if_pos h
  · funext k
    exact if_pos h

theorem settled_of_reachable {cfg : Cfg} {q : State}
    (h : Reachable (step cfg) reset q) : Settled cfg q :=
  h.invariant (settled_reset cfg) fun _ _ _ => settled_step cfg _ _

/-- The sequential process keeps the PMP registers that the combinational
part keeps. -/
theorem latch_eq {cfg : Cfg} {q d : State} (h : Settled cfg q)
    (hcfg : d.pmpcfg = q.pmpcfg) (haddr : d.pmpaddr = q.pmpaddr) :
    latch cfg q d = { d with mtvecRstLoad := false } := by
  have hc : (latch cfg q d).pmpcfg = d.pmpcfg := by
    funext k
    simp only [latch]
    split_ifs with h0
    · rw [hcfg, (h.no_pmp h0).1]
    · rfl
    · rw [hcfg]
  have ha : (latch cfg q d).pmpaddr = d.pmpaddr := by
    funext k
    simp only [latch]
    split_ifs with h0
    · rw [haddr, (h.no_pmp h0).2]
    · rfl
    · rw [haddr]
  have heq : latch cfg q d =
      { d with
        mtvecRstLoad := false
        pmpcfg := (latch cfg q d).pmpcfg
        pmpaddr := (latch cfg q d).pmpaddr } := rfl
  rw [heq, hc, ha]

/-! ## Cycles without a trap, a debug entry or a return -/

/-- No exception, interrupt or debug request is presented, no single step
completes and the operation is not a return. -/
structure Quiet (q : State) (i : In) : Prop where
  no_ex : i.ex.valid = false
  no_step : stepping q i = false
  no_mret : i.csrOp ≠ .MRET
  no_sret : i.csrOp ≠ .SRET
  no_dret : i.csrOp ≠ .DRET

instance (q : State) (i : In) : Decidable (Quiet q i) :=
  decidable_of_iff (i.ex.valid = false ∧ stepping q i = false ∧
      i.csrOp ≠ .MRET ∧ i.csrOp ≠ .SRET ∧ i.csrOp ≠ .DRET)
    ⟨fun ⟨h1, h2, h3, h4, h5⟩ => ⟨h1, h2, h3, h4, h5⟩,
      fun ⟨h1, h2, h3, h4, h5⟩ => ⟨h1, h2, h3, h4, h5⟩⟩

variable {cfg q i d}

theorem Quiet.takeTrap (h : Quiet q i) : takeTrap q i d = d := by
  simp [Csr.takeTrap, trapTaken, h.no_ex]

theorem Quiet.enterDebug (h : Quiet q i) (hd : q.debugMode = false) :
    enterDebug cfg q i d =
      { d with dcsr := Dcsr.prv.set (privLvlO q) d.dcsr } := by
  simp [Csr.enterDebug, hd, debugStep, h.no_step, debugRequest,
    debugBreakpoint, h.no_ex]

theorem Quiet.xret (h : Quiet q i) : xret q i d = d := by
  unfold Csr.xret
  split
  · exact absurd ‹_› h.no_mret
  · exact absurd ‹_› h.no_sret
  · exact absurd ‹_› h.no_dret
  · rfl

/-- The next state of a quiet cycle outside debug mode is the write case
and the fields that hardware keeps. -/
theorem nextValues_quiet (h : Quiet q i) (hd : q.debugMode = false) :
    nextValues cfg q i =
      { loadStore q
          { hardwired q i (csrWrite cfg q i) with
            dcsr := Dcsr.prv.set (privLvlO q) (csrWrite cfg q i).d.dcsr } with
        wfi := wfiNext q i } := by
  unfold nextValues
  rw [h.takeTrap, h.enterDebug hd, h.xret]
  rfl

end ArianeSoc.Csr
