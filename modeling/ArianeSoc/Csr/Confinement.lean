import ArianeSoc.Csr.Frame

/-!
# What a user or supervisor program can do to the machine-level CSRs

`UserCycle` describes a cycle below M mode in which the hart takes no trap,
enters no debug mode and executes no return.  `MachineRegs` is the
machine-level state as such a cycle must leave it: the parts of `mstatus`,
`mip` and `dcsr` that neither `sstatus`, `sip` nor the hardware owns, and
every machine-level register except two.

* `machine_regs_confined`: no run of such cycles changes `MachineRegs`.
* `mcause` is exempt from the privilege check, and a write to `sie` adds
  `utval` to `mie`.  `machine_state_confined` says when these two registers
  keep their value nevertheless.
-/

namespace ArianeSoc.Csr

open Sync

/-! ## The machine-level state -/

/-- The bits of `mstatus` that `sstatus` can write or the hardware keeps. -/
def STATUS_OPEN_MASK : BitVec 64 :=
  SMODE_STATUS_WRITE_MASK ||| Mstatus.fs.mask ||| Mstatus.sd.mask |||
    Mstatus.sxl.mask ||| Mstatus.uxl.mask

/-- The bits of `mip` that the machine-level interrupt lines drive. -/
def MIP_PIN_MASK : BitVec 64 := MIP_MSIP ||| MIP_MTIP ||| MIP_MEIP

/-- The machine-level state that no user or supervisor cycle changes. -/
structure MachineRegs where
  mstatus : BitVec 64
  mip : BitVec 64
  dcsr : BitVec 32
  mideleg : BitVec 64
  medeleg : BitVec 64
  mtvec : BitVec 64
  mepc : BitVec 64
  mtval : BitVec 64
  mscratch : BitVec 64
  mcounteren : BitVec 64
  dpc : BitVec 64
  dscratch0 : BitVec 64
  dscratch1 : BitVec 64
  pmpcfg : Fin 16 → PmpCfg
  pmpaddr : Fin 16 → BitVec 54

def machineRegs (q : State) : MachineRegs where
  mstatus := q.mstatus &&& ~~~ STATUS_OPEN_MASK
  mip := q.mip &&& ~~~ (q.mideleg ||| MIP_PIN_MASK)
  dcsr := q.dcsr &&& ~~~ Dcsr.prv.mask
  mideleg := q.mideleg
  medeleg := q.medeleg
  mtvec := q.mtvec
  mepc := q.mepc
  mtval := q.mtval
  mscratch := q.mscratch
  mcounteren := q.mcounteren
  dpc := q.dpc
  dscratch0 := q.dscratch0
  dscratch1 := q.dscratch1
  pmpcfg := q.pmpcfg
  pmpaddr := q.pmpaddr

/-- A cycle below M mode without a trap, a debug entry or a return. -/
structure UserCycle (q : State) (i : In) : Prop extends Quiet q i where
  not_debug : q.debugMode = false
  below_m : privLvlO q = PRIV_LVL_U ∨ privLvlO q = PRIV_LVL_S

instance (q : State) (i : In) : Decidable (UserCycle q i) :=
  decidable_of_iff (Quiet q i ∧ q.debugMode = false ∧
      (privLvlO q = PRIV_LVL_U ∨ privLvlO q = PRIV_LVL_S))
    ⟨fun ⟨h1, h2, h3⟩ => ⟨h1, h2, h3⟩, fun ⟨h1, h2, h3⟩ => ⟨h1, h2, h3⟩⟩

/-- Such a cycle is not the first one after a reset. -/
theorem UserCycle.rstLoad {cfg : Cfg} {q : State} {i : In}
    (h : UserCycle q i) (hq : Settled cfg q) : q.mtvecRstLoad = false := by
  by_contra hrst
  rw [Bool.not_eq_false] at hrst
  have hm : privLvlO q = PRIV_LVL_M := by
    rw [privLvlO_of_not_debug h.not_debug, hq.rst_load hrst]
  rcases h.below_m with hu | hs
  · exact absurd (hm.symm.trans hu) (by decide)
  · exact absurd (hm.symm.trans hs) (by decide)

/-- The cycle performs a write to `r`. -/
abbrev writes (r : CsrReg) (q : State) (i : In) : Prop :=
  (csrOpLogic q i).we = true ∧ i.csrAddr = r.addr

/-! ## Which registers a write below M mode reaches -/

/-- The address of the register asks for M mode. -/
def machineOnly (r : CsrReg) : Bool := (csrPrivLvl r.addr).getLsbD 1

/-- The counter addresses belong to user mode. -/
theorem csrPrivLvl_counter {a : BitVec 12} (hlo : CSR_CYCLE ≤ a)
    (hhi : a ≤ CSR_HPM_COUNTER_31) : csrPrivLvl a = PRIV_LVL_U := by
  apply BitVec.eq_of_toNat_eq
  have hlo' : 3072 ≤ a.toNat := hlo
  have hhi' : a.toNat ≤ 3103 := hhi
  simp only [csrPrivLvl, BitVec.extractLsb'_toNat,
    Nat.shiftRight_eq_div_pow, BitVec.toNat_ofNat]
  omega

/-- The privilege check keeps a level below M away from every register
whose address asks for M mode, except for `mcause`. -/
theorem not_machineOnly_of_we {q : State} {i : In} {r : CsrReg}
    (hp : privLvlO q = PRIV_LVL_U ∨ privLvlO q = PRIV_LVL_S)
    (hwe : (csrOpLogic q i).we = true) (ha : r.addr = i.csrAddr)
    (hm : r.addr ≠ CsrReg.MCAUSE.addr) : machineOnly r = false := by
  obtain ⟨hv, hop⟩ := csrOpLogic_we hwe
  by_contra hbit
  rw [machineOnly, ha, Bool.not_eq_false] at hbit
  have hacc : isCsrAccess i.csrOp = true := by
    rcases hop with h | h | h <;> rw [h] <;> rfl
  have hviol : privBitsViolation q i.csrAddr = true := by
    have hne : privLvlO q &&& csrPrivLvl i.csrAddr ≠ csrPrivLvl i.csrAddr := by
      intro heq
      have h1 := congrArg (·.getLsbD 1) heq
      simp only [BitVec.getLsbD_and, hbit, Bool.and_true] at h1
      rcases hp with h | h <;> rw [h] at h1 <;> simp at h1
    rw [ha] at hm
    simp [privBitsViolation, hne, hm]
  have hrange : ¬ (CSR_CYCLE ≤ i.csrAddr ∧
      i.csrAddr ≤ CSR_HPM_COUNTER_31) := by
    rintro ⟨hlo, hhi⟩
    rw [csrPrivLvl_counter hlo hhi] at hbit
    simp at hbit
  rw [privilegeViolation, if_pos hacc] at hv
  simp only [hviol, Bool.true_or] at hv
  rw [if_neg hrange] at hv
  exact Bool.noConfusion hv

/-! ## One cycle -/

variable {cfg : Cfg} {q : State} {i : In}

/-- A write to a register below M mode leaves the machine-level state
alone. -/
theorem machineRegs_writeReg {u : Upd} {w : BitVec 64} {r : CsrReg}
    (hu : u.d = defaults q i) (hr : machineOnly r = false) :
    machineRegs (writeReg cfg q u w r).d = machineRegs u.d := by
  have hq : u.d.mstatus = q.mstatus ∧ u.d.mip = q.mip ∧
      u.d.mideleg = q.mideleg := by
    rw [hu]
    exact ⟨rfl, rfl, rfl⟩
  obtain ⟨hst, hip, hdel⟩ := hq
  cases r
  case SSTATUS =>
    have hmask : BitField.merge SMODE_STATUS_WRITE_MASK q.mstatus w &&&
        ~~~ STATUS_OPEN_MASK = u.d.mstatus &&& ~~~ STATUS_OPEN_MASK := by
      rw [hst]
      exact BitField.merge_and_of_disjoint _ _ _ _ (by decide)
    simp only [machineRegs, writeReg, hmask]
  case SIP =>
    have hmask : BitField.merge (MIP_SSIP &&& q.mideleg) q.mip w &&&
        ~~~ (u.d.mideleg ||| MIP_PIN_MASK) =
          u.d.mip &&& ~~~ (u.d.mideleg ||| MIP_PIN_MASK) := by
      rw [hip, hdel]
      refine BitField.merge_and_of_disjoint _ _ _ _ ?_
      ext j
      simp
      grind
    simp only [machineRegs, writeReg, hmask]
  case FFLAGS | FRM | FCSR | FTRAN | SATP =>
    exact view_writeReg_guarded machineRegs (fun _ _ => rfl)
      (fun _ _ => rfl) (by simp)
  case MHPM n =>
    exact absurd hr (by revert n; decide)
  case PMPADDR k =>
    exact absurd hr (by revert k; decide)
  all_goals first | rfl | exact absurd hr (by decide)

/-- A write to `mcause` is not seen in `MachineRegs`. -/
theorem machineRegs_writeReg_mcause (u : Upd) (w : BitVec 64) :
    machineRegs (writeReg cfg q u w .MCAUSE).d = machineRegs u.d := rfl

theorem machineRegs_csrWrite (h : UserCycle q i)
    (hrst : q.mtvecRstLoad = false) :
    machineRegs (csrWrite cfg q i).d = machineRegs q := by
  have hdef : machineRegs (defaults q i) = machineRegs q := by
    obtain ⟨instret, cycle, mtvec, heq, hmtvec⟩ := defaults_eq q i
    rw [heq, hmtvec hrst]
    rfl
  rcases csrWrite_cases cfg q i with heq | ⟨r, w, u, hwe, ha, -, hu, heq⟩
  · rw [heq, hdef]
  · rw [heq]
    by_cases hm : r.addr = CsrReg.MCAUSE.addr
    · have hr : r = .MCAUSE := CsrReg.addr_injective hm
      rw [hr, machineRegs_writeReg_mcause, hu, hdef]
    · have hr : machineOnly r = false :=
        not_machineOnly_of_we h.below_m hwe ha hm
      rw [machineRegs_writeReg hu hr, hu, hdef]

/-- The fields that hardware keeps are not part of `MachineRegs`. -/
theorem machineRegs_hardwired (u : Upd) :
    machineRegs (hardwired q i u) = machineRegs u.d := by
  have hmstatus : (hardwired q i u).mstatus &&& ~~~ STATUS_OPEN_MASK =
      u.d.mstatus &&& ~~~ STATUS_OPEN_MASK := by
    simp only [hardwired]
    rw [BitField.set_and_of_disjoint _ _ _ _ (by decide)]
    split_ifs
    · rw [BitField.set_and_of_disjoint _ _ _ _ (by decide),
        BitField.set_and_of_disjoint _ _ _ _ (by decide),
        BitField.set_and_of_disjoint _ _ _ _ (by decide)]
    · rw [BitField.set_and_of_disjoint _ _ _ _ (by decide),
        BitField.set_and_of_disjoint _ _ _ _ (by decide)]
  have hmip : (hardwired q i u).mip &&& ~~~ (u.d.mideleg ||| MIP_PIN_MASK) =
      u.d.mip &&& ~~~ (u.d.mideleg ||| MIP_PIN_MASK) := by
    have hpin : ∀ {n} (f : BitField 64 n),
        f.mask &&& ~~~ MIP_PIN_MASK = 0#64 →
          f.mask &&& ~~~ (u.d.mideleg ||| MIP_PIN_MASK) = 0#64 := by
      intro n f hf
      rw [BitVec.not_or, BitVec.and_comm (~~~ _), ← BitVec.and_assoc, hf,
        BitVec.zero_and]
    simp only [hardwired]
    rw [BitField.set_and_of_disjoint _ _ _ _ (hpin _ (by decide)),
      BitField.set_and_of_disjoint _ _ _ _ (hpin _ (by decide)),
      BitField.set_and_of_disjoint _ _ _ _ (hpin _ (by decide))]
  simp only [machineRegs, hmstatus]
  have hdel : (hardwired q i u).mideleg = u.d.mideleg := rfl
  rw [hdel, hmip]
  rfl

theorem machineRegs_step (hq : Settled cfg q) (h : UserCycle q i) :
    machineRegs (step cfg q i) = machineRegs q := by
  have hlatch : ∀ d, machineRegs d = machineRegs q →
      machineRegs (latch cfg q d) = machineRegs q := by
    intro d hd
    have hcfg : d.pmpcfg = q.pmpcfg := congrArg MachineRegs.pmpcfg hd
    have haddr : d.pmpaddr = q.pmpaddr := congrArg MachineRegs.pmpaddr hd
    rw [← hd, latch_eq hq hcfg haddr]
    rfl
  have hdcsr : ∀ d : State,
      machineRegs { d with dcsr := Dcsr.prv.set (privLvlO q) d.dcsr } =
        machineRegs d := by
    intro d
    have hprv : Dcsr.prv.set (privLvlO q) d.dcsr &&& ~~~ Dcsr.prv.mask =
        d.dcsr &&& ~~~ Dcsr.prv.mask :=
      BitField.set_and_of_disjoint _ _ _ _ (by decide)
    simp only [machineRegs, hprv]
  apply hlatch
  rw [nextValues_quiet h.toQuiet h.not_debug]
  have hload : ∀ (d : State) wfi,
      machineRegs { loadStore q d with wfi := wfi } = machineRegs d :=
    fun _ _ => rfl
  have hhw := machineRegs_hardwired (q := q) (i := i) (csrWrite cfg q i)
  rw [hload, ← machineRegs_csrWrite h (h.rstLoad hq), ← hhw]
  exact hdcsr (hardwired q i (csrWrite cfg q i))

/-! ## The two registers that a user cycle can change -/

/-- A performed write to `sie` adds nothing to the bits of `mie` outside
`mideleg`. -/
abbrev SieKeepsMie (q : State) (i : In) : Prop :=
  writes .SIE q i → q.utval &&& ~~~ q.mideleg &&& ~~~ q.mie = 0#64

theorem writeReg_mcause {u : Upd} {w : BitVec 64} {r : CsrReg}
    (h : r ≠ .MCAUSE) : (writeReg cfg q u w r).d.mcause = u.d.mcause := by
  cases r
  case MCAUSE => exact absurd rfl h
  case FFLAGS | FRM | FCSR | FTRAN | SATP =>
    exact view_writeReg_guarded State.mcause (fun _ _ => rfl)
      (fun _ _ => rfl) (by simp)
  all_goals rfl

theorem writeReg_mie {u : Upd} {w : BitVec 64} {r : CsrReg}
    (h : r ≠ .SIE) (h' : r ≠ .MIE) :
    (writeReg cfg q u w r).d.mie = u.d.mie := by
  cases r
  case SIE => exact absurd rfl h
  case MIE => exact absurd rfl h'
  case FFLAGS | FRM | FCSR | FTRAN | SATP =>
    exact view_writeReg_guarded State.mie (fun _ _ => rfl)
      (fun _ _ => rfl) (by simp)
  all_goals rfl

theorem mcause_step (h : UserCycle q i) (hw : ¬ writes .MCAUSE q i) :
    (step cfg q i).mcause = q.mcause := by
  have hnext : (step cfg q i).mcause = (csrWrite cfg q i).d.mcause := by
    simp only [step, nextValues_quiet h.toQuiet h.not_debug]
    rfl
  rw [hnext]
  rcases csrWrite_cases cfg q i with heq | ⟨r, w, u, hwe, ha, -, hu, heq⟩
  · rw [heq]
    rfl
  · have hr : r ≠ .MCAUSE := by
      rintro rfl
      exact hw ⟨hwe, ha.symm⟩
    rw [heq, writeReg_mcause hr, hu]
    rfl

/-- The write to `sie`, outside `mideleg`: the bits of `utval` are added. -/
theorem sie_write_outside (m d w v : BitVec 64) :
    (BitField.merge d m w ||| v) &&& ~~~ d =
      (m &&& ~~~ d) ||| (v &&& ~~~ d &&& ~~~ m) := by
  have hmerge : BitField.merge d m w &&& ~~~ d = m &&& ~~~ d :=
    BitField.merge_and_of_disjoint _ _ _ _ (by simp)
  ext j
  have hj := congrArg (·.getLsbD j) hmerge
  simp at hj ⊢
  grind

theorem mie_step (h : UserCycle q i) (hw : SieKeepsMie q i) :
    (step cfg q i).mie &&& ~~~ q.mideleg = q.mie &&& ~~~ q.mideleg := by
  have hnext : (step cfg q i).mie = (csrWrite cfg q i).d.mie := by
    simp only [step, nextValues_quiet h.toQuiet h.not_debug]
    rfl
  rw [hnext]
  rcases csrWrite_cases cfg q i with heq | ⟨r, w, u, hwe, ha, -, hu, heq⟩
  · rw [heq]
    rfl
  · rw [heq]
    by_cases hsie : r = .SIE
    · subst hsie
      have hmask := hw ⟨hwe, ha.symm⟩
      show (BitField.merge q.mideleg q.mie w ||| q.utval) &&& _ = _
      rw [sie_write_outside, hmask, BitVec.or_zero]
    · have hmie : r ≠ .MIE := by
        rintro rfl
        have hlow := not_machineOnly_of_we h.below_m hwe ha (by decide)
        exact absurd hlow (by decide)
      rw [writeReg_mie hsie hmie, hu]
      rfl

/-! ## Every run below M mode -/

/-- No run of user cycles changes the machine-level state. -/
theorem machine_regs_confined {s : State} {is : List In}
    (hs : Reachable (step cfg) reset s)
    (ha : Along (step cfg) UserCycle s is) :
    machineRegs (run (step cfg) s is) = machineRegs s :=
  ha.run_frame_of_invariant (P := Settled cfg)
    (fun _ _ _ => settled_step cfg _ _)
    (fun _ _ hq h => machineRegs_step hq h) (settled_of_reachable hs)

/-- From any reachable state, no run of user cycles changes the
machine-level state.  It keeps `mcause` if no cycle writes `mcause`, and
`mie` outside `mideleg` if no write to `sie` meets a new bit of `utval`
there. -/
theorem machine_state_confined (cfg : Cfg) (s : State) (is : List In)
    (hs : Reachable (step cfg) reset s)
    (ha : Along (step cfg) UserCycle s is) :
    let s' := run (step cfg) s is
    machineRegs s' = machineRegs s ∧
      (Along (step cfg) (fun q i => ¬ writes .MCAUSE q i) s is →
        s'.mcause = s.mcause) ∧
      (Along (step cfg) SieKeepsMie s is →
        s'.mie &&& ~~~ s.mideleg = s.mie &&& ~~~ s.mideleg) := by
  refine ⟨machine_regs_confined hs ha, fun hw => ?_, fun hw => ?_⟩
  · exact (ha.and hw).run_frame (f := State.mcause)
      fun _ _ h => mcause_step h.1 h.2
  · have hsettled := settled_of_reachable hs
    have hview := (ha.and hw).run_frame_of_invariant (P := Settled cfg)
      (f := fun q : State => (q.mideleg, q.mie &&& ~~~ q.mideleg))
      (fun _ _ _ => settled_step cfg _ _)
      (fun q i hq h => by
        have hregs := machineRegs_step hq h.1
        have hdel : (step cfg q i).mideleg = q.mideleg :=
          congrArg MachineRegs.mideleg hregs
        rw [hdel, mie_step h.1 h.2]) hsettled
    have hdel := congrArg Prod.fst hview
    have hmie := congrArg Prod.snd hview
    simp only at hdel hmie
    rw [hdel] at hmie
    exact hmie

/-- From a reset: `mstatus.mpp` is set to S and the hart returns to it. -/
def enterSupervisor : List In :=
  [In.idle,
    { In.idle with csrOp := .CSR_WRITE, csrAddr := 0x300#12,
                   csrWdata := 0x800#64 },
    { In.idle with csrOp := .MRET }]

/-- Supervisor cycles: `utval`, `sie`, `mcause` are written, then the timer
interrupt is pending. -/
def supervisorWrites : List In :=
  [{ In.idle with csrOp := .CSR_WRITE, csrAddr := 0x043#12,
                  csrWdata := 0x80#64 },
    { In.idle with csrOp := .CSR_WRITE, csrAddr := 0x104#12 },
    { In.idle with csrOp := .CSR_WRITE, csrAddr := 0x342#12,
                   csrWdata := 5#64 },
    { In.idle with timeIrq := true }]

/-- Supervisor cycles that keep `mcause` and `mie`: `utval` is written with
a bit that `mie` has not, `sscratch` is set and `stvec` is read. -/
def supervisorKeeps : List In :=
  [{ In.idle with csrOp := .CSR_WRITE, csrAddr := 0x043#12,
                  csrWdata := 0x80#64 },
    { In.idle with csrOp := .CSR_SET, csrAddr := 0x140#12,
                   csrWdata := 0x1234#64 },
    { In.idle with csrOp := .CSR_READ, csrAddr := 0x105#12 },
    { In.idle with csrOp := .CSR_WRITE, csrAddr := 0x300#12,
                   csrWdata := 0x1800#64 }]

theorem machine_state_confined_supervisorKeeps :
    let s := run (step Cfg.ariane) reset enterSupervisor
    let s' := run (step Cfg.ariane) s supervisorKeeps
    machineRegs s' = machineRegs s ∧ s'.mcause = s.mcause ∧
      s'.mie &&& ~~~ s.mideleg = s.mie &&& ~~~ s.mideleg := by
  have h := machine_state_confined Cfg.ariane
    (run (step Cfg.ariane) reset enterSupervisor) supervisorKeeps
    ⟨enterSupervisor, rfl⟩ (by decide +kernel)
  exact ⟨h.1, h.2.1 (by decide +kernel), h.2.2 (by decide +kernel)⟩

/-- A run of supervisor cycles after which `dcsr`, `mip` and `mie` outside
`mideleg`, and `mcause` have all changed. -/
theorem supervisor_changes_machine_state :
    let s := run (step Cfg.ariane) reset enterSupervisor
    let s' := run (step Cfg.ariane) s supervisorWrites
    Along (step Cfg.ariane) UserCycle s supervisorWrites ∧
      s'.dcsr ≠ s.dcsr ∧
      s'.mip &&& ~~~ s.mideleg ≠ s.mip &&& ~~~ s.mideleg ∧
      s'.mie &&& ~~~ s.mideleg ≠ s.mie &&& ~~~ s.mideleg ∧
      s'.mcause ≠ s.mcause := by
  decide +kernel

end ArianeSoc.Csr
