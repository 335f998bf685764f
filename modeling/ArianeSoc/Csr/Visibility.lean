import ArianeSoc.Csr.TrapVector
import ArianeSoc.Csr.WriteCommit

/-!
# Reading a CSR back after a write

`csr_regfile` together with `perf_counters`, which holds the counters behind
the addresses `B03` to `B10`.  A write that commits is followed by a read of
the same register in the next cycle, with any inputs.

`legalised` is the value that the register keeps of an operand and `hwBits`
are the bits that hardware drives.  `Commits.nextReads` goes through the
registers of `csr_regfile`, and `writeVisible_iff` says which writes are
read back: a write to `minstret` is lost, a write to `sie` gains the bits of
`utval`, and the flags of the floating-point unit override a write to them
in the same cycle.
-/

namespace ArianeSoc.Csr

open Sync

/-! ## The performance counters -/

/-- The counters from `CSR_ML1_ICACHE_MISS` to `CSR_MIF_EMPTY`. -/
abbrev Perf := Fin 14 → BitVec 64

/-- The inputs of `perf_counters` that do not come from `csr_regfile`. -/
structure PerfIn where
  commitAck0 : Bool
  fu : FuT
  op : FuOp
  rd : BitVec 6
  l1IcacheMiss : Bool
  l1DcacheMiss : Bool
  itlbMiss : Bool
  dtlbMiss : Bool
  sbFull : Bool
  ifEmpty : Bool
  exValid : Bool
  eret : Bool
  branchValid : Bool
  isMispredict : Bool

/-- The event of each counter.  Only commit port 0 is looked at. -/
def event (e : PerfIn) (k : Fin 14) : Bool :=
  match k.val with
  | 0 => e.l1IcacheMiss
  | 1 => e.l1DcacheMiss
  | 2 => e.itlbMiss
  | 3 => e.dtlbMiss
  | 4 => e.commitAck0 && decide (e.fu = .LOAD)
  | 5 => e.commitAck0 && decide (e.fu = .STORE)
  | 6 => e.exValid
  | 7 => e.eret
  | 8 => e.commitAck0 && decide (e.fu = .CTRL_FLOW)
  | 9 => e.commitAck0 && decide (e.fu = .CTRL_FLOW ∧ e.op = .ADD ∧ e.rd = 1#6)
  | 10 => e.commitAck0 && decide (e.op = .JALR ∧ e.rd = 1#6)
  | 11 => e.branchValid && e.isMispredict
  | 12 => e.sbFull
  | _ => e.ifEmpty

/-- The counter of an address, if there is one. -/
def counterOf (a : BitVec 5) : Option (Fin 14) :=
  if h : 3 ≤ a.toNat ∧ a.toNat < 17 then some ⟨a.toNat - 3, by omega⟩
  else none

/-- `data_o`.  Beyond the counters the source reads outside its array, and
`other` stands for what it gets. -/
def perfData (other : BitVec 64) (p : Perf) (a : BitVec 5) : BitVec 64 :=
  (counterOf a).elim other p

/-- The next values: an event counts outside debug mode, and a write comes
after the events. -/
def perfStep (p : Perf) (debugMode : Bool) (a : BitVec 5)
    (write : Option (BitVec 64)) (e : PerfIn) : Perf := fun k =>
  if counterOf a = some k ∧ write.isSome then write.getD 0#64
  else if debugMode = false ∧ event e k = true then p k + 1#64
  else p k

/-- The two modules. -/
structure Sys where
  csr : State
  perf : Perf

/-- The inputs of `csr_regfile`, with the data of the counters. -/
def wired (other : BitVec 64) (p : Perf) (i : In) : In :=
  { i with perfData := perfData other p (i.csrAddr.extractLsb' 0 5) }

/-- One cycle of the two modules. -/
def sysStep (cfg : Cfg) (other : BitVec 64) (s : Sys) (x : In × PerfIn) :
    Sys where
  csr := step cfg s.csr (wired other s.perf x.1)
  perf := perfStep s.perf s.csr.debugMode (x.1.csrAddr.extractLsb' 0 5)
    (csrWrite cfg s.csr (wired other s.perf x.1)).perf x.2

def sysReset : Sys := ⟨reset, fun _ => 0#64⟩

/-! ## A write and the read after it -/

/-- There is a register behind the address: of the performance counters the
last fifteen are reserved. -/
def HasRegister : CsrReg → Prop
  | .MHPM n => n.val < 14
  | _ => True

/-- The configuration bytes after a write. -/
def legalPmpcfg (cfg : Cfg) (q : State) (b : Fin 2) (w : BitVec 64)
    (k : Fin 16) : PmpCfg :=
  if k.val < cfg.nrPMPEntries then writePmpcfg q b w k else q.pmpcfg k

/-- The value that a register keeps of the operand `w`, as it reads. -/
def legalised (cfg : Cfg) (q : State) (w : BitVec 64) : CsrReg → BitVec 64
  | .FFLAGS => (w.setWidth 5).setWidth 64
  | .FRM => (w.setWidth 3).setWidth 64
  | .FCSR => (w.setWidth 8).setWidth 64
  | .FTRAN => (w.setWidth 7).setWidth 64
  | .DCSR => (legalDcsr q w).setWidth 64
  | .TSELECT | .TDATA1 | .TDATA2 | .TDATA3 => 0#64
  | .SSTATUS =>
    Mstatus.uxl.set XLEN_64 (Mstatus.sxl.set XLEN_64
      (BitField.merge SMODE_STATUS_WRITE_MASK q.mstatus w)) &&&
      SMODE_STATUS_READ_MASK
  | .SIE => w &&& q.mideleg
  | .SIP => BitField.merge (MIP_SSIP &&& q.mideleg) q.mip w &&& q.mideleg
  | .STVEC => legalStvec w
  | .SCOUNTEREN | .MCOUNTEREN => (w.setWidth 32).setWidth 64
  | .SEPC | .MEPC => w.extractLsb' 1 63 ++ 0#1
  | .SATP => legalSatp cfg q w
  | .MSTATUS =>
    Mstatus.uxl.set XLEN_64 (Mstatus.sxl.set XLEN_64 (legalMstatus w))
  | .MISA => ISA_CODE
  | .MEDELEG => BitField.merge MEDELEG_MASK q.medeleg w
  | .MIDELEG => BitField.merge S_IRQ_MASK q.mideleg w
  | .MIE => BitField.merge MIE_MASK q.mie w
  | .MTVEC => legalMtvec w
  | .MIP => BitField.merge S_IRQ_MASK q.mip w
  | .DCACHE | .ICACHE => (w.setWidth 1).setWidth 64
  | .PMPCFG0 => packPmpcfg (legalPmpcfg cfg q LOW_ENTRIES w) LOW_ENTRIES
  | .PMPCFG2 => packPmpcfg (legalPmpcfg cfg q HIGH_ENTRIES w) HIGH_ENTRIES
  | .PMPADDR k =>
    if k.val < cfg.nrPMPEntries ∧ (q.pmpcfg k).locked = false ∧
        nextLockedTor q k = false then
      (0#10 ++ w.extractLsb' 1 53) ++ (q.pmpcfg k).extractLsb' 4 1
    else readPmpaddr q k
  | _ => w

/-- The bits that hardware drives: the summary of the dirty states, the
state of the floating-point unit while it is made dirty, and the interrupt
lines. -/
def hwBits (i i' : In) : CsrReg → BitVec 64
  | .MSTATUS | .SSTATUS =>
    SSTATUS64_SD ||| (if i.dirtyFpState then SSTATUS_FS else 0#64)
  | .MIP | .SIP =>
    MIP_PIN_MASK ||| (if i'.irq.getLsbD 1 then MIP_SEIP else 0#64)
  | _ => 0#64

/-- `csr_rdata_o`: the external interrupt line counts in the value read. -/
def csrRdataO (q : State) (i : In) : BitVec 64 :=
  let line : BitVec 64 := if i.irq.getLsbD 1 then MIP_SEIP else 0#64
  if i.csrAddr = CsrReg.MIP.addr then (csrRead q i).1 ||| line
  else if i.csrAddr = CsrReg.SIP.addr then
    (csrRead q i).1 ||| (line &&& q.mideleg)
  else (csrRead q i).1

/-- A read of `r`. -/
def readIn (i : In) (r : CsrReg) : In :=
  { i with csrOp := .CSR_READ, csrAddr := r.addr }

/-- The inputs of the cycle after the step. -/
def nextRead (cfg : Cfg) (other : BitVec 64) (s : Sys) (i : In) (e : PerfIn)
    (i' : In) (r : CsrReg) : In :=
  wired other (sysStep cfg other s (i, e)).perf (readIn i' r)

/-- The next cycle reads the legalised operand, but for the bits that
hardware drives. -/
def ReadsBack (cfg : Cfg) (other : BitVec 64) (s : Sys) (i : In) (e : PerfIn)
    (i' : In) (r : CsrReg) : Prop :=
  (csrExceptionO cfg (sysStep cfg other s (i, e)).csr
      (nextRead cfg other s i e i' r)).valid = false ∧
    csrRdataO (sysStep cfg other s (i, e)).csr
        (nextRead cfg other s i e i' r) &&& ~~~ hwBits i i' r =
      legalised cfg s.csr (csrWdata s.csr (wired other s.perf i)) r &&&
        ~~~ hwBits i i' r

/-- Nothing overrides the write. -/
def Unimpaired (q : State) (i : In) (w : BitVec 64) : CsrReg → Prop
  | .FFLAGS | .FCSR => i.csrWriteFflags = true →
      w.setWidth 5 = i.csrWdata.setWidth 5 ||| Fcsr.fflags.get q.fcsr
  | .SIE => q.utval &&& q.mideleg &&& ~~~ w = 0#64
  | .MINSTRET => (defaults q i).instret = w
  | _ => True

/-! ## The fields that hardware keeps -/

section Values

variable {cfg : Cfg} {q : State} {i j : In} {r : CsrReg} {u : Upd}

theorem hardwired_mstatus : ∃ b,
    (hardwired q i u).mstatus = Mstatus.sd.set b
      (if u.dirtyFpStateCsr ∨ i.dirtyFpState then
        Mstatus.fs.set XS_DIRTY (Mstatus.uxl.set XLEN_64
          (Mstatus.sxl.set XLEN_64 u.d.mstatus))
      else Mstatus.uxl.set XLEN_64
        (Mstatus.sxl.set XLEN_64 u.d.mstatus)) :=
  ⟨_, rfl⟩

/-- The status register outside the bits of the hardware. -/
theorem hardwired_status (hu : u.dirtyFpStateCsr = false) :
    (hardwired q i u).mstatus &&& ~~~ hwBits i j .MSTATUS =
      Mstatus.uxl.set XLEN_64 (Mstatus.sxl.set XLEN_64 u.d.mstatus) &&&
        ~~~ hwBits i j .MSTATUS := by
  obtain ⟨b, heq⟩ := @hardwired_mstatus q i u
  have hbits : hwBits i j .MSTATUS =
      SSTATUS64_SD ||| (if i.dirtyFpState then SSTATUS_FS else 0#64) := rfl
  rw [heq, hu, hbits]
  cases i.dirtyFpState with
  | true =>
    rw [if_pos (Or.inr rfl), if_pos rfl,
      BitField.set_and_of_disjoint _ _ _ _ (by decide),
      BitField.set_and_of_disjoint _ _ _ _ (by decide)]
  | false =>
    rw [if_neg (by decide), if_neg (by decide),
      BitField.set_and_of_disjoint _ _ _ _ (by decide)]

/-- A write to a floating-point CSR makes the unit dirty. -/
theorem hardwired_fs (hu : u.dirtyFpStateCsr = true) :
    Mstatus.fs.get (hardwired q i u).mstatus = XS_DIRTY := by
  obtain ⟨b, heq⟩ := @hardwired_mstatus q i u
  rw [heq, if_pos (Or.inl hu), BitField.get_set_of_disjoint _ _ _ _ (by decide),
    BitField.get_set _ _ _ (by decide)]

theorem hardwired_tvm :
    Mstatus.tvm.get (hardwired q i u).mstatus =
      Mstatus.tvm.get u.d.mstatus := by
  obtain ⟨b, heq⟩ := @hardwired_mstatus q i u
  rw [heq, BitField.get_set_of_disjoint _ _ _ _ (by decide)]
  split_ifs
  · rw [BitField.get_set_of_disjoint _ _ _ _ (by decide),
      BitField.get_set_of_disjoint _ _ _ _ (by decide),
      BitField.get_set_of_disjoint _ _ _ _ (by decide)]
  · rw [BitField.get_set_of_disjoint _ _ _ _ (by decide),
      BitField.get_set_of_disjoint _ _ _ _ (by decide)]

/-- The pending bits outside the machine-level lines. -/
theorem hardwired_mip {m : BitVec 64} (hm : MIP_PIN_MASK &&& m = 0#64) :
    (hardwired q i u).mip &&& m = u.d.mip &&& m := by
  have hpin : ∀ {n} (f : BitField 64 n), f.mask &&& MIP_PIN_MASK = f.mask →
      f.mask &&& m = 0#64 := by
    intro n f hf
    rw [← hf, BitVec.and_assoc, hm, BitVec.and_zero]
  unfold hardwired
  show Mip.mtip.set _ (Mip.msip.set _ (Mip.meip.set _ u.d.mip)) &&& m = _
  rw [BitField.set_and_of_disjoint _ _ _ _ (hpin _ (by decide)),
    BitField.set_and_of_disjoint _ _ _ _ (hpin _ (by decide)),
    BitField.set_and_of_disjoint _ _ _ _ (hpin _ (by decide))]

/-! ## The value of the next cycle -/

/-- A floating-point CSR is written when the unit is on. -/
theorem fpWrite_ok {f : BitVec 32}
    (h : (fpWrite q u f).updateAccessException = false) :
    fpWrite q u f =
      { u with
        d := { u.d with fcsr := f }
        dirtyFpStateCsr := true
        flush := true } := by
  unfold fpWrite at h ⊢
  split_ifs at h ⊢
  rfl

/-- After a write to a floating-point CSR the unit is dirty, and the flags
of the same cycle come on top of the write. -/
theorem Commits.fp (h : Commits cfg q i r) {f : BitVec 32}
    (hr : written cfg q i r = fpWrite q (unwritten q i) f) :
    (∀ v, readReg.fpRead (Csr.step cfg q i) v = (v, false)) ∧
      (Csr.step cfg q i).fcsr =
        if i.csrWriteFflags then
          Fcsr.fflags.set (i.csrWdata.setWidth 5 ||| Fcsr.fflags.get q.fcsr) f
        else f := by
  have hacc := h.noAccessException
  rw [hr] at hacc
  have hmstatus := h.view State.mstatus fun _ _ _ _ _ _ => rfl
  have hfcsr := h.view State.fcsr fun _ _ _ _ _ _ => rfl
  rw [hr, fpWrite_ok hacc] at hmstatus hfcsr
  refine ⟨fun v => ?_, hfcsr⟩
  have hfs : Mstatus.fs.get (Csr.step cfg q i).mstatus = XS_DIRTY := by
    rw [hmstatus]
    exact hardwired_fs rfl
  unfold readReg.fpRead
  rw [if_neg (by rw [hfs]; decide)]

/-- The register `r` reads in the next cycle, and what it reads. -/
def NextReads (cfg : Cfg) (q : State) (i j : In) (r : CsrReg) : Prop :=
  (readReg (step cfg q i) j r).2 = false ∧
    ((readReg (step cfg q i) j r).1 &&& ~~~ hwBits i j r =
        legalised cfg q (csrWdata q i) r &&& ~~~ hwBits i j r ↔
      Unimpaired q i (csrWdata q i) r)

theorem nextReads_of_iff {v : BitVec 64} (hw : hwBits i j r = 0#64)
    (hread : readReg (step cfg q i) j r = (v, false))
    (hv : v = legalised cfg q (csrWdata q i) r ↔
      Unimpaired q i (csrWdata q i) r) : NextReads cfg q i j r := by
  unfold NextReads
  rw [hread, hw, BitVec.not_zero, BitVec.and_allOnes, BitVec.and_allOnes]
  exact ⟨rfl, hv⟩

theorem nextReads_of_eq
    (hread : readReg (step cfg q i) j r =
      (legalised cfg q (csrWdata q i) r, false))
    (hu : Unimpaired q i (csrWdata q i) r) : NextReads cfg q i j r := by
  unfold NextReads
  rw [hread]
  exact ⟨rfl, iff_of_true rfl hu⟩

/-- The flags are those of the write unless the unit overrides them. -/
theorem flags_iff {c : Bool} {x y : BitVec 5} :
    (if c then x else y) = y ↔ (c = true → y = x) := by
  cases c with
  | true => exact ⟨fun h _ => h.symm, fun h => (h rfl).symm⟩
  | false => exact iff_of_true rfl fun h => Bool.noConfusion h

/-- The flags of the register after the flags of the unit. -/
theorem fflags_override {c : Bool} {x : BitVec 5} {f : BitVec 32} :
    Fcsr.fflags.get (if c then Fcsr.fflags.set x f else f) =
      if c then x else Fcsr.fflags.get f := by
  split_ifs
  · exact BitField.get_set _ _ _ (by decide)
  · rfl

/-- The fields above the flags. -/
theorem get_override {n : ℕ} {g : BitField 32 n} (hg : 5 ≤ g.lo) {c : Bool}
    {x : BitVec 5} {f : BitVec 32} :
    g.get (if c then Fcsr.fflags.set x f else f) = g.get f := by
  split_ifs
  · exact BitField.get_set_of_disjoint _ _ _ _ (Or.inr hg)
  · rfl

theorem nextReads_fflags (h : Commits cfg q i .FFLAGS) :
    NextReads cfg q i j .FFLAGS := by
  obtain ⟨hread, hfcsr⟩ := h.fp rfl
  have hval : readReg (step cfg q i) j .FFLAGS =
      ((Fcsr.fflags.get (step cfg q i).fcsr).setWidth 64, false) := hread _
  rw [hfcsr, fflags_override, BitField.get_set _ _ _ (by decide)] at hval
  refine nextReads_of_iff rfl hval (Iff.trans ?_ flags_iff)
  show BitVec.setWidth 64 _ = BitVec.setWidth 64 _ ↔ _
  rw [← BitVec.toNat_inj, ← BitVec.toNat_inj,
    BitVec.toNat_setWidth_of_le (by decide),
    BitVec.toNat_setWidth_of_le (by decide)]

theorem nextReads_frm (h : Commits cfg q i .FRM) :
    NextReads cfg q i j .FRM := by
  obtain ⟨hread, hfcsr⟩ := h.fp rfl
  have hval : readReg (step cfg q i) j .FRM =
      ((Fcsr.frm.get (step cfg q i).fcsr).setWidth 64, false) := hread _
  rw [hfcsr, get_override (by decide), BitField.get_set _ _ _ (by decide)] at hval
  exact nextReads_of_eq hval trivial

theorem nextReads_ftran (h : Commits cfg q i .FTRAN) :
    NextReads cfg q i j .FTRAN := by
  obtain ⟨hread, hfcsr⟩ := h.fp rfl
  have hval : readReg (step cfg q i) j .FTRAN =
      ((Fcsr.fprec.get (step cfg q i).fcsr).setWidth 64, false) := hread _
  rw [hfcsr, get_override (by decide), BitField.get_set _ _ _ (by decide)] at hval
  exact nextReads_of_eq hval trivial

/-- The lowest eight bits as a rounding mode and flags. -/
theorem fcsr_parts {w : BitVec 64} {y : BitVec 5} :
    ((w.setWidth 8).extractLsb' 5 3 ++ y).setWidth 64 =
        (w.setWidth 8).setWidth 64 ↔ y = w.setWidth 5 := by
  rw [← BitVec.toNat_inj, ← BitVec.toNat_inj,
    BitVec.toNat_setWidth_of_le (by decide), BitField.toNat_append_add]
  simp only [BitVec.toNat_setWidth, BitVec.extractLsb'_toNat,
    Nat.shiftRight_eq_div_pow]
  have hy := y.isLt
  omega

theorem nextReads_fcsr (h : Commits cfg q i .FCSR) :
    NextReads cfg q i j .FCSR := by
  obtain ⟨hread, hfcsr⟩ := h.fp rfl
  have hval : readReg (step cfg q i) j .FCSR =
      ((Fcsr.frm.get (step cfg q i).fcsr ++
        Fcsr.fflags.get (step cfg q i).fcsr).setWidth 64, false) := hread _
  have hflags : Fcsr.fflags.get
      (BitField.set (w := 32) (n := 8) ⟨0⟩ ((csrWdata q i).setWidth 8)
        q.fcsr) = (csrWdata q i).setWidth 5 := by
    rw [BitField.get_set_of_subfield _ _ _ _ (by decide) (by decide)
      (by decide), BitVec.setWidth_eq_extractLsb' (w := 5) (by decide)]
    exact BitVec.extractLsb'_setWidth_of_le (by decide)
  rw [hfcsr, fflags_override, get_override (by decide), hflags,
    BitField.get_set_of_subfield _ _ _ _ (by decide) (by decide)
      (by decide)] at hval
  exact nextReads_of_iff rfl hval (fcsr_parts.trans flags_iff)

theorem nextReads_satp (h : Commits cfg q i .SATP) :
    NextReads cfg q i j .SATP := by
  have hfree : ¬ (privLvlO q = PRIV_LVL_S ∧
      Mstatus.tvm.get q.mstatus = 1#1) := by
    intro htrap
    have hacc := h.noAccessException
    have hw : written cfg q i .SATP = _ := if_pos htrap
    rw [hw] at hacc
    exact Bool.noConfusion hacc
  have hw : written cfg q i .SATP = _ := if_neg hfree
  have hsatp := h.view State.satp fun _ _ _ _ _ _ => rfl
  have hmstatus := h.view State.mstatus fun _ _ _ _ _ _ => rfl
  rw [hw] at hsatp hmstatus
  have htvm : Mstatus.tvm.get (step cfg q i).mstatus =
      Mstatus.tvm.get q.mstatus := by
    rw [hmstatus]
    exact hardwired_tvm
  have hnext : ¬ (privLvlO (step cfg q i) = PRIV_LVL_S ∧
      Mstatus.tvm.get (step cfg q i).mstatus = 1#1) := by
    rintro ⟨hs, ht⟩
    rw [htvm] at ht
    rcases h.level.1 with heq | hm
    · exact hfree ⟨heq.symm.trans hs, ht⟩
    · exact absurd (hm.symm.trans hs) (by decide)
  refine nextReads_of_eq ?_ trivial
  show (if _ then _ else _) = _
  rw [if_neg hnext, hsatp]
  rfl

theorem nextReads_mstatus (h : Commits cfg q i .MSTATUS) :
    NextReads cfg q i j .MSTATUS := by
  have hmstatus := h.view State.mstatus fun _ _ _ _ _ _ => rfl
  refine ⟨rfl, iff_of_true ?_ trivial⟩
  show (step cfg q i).mstatus &&& _ = _
  rw [hmstatus]
  exact hardwired_status rfl

theorem nextReads_sstatus (h : Commits cfg q i .SSTATUS) :
    NextReads cfg q i j .SSTATUS := by
  have hmstatus := h.view State.mstatus fun _ _ _ _ _ _ => rfl
  have hcomm : ∀ x m n : BitVec 64, x &&& m &&& n = x &&& n &&& m := by
    intro x m n
    rw [BitVec.and_assoc, BitVec.and_comm m, ← BitVec.and_assoc]
  have hlegal : legalised cfg q (csrWdata q i) .SSTATUS =
      Mstatus.uxl.set XLEN_64 (Mstatus.sxl.set XLEN_64
        (written cfg q i .SSTATUS).d.mstatus) &&&
        SMODE_STATUS_READ_MASK := rfl
  have hbits : hwBits i j .SSTATUS = hwBits i j .MSTATUS := rfl
  refine ⟨rfl, iff_of_true ?_ trivial⟩
  show (step cfg q i).mstatus &&& SMODE_STATUS_READ_MASK &&& _ = _
  rw [hmstatus, hcomm, hlegal, hcomm _ _ (~~~ _), hbits]
  exact congrArg (· &&& _) (hardwired_status rfl)

theorem pinMask_and_not {y : BitVec 64} :
    MIP_PIN_MASK &&& ~~~ (MIP_PIN_MASK ||| y) = 0#64 := by
  rw [BitVec.not_or, ← BitVec.and_assoc, BitVec.and_not_self]
  exact BitVec.zero_and

theorem nextReads_mip (h : Commits cfg q i .MIP) :
    NextReads cfg q i j .MIP := by
  have hmip := h.view State.mip fun _ _ _ _ _ _ => rfl
  refine ⟨rfl, iff_of_true ?_ trivial⟩
  show (step cfg q i).mip &&& _ = _
  rw [hmip]
  exact hardwired_mip (q := q) pinMask_and_not

theorem nextReads_sip (h : Commits cfg q i .SIP) :
    NextReads cfg q i j .SIP := by
  have hmip := h.view State.mip fun _ _ _ _ _ _ => rfl
  have hdel : (step cfg q i).mideleg = q.mideleg :=
    h.view State.mideleg fun _ _ _ _ _ _ => rfl
  refine ⟨rfl, iff_of_true ?_ trivial⟩
  show (step cfg q i).mip &&& (step cfg q i).mideleg &&& _ = _
  rw [hmip, hdel, BitVec.and_assoc, BitVec.and_comm q.mideleg,
    ← BitVec.and_assoc]
  show _ = _ &&& q.mideleg &&& _
  rw [BitVec.and_assoc _ q.mideleg, BitVec.and_comm q.mideleg,
    ← BitVec.and_assoc]
  exact congrArg (· &&& _) (hardwired_mip (q := q) pinMask_and_not)

/-- The bits of `utval` are added to a write to `sie`. -/
theorem sie_iff {m d w v : BitVec 64} :
    (BitField.merge d m w ||| v) &&& d = w &&& d ↔
      v &&& d &&& ~~~ w = 0#64 := by
  constructor
  · intro h
    ext k hk
    have hbit := congrArg (·.getLsbD k) h
    simp only [BitVec.getLsbD_and, BitVec.getLsbD_or,
      BitField.getLsbD_merge] at hbit
    simp
    grind
  · intro h
    ext k hk
    have hbit := congrArg (·.getLsbD k) h
    simp [hk] at hbit
    simp [BitField.merge]
    grind

theorem nextReads_sie (h : Commits cfg q i .SIE) :
    NextReads cfg q i j .SIE := by
  have hmie : (step cfg q i).mie =
      BitField.merge q.mideleg q.mie (csrWdata q i) ||| q.utval :=
    h.view State.mie fun _ _ _ _ _ _ => rfl
  have hdel : (step cfg q i).mideleg = q.mideleg :=
    h.view State.mideleg fun _ _ _ _ _ _ => rfl
  have hval : readReg (step cfg q i) j .SIE =
      ((step cfg q i).mie &&& (step cfg q i).mideleg, false) := rfl
  rw [hmie, hdel] at hval
  exact nextReads_of_iff rfl hval sie_iff

theorem nextReads_dcsr (h : Commits cfg q i .DCSR) :
    NextReads cfg q i j .DCSR := by
  obtain ⟨m, p, c, t, f, hstep, hkeep⟩ := h.step
  have hc := (hkeep (h.debug (by decide))).2.2
  have hval : readReg (step cfg q i) j .DCSR = (c.setWidth 64, false) := by
    rw [hstep]
    rfl
  rw [hc] at hval
  exact nextReads_of_eq hval trivial

theorem nextReads_dpc (h : Commits cfg q i .DPC) :
    NextReads cfg q i j .DPC := by
  obtain ⟨m, p, c, t, f, hstep, hkeep⟩ := h.step
  have hp := (hkeep (h.debug (by decide))).2.1
  have hval : readReg (step cfg q i) j .DPC = (p, false) := by
    rw [hstep]
    rfl
  rw [hp] at hval
  exact nextReads_of_eq hval trivial

/-- The configuration registers that exist. -/
theorem latch_pmpcfg {d : State} (hq : Settled cfg q) :
    (latch cfg q d).pmpcfg = fun k =>
      if k.val < cfg.nrPMPEntries then d.pmpcfg k else q.pmpcfg k := by
  funext k
  show (if _ then _ else _) = _
  split_ifs with h0 hk
  · omega
  · rw [(hq.no_pmp h0).1]
  · rfl
  · rfl

theorem latch_pmpaddr {d : State} (hq : Settled cfg q) :
    (latch cfg q d).pmpaddr = fun k =>
      if k.val < cfg.nrPMPEntries then d.pmpaddr k else q.pmpaddr k := by
  funext k
  show (if _ then _ else _) = _
  split_ifs with h0 hk
  · omega
  · rw [(hq.no_pmp h0).2]
  · rfl
  · rfl

theorem nextReads_pmpcfg0 (hq : Settled cfg q)
    (h : Commits cfg q i .PMPCFG0) : NextReads cfg q i j .PMPCFG0 := by
  have hcfg : (step cfg q i).pmpcfg =
      legalPmpcfg cfg q LOW_ENTRIES (csrWdata q i) :=
    (h.view State.pmpcfg fun _ _ _ _ _ _ => rfl).trans (latch_pmpcfg hq)
  have hval : readReg (step cfg q i) j .PMPCFG0 =
      (packPmpcfg (step cfg q i).pmpcfg LOW_ENTRIES, false) := rfl
  rw [hcfg] at hval
  exact nextReads_of_eq hval trivial

theorem nextReads_pmpcfg2 (hq : Settled cfg q)
    (h : Commits cfg q i .PMPCFG2) : NextReads cfg q i j .PMPCFG2 := by
  have hcfg : (step cfg q i).pmpcfg =
      legalPmpcfg cfg q HIGH_ENTRIES (csrWdata q i) :=
    (h.view State.pmpcfg fun _ _ _ _ _ _ => rfl).trans (latch_pmpcfg hq)
  have hval : readReg (step cfg q i) j .PMPCFG2 =
      (packPmpcfg (step cfg q i).pmpcfg HIGH_ENTRIES, false) := rfl
  rw [hcfg] at hval
  exact nextReads_of_eq hval trivial

theorem nextReads_pmpaddr {k : Fin 16} (hq : Settled cfg q)
    (h : Commits cfg q i (.PMPADDR k)) :
    NextReads cfg q i j (.PMPADDR k) := by
  have hcfg : (step cfg q i).pmpcfg = q.pmpcfg := by
    rw [h.view State.pmpcfg fun _ _ _ _ _ _ => rfl, latch_pmpcfg hq]
    funext l
    exact ite_self _
  have haddr : (step cfg q i).pmpaddr k =
      if k.val < cfg.nrPMPEntries then
        writePmpaddr q k (csrWdata q i) k else q.pmpaddr k := by
    rw [h.view State.pmpaddr fun _ _ _ _ _ _ => rfl, latch_pmpaddr hq]
    rfl
  have hlegal : legalised cfg q (csrWdata q i) (.PMPADDR k) =
      if k.val < cfg.nrPMPEntries ∧ (q.pmpcfg k).locked = false ∧
          nextLockedTor q k = false then
        (0#10 ++ (csrWdata q i).extractLsb' 1 53) ++
          (q.pmpcfg k).extractLsb' 4 1
      else readPmpaddr q k := rfl
  refine nextReads_of_eq ?_ trivial
  show (readPmpaddr (step cfg q i) k, false) = _
  congr 1
  rw [hlegal, readPmpaddr, readPmpaddr, hcfg, haddr]
  by_cases hk : k.val < cfg.nrPMPEntries
  · by_cases hfree : (q.pmpcfg k).locked = false ∧ nextLockedTor q k = false
    · rw [if_pos hk, if_pos ⟨hk, hfree⟩, writePmpaddr,
        if_pos ⟨rfl, hfree⟩, BitVec.extractLsb'_setWidth_of_le (by decide)]
    · rw [if_pos hk, if_neg fun hc => hfree hc.2, writePmpaddr,
        if_neg fun hc => hfree hc.2]
  · rw [if_neg hk, if_neg fun hc => hk hc.1]

/-- The write to `minstret` is lost, the count of the cycle remains. -/
theorem nextReads_minstret (h : Commits cfg q i .MINSTRET) :
    NextReads cfg q i j .MINSTRET := by
  have hinstret : (step cfg q i).instret = (defaults q i).instret :=
    h.view State.instret fun _ _ _ _ _ _ => rfl
  have hval : readReg (step cfg q i) j .MINSTRET =
      ((step cfg q i).instret, false) := rfl
  rw [hinstret] at hval
  exact nextReads_of_iff rfl hval Iff.rfl

/-- Every register of `csr_regfile`. -/
theorem Commits.nextReads (h : Commits cfg q i r) (hq : Settled cfg q)
    (hr : ∀ n, r ≠ .MHPM n) : NextReads cfg q i j r := by
  have hacc := h.noAccessException
  have hview := h.view (fun d => readReg d j r)
  cases r
  case FFLAGS => exact nextReads_fflags h
  case FRM => exact nextReads_frm h
  case FCSR => exact nextReads_fcsr h
  case FTRAN => exact nextReads_ftran h
  case DCSR => exact nextReads_dcsr h
  case DPC => exact nextReads_dpc h
  case SSTATUS => exact nextReads_sstatus h
  case SIE => exact nextReads_sie h
  case SIP => exact nextReads_sip h
  case SATP => exact nextReads_satp h
  case MSTATUS => exact nextReads_mstatus h
  case MIP => exact nextReads_mip h
  case MINSTRET => exact nextReads_minstret h
  case PMPCFG0 => exact nextReads_pmpcfg0 hq h
  case PMPCFG2 => exact nextReads_pmpcfg2 hq h
  case PMPADDR k => exact nextReads_pmpaddr hq h
  case MHPM n => exact absurd rfl (hr n)
  case MVENDORID | MARCHID | MIMPID | MHARTID | CYCLE | INSTRET =>
    exact Bool.noConfusion hacc
  -- the write case is the only one that assigns these
  all_goals
    exact nextReads_of_eq (hview fun _ _ _ _ _ _ => rfl) trivial

/-- The interrupt line that the read adds is one of the bits of the
hardware. -/
theorem csrRdataO_hwBits (ha : j.csrAddr = r.addr) :
    csrRdataO q j &&& ~~~ hwBits i j r =
      (csrRead q j).1 &&& ~~~ hwBits i j r := by
  have hor : ∀ x y h : BitVec 64, y &&& ~~~ h = 0#64 →
      (x ||| y) &&& ~~~ h = x &&& ~~~ h := by
    intro x y h hy
    rw [BitVec.and_comm, BitVec.and_or_distrib_left, BitVec.and_comm _ y, hy,
      BitVec.or_zero, BitVec.and_comm]
  have hline : ∀ l : BitVec 64, l &&& ~~~ (MIP_PIN_MASK ||| l) = 0#64 := by
    intro l
    rw [BitVec.not_or, BitVec.and_comm (~~~ _), ← BitVec.and_assoc,
      BitVec.and_not_self]
    exact BitVec.zero_and
  unfold csrRdataO
  rw [ha]
  by_cases hmip : r = .MIP
  · subst hmip
    rw [if_pos rfl]
    exact hor _ _ _ (hline _)
  · rw [if_neg fun heq => hmip (CsrReg.addr_injective heq)]
    by_cases hsip : r = .SIP
    · subst hsip
      rw [if_pos rfl]
      refine hor _ _ _ ?_
      rw [BitVec.and_assoc, BitVec.and_comm q.mideleg, ← BitVec.and_assoc]
      have hzero := hline (if j.irq.getLsbD 1 then MIP_SEIP else 0#64)
      show _ &&& ~~~ (MIP_PIN_MASK ||| _) &&& q.mideleg = _
      rw [hzero]
      exact BitVec.zero_and
    · rw [if_neg fun heq => hsip (CsrReg.addr_injective heq)]

end Values

/-! ## The two modules -/

section Sys

variable {cfg : Cfg} {other : BitVec 64} {s : Sys} {i i' : In} {e : PerfIn}
  {r : CsrReg}

/-- The performance counters keep what is written to them. -/
theorem perf_written {n : Fin 29} (hn : n.val < 14)
    (h : Commits cfg s.csr (wired other s.perf i) (.MHPM n)) :
    (sysStep cfg other s (i, e)).perf ⟨n.val, hn⟩ =
      csrWdata s.csr (wired other s.perf i) := by
  have hk : counterOf (i.csrAddr.extractLsb' 0 5) = some ⟨n.val, hn⟩ := by
    have ha : i.csrAddr = (CsrReg.MHPM n).addr := h.addr
    rw [ha]
    clear h ha
    revert n
    decide
  have hw : (csrWrite cfg s.csr (wired other s.perf i)).perf =
      some (csrWdata s.csr (wired other s.perf i)) := by
    rw [h.csrWrite]
    rfl
  show perfStep _ _ _ _ _ _ = _
  unfold perfStep
  rw [hw, if_pos ⟨hk, rfl⟩]
  rfl

/-- What the next cycle reads of a performance counter. -/
theorem nextRead_perfData {n : Fin 29} (hn : n.val < 14) :
    (nextRead cfg other s i e i' (.MHPM n)).perfData =
      (sysStep cfg other s (i, e)).perf ⟨n.val, hn⟩ := by
  have hk : counterOf ((CsrReg.MHPM n).addr.extractLsb' 0 5) =
      some ⟨n.val, hn⟩ := by
    revert n
    decide
  show (counterOf ((CsrReg.MHPM n).addr.extractLsb' 0 5)).elim other _ = _
  rw [hk]
  rfl

theorem settled_of_sysReachable
    (hs : Reachable (sysStep cfg other) sysReset s) : Settled cfg s.csr :=
  hs.invariant (P := fun s : Sys => Settled cfg s.csr) (settled_reset cfg)
    fun _ _ _ => settled_step cfg _ _

end Sys

/-- From every reachable state, a write that commits is read back in the
next cycle if and only if nothing overrides it. -/
theorem writeVisible_iff (cfg : Cfg) (other : BitVec 64) (s : Sys)
    (i i' : In) (e : PerfIn) (r : CsrReg)
    (hs : Reachable (sysStep cfg other) sysReset s)
    (h : Commits cfg s.csr (wired other s.perf i) r)
    (hr : HasRegister r) :
    ReadsBack cfg other s i e i' r ↔
      Unimpaired s.csr i (csrWdata s.csr (wired other s.perf i)) r := by
  have hq := settled_of_sysReachable hs
  have hback : ReadsBack cfg other s i e i' r ↔
      (csrExceptionO cfg (step cfg s.csr (wired other s.perf i))
          (nextRead cfg other s i e i' r)).valid = false ∧
        csrRdataO (step cfg s.csr (wired other s.perf i))
            (nextRead cfg other s i e i' r) &&&
            ~~~ hwBits (wired other s.perf i)
              (nextRead cfg other s i e i' r) r =
          legalised cfg s.csr (csrWdata s.csr (wired other s.perf i)) r &&&
            ~~~ hwBits (wired other s.perf i)
              (nextRead cfg other s i e i' r) r := Iff.rfl
  rw [hback, h.readException rfl rfl, csrRdataO_hwBits rfl,
    h.csrRead rfl rfl]
  by_cases hm : ∃ n, r = .MHPM n
  · obtain ⟨n, rfl⟩ := hm
    refine iff_of_true ⟨rfl, ?_⟩ trivial
    show (nextRead cfg other s i e i' (.MHPM n)).perfData &&& _ = _
    rw [nextRead_perfData hr, perf_written hr h]
    rfl
  · obtain ⟨hok, hval⟩ := h.nextReads hq fun n hn => hm ⟨n, hn⟩
    exact ⟨fun hb => hval.mp hb.2, fun hu => ⟨hok, hval.mpr hu⟩⟩

/-- No event is counted. -/
def PerfIn.idle : PerfIn where
  commitAck0 := false
  fu := .NONE
  op := .ADD
  rd := 0#6
  l1IcacheMiss := false
  l1DcacheMiss := false
  itlbMiss := false
  dtlbMiss := false
  sbFull := false
  ifEmpty := false
  exValid := false
  eret := false
  branchValid := false
  isMispredict := false

/-- The register `r` is written with 5. -/
def writeFive (r : CsrReg) : In :=
  { In.idle with csrOp := .CSR_WRITE, csrAddr := r.addr, csrWdata := 5#64 }

/-- A write to `mscratch` after a reset. -/
theorem writeVisible_iff_mscratch :
    ReadsBack Cfg.ariane 0#64 sysReset (writeFive .MSCRATCH) PerfIn.idle
        In.idle .MSCRATCH ↔
      Unimpaired reset (writeFive .MSCRATCH)
        (csrWdata reset (wired 0#64 sysReset.perf (writeFive .MSCRATCH)))
        .MSCRATCH :=
  writeVisible_iff Cfg.ariane 0#64 sysReset (writeFive .MSCRATCH) In.idle
    PerfIn.idle .MSCRATCH ⟨[], rfl⟩
    ⟨by decide +kernel, rfl, by decide +kernel, rfl⟩ trivial

/-- A write of 5 to `minstret` after a reset commits, and the next cycle
reads 0. -/
theorem writeVisible_minstret :
    Commits Cfg.ariane reset
        (wired 0#64 sysReset.perf (writeFive .MINSTRET)) .MINSTRET ∧
      legalised Cfg.ariane reset 5#64 .MINSTRET = 5#64 ∧
      csrRdataO
        (sysStep Cfg.ariane 0#64 sysReset
          (writeFive .MINSTRET, PerfIn.idle)).csr
        (nextRead Cfg.ariane 0#64 sysReset (writeFive .MINSTRET)
          PerfIn.idle In.idle .MINSTRET) = 0#64 ∧
      ¬ ReadsBack Cfg.ariane 0#64 sysReset (writeFive .MINSTRET)
        PerfIn.idle In.idle .MINSTRET := by
  refine ⟨⟨by decide +kernel, rfl, by decide +kernel, rfl⟩, rfl,
    by decide +kernel, ?_⟩
  rintro ⟨-, hval⟩
  revert hval
  decide +kernel

end ArianeSoc.Csr
