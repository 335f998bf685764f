import ArianeSoc.Csr.Atomic
import ArianeSoc.Csr.Privilege

/-!
# Debug mode and back

A hart enters debug mode by a debug request, by a breakpoint whose
`dcsr.ebreak` bit is set or by a single step, and DRET leaves it.
`Resume` is what the visit has to hand back: the program counter, the
privilege level and the registers that a trap writes.  For a request and a
breakpoint it is the state at the entry.  For a single step it is what the
retired instruction leaves behind, that is the same cycle with `dcsr.step`
clear.

Two kinds of entry do not hand it back.  A breakpoint also passes through
the exception stack, which exempts only the cause `DEBUG_REQUEST`.  A
single step over a return takes the consecutive program counter and the
privilege level from before the return, since `eret_o` is assigned further
down in the block.

* `entered_of_faithful`: every other entry saves the resume point.
* `entered_stay`: a cycle in debug mode without a CSR write keeps it.
* `debug_transparent`: DRET restores it.

The hardware recomputes the read-only fields `sd`, `sxl` and `uxl` of
`mstatus` in every cycle, `settle` does it once.
-/

namespace ArianeSoc.Csr

open Sync

/-! ## What has to be handed back -/

/-- The registers that a trap writes, and `mstatus`. -/
structure TrapRegs where
  mstatus : BitVec 64
  mepc : BitVec 64
  mcause : BitVec 64
  mtval : BitVec 64
  sepc : BitVec 64
  scause : BitVec 64
  stval : BitVec 64
  deriving DecidableEq

def trapRegs (d : State) : TrapRegs where
  mstatus := d.mstatus
  mepc := d.mepc
  mcause := d.mcause
  mtval := d.mtval
  sepc := d.sepc
  scause := d.scause
  stval := d.stval

/-- `mstatus` with the fields that the hardware keeps up to date. -/
def hwMstatus (m : BitVec 64) : BitVec 64 :=
  Mstatus.sd.set (BitVec.ofBool
    (Mstatus.xs.get m = XS_DIRTY ∨ Mstatus.fs.get m = XS_DIRTY))
    (Mstatus.uxl.set XLEN_64 (Mstatus.sxl.set XLEN_64 m))

def TrapRegs.settle (t : TrapRegs) : TrapRegs :=
  { t with mstatus := hwMstatus t.mstatus }

/-- Where a hart goes on after a visit to debug mode. -/
structure Resume where
  pc : BitVec 64
  privLvl : PrivLvl
  trap : TrapRegs
  deriving DecidableEq

/-- The registers with `dcsr.step` clear. -/
def withoutStep (q : State) : State :=
  { q with dcsr := Dcsr.step.set 0#1 q.dcsr }

/-- The program counter after an instruction that is no return. -/
def nextPc (i : In) : BitVec 64 :=
  if i.commitInstr0.fu = .CTRL_FLOW then i.commitInstr0.predictAddress
  else i.commitInstr0.pc + (if i.commitInstr0.isCompressed then 2#64 else 4#64)

/-- `epc_o`. -/
def epcO (q : State) (i : In) : BitVec 64 :=
  if i.csrOp = .DRET then q.dpc
  else if i.csrOp = .SRET then q.sepc
  else q.mepc

/-- The resume point of an entry: that of the retired instruction in a
single step, else that of the instruction that is not executed. -/
def resume (cfg : Cfg) (q : State) (i : In) : Resume :=
  if stepping q i then
    let n := step cfg (withoutStep q) i
    ⟨if isXret i.csrOp then epcO q i
      else if i.ex.valid then trapVectorBaseO cfg q i
      else nextPc i, n.privLvl, trapRegs n⟩
  else ⟨i.pc, q.privLvl, trapRegs q⟩

/-! ## The cycles of a visit -/

/-- A debug request is presented. -/
def haltEntry (i : In) : Prop := i.ex.valid ∧ i.ex.cause = DEBUG_REQUEST

/-- A breakpoint is presented whose `dcsr.ebreak` bit is set. -/
def ebreakEntry (q : State) (i : In) : Prop :=
  (i.ex.valid ∧ i.ex.cause = BREAKPOINT) ∧ ebreakBit q = some 1#1

/-- Nothing commits in this cycle. -/
def Uncommitted (i : In) : Prop :=
  i.commitAck = 0#2 ∧ i.csrOp = .ADD ∧ i.dirtyFpState = false

/-- A cycle that enters debug mode.  The instruction that brings a debug
request or a breakpoint along does not commit. -/
structure DebugEntry (q : State) (i : In) : Prop where
  not_debug : q.debugMode = false
  cause : haltEntry i ∨ ebreakEntry q i ∨ stepping q i = true
  uncommitted : haltEntry i ∨ ebreakEntry q i → Uncommitted i

/-- The entry is not a breakpoint, and a single step is not over an
instruction that returns or traps. -/
structure Faithful (q : State) (i : In) : Prop where
  no_ebreak : ¬ ebreakEntry q i
  no_xret : stepping q i = true → isXret i.csrOp = false
  no_trap : stepping q i = true → i.ex.valid = false

/-- A cycle in debug mode that writes no CSR: neither does a CSR
instruction, nor a return, nor a floating-point instruction. -/
structure DebugStay (q : State) (i : In) : Prop where
  no_write : (csrOpLogic q i).we = false
  no_xret : isXret i.csrOp = false
  no_fp : i.dirtyFpState = false

/-- The cycle that leaves debug mode. -/
structure DebugExit (i : In) : Prop where
  dret : i.csrOp = .DRET
  no_fp : i.dirtyFpState = false

section
variable (q : State) (i : In)

instance : Decidable (haltEntry i) := inferInstanceAs (Decidable (_ ∧ _))

instance : Decidable (ebreakEntry q i) :=
  inferInstanceAs (Decidable (_ ∧ _))

instance : Decidable (Uncommitted i) := inferInstanceAs (Decidable (_ ∧ _))

instance : Decidable (DebugEntry q i) :=
  decidable_of_iff (q.debugMode = false ∧
      (haltEntry i ∨ ebreakEntry q i ∨ stepping q i = true) ∧
      (haltEntry i ∨ ebreakEntry q i → Uncommitted i))
    ⟨fun ⟨h1, h2, h3⟩ => ⟨h1, h2, h3⟩, fun ⟨h1, h2, h3⟩ => ⟨h1, h2, h3⟩⟩

instance : Decidable (Faithful q i) :=
  decidable_of_iff (¬ ebreakEntry q i ∧
      (stepping q i = true → isXret i.csrOp = false) ∧
      (stepping q i = true → i.ex.valid = false))
    ⟨fun ⟨h1, h2, h3⟩ => ⟨h1, h2, h3⟩, fun ⟨h1, h2, h3⟩ => ⟨h1, h2, h3⟩⟩

instance : Decidable (DebugStay q i) :=
  decidable_of_iff ((csrOpLogic q i).we = false ∧
      isXret i.csrOp = false ∧ i.dirtyFpState = false)
    ⟨fun ⟨h1, h2, h3⟩ => ⟨h1, h2, h3⟩, fun ⟨h1, h2, h3⟩ => ⟨h1, h2, h3⟩⟩

instance : Decidable (DebugExit i) :=
  decidable_of_iff (i.csrOp = .DRET ∧ i.dirtyFpState = false)
    ⟨fun ⟨h1, h2⟩ => ⟨h1, h2⟩, fun ⟨h1, h2⟩ => ⟨h1, h2⟩⟩

end

/-- The hart is in debug mode and the debug registers hold the resume
point `r`. -/
structure Entered (r : Resume) (s : State) : Prop where
  debug : s.debugMode = true
  dpc : s.dpc = r.pc
  prv : Dcsr.prv.get s.dcsr = r.privLvl
  trap : (trapRegs s).settle = r.trap.settle

variable {cfg : Cfg} {q : State} {i : In}

/-! ## The trap registers of a cycle without a trap -/

theorem hwMstatus_idem (m : BitVec 64) :
    hwMstatus (hwMstatus m) = hwMstatus m := by
  have hfield : ∀ {n} (f : BitField 64 n) c,
      (f.lo + n ≤ 32 ∨ 36 ≤ f.lo ∧ f.lo + n ≤ 63) →
        f.get (Mstatus.sd.set c
          (Mstatus.uxl.set XLEN_64 (Mstatus.sxl.set XLEN_64 m))) =
          f.get m := by
    intro n f c hf
    rw [BitField.get_set_of_disjoint, BitField.get_set_of_disjoint,
      BitField.get_set_of_disjoint] <;> simp only [Mstatus.sd, Mstatus.uxl,
      Mstatus.sxl] <;> omega
  unfold hwMstatus
  rw [hfield _ _ (by decide), hfield _ _ (by decide)]
  apply BitVec.eq_of_getLsbD_eq
  intro k hk
  simp only [BitField.getLsbD_set]
  split_ifs <;> rfl

theorem settle_settle (t : TrapRegs) : t.settle.settle = t.settle := by
  simp only [TrapRegs.settle, hwMstatus_idem]

theorem trapRegs_enterDebug (d : State) :
    trapRegs (enterDebug cfg q i d) = trapRegs d := by
  unfold enterDebug debugStep debugRequest debugBreakpoint
  split_ifs <;> rfl

/-- Only MRET and SRET change the trap registers. -/
theorem trapRegs_xret (d : State) (hm : i.csrOp ≠ .MRET)
    (hs : i.csrOp ≠ .SRET) : trapRegs (xret q i d) = trapRegs d := by
  unfold xret
  split
  · exact absurd ‹_› hm
  · exact absurd ‹_› hs
  · rfl
  · rfl

/-- Without a trap the registers come from the write case and the
hardware. -/
theorem trapRegs_step (ht : trapTaken q i = false) (hm : i.csrOp ≠ .MRET)
    (hs : i.csrOp ≠ .SRET) :
    trapRegs (step cfg q i) =
      trapRegs (hardwired q i (csrWrite cfg q i)) := by
  have hnext : trapRegs (step cfg q i) =
      trapRegs (xret q i (loadStore q (enterDebug cfg q i (takeTrap q i
        (hardwired q i (csrWrite cfg q i)))))) := rfl
  have hload : ∀ d, trapRegs (loadStore q d) = trapRegs d := fun _ => rfl
  have htrap : ∀ d, takeTrap q i d = d := by
    intro d
    simp [takeTrap, ht]
  rw [hnext, trapRegs_xret _ hm hs, hload, trapRegs_enterDebug, htrap]

/-- Without a CSR write the trap registers are those before, settled. -/
theorem trapRegs_step_of_not_we (ht : trapTaken q i = false)
    (hm : i.csrOp ≠ .MRET) (hs : i.csrOp ≠ .SRET)
    (hwe : (csrOpLogic q i).we = false) (hfp : i.dirtyFpState = false) :
    trapRegs (step cfg q i) = (trapRegs q).settle := by
  rw [trapRegs_step ht hm hs, csrWrite_of_not_we cfg q i hwe]
  unfold hardwired
  rw [hfp]
  rfl

/-! ## The debug registers -/

/-- Each debug entry saves its program counter in `dpc`. -/
theorem dpc_step (cfg : Cfg) (q : State) (i : In) :
    (step cfg q i).dpc =
      if q.debugMode then (csrWrite cfg q i).d.dpc
      else if stepping q i then singleStepPc cfg q i
      else if i.ex.valid ∧ (i.ex.cause = DEBUG_REQUEST ∨
        i.ex.cause = BREAKPOINT) then i.pc
      else (csrWrite cfg q i).d.dpc := by
  have hnext : (step cfg q i).dpc =
      (xret q i (loadStore q (enterDebug cfg q i (takeTrap q i
        (hardwired q i (csrWrite cfg q i)))))).dpc := rfl
  have hload : ∀ d, (loadStore q d).dpc = d.dpc := fun _ => rfl
  have hxret : ∀ d, (xret q i d).dpc = d.dpc := by
    intro d
    unfold xret
    split <;> rfl
  have htrap : ∀ d, (takeTrap q i d).dpc = d.dpc := by
    intro d
    unfold takeTrap
    split_ifs <;> rfl
  have henter : ∀ d : State, (enterDebug cfg q i d).dpc =
      if q.debugMode then d.dpc
      else if stepping q i then singleStepPc cfg q i
      else if i.ex.valid ∧ (i.ex.cause = DEBUG_REQUEST ∨
        i.ex.cause = BREAKPOINT) then i.pc
      else d.dpc := by
    intro d
    unfold enterDebug debugStep debugRequest debugBreakpoint
    split_ifs <;> first | rfl | simp_all
  rw [hnext, hxret, hload, henter, htrap]
  rfl

/-- Each of the three causes raises the debug mode. -/
theorem enterDebug_of_entry (he : DebugEntry q i) (d : State) :
    (enterDebug cfg q i d).debugMode = true := by
  unfold enterDebug debugStep debugRequest debugBreakpoint
  rw [he.not_debug]
  rcases he.cause with ⟨hv, hc⟩ | ⟨⟨hv, hc⟩, hb⟩ | hstep
  · simp only [Bool.false_eq_true, if_false, hv, hc, and_self, if_true]
    split_ifs <;> rfl
  · simp only [Bool.false_eq_true, if_false, hv, hc, hb, true_and, if_true]
    split_ifs <;> rfl
  · rw [if_neg Bool.false_ne_true, if_pos hstep]

theorem debugMode_step_of_entry (he : DebugEntry q i)
    (hret : isXret i.csrOp = false) :
    (step cfg q i).debugMode = true := by
  have hnext : (step cfg q i).debugMode =
      (xret q i (loadStore q (enterDebug cfg q i (takeTrap q i
        (hardwired q i (csrWrite cfg q i)))))).debugMode := rfl
  have hload : ∀ d, (loadStore q d).debugMode = d.debugMode := fun _ => rfl
  rw [hnext, xret_of_not_xret _ hret, hload, enterDebug_of_entry he]

/-! ## The entry -/

/-- `dcsr` is not accessible outside debug mode. -/
theorem csrOpLogic_dcsr (hd : q.debugMode = false)
    (ha : i.csrAddr = CsrReg.DCSR.addr) : (csrOpLogic q i).re = false := by
  have hrange : ¬ (CSR_CYCLE ≤ i.csrAddr ∧
      i.csrAddr ≤ CSR_HPM_COUNTER_31) := by
    rw [ha]
    decide
  have hdebug : debugCsrViolation q i.csrAddr = true := by
    have hbits : (CsrReg.DCSR.addr).extractLsb' 4 8 = 0x7B#8 := by decide
    simp [debugCsrViolation, ha, hbits, hd]
  unfold csrOpLogic
  by_cases hacc : isCsrAccess i.csrOp = true
  · have hv : privilegeViolation q i = true := by
      rw [privilegeViolation, if_pos hacc, if_neg hrange, hdebug,
        Bool.or_true]
    rw [hv]
    rfl
  · have hre : (opSelect i.csrOp).re = false := by
      cases hop : i.csrOp <;> simp_all [isCsrAccess, opSelect]
    split_ifs
    · rfl
    · exact hre

/-- Clearing `dcsr.step` is not seen by the checks and the read port
outside debug mode. -/
theorem csrWdata_withoutStep (hd : q.debugMode = false) :
    csrWdata (withoutStep q) i = csrWdata q i := by
  have hread : csrRead (withoutStep q) i = csrRead q i := by
    unfold csrRead
    show (if (csrOpLogic q i).re then _ else _) = _
    split_ifs with hre
    · cases hr : CsrReg.ofAddr i.csrAddr with
      | none => rfl
      | some r =>
        cases r
        case DCSR =>
          have ha := (CsrReg.addr_of_ofAddr hr).symm
          exact absurd (hre.symm.trans (csrOpLogic_dcsr hd ha)) (by decide)
        all_goals rfl
    · rfl
  unfold csrWdata
  rw [hread]

/-- The write case as the trap registers and the hardware see it. -/
def trapUpd (u : Upd) : TrapRegs × Bool := (trapRegs u.d, u.dirtyFpStateCsr)

theorem trapUpd_csrWrite_withoutStep (hd : q.debugMode = false) :
    trapUpd (csrWrite cfg (withoutStep q) i) =
      trapUpd (csrWrite cfg q i) := by
  have hreg : ∀ w r,
      trapUpd (writeReg cfg (withoutStep q)
          ⟨defaults (withoutStep q) i, false, false, false, none⟩ w r) =
        trapUpd (writeReg cfg q
          ⟨defaults q i, false, false, false, none⟩ w r) := by
    intro w r
    cases r
    case FFLAGS | FRM | FCSR | FTRAN =>
      by_cases hfs : Mstatus.fs.get q.mstatus = XS_OFF
      · have hfs' : Mstatus.fs.get (withoutStep q).mstatus = XS_OFF := hfs
        simp only [writeReg, fpWrite, if_pos hfs, if_pos hfs']
        rfl
      · have hfs' : Mstatus.fs.get (withoutStep q).mstatus ≠ XS_OFF := hfs
        simp only [writeReg, fpWrite, if_neg hfs, if_neg hfs']
        rfl
    case SATP =>
      by_cases htvm : privLvlO q = PRIV_LVL_S ∧
          Mstatus.tvm.get q.mstatus = 1#1
      · have htvm' : privLvlO (withoutStep q) = PRIV_LVL_S ∧
            Mstatus.tvm.get (withoutStep q).mstatus = 1#1 := htvm
        simp only [writeReg, if_pos htvm, if_pos htvm']
        rfl
      · have htvm' : ¬ (privLvlO (withoutStep q) = PRIV_LVL_S ∧
            Mstatus.tvm.get (withoutStep q).mstatus = 1#1) := htvm
        simp only [writeReg, if_neg htvm, if_neg htvm']
        rfl
    all_goals rfl
  unfold csrWrite
  rw [csrWdata_withoutStep hd]
  show trapUpd (if (csrOpLogic q i).we then _ else _) = _
  split_ifs
  · cases CsrReg.ofAddr i.csrAddr with
    | none => rfl
    | some r => exact hreg _ r
  · rfl

theorem trapRegs_hardwired_congr {u u' : Upd} (h : trapUpd u = trapUpd u') :
    trapRegs (hardwired q i u) = trapRegs (hardwired q i u') := by
  have hregs : trapRegs u.d = trapRegs u'.d := congrArg Prod.fst h
  have hdirty : u.dirtyFpStateCsr = u'.dirtyFpStateCsr :=
    congrArg Prod.snd h
  simp only [trapRegs, TrapRegs.mk.injEq] at hregs
  simp only [trapRegs, hardwired, hdirty, hregs]

/-- A single step leaves the trap registers that the instruction leaves. -/
theorem trapRegs_withoutStep (hd : q.debugMode = false)
    (hx : isXret i.csrOp = false) (hv : i.ex.valid = false) :
    trapRegs (step cfg q i) = trapRegs (step cfg (withoutStep q) i) := by
  have ht : trapTaken q i = false := by simp [trapTaken, hv]
  have ht' : trapTaken (withoutStep q) i = false := ht
  have hm : i.csrOp ≠ .MRET := by rintro h; simp [isXret, h] at hx
  have hs : i.csrOp ≠ .SRET := by rintro h; simp [isXret, h] at hx
  rw [trapRegs_step ht hm hs, trapRegs_step ht' hm hs]
  exact trapRegs_hardwired_congr (trapUpd_csrWrite_withoutStep hd).symm

theorem entered_of_step (he : DebugEntry q i)
    (hs : stepping q i = true) (hx : isXret i.csrOp = false)
    (hv : i.ex.valid = false) :
    Entered (resume cfg q i) (step cfg q i) := by
  have hd := he.not_debug
  have hr : resume cfg q i = ⟨nextPc i,
      (step cfg (withoutStep q) i).privLvl,
      trapRegs (step cfg (withoutStep q) i)⟩ := by
    unfold resume
    rw [if_pos hs, hx, hv]
    rfl
  rw [hr]
  refine ⟨debugMode_step_of_entry he hx, ?_, ?_, ?_⟩
  · rw [dpc_step, hd, if_neg Bool.false_ne_true, if_pos hs, singleStepPc, hv]
    rfl
  · have ht : trapTaken (withoutStep q) i = false := by
      simp [trapTaken, hv]
    rw [prv_step, hd, privLvl_step, hx, ht]
    exact privLvlO_of_not_debug hd
  · rw [trapRegs_withoutStep hd hx hv]

theorem entered_of_halt (he : DebugEntry q i) (hs : stepping q i = false)
    (hh : haltEntry i) : Entered (resume cfg q i) (step cfg q i) := by
  have hd := he.not_debug
  obtain ⟨-, hop, hfp⟩ := he.uncommitted (Or.inl hh)
  have hx : isXret i.csrOp = false := by rw [hop]; rfl
  have hr : resume cfg q i = ⟨i.pc, q.privLvl, trapRegs q⟩ := by
    unfold resume
    rw [hs]
    rfl
  rw [hr]
  refine ⟨debugMode_step_of_entry he hx, ?_, ?_, ?_⟩
  · rw [dpc_step, hd, if_neg Bool.false_ne_true, hs,
      if_neg Bool.false_ne_true, if_pos ⟨hh.1, Or.inl hh.2⟩]
  · rw [prv_step, hd]
    exact privLvlO_of_not_debug hd
  · have ht : trapTaken q i = false := by simp [trapTaken, hh.2]
    have hwe : (csrOpLogic q i).we = false := by
      by_contra hwe
      rcases (csrOpLogic_we (Bool.not_eq_false _ ▸ hwe)).2 with h | h | h <;>
        rw [hop] at h <;> exact absurd h (by decide)
    rw [trapRegs_step_of_not_we ht (by rw [hop]; decide)
      (by rw [hop]; decide) hwe hfp, settle_settle]

/-- An entry that is neither a breakpoint nor a single step over a return
or a trap saves the resume point. -/
theorem entered_of_faithful (he : DebugEntry q i) (hf : Faithful q i) :
    Entered (resume cfg q i) (step cfg q i) := by
  cases hs : stepping q i with
  | true => exact entered_of_step he hs (hf.no_xret hs) (hf.no_trap hs)
  | false =>
    rcases he.cause with hh | hb | hstep
    · exact entered_of_halt he hs hh
    · exact absurd hb hf.no_ebreak
    · exact absurd (hs.symm.trans hstep) Bool.false_ne_true

/-! ## The stay and the exit -/

theorem trapTaken_of_debug (hd : q.debugMode = true) :
    trapTaken q i = false := by
  simp [trapTaken, hd]

/-- A cycle in debug mode without a CSR write keeps the resume point. -/
theorem entered_stay {r : Resume} (hq : Entered r q) (h : DebugStay q i) :
    Entered r (step cfg q i) := by
  have hd := hq.debug
  have hm : i.csrOp ≠ .MRET := by
    intro hop
    exact absurd h.no_xret (by rw [hop]; decide)
  have hs : i.csrOp ≠ .SRET := by
    intro hop
    exact absurd h.no_xret (by rw [hop]; decide)
  have hret : i.csrOp ≠ .DRET := by
    intro hop
    exact absurd h.no_xret (by rw [hop]; decide)
  refine ⟨debugMode_step hd hret, ?_, ?_, ?_⟩
  · rw [dpc_step, if_pos hd, csrWrite_of_not_we cfg q i h.no_write]
    exact hq.dpc
  · rw [prv_step, hd, if_pos rfl, csrWrite_of_not_we cfg q i h.no_write]
    exact hq.prv
  · rw [trapRegs_step_of_not_we (trapTaken_of_debug hd) hm hs h.no_write
      h.no_fp, settle_settle, hq.trap]

/-- DRET hands the resume point back. -/
theorem entered_exit {r : Resume} (hq : Entered r q) (h : DebugExit i) :
    (step cfg q i).debugMode = false ∧
      Resume.mk (epcO q i) (step cfg q i).privLvl (trapRegs (step cfg q i)) =
        { r with trap := r.trap.settle } := by
  have hacc : isCsrAccess i.csrOp = false := by rw [h.dret]; rfl
  have hx : isXret i.csrOp = true := by rw [h.dret]; rfl
  have hwe : (csrOpLogic q i).we = false := by
    by_contra hwe
    rcases (csrOpLogic_we (Bool.not_eq_false _ ▸ hwe)).2 with hop | hop | hop
    all_goals
      rw [h.dret] at hop
      exact absurd hop (by decide)
  have hmode : (step cfg q i).debugMode = false := by
    show (xret q i _).debugMode = false
    unfold xret
    rw [h.dret]
    rfl
  have hlvl : (step cfg q i).privLvl = r.privLvl := by
    rw [privLvl_step, if_pos hx, h.dret]
    exact hq.prv
  have htrap : trapRegs (step cfg q i) = r.trap.settle := by
    rw [trapRegs_step_of_not_we (trapTaken_of_debug hq.debug)
      (by rw [h.dret]; decide) (by rw [h.dret]; decide) hwe h.no_fp, hq.trap]
  refine ⟨hmode, ?_⟩
  rw [hlvl, htrap, epcO, if_pos h.dret, hq.dpc]

/-- A debug entry that is neither a breakpoint nor a single step over a
return or a trap, any stay without CSR writes, and DRET: the program
counter that DRET hands out, the privilege level and the trap registers
are those of the resume point, with `mstatus` settled. -/
theorem debug_transparent (cfg : Cfg) (q : State) (i : In) (is : List In)
    (j : In) (he : DebugEntry q i) (hf : Faithful q i)
    (hstay : Along (step cfg) DebugStay (step cfg q i) is)
    (hexit : DebugExit j) :
    let s := run (step cfg) (step cfg q i) is
    let t := step cfg s j
    s.debugMode = true ∧ t.debugMode = false ∧
      Resume.mk (epcO s j) t.privLvl (trapRegs t) =
        { resume cfg q i with trap := (resume cfg q i).trap.settle } := by
  intro s t
  have hs : Entered (resume cfg q i) s :=
    hstay.run_invariant (P := Entered (resume cfg q i))
      (fun _ _ h hq => entered_stay hq h) (entered_of_faithful he hf)
  exact ⟨hs.debug, entered_exit hs hexit⟩

/-- An instruction at `pc` that brings an exception along. -/
def withException (cause pc : BitVec 64) : In :=
  { In.idle with ex := ⟨cause, 0#64, true⟩, pc := pc }

def dretIn : In := { In.idle with csrOp := .DRET }

/-- A debug request at `0x80000000`, a cycle in debug mode, DRET. -/
theorem debug_transparent_request :
    let q := step Cfg.ariane reset In.idle
    let i := withException DEBUG_REQUEST 0x80000000#64
    let s := run (step Cfg.ariane) (step Cfg.ariane q i) [In.idle]
    let t := step Cfg.ariane s dretIn
    s.debugMode = true ∧ t.debugMode = false ∧
      Resume.mk (epcO s dretIn) t.privLvl (trapRegs t) =
        { resume Cfg.ariane q i with
          trap := (resume Cfg.ariane q i).trap.settle } :=
  debug_transparent Cfg.ariane _ _ _ _ (by decide +kernel)
    (by decide +kernel) (by decide +kernel) ⟨rfl, rfl⟩

/-- After a reset: `mepc` is written, then a visit to debug mode writes
`dcsr`. -/
def setDcsr (v : BitVec 64) : List In :=
  [In.idle,
    { In.idle with csrOp := .CSR_WRITE, csrAddr := 0x341#12,
                   csrWdata := 0x1000#64 },
    withException DEBUG_REQUEST 0x80000000#64,
    { In.idle with csrOp := .CSR_WRITE, csrAddr := 0x7B0#12, csrWdata := v },
    dretIn]

/-- MRET at `0x80000000` retires. -/
def mretIn : In :=
  { In.idle with csrOp := .MRET, commitAck := 1#2, pc := 0x80000000#64,
                 commitInstr0 := ⟨.CSR, 0x80000000#64, false, 0#64⟩ }

/-- A breakpoint with `dcsr.ebreakm` set and a single step over MRET, each
followed by DRET.  The breakpoint overwrites `mepc` and `mcause`; the step
goes on in M mode behind the MRET, not in user mode at `mepc`. -/
theorem debug_not_transparent :
    (let q := run (step Cfg.ariane) reset (setDcsr 0x8000#64)
     let i := withException BREAKPOINT 0x80000000#64
     let t := step Cfg.ariane (step Cfg.ariane q i) dretIn
     DebugEntry q i ∧ DebugExit dretIn ∧ t.debugMode = false ∧
       q.mepc = 0x1000#64 ∧ t.mepc = 0x80000000#64 ∧
       q.mcause = 0#64 ∧ t.mcause = BREAKPOINT) ∧
    (let q := run (step Cfg.ariane) reset (setDcsr 0x4#64)
     let s := step Cfg.ariane q mretIn
     let t := step Cfg.ariane s dretIn
     DebugEntry q mretIn ∧ t.debugMode = false ∧
       epcO q mretIn = 0x1000#64 ∧ epcO s dretIn = 0x80000004#64 ∧
       (step Cfg.ariane (withoutStep q) mretIn).privLvl = PRIV_LVL_U ∧
       t.privLvl = PRIV_LVL_M) := by
  decide +kernel

end ArianeSoc.Csr
