import ArianeSoc.Csr.Privilege

/-!
# An illegal CSR access changes no register

`csr_read_process`, `csr_update` and `privilege_check` each raise their own
flag, and `csr_exception_o` is the disjunction.  The flags agree:

* a privilege violation drops both strobes;
* a read that raises the flag is a write that raises it
  (`readReg_denied`), since the two `case` statements guard the same
  registers in the same way;
* a write that raises the flag assigns nothing (`writeReg_denied`).

So the registers of a cycle with an exception are those of the same cycle
with another operation (`step_of_denied`), one that neither accesses a CSR
nor returns nor waits for an interrupt.
-/

namespace ArianeSoc.Csr

variable {cfg : Cfg} {q : State} {i : In}

/-- The operations that `csr_regfile` acts on. -/
def isCsrOperation (op : FuOp) : Bool :=
  isCsrAccess op || isXret op || op = .WFI

/-- The write case has assigned nothing: no register, no floating-point
status and no performance counter. -/
def Untouched (u u' : Upd) : Prop :=
  u'.d = u.d ∧ u'.dirtyFpStateCsr = u.dirtyFpStateCsr ∧ u'.perf = u.perf

theorem fpWrite_denied {u : Upd} {f : BitVec 32}
    (hu : u.updateAccessException = false)
    (h : (fpWrite q u f).updateAccessException = true) :
    Untouched u (fpWrite q u f) := by
  unfold fpWrite at h ⊢
  split_ifs at h ⊢
  · exact ⟨rfl, rfl, rfl⟩
  · rw [show _ = u.updateAccessException from rfl, hu] at h
    exact absurd h Bool.false_ne_true

/-- A write that is refused assigns nothing. -/
theorem writeReg_denied {u : Upd} {w : BitVec 64} {r : CsrReg}
    (hu : u.updateAccessException = false)
    (h : (writeReg cfg q u w r).updateAccessException = true) :
    Untouched u (writeReg cfg q u w r) := by
  cases r
  case FFLAGS | FRM | FCSR | FTRAN => exact fpWrite_denied hu h
  case SATP =>
    simp only [writeReg] at h ⊢
    split_ifs at h ⊢
    · exact ⟨rfl, rfl, rfl⟩
    · exact absurd (hu.symm.trans h) Bool.false_ne_true
  case MVENDORID | MARCHID | MIMPID | MHARTID | CYCLE | INSTRET =>
    exact ⟨rfl, rfl, rfl⟩
  all_goals exact absurd (hu.symm.trans h) Bool.false_ne_true

/-- A register that cannot be read cannot be written. -/
theorem readReg_denied {u : Upd} {w : BitVec 64} {r : CsrReg}
    (h : (readReg q i r).2 = true) :
    (writeReg cfg q u w r).updateAccessException = true := by
  have hfp : ∀ v f, (readReg.fpRead q v).2 = true →
      (fpWrite q u f).updateAccessException = true := by
    intro v f hv
    unfold readReg.fpRead at hv
    split_ifs at hv with hfs
    rw [fpWrite, if_pos hfs]
  cases r
  case FFLAGS | FRM | FCSR | FTRAN => exact hfp _ _ h
  case SATP =>
    simp only [readReg] at h
    split_ifs at h with htvm
    simp only [writeReg, if_pos htvm]
  all_goals exact absurd h Bool.false_ne_true

/-- With an exception the write case assigns nothing. -/
theorem csrWrite_denied (h : (csrExceptionO cfg q i).valid = true) :
    Untouched ⟨defaults q i, false, false, false, none⟩
      (csrWrite cfg q i) := by
  by_cases hwe : (csrOpLogic q i).we = true
  · have hv : privilegeViolation q i = false := (csrOpLogic_we hwe).1
    have hre : (csrOpLogic q i).re = true := by
      rcases (csrOpLogic_we hwe).2 with hop | hop | hop <;>
        simp [csrOpLogic, hv, hop, opSelect]
    unfold csrExceptionO at h
    unfold csrRead at h
    unfold csrWrite at h ⊢
    simp only [hwe, hre, hv, if_true] at h ⊢
    cases hr : CsrReg.ofAddr i.csrAddr with
    | none => exact ⟨rfl, rfl, rfl⟩
    | some r =>
      simp only [hr, Bool.false_eq_true, or_false] at h
      split_ifs at h with hflag
      · refine writeReg_denied rfl ?_
        rcases hflag with hw | hrd
        · exact hw
        · exact readReg_denied hrd
      · exact absurd h Bool.false_ne_true
  · rw [csrWrite_of_not_we cfg q i (Bool.eq_false_iff.mpr hwe)]
    exact ⟨rfl, rfl, rfl⟩

/-- An operation without effect leaves the defaults to the write case. -/
theorem csrWrite_of_not_access (h : isCsrAccess i.csrOp = false) :
    csrWrite cfg q i = ⟨defaults q i, false, false, false, none⟩ := by
  have hwe : (csrOpLogic q i).we = false := by
    by_contra hwe
    rw [Bool.not_eq_false] at hwe
    rcases (csrOpLogic_we hwe).2 with hop | hop | hop <;>
      simp [isCsrAccess, hop] at h
  exact csrWrite_of_not_we cfg q i hwe

/-- The hardware fields do not see more of the write case than `Untouched`
compares. -/
theorem hardwired_congr {u u' : Upd} (h : Untouched u u') :
    hardwired q i u' = hardwired q i u := by
  unfold hardwired
  rw [h.1, h.2.1]

theorem xret_of_not_xret (d : State) (h : isXret i.csrOp = false) :
    xret q i d = d := by
  unfold xret
  split <;> simp_all [isXret]

/-- An access that raises an exception is an access. -/
theorem isCsrAccess_of_denied (h : (csrExceptionO cfg q i).valid = true) :
    isCsrAccess i.csrOp = true := by
  by_contra hacc
  rw [Bool.not_eq_true] at hacc
  rw [csrExceptionO_of_not_access hacc] at h
  exact absurd h Bool.false_ne_true

/-- An access is neither a return nor a WFI. -/
theorem not_xret_of_access {op : FuOp} (h : isCsrAccess op = true) :
    isXret op = false ∧ op ≠ .WFI := by
  constructor
  · cases op <;> first | rfl | exact absurd h Bool.false_ne_true
  · rintro rfl
    exact absurd h Bool.false_ne_true

/-- An operation that is neither a return nor a WFI takes part in the next
values through the write case only. -/
theorem nextValues_of_plain (hx : isXret i.csrOp = false)
    (hw : i.csrOp ≠ .WFI) :
    nextValues cfg q i =
      { loadStore q (enterDebug cfg q i (takeTrap q i
          (hardwired q i (csrWrite cfg q i)))) with
        wfi := if q.mip ≠ 0#64 ∨ i.debugReq ∨ i.irq.getLsbD 1 then false
          else q.wfi } := by
  unfold nextValues
  rw [xret_of_not_xret _ hx]
  simp [wfiNext, hw]

/-- A cycle in which the write case assigns nothing and the operation is
neither a return nor a WFI is one without an operation. -/
theorem step_of_untouched
    (hu : Untouched ⟨defaults q i, false, false, false, none⟩
      (csrWrite cfg q i))
    (hx : isXret i.csrOp = false) (hw : i.csrOp ≠ .WFI) :
    step cfg q i = step cfg q { i with csrOp := .ADD } := by
  have hidle : csrWrite cfg q { i with csrOp := .ADD } =
      ⟨defaults q i, false, false, false, none⟩ :=
    csrWrite_of_not_access rfl
  have hhw : hardwired q i (csrWrite cfg q i) =
      hardwired q { i with csrOp := .ADD }
        (csrWrite cfg q { i with csrOp := .ADD }) := by
    rw [hidle, hardwired_congr hu]
    rfl
  unfold step
  rw [nextValues_of_plain hx hw,
    nextValues_of_plain (i := { i with csrOp := .ADD }) rfl (by simp), hhw]
  rfl

/-- `csr_regfile` does not act on the operation. -/
theorem step_of_not_operation (h : isCsrOperation i.csrOp = false) :
    step cfg q i = step cfg q { i with csrOp := .ADD } := by
  simp only [isCsrOperation, Bool.or_eq_false_iff,
    decide_eq_false_iff_not] at h
  refine step_of_untouched ?_ h.1.2 h.2
  rw [csrWrite_of_not_access h.1.1]
  exact ⟨rfl, rfl, rfl⟩

/-- An access that raises an exception changes nothing. -/
theorem step_of_denied (h : (csrExceptionO cfg q i).valid = true) :
    step cfg q i = step cfg q { i with csrOp := .ADD } := by
  obtain ⟨hx, hw⟩ := not_xret_of_access (isCsrAccess_of_denied h)
  exact step_of_untouched (csrWrite_denied h) hx hw

/-- If a CSR access raises an exception, the registers after the cycle are
those after the same cycle with any operation `op` that `csr_regfile` does
not act on, and no performance counter is written. -/
theorem illegal_access_atomic (cfg : Cfg) (q : State) (i : In) (op : FuOp)
    (hex : (csrExceptionO cfg q i).valid = true)
    (hop : isCsrOperation op = false) :
    step cfg q i = step cfg q { i with csrOp := op } ∧
      (csrWrite cfg q i).perf = none := by
  refine ⟨?_, (csrWrite_denied hex).2.2⟩
  have hother : step cfg q { i with csrOp := op } =
      step cfg q { i with csrOp := .ADD } :=
    step_of_not_operation (i := { i with csrOp := op }) hop
  exact (step_of_denied hex).trans hother.symm

/-- A write to the read-only `mhartid` after a reset. -/
theorem illegal_access_atomic_mhartid :
    let i := { In.idle with csrOp := .CSR_WRITE, csrAddr := 0xF14#12,
                            csrWdata := 0x8#64 }
    step Cfg.ariane reset i = step Cfg.ariane reset { i with csrOp := .ADD } ∧
      (csrWrite Cfg.ariane reset i).perf = none :=
  illegal_access_atomic Cfg.ariane reset _ .ADD (by decide) rfl

/-! ## What the exception depends on -/

theorem writeReg_flag {u u' : Upd} (w w' : BitVec 64) (r : CsrReg)
    (h : u.updateAccessException = u'.updateAccessException) :
    (writeReg cfg q u w r).updateAccessException =
      (writeReg cfg q u' w' r).updateAccessException := by
  have hfp : ∀ f f', (fpWrite q u f).updateAccessException =
      (fpWrite q u' f').updateAccessException := by
    intro f f'
    unfold fpWrite
    split_ifs
    · rfl
    · exact h
  cases r
  case FFLAGS | FRM | FCSR | FTRAN => exact hfp _ _
  case SATP =>
    simp only [writeReg]
    split_ifs
    · rfl
    · exact h
  case MVENDORID | MARCHID | MIMPID | MHARTID | CYCLE | INSTRET => rfl
  all_goals exact h

/-- The exception depends on the operation and its address only. -/
theorem csrExceptionO_congr {j : In} (hop : i.csrOp = j.csrOp)
    (ha : i.csrAddr = j.csrAddr) :
    csrExceptionO cfg q i = csrExceptionO cfg q j := by
  have hv : privilegeViolation q i = privilegeViolation q j := by
    unfold privilegeViolation
    rw [hop, ha]
  have hlogic : csrOpLogic q i = csrOpLogic q j := by
    unfold csrOpLogic
    rw [hv, hop]
  have hw : (csrWrite cfg q i).updateAccessException =
      (csrWrite cfg q j).updateAccessException := by
    unfold csrWrite
    dsimp only
    rw [hlogic, ha]
    split_ifs
    · cases CsrReg.ofAddr j.csrAddr with
      | none => rfl
      | some r => exact writeReg_flag _ _ r rfl
    · rfl
  have hr : (csrRead q i).2 = (csrRead q j).2 := by
    unfold csrRead
    rw [hlogic, ha]
    split_ifs
    · cases CsrReg.ofAddr j.csrAddr with
      | none => rfl
      | some r => cases r <;> rfl
    · rfl
  unfold csrExceptionO
  rw [hw, hr, hv]

end ArianeSoc.Csr
