import ArianeSoc.Csr.Confinement

/-!
# A CSR write that commits

`Commits` describes the cycle of a CSR instruction that writes the register
`r` and raises no exception.  `Commits.step` is the next state of such a
cycle, and `Commits.csrRead` and `Commits.readException` say that a read of
the same register in the next cycle passes the access checks and gets the
value that the register then has.
-/

namespace ArianeSoc.Csr

/-- The register `r` is written by an instruction that raises no
exception. -/
structure Commits (cfg : Cfg) (q : State) (i : In) (r : CsrReg) : Prop where
  we : (csrOpLogic q i).we = true
  addr : i.csrAddr = r.addr
  noException : (csrExceptionO cfg q i).valid = false
  noTrap : i.ex.valid = false

variable {cfg : Cfg} {q : State} {i j : In} {r : CsrReg}

/-! ## The step -/

theorem Commits.op (h : Commits cfg q i r) :
    i.csrOp = .CSR_WRITE ∨ i.csrOp = .CSR_SET ∨ i.csrOp = .CSR_CLEAR :=
  (csrOpLogic_we h.we).2

theorem Commits.noViolation (h : Commits cfg q i r) :
    privilegeViolation q i = false :=
  (csrOpLogic_we h.we).1

/-- The next values before the write case. -/
def unwritten (q : State) (i : In) : Upd :=
  ⟨defaults q i, false, false, false, none⟩

/-- The next values after the write to `r`. -/
def written (cfg : Cfg) (q : State) (i : In) (r : CsrReg) : Upd :=
  writeReg cfg q (unwritten q i) (csrWdata q i) r

theorem Commits.csrWrite (h : Commits cfg q i r) :
    csrWrite cfg q i = written cfg q i r := by
  unfold Csr.csrWrite
  rw [if_pos h.we, h.addr, CsrReg.ofAddr_addr]
  rfl

theorem Commits.noAccessException (h : Commits cfg q i r) :
    (written cfg q i r).updateAccessException = false := by
  have hex := h.noException
  unfold csrExceptionO at hex
  rw [← h.csrWrite]
  by_contra hne
  rw [if_pos (Or.inl (by simpa using hne))] at hex
  exact Bool.noConfusion hex

/-- The debug entries touch three registers, and in debug mode none. -/
theorem enterDebug_frame (cfg : Cfg) (q : State) (i : In) (d : State) :
    ∃ m p c,
      enterDebug cfg q i d =
        { d with
          debugMode := m
          dpc := p
          dcsr := c } ∧
      (q.debugMode = true → m = d.debugMode ∧ p = d.dpc ∧ c = d.dcsr) := by
  cases hd : q.debugMode with
  | true =>
    refine ⟨d.debugMode, d.dpc, d.dcsr, ?_, fun _ => ⟨rfl, rfl, rfl⟩⟩
    rw [enterDebug, if_pos hd]
  | false =>
    refine ⟨(enterDebug cfg q i d).debugMode, (enterDebug cfg q i d).dpc,
      (enterDebug cfg q i d).dcsr, ?_, fun h => Bool.noConfusion h⟩
    unfold enterDebug debugStep debugRequest debugBreakpoint
    split_ifs <;> rfl

/-- The next state: the write case, the fields that hardware keeps and,
outside debug mode, the debug entries. -/
theorem Commits.step (h : Commits cfg q i r) :
    ∃ m p c t f,
      Csr.step cfg q i =
        { latch cfg q (hardwired q i (written cfg q i r)) with
          debugMode := m
          dpc := p
          dcsr := c
          enLdStTranslation := t
          wfi := f } ∧
      (q.debugMode = true →
        m = (written cfg q i r).d.debugMode ∧
          p = (written cfg q i r).d.dpc ∧ c = (written cfg q i r).d.dcsr) := by
  have htrap : ∀ d, takeTrap q i d = d := by
    intro d
    unfold takeTrap
    rw [if_neg (by simp [trapTaken, h.noTrap])]
  have hret : ∀ d, xret q i d = d := by
    intro d
    unfold xret
    rcases h.op with ho | ho | ho <;> rw [ho]
  unfold Csr.step nextValues
  rw [h.csrWrite, htrap, hret]
  generalize written cfg q i r = u
  obtain ⟨m, p, c, heq, hkeep⟩ := enterDebug_frame cfg q i (hardwired q i u)
  rw [heq]
  exact ⟨m, p, c, _, _, rfl, hkeep⟩

/-- A view of the next state that does not look at the debug registers, the
translation flag and the sleeping state. -/
theorem Commits.view {τ : Type*} (h : Commits cfg q i r) (view : State → τ)
    (hview : ∀ (d : State) m p c t f,
      view { d with
        debugMode := m
        dpc := p
        dcsr := c
        enLdStTranslation := t
        wfi := f } = view d) :
    view (Csr.step cfg q i) =
      view (latch cfg q (hardwired q i (written cfg q i r))) := by
  obtain ⟨m, p, c, t, f, hstep, -⟩ := h.step
  rw [hstep]
  exact hview _ m p c t f

/-! ## The read of the next cycle -/

/-- The write case changes neither the privilege level nor the mode. -/
theorem writeReg_level {u : Upd} {w : BitVec 64} {r : CsrReg} :
    (writeReg cfg q u w r).d.privLvl = u.d.privLvl ∧
      (writeReg cfg q u w r).d.debugMode = u.d.debugMode := by
  have hview : (fun d : State => (d.privLvl, d.debugMode))
      (writeReg cfg q u w r).d =
        (fun d : State => (d.privLvl, d.debugMode)) u.d := by
    cases r
    case FFLAGS | FRM | FCSR | FTRAN | SATP =>
      exact view_writeReg_guarded
        (fun d : State => (d.privLvl, d.debugMode)) (fun _ _ => rfl)
        (fun _ _ => rfl) (by simp)
    all_goals rfl
  exact ⟨congrArg Prod.fst hview, congrArg Prod.snd hview⟩

/-- A write that commits keeps the privilege level or enters debug mode. -/
theorem Commits.level (h : Commits cfg q i r) :
    (privLvlO (Csr.step cfg q i) = privLvlO q ∨
        privLvlO (Csr.step cfg q i) = PRIV_LVL_M) ∧
      (q.debugMode = true → (Csr.step cfg q i).debugMode = true) := by
  obtain ⟨m, p, c, t, f, hstep, hkeep⟩ := h.step
  obtain ⟨hlvl, hmode⟩ :
      (written cfg q i r).d.privLvl = q.privLvl ∧
        (written cfg q i r).d.debugMode = q.debugMode := writeReg_level
  have hp : (Csr.step cfg q i).privLvl = q.privLvl :=
    (h.view State.privLvl fun _ _ _ _ _ _ => rfl).trans hlvl
  have hm : (Csr.step cfg q i).debugMode = m := by
    rw [hstep]
  have hd : q.debugMode = true → m = true := by
    intro hq
    rw [(hkeep hq).1, hmode]
    exact hq
  refine ⟨?_, fun hq => hm.trans (hd hq)⟩
  cases hmd : m with
  | true => exact Or.inr (privLvlO_of_debug (hm.trans hmd))
  | false =>
    have hq : q.debugMode = false := by
      cases hq : q.debugMode with
      | false => rfl
      | true => exact absurd (hd hq) (by simp [hmd])
    left
    rw [privLvlO_of_not_debug (hm.trans hmd), privLvlO_of_not_debug hq, hp]

/-- The read-only counters have no write case. -/
theorem Commits.not_counter (h : Commits cfg q i r) :
    ¬ (CSR_CYCLE ≤ r.addr ∧ r.addr ≤ CSR_HPM_COUNTER_31) := by
  have hacc := h.noAccessException
  cases r
  case CYCLE | INSTRET => exact Bool.noConfusion hacc
  case MHPM n =>
    clear h hacc
    revert n
    decide
  case PMPADDR k =>
    clear h hacc
    revert k
    decide
  all_goals decide

/-- The two checks that a write has passed. -/
theorem Commits.checks (h : Commits cfg q i r) :
    privBitsViolation q r.addr = false ∧
      debugCsrViolation q r.addr = false := by
  have hv := h.noViolation
  have hacc : isCsrAccess i.csrOp = true := by
    rcases h.op with ho | ho | ho <;> rw [ho] <;> rfl
  unfold privilegeViolation at hv
  rw [if_pos hacc, h.addr, if_neg h.not_counter] at hv
  exact (Bool.or_eq_false_iff).mp hv

/-- The debug registers are written in debug mode only. -/
theorem Commits.debug (h : Commits cfg q i r)
    (hr : r.addr.extractLsb' 4 8 = 0x7B#8) : q.debugMode = true := by
  have hdebug := h.checks.2
  unfold debugCsrViolation at hdebug
  rw [decide_eq_false_iff_not] at hdebug
  cases hq : q.debugMode with
  | true => rfl
  | false => exact absurd ⟨hr, hq⟩ hdebug

/-- What may be written may be read in the next cycle. -/
theorem Commits.mayRead (h : Commits cfg q i r) (hop : j.csrOp = .CSR_READ)
    (ha : j.csrAddr = r.addr) :
    privilegeViolation (Csr.step cfg q i) j = false := by
  obtain ⟨hbits, hdebug⟩ := h.checks
  obtain ⟨hlvl, hmode⟩ := h.level
  unfold privilegeViolation
  rw [hop, if_pos (show isCsrAccess .CSR_READ = true from rfl), ha,
    if_neg h.not_counter]
  apply (Bool.or_eq_false_iff).mpr
  constructor
  · unfold privBitsViolation at hbits ⊢
    rw [decide_eq_false_iff_not] at hbits ⊢
    rcases hlvl with heq | heq
    · rwa [heq]
    · rw [heq]
      rintro ⟨hne, -⟩
      exact hne BitVec.allOnes_and
  · unfold debugCsrViolation at hdebug ⊢
    rw [decide_eq_false_iff_not] at hdebug ⊢
    rintro ⟨haddr, hoff⟩
    apply hdebug
    refine ⟨haddr, ?_⟩
    cases hq : q.debugMode with
    | false => rfl
    | true => exact absurd (hmode hq) (by simp [hoff])

theorem Commits.csrRead (h : Commits cfg q i r) (hop : j.csrOp = .CSR_READ)
    (ha : j.csrAddr = r.addr) :
    Csr.csrRead (Csr.step cfg q i) j = readReg (Csr.step cfg q i) j r := by
  have hre : (csrOpLogic (Csr.step cfg q i) j).re = true := by
    rw [csrOpLogic, if_neg (by rw [h.mayRead hop ha]; decide), hop]
    rfl
  rw [Csr.csrRead, if_pos hre, ha, CsrReg.ofAddr_addr]

theorem Commits.readException (h : Commits cfg q i r)
    (hop : j.csrOp = .CSR_READ) (ha : j.csrAddr = r.addr) :
    (csrExceptionO cfg (Csr.step cfg q i) j).valid =
      (readReg (Csr.step cfg q i) j r).2 := by
  have hwe : (csrOpLogic (Csr.step cfg q i) j).we = false := by
    rw [csrOpLogic, if_neg (by rw [h.mayRead hop ha]; decide), hop]
    rfl
  unfold csrExceptionO
  rw [csrWrite_of_not_we _ _ _ hwe, h.csrRead hop ha, h.mayRead hop ha]
  cases (readReg (Csr.step cfg q i) j r).2 <;> rfl

end ArianeSoc.Csr
