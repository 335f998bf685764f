import ArianeSoc.Csr.Frame

/-!
# The privilege level and its encodings in the registers

`privLvl_step` gives the privilege level after a cycle: a return decides
it, else a trap, else it stays.  `debugMode_step` says how a hart leaves
debug mode.  An operation that accesses no CSR raises no exception
(`csrExceptionO_of_not_access`).

`priv_lvl_t` has three enumerators and two bits.  Three registers hold a
value of this type and feed each other: a trap saves `priv_lvl` in
`mstatus.mpp`, MRET takes it back, a debug entry and DRET do the same with
`dcsr.prv`, and a CSR write reaches `mpp` and `prv` directly.

`LegalPriv` says that the three hold one of the enumerators.

* `prv_step`, `returnLvl_legal`: a write to `dcsr` is legalised, and what a
  return restores is legal.
* `mpp_step`: what a cycle leaves in `mpp`.  A write to `mstatus` is not
  legalised.
* `legalPriv_always_iff`: the runs that keep `LegalPriv` are those in which
  no write to `mstatus` puts the fourth value into `mpp`.
-/

namespace ArianeSoc.Csr

variable {cfg : Cfg} {q : State} {i : In}

/-- The operations that return from a trap or from debug mode. -/
def isXret (op : FuOp) : Bool :=
  op = .MRET ∨ op = .SRET ∨ op = .DRET

/-- The privilege level that a return goes to. -/
def returnLvl (q : State) : FuOp → PrivLvl
  | .MRET => Mstatus.mpp.get q.mstatus
  | .SRET => 0#1 ++ Mstatus.spp.get q.mstatus
  | _ => Dcsr.prv.get q.dcsr

theorem csrWrite_privLvl :
    (csrWrite cfg q i).d.privLvl = q.privLvl ∧
      (csrWrite cfg q i).d.debugMode = q.debugMode := by
  have hreg : ∀ (u : Upd) w r,
      ((writeReg cfg q u w r).d.privLvl, (writeReg cfg q u w r).d.debugMode) =
        (u.d.privLvl, u.d.debugMode) := by
    intro u w r
    cases r
    case FFLAGS | FRM | FCSR | FTRAN | SATP =>
      exact view_writeReg_guarded (fun d => (d.privLvl, d.debugMode))
        (fun _ _ => rfl) (fun _ _ => rfl) (by simp)
    all_goals rfl
  rcases csrWrite_cases cfg q i with heq | ⟨r, w, u, -, -, -, hu, heq⟩
  · rw [heq]
    exact ⟨rfl, rfl⟩
  · have h := hreg u w r
    rw [hu] at h
    rw [heq]
    exact ⟨congrArg Prod.fst h, congrArg Prod.snd h⟩

theorem takeTrap_privLvl (d : State) :
    (takeTrap q i d).privLvl =
      if trapTaken q i then trapToPrivLvl q i else d.privLvl := by
  unfold takeTrap
  split_ifs with ht hs
  · exact hs.symm
  · rfl
  · rfl

theorem takeTrap_debugMode (d : State) :
    (takeTrap q i d).debugMode = d.debugMode := by
  unfold takeTrap
  split_ifs <;> rfl

theorem enterDebug_privLvl (d : State) :
    (enterDebug cfg q i d).privLvl = d.privLvl := by
  unfold enterDebug debugStep debugRequest debugBreakpoint
  split_ifs <;> rfl

theorem xret_privLvl (d : State) :
    (xret q i d).privLvl =
      if isXret i.csrOp then returnLvl q i.csrOp else d.privLvl := by
  unfold xret
  split
  case h_4 hm hs hd =>
    have hx : isXret i.csrOp = false := by
      simp only [isXret, decide_eq_false_iff_not]
      rintro (h | h | h)
      exacts [hm h, hs h, hd h]
    rw [hx]
    rfl
  all_goals simp [isXret, returnLvl, doMret, doSret, doDret, *]

/-- A return decides the next privilege level, else a trap does. -/
theorem privLvl_step (cfg : Cfg) (q : State) (i : In) :
    (step cfg q i).privLvl =
      if isXret i.csrOp then returnLvl q i.csrOp
      else if trapTaken q i then trapToPrivLvl q i
      else q.privLvl := by
  have hnext : (step cfg q i).privLvl =
      (xret q i (loadStore q (enterDebug cfg q i (takeTrap q i
        (hardwired q i (csrWrite cfg q i)))))).privLvl := rfl
  have hload : ∀ d, (loadStore q d).privLvl = d.privLvl := fun _ => rfl
  have hhw : (hardwired q i (csrWrite cfg q i)).privLvl = q.privLvl :=
    csrWrite_privLvl.1
  rw [hnext, xret_privLvl, hload, enterDebug_privLvl, takeTrap_privLvl, hhw]

/-- Only DRET leaves debug mode. -/
theorem debugMode_step (hd : q.debugMode = true) (hop : i.csrOp ≠ .DRET) :
    (step cfg q i).debugMode = true := by
  have hnext : (step cfg q i).debugMode =
      (xret q i (loadStore q (enterDebug cfg q i (takeTrap q i
        (hardwired q i (csrWrite cfg q i)))))).debugMode := rfl
  have hxret : ∀ d, (xret q i d).debugMode = d.debugMode := by
    intro d
    unfold xret
    split
    case h_3 h => exact absurd h hop
    all_goals rfl
  have hload : ∀ d, (loadStore q d).debugMode = d.debugMode := fun _ => rfl
  have henter : ∀ d, (enterDebug cfg q i d).debugMode = d.debugMode := by
    intro d
    simp [enterDebug, hd]
  have hhw : (hardwired q i (csrWrite cfg q i)).debugMode = q.debugMode :=
    csrWrite_privLvl.2
  rw [hnext, hxret, hload, henter, takeTrap_debugMode, hhw, hd]

/-- An operation that accesses no CSR raises no exception. -/
theorem csrExceptionO_of_not_access (h : isCsrAccess i.csrOp = false) :
    csrExceptionO cfg q i = ExceptionT.none := by
  have hv : privilegeViolation q i = false := by
    simp [privilegeViolation, h]
  have hsel : (csrOpLogic q i).we = false ∧ (csrOpLogic q i).re = false := by
    simp only [csrOpLogic, hv]
    cases hop : i.csrOp <;> simp_all [opSelect, isCsrAccess]
  have hw : (csrWrite cfg q i).updateAccessException = false := by
    simp [csrWrite, hsel.1]
  have hr : (csrRead q i).2 = false := by
    simp [csrRead, hsel.2]
  simp [csrExceptionO, hv, hw, hr]

end ArianeSoc.Csr

namespace ArianeSoc.Csr

open Sync

variable {cfg : Cfg} {q : State} {i : In}

/-- One of the enumerators of `priv_lvl_t`. -/
def IsPrivLvl (p : PrivLvl) : Prop :=
  p = PRIV_LVL_M ∨ p = PRIV_LVL_S ∨ p = PRIV_LVL_U

instance (p : PrivLvl) : Decidable (IsPrivLvl p) :=
  inferInstanceAs (Decidable (_ ∨ _ ∨ _))

/-- The level of the hart and the two saved levels are legal. -/
structure LegalPriv (q : State) : Prop where
  privLvl : IsPrivLvl q.privLvl
  mpp : IsPrivLvl (Mstatus.mpp.get q.mstatus)
  prv : IsPrivLvl (Dcsr.prv.get q.dcsr)

instance (q : State) : Decidable (LegalPriv q) :=
  decidable_of_iff (IsPrivLvl q.privLvl ∧
      IsPrivLvl (Mstatus.mpp.get q.mstatus) ∧
      IsPrivLvl (Dcsr.prv.get q.dcsr))
    ⟨fun ⟨h1, h2, h3⟩ => ⟨h1, h2, h3⟩, fun ⟨h1, h2, h3⟩ => ⟨h1, h2, h3⟩⟩

/-- A CSR instruction in M mode whose result for `mstatus` has the reserved
value in `mpp`, in a cycle without a trap. -/
def WritesReservedMpp (q : State) (i : In) : Prop :=
  (i.csrOp = .CSR_WRITE ∨ i.csrOp = .CSR_SET ∨ i.csrOp = .CSR_CLEAR) ∧
    i.csrAddr = CsrReg.MSTATUS.addr ∧ privLvlO q = PRIV_LVL_M ∧
    ¬ IsPrivLvl
      (Mstatus.mpp.get (opWdata i.csrOp i.csrWdata q.mstatus)) ∧
    trapTaken q i = false

instance (q : State) (i : In) : Decidable (WritesReservedMpp q i) :=
  inferInstanceAs (Decidable (_ ∧ _ ∧ _ ∧ _ ∧ _))

/-! ## `mstatus.mpp` -/

theorem mpp_legalMstatus (w : BitVec 64) :
    Mstatus.mpp.get (legalMstatus w) = Mstatus.mpp.get w := by
  unfold legalMstatus
  rw [BitField.get_set_of_disjoint _ _ _ _ (by decide),
    BitField.get_set_of_disjoint _ _ _ _ (by decide),
    BitField.get_set_of_disjoint _ _ _ _ (by decide)]

/-- The write case changes `mpp` at the address of `mstatus` only. -/
theorem mpp_writeReg {u : Upd} {w : BitVec 64} {r : CsrReg}
    (hu : u.d = defaults q i) :
    Mstatus.mpp.get (writeReg cfg q u w r).d.mstatus =
      if r = .MSTATUS then Mstatus.mpp.get w
      else Mstatus.mpp.get q.mstatus := by
  have hst : u.d.mstatus = q.mstatus := by rw [hu]; rfl
  cases r
  case MSTATUS => exact mpp_legalMstatus w
  case SSTATUS => exact BitField.get_merge_of_disjoint _ _ _ _ (by decide)
  case FFLAGS | FRM | FCSR | FTRAN | SATP =>
    rw [if_neg (by decide), ← hst]
    exact congrArg Mstatus.mpp.get (view_writeReg_guarded State.mstatus
      (fun _ _ => rfl) (fun _ _ => rfl) (by simp))
  all_goals exact congrArg Mstatus.mpp.get hst

theorem mpp_hardwired (u : Upd) :
    Mstatus.mpp.get (hardwired q i u).mstatus =
      Mstatus.mpp.get u.d.mstatus := by
  simp only [hardwired]
  rw [BitField.get_set_of_disjoint _ _ _ _ (by decide)]
  split_ifs
  · rw [BitField.get_set_of_disjoint _ _ _ _ (by decide),
      BitField.get_set_of_disjoint _ _ _ _ (by decide),
      BitField.get_set_of_disjoint _ _ _ _ (by decide)]
  · rw [BitField.get_set_of_disjoint _ _ _ _ (by decide),
      BitField.get_set_of_disjoint _ _ _ _ (by decide)]

/-- A trap to M mode saves the level of the hart in `mpp`. -/
theorem mpp_takeTrap (d : State) :
    Mstatus.mpp.get (takeTrap q i d).mstatus =
      if trapTaken q i ∧ trapToPrivLvl q i ≠ PRIV_LVL_S then q.privLvl
      else Mstatus.mpp.get d.mstatus := by
  unfold takeTrap
  split_ifs with ht hs h h h
  · exact absurd hs h.2
  · show Mstatus.mpp.get (Mstatus.spp.set _ _) = _
    rw [BitField.get_set_of_disjoint _ _ _ _ (by decide),
      BitField.get_set_of_disjoint _ _ _ _ (by decide),
      BitField.get_set_of_disjoint _ _ _ _ (by decide)]
  · exact BitField.get_set _ _ _ (by decide)
  · exact absurd ⟨ht, hs⟩ h
  · exact absurd h.1 ht
  · rfl

theorem mstatus_enterDebug (d : State) :
    (enterDebug cfg q i d).mstatus = d.mstatus := by
  unfold enterDebug debugStep debugRequest debugBreakpoint
  split_ifs <;> rfl

theorem mpp_xret (d : State) :
    Mstatus.mpp.get (xret q i d).mstatus =
      if i.csrOp = .MRET then PRIV_LVL_U else Mstatus.mpp.get d.mstatus := by
  unfold xret
  split
  case h_1 h =>
    rw [if_pos h]
    show Mstatus.mpp.get (Mstatus.mpie.set _ _) = _
    rw [BitField.get_set_of_disjoint _ _ _ _ (by decide)]
    exact BitField.get_set _ _ _ (by decide)
  case h_2 h =>
    rw [if_neg (by simp [h])]
    show Mstatus.mpp.get (Mstatus.spie.set _ _) = _
    rw [BitField.get_set_of_disjoint _ _ _ _ (by decide),
      BitField.get_set_of_disjoint _ _ _ _ (by decide),
      BitField.get_set_of_disjoint _ _ _ _ (by decide)]
  case h_3 h => rw [if_neg (by simp [h])]; rfl
  case h_4 h _ _ => rw [if_neg h]

/-- A return from M mode clears `mpp`, a trap to M mode saves the level of
the hart there, and otherwise it is what the write case left. -/
theorem mpp_step (cfg : Cfg) (q : State) (i : In) :
    Mstatus.mpp.get (step cfg q i).mstatus =
      if i.csrOp = .MRET then PRIV_LVL_U
      else if trapTaken q i ∧ trapToPrivLvl q i ≠ PRIV_LVL_S then q.privLvl
      else Mstatus.mpp.get (csrWrite cfg q i).d.mstatus := by
  have hnext : (step cfg q i).mstatus =
      (xret q i (loadStore q (enterDebug cfg q i (takeTrap q i
        (hardwired q i (csrWrite cfg q i)))))).mstatus := rfl
  have hload : ∀ d, (loadStore q d).mstatus = d.mstatus := fun _ => rfl
  rw [hnext, mpp_xret, hload, mstatus_enterDebug, mpp_takeTrap,
    mpp_hardwired]

/-! ## `dcsr.prv` -/

theorem prv_writeReg {u : Upd} {w : BitVec 64} {r : CsrReg}
    (hu : u.d = defaults q i) :
    Dcsr.prv.get (writeReg cfg q u w r).d.dcsr =
      if r = .DCSR then q.privLvl else Dcsr.prv.get q.dcsr := by
  have hdc : u.d.dcsr = q.dcsr := by rw [hu]; rfl
  cases r
  case DCSR =>
    show Dcsr.prv.get (legalDcsr q w) = _
    unfold legalDcsr
    rw [BitField.get_set_of_disjoint _ _ _ _ (by decide),
      BitField.get_set_of_disjoint _ _ _ _ (by decide),
      BitField.get_set_of_disjoint _ _ _ _ (by decide)]
    exact BitField.get_set _ _ _ (by decide)
  case FFLAGS | FRM | FCSR | FTRAN | SATP =>
    rw [if_neg (by decide), ← hdc]
    exact congrArg Dcsr.prv.get (view_writeReg_guarded State.dcsr
      (fun _ _ => rfl) (fun _ _ => rfl) (by simp))
  all_goals exact congrArg Dcsr.prv.get hdc

theorem dcsr_takeTrap (d : State) : (takeTrap q i d).dcsr = d.dcsr := by
  unfold takeTrap
  split_ifs <;> rfl

/-- Outside debug mode `prv` follows the level of the hart. -/
theorem prv_enterDebug (d : State) :
    Dcsr.prv.get (enterDebug cfg q i d).dcsr =
      if q.debugMode then Dcsr.prv.get d.dcsr else privLvlO q := by
  have hcause : ∀ c x, Dcsr.prv.get (Dcsr.cause.set c x) =
      Dcsr.prv.get x :=
    fun c x => BitField.get_set_of_disjoint _ _ _ _ (by decide)
  have hset : ∀ x, Dcsr.prv.get (Dcsr.prv.set (privLvlO q) x) =
      privLvlO q := fun x => BitField.get_set _ _ _ (by decide)
  unfold enterDebug debugStep debugRequest debugBreakpoint
  split_ifs <;> simp [hcause, hset]

theorem prv_step (cfg : Cfg) (q : State) (i : In) :
    Dcsr.prv.get (step cfg q i).dcsr =
      if q.debugMode then Dcsr.prv.get (csrWrite cfg q i).d.dcsr
      else privLvlO q := by
  have hnext : (step cfg q i).dcsr =
      (xret q i (loadStore q (enterDebug cfg q i (takeTrap q i
        (hardwired q i (csrWrite cfg q i)))))).dcsr := rfl
  have hload : ∀ d, (loadStore q d).dcsr = d.dcsr := fun _ => rfl
  have hxret : ∀ d, (xret q i d).dcsr = d.dcsr := by
    intro d
    unfold xret
    split <;> rfl
  rw [hnext, hxret, hload, prv_enterDebug, dcsr_takeTrap]
  rfl

/-! ## One cycle -/

/-- What a return restores is legal. -/
theorem returnLvl_legal (h : LegalPriv q) (op : FuOp) :
    IsPrivLvl (returnLvl q op) := by
  have hspp : ∀ b : BitVec 1, IsPrivLvl (0#1 ++ b) := by decide
  unfold returnLvl
  split
  · exact h.mpp
  · exact hspp _
  · exact h.prv

theorem trapToPrivLvl_legal (q : State) (i : In) :
    IsPrivLvl (trapToPrivLvl q i) := by
  unfold trapToPrivLvl
  split_ifs
  · exact Or.inl rfl
  · exact Or.inr (Or.inl rfl)
  · exact Or.inl rfl

theorem privLvlO_legal (h : LegalPriv q) : IsPrivLvl (privLvlO q) := by
  unfold privLvlO
  split_ifs
  · exact Or.inl rfl
  · exact h.privLvl

theorem privLvl_step_legal (h : LegalPriv q) :
    IsPrivLvl (step cfg q i).privLvl := by
  rw [privLvl_step]
  split_ifs
  · exact returnLvl_legal h _
  · exact trapToPrivLvl_legal q i
  · exact h.privLvl

theorem prv_step_legal (h : LegalPriv q) :
    IsPrivLvl (Dcsr.prv.get (step cfg q i).dcsr) := by
  rw [prv_step]
  split_ifs
  · rcases csrWrite_cases cfg q i with heq | ⟨r, w, u, -, -, -, hu, heq⟩
    · rw [heq]
      exact h.prv
    · rw [heq, prv_writeReg hu]
      split_ifs
      · exact h.privLvl
      · exact h.prv
  · exact privLvlO_legal h

/-- The address of `mstatus` asks for M mode and for nothing else. -/
theorem privilegeViolation_mstatus (hacc : isCsrAccess i.csrOp = true)
    (ha : i.csrAddr = CsrReg.MSTATUS.addr) :
    privilegeViolation q i = false ↔ privLvlO q = PRIV_LVL_M := by
  have hlvl : ∀ p : PrivLvl, p &&& PRIV_LVL_M = PRIV_LVL_M ↔
      p = PRIV_LVL_M := by decide
  have hbits : privBitsViolation q i.csrAddr = false ↔
      privLvlO q = PRIV_LVL_M := by
    rw [ha, ← hlvl]
    have hpriv : csrPrivLvl CsrReg.MSTATUS.addr = PRIV_LVL_M := by decide
    have hne : CsrReg.MSTATUS.addr ≠ CsrReg.MCAUSE.addr := by decide
    simp [privBitsViolation, hpriv, hne]
  have hdebug : debugCsrViolation q i.csrAddr = false := by
    have h : (CsrReg.MSTATUS.addr).extractLsb' 4 8 ≠ 0x7B#8 := by decide
    simp [debugCsrViolation, ha, h]
  have hrange : ¬ (CSR_CYCLE ≤ i.csrAddr ∧
      i.csrAddr ≤ CSR_HPM_COUNTER_31) := by
    rw [ha]
    decide
  rw [privilegeViolation, if_pos hacc, if_neg hrange, hdebug,
    Bool.or_false, hbits]

/-- A write to `mstatus` is performed in M mode, from the value of
`mstatus`. -/
theorem writes_mstatus_iff (ha : i.csrAddr = CsrReg.MSTATUS.addr) :
    (csrOpLogic q i).we = true ↔
      (i.csrOp = .CSR_WRITE ∨ i.csrOp = .CSR_SET ∨ i.csrOp = .CSR_CLEAR) ∧
        privLvlO q = PRIV_LVL_M := by
  have hacc : ∀ {op : FuOp}, op = .CSR_WRITE ∨ op = .CSR_SET ∨
      op = .CSR_CLEAR → isCsrAccess op = true ∧ (opSelect op).we = true := by
    rintro op (rfl | rfl | rfl) <;> exact ⟨rfl, rfl⟩
  constructor
  · intro hwe
    obtain ⟨hv, hop⟩ := csrOpLogic_we hwe
    exact ⟨hop, (privilegeViolation_mstatus (hacc hop).1 ha).mp hv⟩
  · rintro ⟨hop, hm⟩
    have hv := (privilegeViolation_mstatus (hacc hop).1 ha).mpr hm
    simp [csrOpLogic, hv, (hacc hop).2]

theorem csrWdata_mstatus (hwe : (csrOpLogic q i).we = true)
    (ha : i.csrAddr = CsrReg.MSTATUS.addr) :
    csrWdata q i = opWdata i.csrOp i.csrWdata q.mstatus := by
  obtain ⟨hv, hop⟩ := csrOpLogic_we hwe
  have hre : (csrOpLogic q i).re = true := by
    rcases hop with hop | hop | hop <;>
      simp [csrOpLogic, hv, hop, opSelect]
  have hread : csrRead q i = (q.mstatus, false) := by
    rw [csrRead, if_pos hre, ha, CsrReg.ofAddr_addr]
    rfl
  rw [csrWdata, hread]

/-- What the write case leaves in `mpp`. -/
theorem mpp_csrWrite (cfg : Cfg) (q : State) (i : In) :
    Mstatus.mpp.get (csrWrite cfg q i).d.mstatus =
      if (csrOpLogic q i).we ∧ i.csrAddr = CsrReg.MSTATUS.addr then
        Mstatus.mpp.get (opWdata i.csrOp i.csrWdata q.mstatus)
      else Mstatus.mpp.get q.mstatus := by
  split_ifs with h
  · obtain ⟨hwe, ha⟩ := h
    rw [← csrWdata_mstatus hwe ha, csrWrite, if_pos hwe, ha,
      CsrReg.ofAddr_addr]
    exact mpp_writeReg rfl
  · rcases csrWrite_cases cfg q i with heq | ⟨r, w, u, hwe, ha, -, hu, heq⟩
    · rw [heq]
      rfl
    · rw [heq, mpp_writeReg hu, if_neg]
      rintro rfl
      exact h ⟨hwe, ha.symm⟩

/-- From legal levels, a cycle leaves a legal `mpp` if and only if it does
not write the reserved value. -/
theorem mpp_step_legal_iff (cfg : Cfg) (h : LegalPriv q) :
    IsPrivLvl (Mstatus.mpp.get (step cfg q i).mstatus) ↔
      ¬ WritesReservedMpp q i := by
  rw [mpp_step]
  by_cases hmret : i.csrOp = .MRET
  · rw [if_pos hmret]
    refine iff_of_true (Or.inr (Or.inr rfl)) ?_
    rintro ⟨hop, -⟩
    simp [hmret] at hop
  rw [if_neg hmret, mpp_csrWrite]
  by_cases hw : (csrOpLogic q i).we = true ∧
      i.csrAddr = CsrReg.MSTATUS.addr
  · obtain ⟨hop, hm⟩ := (writes_mstatus_iff hw.2).mp hw.1
    rw [if_pos hw]
    -- a trap from M mode stays in M mode and overwrites the field
    have hlvl : trapToPrivLvl q i ≠ PRIV_LVL_S := by
      unfold trapToPrivLvl
      rw [if_pos hm]
      split_ifs <;> decide
    cases ht : trapTaken q i with
    | true =>
      rw [if_pos ⟨rfl, hlvl⟩]
      refine iff_of_true h.privLvl ?_
      rintro ⟨-, -, -, -, hno⟩
      exact absurd (ht.symm.trans hno) (by decide)
    | false =>
      rw [if_neg (by simp)]
      constructor
      · rintro hlegal ⟨-, -, -, hres, -⟩
        exact hres hlegal
      · intro hno
        by_contra hres
        exact hno ⟨hop, hw.2, hm, hres, ht⟩
  · rw [if_neg hw]
    refine iff_of_true ?_ ?_
    · split_ifs
      · exact h.privLvl
      · exact h.mpp
    · rintro ⟨hop, ha, hm, -⟩
      exact hw ⟨(writes_mstatus_iff ha).mpr ⟨hop, hm⟩, ha⟩

/-- One cycle keeps the three levels legal if and only if it does not
write the reserved value to `mpp`. -/
theorem legalPriv_step_iff (h : LegalPriv q) :
    LegalPriv (step cfg q i) ↔ ¬ WritesReservedMpp q i := by
  rw [← mpp_step_legal_iff cfg h]
  exact ⟨LegalPriv.mpp, fun hmpp =>
    ⟨privLvl_step_legal h, hmpp, prv_step_legal h⟩⟩

/-! ## Every run -/

theorem legalPriv_reset : LegalPriv reset := by decide

/-- The three levels are legal in every state of a run from reset if and
only if no cycle of it writes the reserved value to `mpp`. -/
theorem legalPriv_always_iff (cfg : Cfg) (is : List In) :
    Always (step cfg) LegalPriv reset is ↔
      Along (step cfg) (fun q i => ¬ WritesReservedMpp q i) reset is :=
  (along_of_forall_mem (Q := fun _ => True) (fun _ _ => trivial)).always_iff
    (fun _ _ _ hq => legalPriv_step_iff hq) legalPriv_reset

/-- After a reset: `mstatus` is written with 2'b10 in `mpp`, then MRET. -/
def returnToReserved : List In :=
  [In.idle,
    { In.idle with csrOp := .CSR_WRITE, csrAddr := 0x300#12,
                   csrWdata := 0x1000#64 },
    { In.idle with csrOp := .MRET }]

/-- The run reaches the reserved value first in `mpp`, then as the level
of the hart. -/
theorem returnToReserved_illegal :
    ¬ Always (step Cfg.ariane) LegalPriv reset returnToReserved ∧
      (run (step Cfg.ariane) reset returnToReserved).privLvl = 0b10#2 := by
  refine ⟨fun h => absurd (h 3) ?_, ?_⟩ <;> decide +kernel

end ArianeSoc.Csr
