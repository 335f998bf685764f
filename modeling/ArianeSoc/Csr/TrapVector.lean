import ArianeSoc.Csr.Frame

/-!
# The trap vector

`trap_vector_base_o` against the registers that software has written: the
base of the `tvec` of the level that the trap goes to, plus four times the
cause for an interrupt if that `tvec` is in vectored mode.

Two things can go wrong.  The mode that counts is that of either register,
so a vectored register of the other level puts the cause into a direct
base.  And the cause replaces the bits 7 to 2 of the base instead of being
added to it: a write to `mtvec` clears them in vectored mode, a write to
`stvec` does not.

`lastTvec` is what a run has written last (`tvec_run`), `Undisturbed` the
condition on the two registers, `trapVector_iff` the result.
-/

namespace ArianeSoc.Csr

open Sync

/-! ## What is written to the registers -/

/-- `stvec` after a write. -/
def legalStvec (w : BitVec 64) : BitVec 64 :=
  w.extractLsb' 2 62 ++ 0#1 ++ w.extractLsb' 0 1

/-- The value that a write to `stvec` leaves behind. -/
def stvecLoad (q : State) (i : In) : Option (BitVec 64) :=
  if (csrOpLogic q i).we ∧ i.csrAddr = CsrReg.STVEC.addr then
    some (legalStvec (csrWdata q i))
  else none

/-- The same for `mtvec`, which the first cycle after a reset loads with the
boot address. -/
def mtvecLoad (q : State) (i : In) : Option (BitVec 64) :=
  if (csrOpLogic q i).we ∧ i.csrAddr = CsrReg.MTVEC.addr then
    some (legalMtvec (csrWdata q i))
  else if q.mtvecRstLoad then some (i.bootAddr + 0x40#64)
  else none

/-- The `tvec` of a level, as the cycles since the reset have written it. -/
def lastTvec (cfg : Cfg) (is : List In) (p : PrivLvl) : BitVec 64 :=
  if p = PRIV_LVL_S then
    (lastLoad (step cfg) stvecLoad reset is).getD 0#64
  else (lastLoad (step cfg) mtvecLoad reset is).getD 0#64

section WriteReg

variable {cfg : Cfg} {q : State} {u : Upd} {w : BitVec 64} {r : CsrReg}

theorem writeReg_mtvec (h : r ≠ .MTVEC) :
    (writeReg cfg q u w r).d.mtvec = u.d.mtvec := by
  cases r
  case MTVEC => exact absurd rfl h
  case FFLAGS | FRM | FCSR | FTRAN | SATP =>
    exact view_writeReg_guarded State.mtvec (fun _ _ => rfl)
      (fun _ _ => rfl) (by simp)
  all_goals rfl

theorem writeReg_stvec (h : r ≠ .STVEC) :
    (writeReg cfg q u w r).d.stvec = u.d.stvec := by
  cases r
  case STVEC => exact absurd rfl h
  case FFLAGS | FRM | FCSR | FTRAN | SATP =>
    exact view_writeReg_guarded State.stvec (fun _ _ => rfl)
      (fun _ _ => rfl) (by simp)
  all_goals rfl

end WriteReg

/-- A view of the write case that only the register `r` changes. -/
theorem csrWrite_view {τ : Type*} {cfg : Cfg} {q : State} {i : In}
    {r : CsrReg} (view : State → τ) (val : BitVec 64 → τ)
    (hother : ∀ u w r', r' ≠ r →
      view (writeReg cfg q u w r').d = view u.d)
    (hself : ∀ u w, view (writeReg cfg q u w r).d = val w) :
    view (csrWrite cfg q i).d =
      if (csrOpLogic q i).we ∧ i.csrAddr = r.addr then val (csrWdata q i)
      else view (defaults q i) := by
  unfold csrWrite
  by_cases hwe : (csrOpLogic q i).we = true
  · rw [if_pos hwe]
    cases hr : CsrReg.ofAddr i.csrAddr with
    | none =>
      rw [if_neg]
      rintro ⟨-, ha⟩
      rw [ha, CsrReg.ofAddr_addr] at hr
      cases hr
    | some r' =>
      have ha := CsrReg.addr_of_ofAddr hr
      by_cases heq : r' = r
      · subst heq
        rw [if_pos ⟨hwe, ha.symm⟩]
        exact hself _ _
      · rw [if_neg fun h => heq (CsrReg.addr_injective (ha.trans h.2))]
        exact hother _ _ r' heq
  · rw [if_neg hwe, if_neg fun h => hwe h.1]

theorem stvec_nextValues (cfg : Cfg) (q : State) (i : In) :
    (nextValues cfg q i).stvec = (csrWrite cfg q i).d.stvec := by
  have htrap : ∀ d, (takeTrap q i d).stvec = d.stvec := by
    intro d
    unfold takeTrap
    split_ifs <;> rfl
  have hdebug : ∀ d, (enterDebug cfg q i d).stvec = d.stvec := by
    intro d
    unfold enterDebug debugStep debugRequest debugBreakpoint
    split_ifs <;> rfl
  have hret : ∀ d, (xret q i d).stvec = d.stvec := by
    intro d
    unfold xret
    split <;> rfl
  unfold nextValues
  show (xret q i _).stvec = _
  rw [hret]
  show (enterDebug cfg q i _).stvec = _
  rw [hdebug, htrap]
  rfl

theorem stvec_step (cfg : Cfg) (q : State) (i : In) :
    (step cfg q i).stvec = (stvecLoad q i).getD q.stvec := by
  have hwrite : (csrWrite cfg q i).d.stvec =
      if (csrOpLogic q i).we ∧ i.csrAddr = CsrReg.STVEC.addr then
        legalStvec (csrWdata q i)
      else q.stvec :=
    csrWrite_view State.stvec legalStvec
      (fun _ _ _ h => writeReg_stvec h) fun _ _ => rfl
  have hstep : (step cfg q i).stvec = (nextValues cfg q i).stvec := rfl
  rw [hstep, stvec_nextValues, hwrite]
  unfold stvecLoad
  split_ifs <;> rfl

theorem mtvec_step (cfg : Cfg) (q : State) (i : In) :
    (step cfg q i).mtvec = (mtvecLoad q i).getD q.mtvec := by
  have hwrite : (csrWrite cfg q i).d.mtvec =
      if (csrOpLogic q i).we ∧ i.csrAddr = CsrReg.MTVEC.addr then
        legalMtvec (csrWdata q i)
      else (defaults q i).mtvec :=
    csrWrite_view State.mtvec legalMtvec
      (fun _ _ _ h => writeReg_mtvec h) fun _ _ => rfl
  have hsoft := congrArg SoftRegs.mtvec (softRegs_nextValues cfg q i)
  have hstep : (step cfg q i).mtvec = (csrWrite cfg q i).d.mtvec := hsoft
  rw [hstep, hwrite]
  unfold mtvecLoad defaults
  split_ifs <;> rfl

/-- The two registers hold what was written to them last. -/
theorem tvec_run (cfg : Cfg) (is : List In) (p : PrivLvl) :
    (if p = PRIV_LVL_S then (run (step cfg) reset is).stvec
      else (run (step cfg) reset is).mtvec) = lastTvec cfg is p := by
  unfold lastTvec
  split_ifs
  · exact run_register (stvec_step cfg) reset is
  · exact run_register (mtvec_step cfg) reset is

/-! ## The target -/

/-- The base that a `tvec` names, plus four times the cause for an interrupt
in vectored mode. -/
def vectorTarget (tvec cause : BitVec 64) : BitVec 64 :=
  if cause.getLsbD 63 ∧ tvec.getLsbD 0 then
    (tvec.extractLsb' 2 62 ++ 0#2) + 4#64 * (0#1 ++ cause.extractLsb' 0 63)
  else tvec.extractLsb' 2 62 ++ 0#2

/-- The condition on the two registers, for the `tvec` of the destination
and that of the other level.  A vectored base has its bits 7 to 2 clear and
the cause fits into six bits; a direct base is used with the other register
in direct mode as well, or with the cause that its bits 7 to 2 name. -/
def Undisturbed (tvec other cause : BitVec 64) : Prop :=
  cause.getLsbD 63 = true →
    if tvec.getLsbD 0 then
      tvec.extractLsb' 2 6 = 0#6 ∧ cause.extractLsb' 6 56 = 0#56
    else other.getLsbD 0 = true →
      cause.extractLsb' 0 6 = tvec.extractLsb' 2 6

theorem toNat_base (tvec : BitVec 64) :
    (tvec.extractLsb' 2 62 ++ 0#2).toNat = tvec.toNat / 4 * 4 := by
  rw [BitField.toNat_append_add, BitVec.extractLsb'_toNat,
    Nat.shiftRight_eq_div_pow]
  have hlt := tvec.isLt
  have hzero : (0#2).toNat = 0 := rfl
  omega

/-- Replacing the bits 7 to 2 of a base. -/
theorem toNat_set_base (tvec : BitVec 64) (c : BitVec 6) :
    (BitField.set ⟨2⟩ c (tvec.extractLsb' 2 62 ++ 0#2)).toNat =
      tvec.toNat / 256 * 256 + c.toNat * 4 := by
  have hset : BitField.set ⟨2⟩ c (tvec.extractLsb' 2 62 ++ 0#2) =
      tvec.extractLsb' 8 56 ++ (c ++ 0#2) := by
    apply BitVec.eq_of_getLsbD_eq
    intro k hk
    rw [BitField.getLsbD_set]
    simp only [BitVec.getLsbD_append, BitVec.getLsbD_extractLsb']
    by_cases hlow : k < 2
    · rw [if_neg (by omega), if_pos hlow, if_pos (by omega), if_pos hlow]
    · by_cases hmid : k < 8
      · rw [if_pos (by omega), if_pos hmid, if_neg hlow]
      · rw [if_neg (by omega), if_neg hlow, if_neg hmid]
        have hbits : 2 + (k - 2) = 8 + (k - 8) := by omega
        have hleft : k - 2 < 62 := by omega
        have hright : k - 8 < 56 := by omega
        simp only [hbits, hleft, hright]
  rw [hset, BitField.toNat_append_add, BitField.toNat_append_add,
    BitVec.extractLsb'_toNat, Nat.shiftRight_eq_div_pow]
  have hlt := tvec.isLt
  have hzero : (0#2).toNat = 0 := rfl
  omega

theorem eq_iff_toNat {n : ℕ} {x y : BitVec n} :
    x = y ↔ x.toNat = y.toNat :=
  ⟨congrArg _, BitVec.eq_of_toNat_eq⟩

/-- The cause is added exactly if its six bits go where the base has
zeros. -/
theorem vectored_iff (tvec cause : BitVec 64) :
    BitField.set ⟨2⟩ (cause.extractLsb' 0 6) (tvec.extractLsb' 2 62 ++ 0#2) =
        (tvec.extractLsb' 2 62 ++ 0#2) +
          4#64 * (0#1 ++ cause.extractLsb' 0 63) ↔
      tvec.extractLsb' 2 6 = 0#6 ∧ cause.extractLsb' 6 56 = 0#56 := by
  have hcode : (0#1 ++ cause.extractLsb' 0 63).toNat =
      cause.toNat % 2 ^ 63 := by
    rw [BitField.toNat_append_add, BitVec.extractLsb'_toNat,
      Nat.shiftRight_zero]
    exact Nat.zero_add _
  rw [eq_iff_toNat, toNat_set_base, BitVec.toNat_add, toNat_base,
    BitVec.toNat_mul, hcode, eq_iff_toNat, eq_iff_toNat]
  simp only [BitVec.extractLsb'_toNat, Nat.shiftRight_eq_div_pow,
    BitVec.toNat_ofNat]
  have ht := tvec.isLt
  have hc := cause.isLt
  omega

/-- A direct base is left alone exactly if its bits 7 to 2 are the cause. -/
theorem direct_iff (tvec cause : BitVec 64) :
    BitField.set ⟨2⟩ (cause.extractLsb' 0 6) (tvec.extractLsb' 2 62 ++ 0#2) =
        tvec.extractLsb' 2 62 ++ 0#2 ↔
      cause.extractLsb' 0 6 = tvec.extractLsb' 2 6 := by
  rw [eq_iff_toNat, toNat_set_base, toNat_base, eq_iff_toNat]
  simp only [BitVec.extractLsb'_toNat, Nat.shiftRight_eq_div_pow]
  have ht := tvec.isLt
  omega

/-- The target, from the `tvec` of the destination and the other one. -/
theorem target_iff (tvec other cause : BitVec 64) :
    ((if (tvec.getLsbD 0 ∨ other.getLsbD 0) ∧ cause.getLsbD 63 then
        BitField.set ⟨2⟩ (cause.extractLsb' 0 6)
          (tvec.extractLsb' 2 62 ++ 0#2)
      else tvec.extractLsb' 2 62 ++ 0#2) = vectorTarget tvec cause) ↔
      Undisturbed tvec other cause := by
  unfold vectorTarget Undisturbed
  cases hirq : cause.getLsbD 63 with
  | false => simp
  | true =>
    cases hmode : tvec.getLsbD 0 with
    | true => simpa using vectored_iff tvec cause
    | false =>
      cases hother : other.getLsbD 0 with
      | false => simp
      | true => simpa using direct_iff tvec cause

/-- In every cycle of a run in which a trap is taken the target is the one
that the `tvec` of the destination asks for, as software has written it
last, if and only if the condition holds of the two registers. -/
theorem trapVector_iff (cfg : Cfg) (is : List In) (i : In)
    (htrap : trapTaken (run (step cfg) reset is) i = true) :
    trapVectorBaseO cfg (run (step cfg) reset is) i =
        vectorTarget
          (lastTvec cfg is (trapToPrivLvl (run (step cfg) reset is) i))
          i.ex.cause ↔
      Undisturbed
        (lastTvec cfg is (trapToPrivLvl (run (step cfg) reset is) i))
        (lastTvec cfg is
          (if trapToPrivLvl (run (step cfg) reset is) i = PRIV_LVL_S then
            PRIV_LVL_M
          else PRIV_LVL_S)) i.ex.cause := by
  have hs := tvec_run cfg is PRIV_LVL_S
  have hm := tvec_run cfg is PRIV_LVL_M
  have hd := tvec_run cfg is (trapToPrivLvl (run (step cfg) reset is) i)
  rw [if_pos rfl] at hs
  rw [if_neg (by decide)] at hm
  rw [← hd]
  generalize run (step cfg) reset is = q at htrap hs hm ⊢
  have hdebug : q.debugMode = false := by
    unfold trapTaken at htrap
    exact (of_decide_eq_true htrap).1
  unfold trapVectorBaseO
  simp only [hdebug, Bool.false_eq_true, if_false]
  by_cases hlvl : trapToPrivLvl q i = PRIV_LVL_S
  · simp only [hlvl, if_true, or_comm (a := q.mtvec.getLsbD 0 = true)]
    rw [← hm]
    exact target_iff q.stvec q.mtvec i.ex.cause
  · simp only [hlvl, if_false]
    rw [← hs]
    exact target_iff q.mtvec q.stvec i.ex.cause

/-- `stvec` is written with a vectored base. -/
def vectorStvec : In :=
  { In.idle with
    csrOp := .CSR_WRITE
    csrAddr := 0x105#12
    csrWdata := 0x1001#64 }

/-- The machine timer interrupt. -/
def timerTrap : In :=
  { In.idle with ex := ⟨M_TIMER_INTERRUPT, 0#64, true⟩ }

/-- An exception is not moved by the mode of either register. -/
theorem trapVector_iff_exception :
    trapVectorBaseO Cfg.ariane
        (run (step Cfg.ariane) reset [In.idle, vectorStvec])
        { In.idle with ex := ⟨ILLEGAL_INSTR, 0#64, true⟩ } =
        vectorTarget (lastTvec Cfg.ariane [In.idle, vectorStvec]
          (trapToPrivLvl (run (step Cfg.ariane) reset
            [In.idle, vectorStvec])
            { In.idle with ex := ⟨ILLEGAL_INSTR, 0#64, true⟩ }))
          ILLEGAL_INSTR ↔
      Undisturbed
        (lastTvec Cfg.ariane [In.idle, vectorStvec]
          (trapToPrivLvl (run (step Cfg.ariane) reset
            [In.idle, vectorStvec])
            { In.idle with ex := ⟨ILLEGAL_INSTR, 0#64, true⟩ }))
        (lastTvec Cfg.ariane [In.idle, vectorStvec]
          (if trapToPrivLvl (run (step Cfg.ariane) reset
              [In.idle, vectorStvec])
              { In.idle with ex := ⟨ILLEGAL_INSTR, 0#64, true⟩ } =
            PRIV_LVL_S then PRIV_LVL_M
          else PRIV_LVL_S)) ILLEGAL_INSTR :=
  trapVector_iff Cfg.ariane [In.idle, vectorStvec]
    { In.idle with ex := ⟨ILLEGAL_INSTR, 0#64, true⟩ } (by decide +kernel)

/-- With `mtvec` direct at `0x40` and `stvec` vectored the timer interrupt
is taken to `0x1c`. -/
theorem trapVector_other_mode :
    trapTaken (run (step Cfg.ariane) reset [In.idle, vectorStvec])
        timerTrap = true ∧
      lastTvec Cfg.ariane [In.idle, vectorStvec] PRIV_LVL_M = 0x40#64 ∧
      trapToPrivLvl (run (step Cfg.ariane) reset [In.idle, vectorStvec])
        timerTrap = PRIV_LVL_M ∧
      trapVectorBaseO Cfg.ariane
        (run (step Cfg.ariane) reset [In.idle, vectorStvec]) timerTrap =
        0x1c#64 ∧
      trapVectorBaseO Cfg.ariane
        (run (step Cfg.ariane) reset [In.idle, vectorStvec]) timerTrap ≠
        vectorTarget (lastTvec Cfg.ariane [In.idle, vectorStvec] PRIV_LVL_M)
          timerTrap.ex.cause := by
  decide +kernel

end ArianeSoc.Csr
