import ArianeSoc.Csr.Confinement
import ArianeSoc.Periph.Wrappers

/-!
# Which requests the access control lets through

Peripheral `j` has the four bits from bit `4 * j` of the access-control
memory, one for each privilege level.  `enable` is the signal that guards
its registers.  It differs from its bit in two ways: `we_flag_0`, which the
low byte of `uscratch` raises, opens the first two peripherals, and
peripheral 5 is open where peripheral 4 is (`enable_eq`).

A write to `uscratch` is open to user mode, so a user program moves the
flag (`weFlag0O_step`).  `guarded_iff` says exactly when the enable of a
peripheral is its bit and a user cycle leaves it alone.
-/

namespace ArianeSoc.Periph

open Csr (Cfg privLvlO weFlag0O)

/-- The bit of peripheral `j` for level `l`. -/
def acctBit (m : AcctMem) (j l : Nat) : Bool := (acctBits m).getLsbD (4 * j + l)

/-- The access enable of peripheral `j` at level `l`. -/
def enable (m : AcctMem) (weFlag : Bool) (l j : Nat) : Bool :=
  accCtrlC (accCtrlO m weFlag) l j

variable {m : AcctMem} {weFlag : Bool}

theorem accCtrlO_getLsbD {k : Nat} (hk : k < 56) :
    (accCtrlO m weFlag).getLsbD k =
      ((acctBits m).getLsbD k || (weFlag && decide (k < 8))) := by
  have hflag : ((BitVec.fill 8 weFlag).setWidth 32).getLsbD k =
      (weFlag && decide (k < 8)) := by
    rw [BitVec.getLsbD_setWidth, BitVec.getLsbD_fill]
    by_cases h8 : k < 8
    · have h32 : k < 32 := by omega
      simp [h8, h32]
    · simp [h8]
  rw [accCtrlO, acctBits, BitVec.getLsbD_setWidth]
  simp only [BitVec.getLsbD_append, BitVec.getLsbD_or, hflag]
  by_cases h0 : k < 32
  · simp [h0, hk]
  · have h8 : ¬ k < 8 := by omega
    simp [h0, hk, h8]

/-- The enable is the bit of the peripheral, or the flag for the first two
peripherals, or the bit of peripheral 4 for peripheral 5. -/
theorem enable_eq {l j : Nat} (hl : l < 4) (hj : j < 14) :
    enable m weFlag l j =
      (acctBit m j l || (weFlag && decide (j < 2)) ||
        (j == 5 && acctBit m 4 l)) := by
  have hlow : (j * 4 + l < 8) = (j < 2) := by
    rw [eq_iff_iff]
    omega
  have hfour : ¬ 4 * 4 + l < 8 := by omega
  rw [enable, accCtrlC, accCtrlO_getLsbD (by omega),
    accCtrlO_getLsbD (by omega), acctBit, acctBit, Nat.mul_comm j 4]
  rw [Nat.mul_comm j 4] at hlow
  simp [hlow, hfour]

/-! ## The flag -/

/-- `uscratch` after a cycle: only a write to it reaches it. -/
theorem uscratch_step (cfg : Cfg) (q : Csr.State) (i : Csr.In) :
    (Csr.step cfg q i).uscratch =
      if Csr.writes .USCRATCH q i then Csr.csrWdata q i else q.uscratch := by
  have hstep : (Csr.step cfg q i).uscratch =
      (Csr.csrWrite cfg q i).d.uscratch :=
    congrArg Csr.SoftRegs.uscratch (Csr.softRegs_nextValues cfg q i)
  rw [hstep]
  split
  · rename_i hw
    rw [Csr.csrWrite, if_pos hw.1, hw.2, CsrReg.ofAddr_addr]
    rfl
  · rename_i hw
    rcases Csr.csrWrite_cases cfg q i with hd | ⟨r, w, u, hwe, ha, -, hu, hd⟩
    · rw [hd]
      rfl
    · have hr : r ≠ .USCRATCH := by
        intro hr
        rw [hr] at ha
        exact hw ⟨hwe, ha.symm⟩
      rw [hd, Csr.writeReg_uscratch hr, hu]
      rfl

/-- A user cycle moves the flag. -/
def MovesFlag (q : Csr.State) (i : Csr.In) : Prop :=
  Csr.writes .USCRATCH q i ∧
    decide ((Csr.csrWdata q i).extractLsb' 0 8 = 0xEA#8) ≠ weFlag0O q

instance (q : Csr.State) (i : Csr.In) : Decidable (MovesFlag q i) :=
  inferInstanceAs (Decidable (_ ∧ _))

theorem weFlag0O_step_ne (cfg : Cfg) (q : Csr.State) (i : Csr.In) :
    weFlag0O (Csr.step cfg q i) ≠ weFlag0O q ↔ MovesFlag q i := by
  have hflag : weFlag0O (Csr.step cfg q i) =
      decide ((Csr.step cfg q i).uscratch.extractLsb' 0 8 = 0xEA#8) := rfl
  rw [hflag, uscratch_step]
  by_cases hw : Csr.writes .USCRATCH q i
  · rw [if_pos hw]
    exact ⟨fun h => ⟨hw, h⟩, fun h => h.2⟩
  · rw [if_neg hw]
    exact ⟨fun h => absurd rfl h, fun h => absurd h.1 hw⟩

/-! ## The guard -/

/-- The enable of peripheral `j` at level `l` is its bit, and a cycle in
user mode leaves it alone. -/
structure Guarded (cfg : Cfg) (m : AcctMem) (q : Csr.State) (i : Csr.In)
    (l j : Nat) : Prop where
  is_bit : enable m (weFlag0O q) l j = true ↔ acctBit m j l = true
  user_keeps : privLvlO q = PRIV_LVL_U →
    enable m (weFlag0O (Csr.step cfg q i)) l j = enable m (weFlag0O q) l j

/-- Nothing but the bit of the peripheral opens it, and no user cycle moves
the flag of a peripheral that depends on it. -/
structure NothingElseOpens (m : AcctMem) (q : Csr.State) (i : Csr.In)
    (l j : Nat) : Prop where
  not_flag : acctBit m j l = false → ¬ (j < 2 ∧ weFlag0O q = true)
  not_alias : acctBit m j l = false → ¬ (j = 5 ∧ acctBit m 4 l = true)
  not_moved : acctBit m j l = false → j < 2 → privLvlO q = PRIV_LVL_U →
    ¬ MovesFlag q i

/-- Without its bit, a peripheral is closed exactly if neither the flag nor
peripheral 4 opens it. -/
theorem enable_eq_false {l j : Nat} (hl : l < 4) (hj : j < 14)
    (h0 : acctBit m j l = false) :
    enable m weFlag l j = false ↔
      ¬ (j < 2 ∧ weFlag = true) ∧ ¬ (j = 5 ∧ acctBit m 4 l = true) := by
  rw [enable_eq hl hj, h0]
  simp only [Bool.false_or, Bool.or_eq_false_iff, Bool.and_eq_false_iff,
    beq_eq_false_iff_ne, decide_eq_false_iff_not]
  rw [not_and_or, not_and_or, Bool.not_eq_true, Bool.not_eq_true]
  tauto

/-- With its bit, a peripheral is open. -/
theorem enable_of_acctBit {l j : Nat} (hl : l < 4) (hj : j < 14)
    (h1 : acctBit m j l = true) : enable m weFlag l j = true := by
  rw [enable_eq hl hj, h1, Bool.true_or, Bool.true_or]

/-- The flag matters for the first two peripherals only. -/
theorem enable_congr {l j : Nat} (hl : l < 4) (hj : j < 14) (h2 : ¬ j < 2)
    (weFlag' : Bool) : enable m weFlag' l j = enable m weFlag l j := by
  rw [enable_eq hl hj, enable_eq hl hj]
  simp [h2]

/-- The guard of a peripheral is what the access-control memory says, for a
user program too, exactly if nothing else opens it. -/
theorem guarded_iff (cfg : Cfg) (m : AcctMem) (q : Csr.State) (i : Csr.In)
    (l : Fin 4) (j : Fin 14) :
    Guarded cfg m q i l j ↔ NothingElseOpens m q i l j := by
  constructor
  · rintro ⟨hbit, hkeep⟩
    have hclosed : acctBit m j l = false →
        enable m (weFlag0O q) l j = false := by
      intro h0
      rw [← Bool.not_eq_true, hbit, h0]
      decide
    refine ⟨fun h0 => ?_, fun h0 => ?_, fun h0 h2 hu hm => ?_⟩
    · exact ((enable_eq_false l.isLt j.isLt h0).mp (hclosed h0)).1
    · exact ((enable_eq_false l.isLt j.isLt h0).mp (hclosed h0)).2
    · have hafter := (hkeep hu).trans (hclosed h0)
      have hnow := ((enable_eq_false l.isLt j.isLt h0).mp (hclosed h0)).1
      have hnext := ((enable_eq_false l.isLt j.isLt h0).mp hafter).1
      apply (weFlag0O_step_ne cfg q i).mpr hm
      rw [Bool.eq_false_iff.mpr fun h => hnow ⟨h2, h⟩]
      exact Bool.eq_false_iff.mpr fun h => hnext ⟨h2, h⟩
  · rintro ⟨hflag, halias, hmoved⟩
    cases hb : acctBit m j l with
    | true =>
      have hopen : ∀ f, enable m f l j = true := fun f =>
        enable_of_acctBit l.isLt j.isLt hb
      refine ⟨?_, fun _ => ?_⟩
      · rw [hopen, hb]
      · rw [hopen, hopen]
    | false =>
      have hclosed : enable m (weFlag0O q) l j = false :=
        (enable_eq_false l.isLt j.isLt hb).mpr ⟨hflag hb, halias hb⟩
      refine ⟨?_, fun hu => ?_⟩
      · rw [hclosed, hb]
      · by_cases h2 : j.val < 2
        · have hsame : weFlag0O (Csr.step cfg q i) = weFlag0O q := by
            by_contra hne
            exact hmoved hb h2 hu ((weFlag0O_step_ne cfg q i).mp hne)
          rw [hsame]
        · exact enable_congr l.isLt j.isLt h2 _

/-- A user program. -/
def userState : Csr.State := { Csr.reset with privLvl := PRIV_LVL_U }

/-- `csrw uscratch, 0xEA`. -/
def writeFlag : Csr.In :=
  { Csr.In.idle with
    csrOp := .CSR_WRITE, csrAddr := CsrReg.USCRATCH.addr, csrWdata := 0xEA#64 }

/-- With every access bit clear, a user program opens the first two
peripherals for itself; with the bit of peripheral 4 alone, peripheral 5 is
open too. -/
theorem user_opens_peripheral :
    let m : AcctMem := fun _ => 0#32
    let m' : AcctMem := fun k => if k = 0 then 0x10000#32 else 0#32
    privLvlO userState = PRIV_LVL_U ∧
      enable m (weFlag0O userState) 0 1 = false ∧
      enable m (weFlag0O (Csr.step Cfg.ariane userState writeFlag)) 0 1 =
        true ∧
      acctBit m' 5 0 = false ∧
      enable m' (weFlag0O userState) 0 5 = true := by
  decide +kernel

end ArianeSoc.Periph
