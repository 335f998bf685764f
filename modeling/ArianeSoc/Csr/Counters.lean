import ArianeSoc.Csr.Frame

/-!
# Access to the user counters

The counters `C00` to `C1F` may be read below M mode if the level above
enables them.  `privilege_check` selects its rule by the privilege bits of
the address, which are those of U mode for all of them, and not by the level
that the hart runs at; and its rule for U mode asks for one of the two
enables only.  Of the counters only `cycle` and `instret` exist.

`MayRead` is the rule of the specification and `Agrees` says where the two
are the same (`counterRead_iff`).
-/

namespace ArianeSoc.Csr

/-- The bit of a counter in `mcounteren` and `scounteren`. -/
def counterBit (a : BitVec 12) : ℕ := (a.extractLsb' 0 5).toNat

/-- The counter may be read at the current privilege level. -/
def MayRead (q : State) (a : BitVec 12) : Prop :=
  privLvlO q = PRIV_LVL_M ∨
    privLvlO q = PRIV_LVL_S ∧ q.mcounteren.getLsbD (counterBit a) = true ∨
    privLvlO q = PRIV_LVL_U ∧ q.mcounteren.getLsbD (counterBit a) = true ∧
      q.scounteren.getLsbD (counterBit a) = true

/-- The counters that `csr_regfile` has. -/
def HasCounter (a : BitVec 12) : Prop :=
  a = CsrReg.CYCLE.addr ∨ a = CsrReg.INSTRET.addr

instance (a : BitVec 12) : Decidable (HasCounter a) :=
  inferInstanceAs (Decidable (_ ∨ _))

/-- Of a counter that exists the enables and the level must be such that one
enable is enough exactly if the level may read it; one that does not exist
must be one that the level may not read. -/
def Agrees (q : State) (a : BitVec 12) : Prop :=
  let m := q.mcounteren.getLsbD (counterBit a)
  let s := q.scounteren.getLsbD (counterBit a)
  if HasCounter a then
    (privLvlO q = PRIV_LVL_M → m = true ∨ s = true) ∧
      (privLvlO q = PRIV_LVL_S → s = true → m = true) ∧
      (privLvlO q = PRIV_LVL_U → (m = true ↔ s = true)) ∧
      (privLvlO q = 0b10#2 → m = false ∧ s = false)
  else
    privLvlO q ≠ PRIV_LVL_M ∧ (privLvlO q = PRIV_LVL_S → m = false) ∧
      (privLvlO q = PRIV_LVL_U → m = false ∨ s = false)

variable {cfg : Cfg} {q : State} {i : In} {a : BitVec 12}

/-- The addresses of the counters. -/
theorem counter_cases (hlo : CSR_CYCLE ≤ a) (hhi : a ≤ CSR_HPM_COUNTER_31) :
    ∃ n : Fin 32, a = 0xC00#12 + BitVec.ofNat 12 n := by
  rw [BitVec.le_def] at hlo hhi
  have hlo' : 0xC00 ≤ a.toNat := hlo
  have hhi' : a.toNat ≤ 0xC1F := hhi
  refine ⟨⟨a.toNat - 0xC00, by omega⟩, ?_⟩
  apply BitVec.eq_of_toNat_eq
  rw [BitVec.toNat_add, BitVec.toNat_ofNat, BitVec.toNat_ofNat]
  show a.toNat = (0xC00 % 2 ^ 12 + (a.toNat - 0xC00) % 2 ^ 12) % 2 ^ 12
  omega

/-- Their privilege bits are those of U mode. -/
theorem counter_privLvl (hlo : CSR_CYCLE ≤ a)
    (hhi : a ≤ CSR_HPM_COUNTER_31) : csrPrivLvl a = PRIV_LVL_U := by
  obtain ⟨n, rfl⟩ := counter_cases hlo hhi
  revert n
  decide

/-- Only two of them have a case. -/
theorem ofAddr_counter (hlo : CSR_CYCLE ≤ a) (hhi : a ≤ CSR_HPM_COUNTER_31) :
    HasCounter a ∨ CsrReg.ofAddr a = none := by
  obtain ⟨n, rfl⟩ := counter_cases hlo hhi
  have hall : ∀ n : Fin 32, (n = 0 ∨ n = 2) ∨
      CsrReg.ofAddr (0xC00#12 + BitVec.ofNat 12 n) = none := by
    decide +kernel
  rcases hall n with (rfl | rfl) | hn
  · exact .inl (.inl rfl)
  · exact .inl (.inr rfl)
  · exact .inr hn

theorem counter_violation (hop : i.csrOp = .CSR_READ)
    (hlo : CSR_CYCLE ≤ i.csrAddr) (hhi : i.csrAddr ≤ CSR_HPM_COUNTER_31) :
    privilegeViolation q i =
      (!q.mcounteren.getLsbD (counterBit i.csrAddr) &&
        !q.scounteren.getLsbD (counterBit i.csrAddr)) := by
  have hpriv := counter_privLvl hlo hhi
  have hacc : isCsrAccess i.csrOp = true := by rw [hop]; rfl
  unfold privilegeViolation
  rw [if_pos hacc]
  dsimp only
  rw [if_pos ⟨hlo, hhi⟩]
  unfold counterViolation
  rw [hpriv]
  rfl

/-- A read of a counter that the check lets through. -/
theorem counter_exception (hop : i.csrOp = .CSR_READ)
    (hlo : CSR_CYCLE ≤ i.csrAddr) (hhi : i.csrAddr ≤ CSR_HPM_COUNTER_31) :
    (csrExceptionO cfg q i).valid = false ↔
      HasCounter i.csrAddr ∧
        (q.mcounteren.getLsbD (counterBit i.csrAddr) = true ∨
          q.scounteren.getLsbD (counterBit i.csrAddr) = true) := by
  have hv := counter_violation (q := q) hop hlo hhi
  have hwe : (csrOpLogic q i).we = false := by
    unfold csrOpLogic
    rw [hop]
    dsimp only
    split_ifs <;> rfl
  have hw : (csrWrite cfg q i).updateAccessException = false := by
    rw [csrWrite_of_not_we cfg q i hwe]
  cases hviol : privilegeViolation q i with
  | true =>
    have hexc : (csrExceptionO cfg q i).valid = true := by
      simp [csrExceptionO, hviol]
    rw [hexc]
    rw [hv, Bool.and_eq_true, Bool.not_eq_true', Bool.not_eq_true'] at hviol
    simp [hviol.1, hviol.2]
  | false =>
    have hre : (csrOpLogic q i).re = true := by
      simp [csrOpLogic, hop, opSelect, hviol]
    have hread : (csrRead q i).2 = false ↔ HasCounter i.csrAddr := by
      unfold csrRead
      rw [if_pos hre]
      rcases ofAddr_counter hlo hhi with hex | hnone
      · refine iff_of_true ?_ hex
        rcases hex with h | h
        · rw [h, CsrReg.ofAddr_addr]
          rfl
        · rw [h, CsrReg.ofAddr_addr]
          rfl
      · rw [hnone]
        refine iff_of_false (by simp) fun hex => ?_
        rcases hex with h | h
        · rw [h, CsrReg.ofAddr_addr] at hnone
          cases hnone
        · rw [h, CsrReg.ofAddr_addr] at hnone
          cases hnone
    have hexc : (csrExceptionO cfg q i).valid = false ↔
        (csrRead q i).2 = false := by
      unfold csrExceptionO
      rw [hw, hviol]
      cases (csrRead q i).2 <;> simp [ExceptionT.none]
    rw [hexc, hread]
    rw [hv] at hviol
    refine (and_iff_left ?_).symm
    cases hm : q.mcounteren.getLsbD (counterBit i.csrAddr) <;>
      cases hs : q.scounteren.getLsbD (counterBit i.csrAddr) <;>
      simp_all

/-- A counter read is let through exactly if the level may read the counter,
where the condition holds and nowhere else. -/
theorem counterRead_iff (cfg : Cfg) (q : State) (i : In)
    (hop : i.csrOp = .CSR_READ) (hlo : CSR_CYCLE ≤ i.csrAddr)
    (hhi : i.csrAddr ≤ CSR_HPM_COUNTER_31) :
    ((csrExceptionO cfg q i).valid = false ↔ MayRead q i.csrAddr) ↔
      Agrees q i.csrAddr := by
  rw [counter_exception hop hlo hhi]
  unfold MayRead Agrees
  generalize privLvlO q = lvl
  generalize q.mcounteren.getLsbD (counterBit i.csrAddr) = m
  generalize q.scounteren.getLsbD (counterBit i.csrAddr) = s
  have hlvl : lvl = PRIV_LVL_M ∨ lvl = PRIV_LVL_S ∨ lvl = PRIV_LVL_U ∨
      lvl = 0b10#2 := by
    revert lvl
    decide
  by_cases hex : HasCounter i.csrAddr
  · simp only [hex, if_true, true_and]
    rcases hlvl with rfl | rfl | rfl | rfl <;> cases m <;> cases s <;> decide
  · simp only [hex, if_false, false_and]
    rcases hlvl with rfl | rfl | rfl | rfl <;> cases m <;> cases s <;> decide

/-- A read of `cycle`. -/
def cycleRead : In :=
  { In.idle with csrOp := .CSR_READ, csrAddr := CSR_CYCLE }

/-- U mode, with the given enables. -/
def userState (m s : BitVec 64) : State :=
  { reset with
    privLvl := PRIV_LVL_U
    mcounteren := m
    scounteren := s }

/-- A read in U mode with both enables. -/
theorem counterRead_iff_user :
    ((csrExceptionO Cfg.ariane (userState 1#64 1#64) cycleRead).valid =
        false ↔ MayRead (userState 1#64 1#64) CSR_CYCLE) ↔
      Agrees (userState 1#64 1#64) CSR_CYCLE :=
  counterRead_iff Cfg.ariane (userState 1#64 1#64) cycleRead rfl (by decide)
    (by decide)

/-- With the machine-level enable alone U mode reads `cycle`. -/
theorem counterRead_user :
    ¬ ((csrExceptionO Cfg.ariane (userState 1#64 0#64) cycleRead).valid =
        false ↔ MayRead (userState 1#64 0#64) CSR_CYCLE) := by
  intro h
  have hread := h.mp (by decide +kernel)
  rcases hread with hm | ⟨hs, -⟩ | ⟨-, -, hs⟩
  · exact absurd hm (by decide)
  · exact absurd hs (by decide)
  · exact absurd hs (by decide)

end ArianeSoc.Csr
