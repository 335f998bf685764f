import Mathlib.Data.Fin.VecNotation
import Mathlib.Data.List.FinRange
import Mathlib.Order.Bounds.Basic
import ArianeSoc.Pmp.Entry

/-!
# Which entry decides

`applicable` is the set of the entries that apply to a privilege level and
contain an address.  In S and U mode every entry applies, in M mode only
the locked ones do.  `pmp_decision` says what the unit answers:

* the least applicable entry decides, by its permission bits;
* without one the access is allowed in M mode only;
* a unit without entries allows everything.

`riscvRule` is the rule of the RISC-V specification.  There an unlocked
entry that contains the address ends the search in M mode too, and a unit
without entries denies S and U mode.  The two rules agree if there is an
entry and the level is not M (`pmp_eq_riscvRule`).
-/

namespace ArianeSoc.Pmp

/-! ## The first entry with a property -/

variable {n : ℕ}

/-- The loop stops at the least entry with the property. -/
theorem find?_finRange_eq_some {p : Fin n → Bool} {k : Fin n} :
    (List.finRange n).find? p = some k ↔ IsLeast {j | p j = true} k := by
  rw [List.find?_eq_some_iff_getElem]
  constructor
  · rintro ⟨hp, i, hi, hk, hlow⟩
    refine ⟨hp, fun j hj => ?_⟩
    by_contra hlt
    have hval : i = k.val := by
      rw [← hk]
      simp
    have hji : j.val < i := by
      rw [hval]
      exact Fin.lt_def.mp (not_le.mp hlt)
    have hfalse := hlow j.val hji
    rw [List.getElem_finRange] at hfalse
    exact absurd hj (by simpa using hfalse)
  · rintro ⟨hp, hlow⟩
    refine ⟨hp, k.val, by simp, by simp, fun j hj => ?_⟩
    rw [List.getElem_finRange]
    by_contra hpj
    have hmem : p ⟨j, hj.trans k.isLt⟩ = true := by simpa using hpj
    exact absurd (Fin.le_def.mp (hlow hmem)) (Nat.not_le.mpr hj)

theorem find?_finRange_eq_none {p : Fin n → Bool} :
    (List.finRange n).find? p = none ↔ ∀ k, p k = false := by
  simp [List.find?_eq_none]

/-! ## The rule of the unit -/

variable (confAddr : Fin n → BitVec 54) (conf : Fin n → PmpCfg)

/-- The byte addresses of entry `k`. -/
def entryRegion (k : Fin n) : Set ℕ :=
  region 0 (conf k).addrMode (prevAddr confAddr k).toNat (confAddr k).toNat

/-- The entries that apply to the level and contain the address. -/
def applicable (addr : BitVec 64) (priv : PrivLvl) : Set (Fin n) :=
  {k | (priv ≠ PRIV_LVL_M ∨ (conf k).locked = true) ∧
    addr.toNat ∈ entryRegion confAddr conf k}

/-- The permission bits of an entry cover an access. -/
def Covers (c : PmpCfg) (access : PmpAccess) : Prop :=
  ∀ j, access.getLsbD j = true → c.getLsbD j = true

variable {confAddr conf} {addr : BitVec 64} {access : PmpAccess}
  {priv : PrivLvl}

theorem entryMatch_iff {k : Fin n} :
    entryMatch confAddr conf addr k = true ↔
      addr.toNat ∈ entryRegion confAddr conf k :=
  pmpEntry_iff addr _ _ _

theorem decides_iff {k : Fin n} :
    decides confAddr conf addr priv k = true ↔
      k ∈ applicable confAddr conf addr priv := by
  rw [decides, decide_eq_true_eq, entryMatch_iff]
  rfl

/-- The loop stops at the least applicable entry. -/
theorem isLeast_applicable {k : Fin n} :
    IsLeast (applicable confAddr conf addr priv) k ↔
      (List.finRange n).find? (decides confAddr conf addr priv) = some k := by
  have hset : {j | decides confAddr conf addr priv j = true} =
      applicable confAddr conf addr priv := by
    ext j
    exact decides_iff
  rw [find?_finRange_eq_some, hset]

theorem permits_iff {c : PmpCfg} : permits c access = true ↔ Covers c access := by
  rw [permits, decide_eq_true_eq, BitVec.eq_of_getLsbD_eq_iff]
  constructor
  · intro h j hj
    have hlt : j < 3 := BitVec.lt_of_getLsbD hj
    have hb := h j hlt
    rw [BitVec.getLsbD_and, hj, Bool.true_and] at hb
    simpa [PmpCfg.accessType, BitField.get, hlt] using hb
  · intro h j hlt
    rw [BitVec.getLsbD_and]
    cases hj : access.getLsbD j with
    | false => rfl
    | true =>
      have hb := h j hj
      simpa [PmpCfg.accessType, BitField.get, hlt] using hb

/-- What the unit answers, for any number of entries. -/
theorem pmp_decision (confAddr : Fin n → BitVec 54) (conf : Fin n → PmpCfg)
    (addr : BitVec 64) (access : PmpAccess) (priv : PrivLvl) :
    (n = 0 → pmp confAddr conf addr access priv = true) ∧
      (∀ k, IsLeast (applicable confAddr conf addr priv) k →
        (pmp confAddr conf addr access priv = true ↔
          Covers (conf k) access)) ∧
      (0 < n → applicable confAddr conf addr priv = ∅ →
        (pmp confAddr conf addr access priv = true ↔ priv = PRIV_LVL_M)) := by
  refine ⟨fun h0 => by rw [pmp, if_pos h0], fun k hk => ?_, fun hn hnone => ?_⟩
  · have hn : n ≠ 0 := fun h0 => absurd k.isLt (by omega)
    rw [pmp, if_neg hn, isLeast_applicable.mp hk]
    exact permits_iff
  · have hall : ∀ k, decides confAddr conf addr priv k = false := by
      intro k
      by_contra hk
      have hmem := decides_iff.mp (by simpa using hk)
      rw [hnone] at hmem
      exact hmem
    rw [pmp, if_neg (by omega), find?_finRange_eq_none.mpr hall]
    exact decide_eq_true_iff

/-- In M mode the locked entry 1 decides, behind an unlocked entry 0 that
contains the address too. -/
theorem pmp_decision_locked :
    pmp ![0x200#54, BitVec.allOnes 54] ![0x0F#8, 0x99#8] 0x100#64 ACCESS_READ
        PRIV_LVL_M = true ∧
      Covers 0x99#8 ACCESS_READ := by
  have hleast : IsLeast (applicable ![0x200#54, BitVec.allOnes 54]
      ![0x0F#8, 0x99#8] 0x100#64 PRIV_LVL_M) 1 :=
    isLeast_applicable.mpr (by decide +kernel)
  have hcov : Covers 0x99#8 ACCESS_READ := permits_iff.mp (by decide)
  exact ⟨((pmp_decision _ _ _ ACCESS_READ _).2.1 1 hleast).mpr hcov, hcov⟩

/-! ## The rule of the specification -/

/-- The least entry that contains the address decides.  Where it does not
apply to the level, the access is allowed. -/
def riscvRule (confAddr : Fin n → BitVec 54) (conf : Fin n → PmpCfg)
    (addr : BitVec 64) (access : PmpAccess) (priv : PrivLvl) : Bool :=
  match (List.finRange n).find? (entryMatch confAddr conf addr) with
  | some k =>
    if priv ≠ PRIV_LVL_M ∨ (conf k).locked then permits (conf k) access
    else true
  | none => priv = PRIV_LVL_M

/-- With an entry and below M mode the unit follows the specification. -/
theorem pmp_eq_riscvRule (hn : 0 < n) (hp : priv ≠ PRIV_LVL_M) :
    pmp confAddr conf addr access priv =
      riscvRule confAddr conf addr access priv := by
  have hsame : decides confAddr conf addr priv =
      entryMatch confAddr conf addr := by
    funext k
    simp [decides, hp]
  rw [pmp, riscvRule, if_neg (by omega), hsame]
  cases (List.finRange n).find? (entryMatch confAddr conf addr) with
  | none => rfl
  | some k => exact (if_pos (Or.inl hp)).symm

/-- In M mode entry 0 is unlocked and contains the address, entry 1 is
locked, contains it too and permits nothing.  And a unit without entries
serves U mode. -/
theorem pmp_ne_riscvRule :
    let confAddr : Fin 2 → BitVec 54 := ![0x200#54, BitVec.allOnes 54]
    let conf : Fin 2 → PmpCfg := ![0x0F#8, 0x98#8]
    pmp confAddr conf 0x100#64 ACCESS_READ PRIV_LVL_M = false ∧
      riscvRule confAddr conf 0x100#64 ACCESS_READ PRIV_LVL_M = true ∧
      pmp ![] ![] 0x100#64 ACCESS_READ PRIV_LVL_U = true ∧
      riscvRule ![] ![] 0x100#64 ACCESS_READ PRIV_LVL_U = false := by
  decide +kernel

end ArianeSoc.Pmp
