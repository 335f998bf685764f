import Mathlib.Data.Fintype.Basic
import Mathlib.Tactic.FinCases
import Mathlib.Tactic.Ring
import ArianeSoc.Csr.PmpLock
import ArianeSoc.Pmp.Entry

/-!
# The PMP entries that software reads back

A read of `pmpaddr` replaces bit 0 of the register by the upper bit of the
address mode, as if the granularity were eight bytes; the match of
`pmp_entry` uses the register.  `readRegion` is the region of the values
that software reads, at that granularity.

`pmp_readback_iff` says for which entries the two are the same addresses:
an NA4 or NAPOT entry needs an odd `pmpaddr`, a TOR entry an even one above
an even one, unless it is empty.
-/

namespace ArianeSoc.Csr

open Sync Pmp

/-! ## What software reads -/

variable (q : State) (k : Fin 16)

/-- The address of entry `k` as its CSR reads. -/
def addrRead : ℕ := (readReg q In.idle (.PMPADDR k)).1.toNat

/-- The configuration of entry `k` as its CSR reads. -/
def cfgRead : PmpCfg :=
  let packed := if k.val < 8 then (readReg q In.idle .PMPCFG0).1
    else (readReg q In.idle .PMPCFG2).1
  packed.extractLsb' (8 * (k.val % 8)) 8

/-- The address of the entry below as its CSR reads. -/
def addrBelowRead : ℕ :=
  if h : k.val = 0 then 0 else addrRead q ⟨k.val - 1, by omega⟩

/-- The addresses that the values read stand for. -/
def readRegion : Set ℕ :=
  region 1 (cfgRead q k).addrMode (addrBelowRead q k) (addrRead q k)

/-- The entry reads as it matches. -/
def ReadsAsMatched : Prop :=
  let a := (q.pmpaddr k).toNat
  let p := (prevAddr q.pmpaddr k).toNat
  match (q.pmpcfg k).addrMode with
  | .OFF => True
  | .TOR => a ≤ p ∨ a % 2 = 0 ∧ p % 2 = 0
  | .NA4 | .NAPOT => a % 2 = 1

variable {q k}

/-- The bit that the read puts in place of bit 0. -/
def modeBit : PmpAddrMode → ℕ
  | .OFF | .TOR => 0
  | .NA4 | .NAPOT => 1

theorem addrRead_eq : addrRead q k =
    (q.pmpaddr k).toNat / 2 * 2 + modeBit (q.pmpcfg k).addrMode := by
  have hbit : ((q.pmpcfg k).extractLsb' 4 1).toNat =
      modeBit (q.pmpcfg k).addrMode := by
    generalize q.pmpcfg k = c
    revert c
    decide
  have ha := (q.pmpaddr k).isLt
  show (readPmpaddr q k).toNat = _
  rw [readPmpaddr, BitField.toNat_append_add, BitField.toNat_append_add,
    hbit, BitVec.extractLsb'_toNat, Nat.shiftRight_eq_div_pow]
  show (0 * 2 ^ 53 + _) * 2 ^ 1 + _ = _
  omega

/-- A byte of eight packed bytes. -/
theorem packPmpcfg_byte (c : Fin 16 → PmpCfg) (b : Fin 2) (j : Fin 8)
    {k : Fin 16} (hk : k.val = b.val * 8 + j.val) :
    (packPmpcfg c b).extractLsb' (8 * j.val) 8 = c k := by
  obtain ⟨k, hlt⟩ := k
  obtain rfl : k = b.val * 8 + j.val := hk
  apply BitVec.eq_of_getLsbD_eq
  intro i hi
  rw [BitVec.getLsbD_extractLsb', decide_eq_true hi, Bool.true_and]
  fin_cases j <;> simp only [packPmpcfg, BitVec.getLsbD_append] <;>
    repeat' first
      | rw [if_pos (by omega)]
      | rw [if_neg (by omega)]
  all_goals
    congr 1
    omega

theorem cfgRead_eq : cfgRead q k = q.pmpcfg k := by
  have hmod : k.val % 8 < 8 := Nat.mod_lt _ (by decide)
  unfold cfgRead
  by_cases hk : k.val < 8
  · rw [if_pos hk]
    refine packPmpcfg_byte q.pmpcfg LOW_ENTRIES ⟨k.val % 8, hmod⟩ ?_
    show k.val = 0 * 8 + k.val % 8
    omega
  · rw [if_neg hk]
    refine packPmpcfg_byte q.pmpcfg HIGH_ENTRIES ⟨k.val % 8, hmod⟩ ?_
    show k.val = 1 * 8 + k.val % 8
    omega

/-- A CSR instruction that reads `r`. -/
def readOf (r : CsrReg) : In :=
  { In.idle with csrOp := .CSR_READ, csrAddr := r.addr }

/-- In M mode the PMP registers, with addresses `3A0` to `3BF`, read
without an exception. -/
theorem csrRead_pmp {r : CsrReg} (hp : privLvlO q = PRIV_LVL_M)
    (hr : r.addr.extractLsb' 5 7 = 0x1D#7) :
    csrRead q (readOf r) = readReg q (readOf r) r := by
  have hpriv : privilegeViolation q (readOf r) = false := by
    have hnat := congrArg BitVec.toNat hr
    rw [BitVec.extractLsb'_toNat, Nat.shiftRight_eq_div_pow] at hnat
    have hdebug : r.addr.extractLsb' 4 8 ≠ 0x7B#8 := by
      intro h
      have hd := congrArg BitVec.toNat h
      rw [BitVec.extractLsb'_toNat, Nat.shiftRight_eq_div_pow] at hd
      simp only [BitVec.toNat_ofNat] at hnat hd
      omega
    have hcounter : ¬ CSR_CYCLE ≤ r.addr := by
      rw [BitVec.le_def]
      simp only [BitVec.toNat_ofNat] at hnat ⊢
      omega
    have hand : privLvlO q &&& csrPrivLvl r.addr = csrPrivLvl r.addr := by
      rw [hp]
      exact BitVec.allOnes_and
    simp [privilegeViolation, readOf, isCsrAccess, privBitsViolation,
      debugCsrViolation, hand, hdebug, hcounter]
  have hre : (csrOpLogic q (readOf r)).re = true := by
    rw [csrOpLogic, if_neg (by rw [hpriv]; decide)]
    rfl
  rw [csrRead, if_pos hre, show (readOf r).csrAddr = r.addr from rfl,
    CsrReg.ofAddr_addr]

/-- The values of `addrRead` and `cfgRead` are what M mode reads. -/
theorem csrRead_pmpaddr (hp : privLvlO q = PRIV_LVL_M) :
    (csrRead q (readOf (.PMPADDR k))).1.toNat = addrRead q k := by
  rw [csrRead_pmp hp (by revert k; decide)]
  rfl

/-! ## The same addresses -/

variable {a p : ℕ}

theorem grain_one (a c : ℕ) (hc : c < 2) : grain 1 (a / 2 * 2 + c) = a / 2 * 2 := by
  unfold grain
  omega

/-- Two TOR regions, one with the bounds of the other at eight bytes. -/
theorem tor_agree_iff (ha : a < 2 ^ 54) (hp : p < 2 ^ 54) :
    (∀ x < 2 ^ 64, x ∈ Set.Ico (4 * p) (4 * a) ↔
      x ∈ Set.Ico (4 * (p / 2 * 2)) (4 * (a / 2 * 2))) ↔
      a ≤ p ∨ a % 2 = 0 ∧ p % 2 = 0 := by
  simp only [Set.mem_Ico]
  constructor
  · intro h
    by_contra hne
    by_cases hodd : a % 2 = 1
    · have hx := h (4 * (a - 1)) (by omega)
      omega
    · have hx := h (4 * (p - 1)) (by omega)
      omega
  · intro h x _
    omega

theorem na4_agree_iff (ha : a < 2 ^ 54) :
    (∀ x < 2 ^ 64, x ∈ block 2 a ↔ x ∈ block 2 (a / 2 * 2 + 1)) ↔
      a % 2 = 1 := by
  constructor
  · intro h
    have hx : 4 * a / 2 ^ 2 = a → 4 * a / 2 ^ 2 = a / 2 * 2 + 1 :=
      (h (4 * a) (by omega)).mp
    omega
  · intro h x _
    have heq : a / 2 * 2 + 1 = a := by omega
    rw [heq]

theorem exists_endsInOnes (ha : a < 2 ^ 54) : ∃ k, EndsInOnes k a := by
  refine ⟨_, (?_ : EndsInOnes (lzc (~~~ ((BitVec.ofNat 54 a).setWidth 64))) a)⟩
  have h := (lzc_endsInOnes (BitVec.ofNat 54 a)).1
  rwa [BitVec.toNat_ofNat, Nat.mod_eq_of_lt ha] at h

/-- An even address stands for eight bytes, the odd one above it for at
least sixteen. -/
theorem napot_agree_iff (ha : a < 2 ^ 54) :
    (∀ x < 2 ^ 64, x ∈ region 0 .NAPOT p a ↔
      x ∈ region 1 .NAPOT p (a / 2 * 2 + 1)) ↔ a % 2 = 1 := by
  constructor
  · intro h
    by_contra hodd
    have heven : a % 2 = 0 := by omega
    have hsucc : a / 2 * 2 + 1 = a + 1 := by omega
    rw [hsucc] at h
    obtain ⟨k, hk⟩ := exists_endsInOnes (a := a + 1) (by omega)
    have h0 : EndsInOnes 0 a := heven
    rw [region_napot h0, region_napot hk] at h
    cases k with
    | zero =>
      have hzero : (a + 1) % 2 = 0 := hk
      omega
    | succ l =>
      have hdiv := Nat.div_add_mod (a + 1) (2 ^ (l + 1 + 1))
      rw [show (a + 1) % 2 ^ (l + 1 + 1) = _ from hk] at hdiv
      generalize (a + 1) / 2 ^ (l + 1 + 1) = n at h hdiv
      -- the last byte of the larger block is not in the smaller one
      have hlast := last_mem_block (l + 1 + 3) n
      have hpos := Nat.two_pow_pos l
      have hword : 2 ^ (l + 1 + 1) * n = 4 * (2 ^ l * n) := by ring
      have hbyte : (n + 1) * 2 ^ (l + 1 + 3) =
          16 * (2 ^ l * n) + 16 * 2 ^ l := by ring
      rw [hword, Nat.pow_succ] at hdiv
      rw [hbyte] at hlast
      have hsmall : (16 * (2 ^ l * n) + 16 * 2 ^ l - 1) / 2 ^ 3 = a / 2 :=
        (h _ (by omega)).mpr hlast
      omega
  · intro h x _
    have heq : a / 2 * 2 + 1 = a := by omega
    rw [heq]
    exact Iff.rfl

/-! ## Every state -/

theorem addrBelowRead_grain :
    grain 1 (addrBelowRead q k) = (prevAddr q.pmpaddr k).toNat / 2 * 2 := by
  unfold addrBelowRead prevAddr
  by_cases h : k.val = 0
  · rw [dif_pos h, dif_pos h]
    rfl
  · rw [dif_neg h, dif_neg h, addrRead_eq]
    exact grain_one _ _ (by cases (q.pmpcfg _).addrMode <;> decide)

/-- The values that software reads stand for the addresses that the entry
matches if and only if the entry reads as it matches. -/
theorem pmp_readback_iff (q : State) (k : Fin 16) :
    (∀ addr : BitVec 64, entryMatch q.pmpaddr q.pmpcfg addr k = true ↔
      addr.toNat ∈ readRegion q k) ↔ ReadsAsMatched q k := by
  have ha := (q.pmpaddr k).isLt
  have hp := (prevAddr q.pmpaddr k).isLt
  have hnat : (∀ addr : BitVec 64,
      entryMatch q.pmpaddr q.pmpcfg addr k = true ↔
        addr.toNat ∈ readRegion q k) ↔
      ∀ x < 2 ^ 64, x ∈ region 0 (q.pmpcfg k).addrMode
        (prevAddr q.pmpaddr k).toNat (q.pmpaddr k).toNat ↔
          x ∈ readRegion q k := by
    simp only [entryMatch, pmpEntry_iff]
    constructor
    · intro h x hx
      have hb := h (BitVec.ofNat 64 x)
      rwa [BitVec.toNat_ofNat, Nat.mod_eq_of_lt hx] at hb
    · intro h addr
      exact h addr.toNat addr.isLt
  rw [hnat, readRegion, cfgRead_eq]
  unfold ReadsAsMatched
  cases hm : (q.pmpcfg k).addrMode with
  | OFF => exact iff_of_true (fun x _ => Iff.rfl) trivial
  | TOR =>
    have hread : grain 1 (addrRead q k) = (q.pmpaddr k).toNat / 2 * 2 := by
      rw [addrRead_eq, hm]
      exact grain_one _ _ (by decide)
    simp only [region, grain_zero, addrBelowRead_grain, hread]
    exact tor_agree_iff ha hp
  | NA4 =>
    rw [addrRead_eq, hm]
    exact na4_agree_iff ha
  | NAPOT =>
    rw [addrRead_eq, hm]
    exact napot_agree_iff ha

/-- Software writes an odd bound and makes entry 0 a TOR region: the entry
matches address `0x400`, the values read back end below it. -/
theorem pmp_readback_differs :
    let w (a : BitVec 12) (v : BitVec 64) : In :=
      { In.idle with csrOp := .CSR_WRITE, csrAddr := a, csrWdata := v }
    let s := run (step Cfg.ariane) reset
      [w 0x3B0#12 0x101#64, w 0x3A0#12 0x0F#64]
    entryMatch s.pmpaddr s.pmpcfg 0x400#64 0 = true ∧
      (0x400#64).toNat ∉ readRegion s 0 ∧
      readRegion s 0 = Set.Ico 0 0x400 := by
  intro w s
  have hread : readRegion s 0 = Set.Ico 0 0x400 := by
    have hcfg : (cfgRead s 0).addrMode = .TOR := by decide +kernel
    have hbelow : addrBelowRead s 0 = 0 := by decide +kernel
    have haddr : addrRead s 0 = 0x100 := by decide +kernel
    rw [readRegion, hcfg, hbelow, haddr]
    rfl
  refine ⟨by decide +kernel, ?_, hread⟩
  rw [hread]
  simp

end ArianeSoc.Csr
