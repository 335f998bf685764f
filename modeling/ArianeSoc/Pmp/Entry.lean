import ArianeSoc.CommonCells.Lzc
import ArianeSoc.RiscvPkg
import Mathlib.Data.Nat.Bitwise
import Mathlib.Order.Interval.Set.Basic

/-!
# One PMP entry and the PMP unit

`pmpEntry` is the address match of `pmp_entry.sv`, at an address width of
64 and a `pmpaddr` width of 54 bits.  SystemVerilog widens the operands of
a comparison to 64 bits before the shift, so no bit of a `pmpaddr` is
lost.  `pmp` is the unit of `pmp.sv`, for any number of entries: the loop
stops at the first entry that applies to the privilege level and matches.

`region` is the meaning of an entry, the set of byte addresses that the
RISC-V encoding of its mode gives it.  A `pmpaddr` counts words of four
bytes.  The granularity is `2 ^ g` words: `g = 0` is four bytes, and at
`g = 1`, eight bytes, bit 0 of an address takes no part in a TOR bound.

`pmpEntry_iff` says that the match of `pmp_entry.sv` is the region at
`g = 0`, and `pmpEntry_iff_encodes` gives its first address and its end.
`lzc_eq_node` reads the count of the trailing ones off the tree of `lzc.sv`.
-/

namespace ArianeSoc.Pmp

/-- The trailing zero counter `lzc` in mode 0.  Its tree picks the right
child when both are empty, so the count of a zero input is 63. -/
def lzc (x : BitVec 64) : Nat :=
  ((List.range 64).find? fun j => x.getLsbD j).getD 63

/-- The size exponent of a NAPOT region. -/
def napotSize (confAddr : BitVec 54) : Nat :=
  lzc (~~~ (confAddr.setWidth 64)) + 3

/-- The match of a region of `2 ^ size` bytes at its natural alignment. -/
def matchAligned (addr : BitVec 64) (confAddr : BitVec 54) (size : Nat) :
    Bool :=
  let mask := BitVec.allOnes 64 <<< size
  addr &&& mask = (confAddr.setWidth 64 <<< 2) &&& mask

/-- `match_o`. -/
def pmpEntry (addr : BitVec 64) (confAddr confAddrPrev : BitVec 54) :
    PmpAddrMode → Bool
  | .TOR =>
    confAddrPrev.setWidth 64 <<< 2 ≤ addr ∧ addr < confAddr.setWidth 64 <<< 2
  | .NA4 => matchAligned addr confAddr 2
  | .NAPOT => matchAligned addr confAddr (napotSize confAddr)
  | .OFF => false

/-- Only a TOR entry looks at the address of the entry below. -/
theorem pmpEntry_congr_prev {addr : BitVec 64} {a p p' : BitVec 54}
    {mode : PmpAddrMode} (h : mode = .TOR → p = p') :
    pmpEntry addr a p mode = pmpEntry addr a p' mode := by
  cases mode with
  | TOR => rw [h rfl]
  | _ => rfl

variable {n : Nat}

/-- The address of the entry below, zero for the lowest entry. -/
def prevAddr (confAddr : Fin n → BitVec 54) (k : Fin n) : BitVec 54 :=
  if h : k.val = 0 then 0#54 else confAddr ⟨k.val - 1, by omega⟩

/-- The match signal of entry `k`. -/
def entryMatch (confAddr : Fin n → BitVec 54) (conf : Fin n → PmpCfg)
    (addr : BitVec 64) (k : Fin n) : Bool :=
  pmpEntry addr (confAddr k) (prevAddr confAddr k) (conf k).addrMode

/-- The permission bits cover the access. -/
def permits (c : PmpCfg) (access : PmpAccess) : Bool :=
  access &&& PmpCfg.accessType.get c = access

/-- Entry `k` applies to the privilege level and matches. -/
def decides (confAddr : Fin n → BitVec 54) (conf : Fin n → PmpCfg)
    (addr : BitVec 64) (priv : PrivLvl) (k : Fin n) : Bool :=
  (priv ≠ PRIV_LVL_M ∨ (conf k).locked) ∧ entryMatch confAddr conf addr k

/-- `allow_o`. -/
def pmp (confAddr : Fin n → BitVec 54) (conf : Fin n → PmpCfg)
    (addr : BitVec 64) (access : PmpAccess) (priv : PrivLvl) : Bool :=
  if n = 0 then true
  else
    match (List.finRange n).find? (decides confAddr conf addr priv) with
    | some k => permits (conf k) access
    | none => priv = PRIV_LVL_M

end ArianeSoc.Pmp

namespace ArianeSoc.Pmp

/-! ## Regions -/

/-- The `2 ^ s` bytes with number `n`. -/
def block (s n : ℕ) : Set ℕ := {x | x / 2 ^ s = n}

/-- `a` ends in a zero and `k` ones below it. -/
def EndsInOnes (k a : ℕ) : Prop := a % 2 ^ (k + 1) = 2 ^ k - 1

/-- A bound in words, without the bits below the granularity. -/
def grain (g a : ℕ) : ℕ := a / 2 ^ g * 2 ^ g

/-- The byte addresses of an entry with the address `a`, above an entry
with the address `p`. -/
def region (g : ℕ) : PmpAddrMode → (p a : ℕ) → Set ℕ
  | .OFF, _, _ => ∅
  | .TOR, p, a => Set.Ico (4 * grain g p) (4 * grain g a)
  | .NA4, _, a => block 2 a
  | .NAPOT, _, a => {x | ∃ k, EndsInOnes k a ∧ x ∈ block (k + 3) (a / 2 ^ (k + 1))}

theorem last_mem_block (s n : ℕ) : (n + 1) * 2 ^ s - 1 ∈ block s n := by
  have hpos := Nat.two_pow_pos s
  show ((n + 1) * 2 ^ s - 1) / 2 ^ s = n
  rw [Nat.add_mul, Nat.one_mul, Nat.add_sub_assoc hpos, Nat.mul_comm,
    Nat.mul_add_div hpos, Nat.div_eq_of_lt (by omega), Nat.add_zero]

/-! ## Trailing ones -/

theorem grain_zero (a : ℕ) : grain 0 a = a := by
  simp [grain]

theorem EndsInOnes.of_testBit {k a : ℕ} (hlow : ∀ j < k, a.testBit j = true)
    (hk : a.testBit k = false) : EndsInOnes k a := by
  apply Nat.eq_of_testBit_eq
  intro j
  rw [Nat.testBit_mod_two_pow, Nat.testBit_two_pow_sub_one]
  rcases Nat.lt_trichotomy j k with hj | rfl | hj
  · simp [hlow j hj, hj, Nat.lt_succ_of_lt hj]
  · simp [hk]
  · simp [Nat.not_lt.mpr (Nat.le_of_lt hj), Nat.not_lt.mpr hj]

theorem EndsInOnes.testBit {k a j : ℕ} (h : EndsInOnes k a) (hj : j ≤ k) :
    a.testBit j = decide (j < k) := by
  have hbit : (a % 2 ^ (k + 1)).testBit j = (2 ^ k - 1).testBit j := by
    rw [h]
  rw [Nat.testBit_mod_two_pow, Nat.testBit_two_pow_sub_one] at hbit
  simpa [Nat.lt_succ_of_le hj] using hbit

/-- The number of trailing ones is determined. -/
theorem EndsInOnes.unique {k l a : ℕ} (hk : EndsInOnes k a)
    (hl : EndsInOnes l a) : k = l := by
  rcases Nat.lt_trichotomy k l with hlt | heq | hlt
  · have h₁ := hk.testBit (Nat.le_refl k)
    have h₂ := hl.testBit (Nat.le_of_lt hlt)
    simp [h₁, hlt] at h₂
  · exact heq
  · have h₁ := hl.testBit (Nat.le_refl l)
    have h₂ := hk.testBit (Nat.le_of_lt hlt)
    simp [h₁, hlt] at h₂

/-- A NAPOT region is one block, of the size that the trailing ones give. -/
theorem region_napot {g p a k : ℕ} (hk : EndsInOnes k a) :
    region g .NAPOT p a = block (k + 3) (a / 2 ^ (k + 1)) := by
  ext x
  constructor
  · rintro ⟨l, hl, hx⟩
    rw [hk.unique hl]
    exact hx
  · intro hx
    exact ⟨k, hk, hx⟩

/-! ## The match of an entry -/

/-- The zero that ends the trailing ones of a `pmpaddr`. -/
theorem lzc_endsInOnes (a : BitVec 54) :
    EndsInOnes (lzc (~~~ (a.setWidth 64))) a.toNat ∧
      lzc (~~~ (a.setWidth 64)) ≤ 54 := by
  have hbit : ∀ j < 64, (~~~ (a.setWidth 64)).getLsbD j = !a.toNat.testBit j := by
    intro j hj
    rw [BitVec.getLsbD_not, BitVec.getLsbD_setWidth, BitVec.testBit_toNat]
    simp [hj]
  unfold lzc
  cases hf : (List.range 64).find?
    fun j => (~~~ (a.setWidth 64)).getLsbD j with
  | none =>
    have hnone := List.find?_eq_none.mp hf 54 (by decide)
    rw [hbit 54 (by decide), BitVec.testBit_toNat] at hnone
    simp at hnone
  | some k =>
    rw [List.find?_range_eq_some] at hf
    obtain ⟨hk, hmem, hlow⟩ := hf
    rw [List.mem_range] at hmem
    rw [hbit k hmem] at hk
    rw [Option.getD_some]
    refine ⟨EndsInOnes.of_testBit ?_ (by simpa using hk), ?_⟩
    · intro j hj
      have h := hlow j hj
      rw [hbit j (hj.trans hmem)] at h
      simpa using h
    · by_contra hgt
      have h := hlow 54 (by omega)
      rw [hbit 54 (by decide), BitVec.testBit_toNat] at h
      simp at h

/-- The count is the index at the root of the tree of the counter. -/
theorem lzc_eq_node (x : BitVec 64) :
    lzc x = (CommonCells.Lzc.node (fun j => x.getLsbD j) 6 0).index := by
  unfold lzc
  cases hsel : (CommonCells.Lzc.node (fun j => x.getLsbD j) 6 0).sel with
  | true =>
    have hfirst := CommonCells.Lzc.node_first hsel
    have hfind : (List.range 64).find? (fun j => x.getLsbD j) =
        some (CommonCells.Lzc.node (fun j => x.getLsbD j) 6 0).index := by
      rw [List.find?_range_eq_some]
      refine ⟨hfirst.set, List.mem_range.mpr hfirst.lt, fun j hj => ?_⟩
      rw [hfirst.clear j (Nat.zero_le j) hj]
      rfl
    rw [hfind, Option.getD_some]
  | false =>
    have hclear := CommonCells.Lzc.node_clear hsel
    have hfind : (List.range 64).find? (fun j => x.getLsbD j) = none := by
      rw [List.find?_eq_none]
      intro j hj
      rw [hclear j (Nat.zero_le j) (List.mem_range.mp hj)]
      exact Bool.false_ne_true
    rw [hfind, CommonCells.Lzc.node_index_of_clear hsel]
    rfl

theorem shiftLeft_two_toNat (a : BitVec 54) :
    (a.setWidth 64 <<< 2).toNat = 4 * a.toNat := by
  have ha := a.isLt
  rw [BitVec.toNat_shiftLeft, BitVec.toNat_setWidth, Nat.shiftLeft_eq]
  omega

/-- Two words agree under the mask of the bits from `s` up if they agree
above these bits. -/
theorem and_mask_eq_iff {x y : BitVec 64} {s : ℕ} :
    x &&& BitVec.allOnes 64 <<< s = y &&& BitVec.allOnes 64 <<< s ↔
      x >>> s = y >>> s := by
  have hmask : ∀ z : BitVec 64, ∀ j < 64,
      (z &&& BitVec.allOnes 64 <<< s).getLsbD j =
        (z.getLsbD j && decide (s ≤ j)) := by
    intro z j hj
    rw [BitVec.getLsbD_and, BitVec.getLsbD_shiftLeft, BitVec.getLsbD_allOnes]
    by_cases hs : s ≤ j
    · have hsub : j - s < 64 := by omega
      simp [hj, hsub, hs]
    · simp [hs, Nat.not_le.mp hs]
  constructor
  · intro h
    apply BitVec.eq_of_getLsbD_eq
    intro j _
    rw [BitVec.getLsbD_ushiftRight, BitVec.getLsbD_ushiftRight]
    by_cases hj : s + j < 64
    · have hb := congrArg (fun z => z.getLsbD (s + j)) h
      simp only [hmask _ _ hj] at hb
      simpa using hb
    · rw [BitVec.getLsbD_of_ge _ _ (by omega),
        BitVec.getLsbD_of_ge _ _ (by omega)]
  · intro h
    apply BitVec.eq_of_getLsbD_eq
    intro j hj
    rw [hmask _ _ hj, hmask _ _ hj]
    by_cases hs : s ≤ j
    · have hb := congrArg (fun z => z.getLsbD (j - s)) h
      simp only [BitVec.getLsbD_ushiftRight, Nat.add_sub_cancel' hs] at hb
      rw [hb]
    · simp [hs]

/-- The aligned match is the match of a block. -/
theorem matchAligned_iff {addr : BitVec 64} {a : BitVec 54} {s : ℕ} :
    matchAligned addr a s = true ↔
      addr.toNat ∈ block s (4 * a.toNat / 2 ^ s) := by
  have hdiv : ∀ x : BitVec 64, (x >>> s).toNat = x.toNat / 2 ^ s := by
    intro x
    rw [BitVec.toNat_ushiftRight, Nat.shiftRight_eq_div_pow]
  simp only [matchAligned, decide_eq_true_eq, and_mask_eq_iff]
  show _ ↔ addr.toNat / 2 ^ s = 4 * a.toNat / 2 ^ s
  rw [← shiftLeft_two_toNat, ← hdiv, ← hdiv, BitVec.toNat_inj]

/-- The match of an entry is its region at four bytes. -/
theorem pmpEntry_iff (addr : BitVec 64) (a p : BitVec 54)
    (mode : PmpAddrMode) :
    pmpEntry addr a p mode = true ↔
      addr.toNat ∈ region 0 mode p.toNat a.toNat := by
  cases mode with
  | OFF => simp [pmpEntry, region]
  | TOR =>
    simp only [pmpEntry, region, grain_zero, decide_eq_true_eq,
      BitVec.le_def, BitVec.lt_def, shiftLeft_two_toNat, Set.mem_Ico]
  | NA4 =>
    have hdiv : 4 * a.toNat / 2 ^ 2 = a.toNat := by omega
    rw [pmpEntry, matchAligned_iff, hdiv]
    rfl
  | NAPOT =>
    obtain ⟨hones, -⟩ := lzc_endsInOnes a
    have hdiv : 4 * a.toNat / 2 ^ napotSize a =
        a.toNat / 2 ^ (lzc (~~~ (a.setWidth 64)) + 1) := by
      rw [napotSize, show lzc (~~~ (a.setWidth 64)) + 3 =
        2 + (lzc (~~~ (a.setWidth 64)) + 1) by omega, Nat.pow_add,
        ← Nat.div_div_eq_div_mul]
      congr 1
      omega
    rw [pmpEntry, matchAligned_iff, hdiv, region_napot hones]
    rfl

/-- The bytes of a block. -/
theorem mem_block_iff {s n x : ℕ} :
    x ∈ block s n ↔ n * 2 ^ s ≤ x ∧ x < n * 2 ^ s + 2 ^ s := by
  show x / 2 ^ s = n ↔ _
  rw [Nat.div_eq_iff (Nat.two_pow_pos s)]
  have hpos := Nat.two_pow_pos s
  omega

/-- The first address and the end that the encoding gives an entry with the
address `a`, above an entry with the address `p`.  The `k` trailing ones of a
NAPOT address stand for `2 ^ (k + 3)` bytes. -/
inductive Encodes (p a : ℕ) : PmpAddrMode → ℕ → ℕ → Prop
  | tor : Encodes p a .TOR (4 * p) (4 * a)
  | na4 : Encodes p a .NA4 (4 * a) (4 * a + 4)
  | napot {k : ℕ} (hones : EndsInOnes k a) :
    Encodes p a .NAPOT (a / 2 ^ (k + 1) * 2 ^ (k + 3))
      (a / 2 ^ (k + 1) * 2 ^ (k + 3) + 2 ^ (k + 3))

/-- An entry matches from the first address on to the end, and never if it
is off. -/
theorem pmpEntry_iff_encodes (addr : BitVec 64) (a p : BitVec 54)
    (mode : PmpAddrMode) :
    pmpEntry addr a p mode = true ↔
      ∃ first last, Encodes p.toNat a.toNat mode first last ∧
        first ≤ addr.toNat ∧ addr.toNat < last := by
  rw [pmpEntry_iff]
  cases mode with
  | OFF =>
    refine iff_of_false (Set.notMem_empty _) ?_
    rintro ⟨first, last, hcode, -⟩
    cases hcode
  | TOR =>
    rw [region, grain_zero, grain_zero, Set.mem_Ico]
    refine ⟨fun h => ⟨_, _, .tor, h⟩, ?_⟩
    rintro ⟨first, last, hcode, h⟩
    cases hcode
    exact h
  | NA4 =>
    rw [region, mem_block_iff, Nat.mul_comm a.toNat]
    refine ⟨fun h => ⟨_, _, .na4, h⟩, ?_⟩
    rintro ⟨first, last, hcode, h⟩
    cases hcode
    exact h
  | NAPOT =>
    constructor
    · rintro ⟨k, hones, hmem⟩
      exact ⟨_, _, .napot hones, mem_block_iff.mp hmem⟩
    · rintro ⟨first, last, hcode, h⟩
      cases hcode with
      | napot hones => exact ⟨_, hones, mem_block_iff.mpr h⟩

end ArianeSoc.Pmp
