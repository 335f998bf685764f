import ArianeSoc.Rsa.Mod
import ArianeSoc.Sync
import Mathlib.Data.Nat.ModEq

/-!
# The modular exponentiation of the RSA accelerator

`mod_exp.v`: right-to-left binary exponentiation, one bit of the exponent a
cycle.  All registers have `2 * WIDTH` bits, and so do the two products,
which are cut off to that width before they are reduced.

`Exact` says of the inputs that no product that the result depends on is
changed by the cut and that the divider is right on each of them
(`Rsa.Mod`).  Then the result is the power (`correct_of_exact`).
-/

namespace ArianeSoc.Rsa.ModExp

open Sync
open ArianeSoc.Rsa.Mod (SignRight two_pow_double)

/-- `` `UPDATE `` and `` `HOLD ``. -/
abbrev UPDATE : BitVec 2 := 1#2
abbrev HOLD : BitVec 2 := 2#2

/-- The registers; `w` is `WIDTH`. -/
structure Regs (w : ℕ) where
  baseReg : BitVec (w * 2)
  moduloReg : BitVec (w * 2)
  exponentReg : BitVec (w * 2)
  resultReg : BitVec (w * 2)
  state : BitVec 2

structure In (w : ℕ) where
  base : BitVec (w * 2)
  modulo : BitVec (w * 2)
  exponent : BitVec (w * 2)
  rstN : Bool

variable {w : ℕ}

namespace Regs

variable (q : Regs w)

def resultNext : BitVec (w * 2) := Mod.R (q.resultReg * q.baseReg) q.moduloReg

def baseNext : BitVec (w * 2) := Mod.R (q.baseReg * q.baseReg) q.moduloReg

def finish : Bool := q.state = HOLD

def result : BitVec (w * 2) := q.resultReg

/-- One cycle.  The states without a case keep the registers. -/
def next (i : In w) : Regs w :=
  if i.rstN = false then ⟨i.base, i.modulo, i.exponent, 1#(w * 2), UPDATE⟩
  else if q.state = UPDATE then
    if q.exponentReg ≠ 0#(w * 2) then
      { q with
        resultReg := if q.exponentReg.getLsbD 0 then q.resultNext
          else q.resultReg
        baseReg := q.baseNext
        exponentReg := q.exponentReg >>> 1 }
    else { q with state := HOLD }
  else q

end Regs

/-! ## What is asked of the module -/

/-- A reset of `k + 1` cycles and `n` cycles behind it, the inputs stable. -/
def pulse (i : In w) (k n : ℕ) : List (In w) :=
  List.replicate (k + 1) { i with rstN := false } ++
    List.replicate n { i with rstN := true }

/-- The state at the end of `pulse`. -/
def after (i : In w) (q : Regs w) (k n : ℕ) : Regs w :=
  run Regs.next q (pulse i k n)

/-- From every state a reset leads to `finish`, and with it the result is
the power. -/
def Correct (i : In w) : Prop :=
  ∀ q k, (∃ n, (after i q k n).finish = true) ∧
    ∀ n, (after i q k n).finish = true →
      (after i q k n).result.toNat =
        i.base.toNat ^ i.exponent.toNat % i.modulo.toNat

/-! ## Products that are not changed by the cut -/

section Exact

/-- The power of the base that belongs to bit `k` of the exponent, as the
base register should have it. -/
def power (b m k : ℕ) : ℕ := if k = 0 then b else b ^ 2 ^ k % m

/-- The power for the first `k` bits of the exponent, as the result register
should have it. -/
def lowPower (b e m k : ℕ) : ℕ :=
  if e % 2 ^ k = 0 then 1 else b ^ (e % 2 ^ k) % m

/-- The cut of `x` to `l` bits leaves its residue alone, and the divider is
right on it. -/
def Fits (l m x : ℕ) : Prop :=
  x % 2 ^ l % m = x % m ∧ SignRight l (x % 2 ^ l) m

instance (l m x : ℕ) : Decidable (Fits l m x) :=
  inferInstanceAs (Decidable (_ ∧ _))

/-- The products that the result depends on fit, and a modulus of one is
not met by the result 1 of the exponent zero. -/
structure ExactFor (l b e m : ℕ) : Prop where
  zero : e = 0 → m ≠ 1
  product : ∀ k < l, e.testBit k = true →
    Fits l m (lowPower b e m k * power b m k)
  square : ∀ k < l, e / 2 ^ (k + 1) ≠ 0 →
    Fits l m (power b m k * power b m k)

instance (l b e m : ℕ) : Decidable (ExactFor l b e m) :=
  decidable_of_iff
    ((e = 0 → m ≠ 1) ∧
      (∀ k < l, e.testBit k = true →
        Fits l m (lowPower b e m k * power b m k)) ∧
      ∀ k < l, e / 2 ^ (k + 1) ≠ 0 →
        Fits l m (power b m k * power b m k))
    ⟨fun ⟨h1, h2, h3⟩ => ⟨h1, h2, h3⟩, fun ⟨h1, h2, h3⟩ => ⟨h1, h2, h3⟩⟩

/-- The condition on the inputs. -/
def Exact (i : In w) : Prop :=
  ExactFor (w * 2) i.base.toNat i.exponent.toNat i.modulo.toNat

instance (i : In w) : Decidable (Exact i) :=
  inferInstanceAs (Decidable (ExactFor _ _ _ _))

variable {b e m k : ℕ}

/-- The next square. -/
theorem power_succ : power b m k * power b m k % m = power b m (k + 1) := by
  have hpow : b ^ 2 ^ (k + 1) = b ^ 2 ^ k * b ^ 2 ^ k := by
    rw [← Nat.pow_add]
    congr 1
    rw [Nat.pow_succ]
    omega
  rw [power, power, if_neg (Nat.succ_ne_zero k), hpow]
  split_ifs with hk
  · subst hk
    rw [Nat.pow_zero, Nat.pow_one]
  · exact (Nat.mul_mod _ _ _).symm

/-- The bits up to bit `k`. -/
theorem mod_two_pow_succ :
    e % 2 ^ (k + 1) = e % 2 ^ k + if e.testBit k then 2 ^ k else 0 := by
  rw [Nat.mod_pow_succ, ← Nat.toNat_testBit]
  cases e.testBit k <;> simp

/-- The next product, where the bit of the exponent is set. -/
theorem lowPower_succ (h : e.testBit k = true) :
    lowPower b e m k * power b m k % m = lowPower b e m (k + 1) := by
  have hmod := mod_two_pow_succ (e := e) (k := k)
  rw [h, if_pos rfl] at hmod
  have hpos := Nat.two_pow_pos k
  have hpower : power b m k ≡ b ^ 2 ^ k [MOD m] := by
    unfold power
    split_ifs with hk
    · subst hk
      rw [Nat.pow_zero, Nat.pow_one]
    · exact Nat.mod_modEq _ _
  have hlow : lowPower b e m k ≡ b ^ (e % 2 ^ k) [MOD m] := by
    unfold lowPower
    split_ifs with hz
    · rw [hz, Nat.pow_zero]
    · exact Nat.mod_modEq _ _
  conv_rhs => unfold lowPower
  rw [if_neg (by omega), hmod, Nat.pow_add]
  exact hlow.mul hpower

/-- Where it is not set, nothing is multiplied. -/
theorem lowPower_skip (h : e.testBit k = false) :
    lowPower b e m k = lowPower b e m (k + 1) := by
  have hmod := mod_two_pow_succ (e := e) (k := k)
  rw [h, if_neg Bool.false_ne_true] at hmod
  have hsame : e % 2 ^ (k + 1) = e % 2 ^ k := hmod
  unfold lowPower
  rw [hsame]

/-- The divider reduces a product that fits. -/
theorem reduce_of_fits {x y n : BitVec (w * 2)} (hn : 0 < n.toNat)
    (h : Fits (w * 2) n.toNat (x.toNat * y.toNat)) :
    (Mod.R (x * y) n).toNat = x.toNat * y.toNat % n.toNat := by
  have hmul : (x * y).toNat = x.toNat * y.toNat % 2 ^ (w * 2) :=
    BitVec.toNat_mul x y
  have hsign : SignRight (w * 2) (x * y).toNat n.toNat := by
    rw [hmul]
    exact h.2
  rw [(Mod.mod_of_signRight hn hsign).1, hmul]
  exact h.1

end Exact

/-! ## One bit a cycle -/

/-- The registers after `k` bits of the exponent. -/
structure Running (i : In w) (k : ℕ) (q : Regs w) : Prop where
  state : q.state = UPDATE
  exponent : q.exponentReg.toNat = i.exponent.toNat / 2 ^ k
  modulo : q.moduloReg = i.modulo
  more : ∀ j < k, i.exponent.toNat / 2 ^ j ≠ 0

/-- What the registers should have then. -/
structure Values (i : In w) (k : ℕ) (q : Regs w) : Prop where
  result : q.resultReg.toNat =
    lowPower i.base.toNat i.exponent.toNat i.modulo.toNat k
  base : i.exponent.toNat / 2 ^ k ≠ 0 →
    q.baseReg.toNat = power i.base.toNat i.modulo.toNat k

variable {i : In w} {q : Regs w} {k : ℕ}

theorem Running.exponent_eq_zero (h : Running i k q) :
    q.exponentReg = 0#(w * 2) ↔ i.exponent.toNat / 2 ^ k = 0 := by
  rw [← h.exponent]
  exact ⟨fun hz => by rw [hz]; rfl, fun hz => BitVec.eq_of_toNat_eq hz⟩

/-- Nothing is left of the exponent after as many bits as it has. -/
theorem Running.le_width (h : Running i k q) : k ≤ w * 2 := by
  by_contra hlt
  refine h.more (w * 2) (by omega) ?_
  exact Nat.div_eq_of_lt i.exponent.isLt

theorem Running.next_more (h : Running i k q)
    (hne : i.exponent.toNat / 2 ^ k ≠ 0) :
    Running i (k + 1) (q.next { i with rstN := true }) := by
  have hreg := mt h.exponent_eq_zero.mp hne
  unfold Regs.next
  rw [if_neg (by simp), if_pos h.state, if_pos hreg]
  refine ⟨h.state, ?_, h.modulo, fun j hj => ?_⟩
  · show (q.exponentReg >>> 1).toNat = _
    rw [BitVec.toNat_ushiftRight, Nat.shiftRight_eq_div_pow, h.exponent,
      Nat.div_div_eq_div_mul, ← Nat.pow_add]
  · rcases Nat.lt_succ_iff_lt_or_eq.mp hj with hj | rfl
    · exact h.more j hj
    · exact hne

theorem Running.next_done (h : Running i k q)
    (hz : i.exponent.toNat / 2 ^ k = 0) :
    q.next { i with rstN := true } = { q with state := HOLD } := by
  unfold Regs.next
  rw [if_neg (by simp), if_pos h.state,
    if_neg (not_not.mpr (h.exponent_eq_zero.mpr hz))]

theorem Values.next (hv : Values i k q) (h : Running i k q)
    (hm : 0 < i.modulo.toNat) (hexact : Exact i)
    (hne : i.exponent.toNat / 2 ^ k ≠ 0) :
    Values i (k + 1) (q.next { i with rstN := true }) := by
  have hreg := mt h.exponent_eq_zero.mp hne
  have hk : k < w * 2 := by
    by_contra hlt
    refine hne (Nat.div_eq_of_lt (Nat.lt_of_lt_of_le i.exponent.isLt ?_))
    exact Nat.pow_le_pow_right (by decide) (by omega)
  have hmod : 0 < q.moduloReg.toNat := by rwa [h.modulo]
  have hbase := hv.base hne
  have hbit : q.exponentReg.getLsbD 0 = i.exponent.toNat.testBit k := by
    rw [BitVec.getLsbD, h.exponent, Nat.testBit_div_two_pow, Nat.zero_add]
  unfold Regs.next
  rw [if_neg (by simp), if_pos h.state, if_pos hreg]
  constructor
  · show (if q.exponentReg.getLsbD 0 then q.resultNext
      else q.resultReg).toNat = _
    rw [hbit]
    cases hb : i.exponent.toNat.testBit k with
    | false =>
      rw [if_neg Bool.false_ne_true, hv.result]
      exact lowPower_skip hb
    | true =>
      have hfits := hexact.product k hk hb
      rw [if_pos rfl, Regs.resultNext, reduce_of_fits hmod, h.modulo,
        hv.result, hbase]
      · exact lowPower_succ hb
      · rwa [h.modulo, hv.result, hbase]
  · intro hne'
    have hfits := hexact.square k hk hne'
    show q.baseNext.toNat = _
    rw [Regs.baseNext, reduce_of_fits hmod, h.modulo, hbase]
    · exact power_succ
    · rwa [h.modulo, hbase]

/-! ## Whole runs -/

theorem next_hold (hq : q.state = HOLD) :
    q.next { i with rstN := true } = q := by
  unfold Regs.next
  rw [if_neg (by simp), if_neg (by rw [hq]; decide)]

/-- The state after a reset, whatever was before. -/
theorem after_zero (q : Regs w) (k : ℕ) :
    after i q k 0 = ⟨i.base, i.modulo, i.exponent, 1#(w * 2), UPDATE⟩ := by
  unfold after pulse
  rw [List.replicate_zero, List.append_nil, List.replicate_succ', run_append]
  rfl

theorem after_succ (q : Regs w) (k n : ℕ) :
    after i q k (n + 1) = (after i q k n).next { i with rstN := true } := by
  unfold after pulse
  rw [List.replicate_succ' (n := n), ← List.append_assoc, run_append]
  rfl

/-- A run is still at its bits, or it has been through all of them. -/
theorem after_cases (q : Regs w) (k n : ℕ) :
    Running i n (after i q k n) ∧
        (0 < i.modulo.toNat → Exact i → Values i n (after i q k n)) ∨
      (after i q k n).state = HOLD ∧
        (0 < i.modulo.toNat → Exact i → (after i q k n).result.toNat =
          i.base.toNat ^ i.exponent.toNat % i.modulo.toNat) := by
  induction n with
  | zero =>
    refine .inl ⟨?_, fun hm _ => ?_⟩
    · rw [after_zero]
      exact ⟨rfl, by simp, rfl, fun j hj => absurd hj (Nat.not_lt_zero j)⟩
    · rw [after_zero]
      refine ⟨?_, fun _ => rfl⟩
      have hlt := i.modulo.isLt
      show (1#(w * 2)).toNat = _
      rw [lowPower, Nat.pow_zero, Nat.mod_one, if_pos rfl, BitVec.toNat_ofNat]
      exact Nat.mod_eq_of_lt (by omega)
  | succ n ih =>
    rw [after_succ]
    rcases ih with ⟨hrun, hval⟩ | ⟨hhold, hres⟩
    · by_cases hz : i.exponent.toNat / 2 ^ n = 0
      · rw [hrun.next_done hz]
        refine .inr ⟨rfl, fun hm hexact => ?_⟩
        show (after i q k n).resultReg.toNat = _
        rw [(hval hm hexact).result, lowPower]
        have hlt : i.exponent.toNat < 2 ^ n :=
          (Nat.div_eq_zero_iff_lt (Nat.two_pow_pos n)).mp hz
        rw [Nat.mod_eq_of_lt hlt]
        split_ifs with he
        · rw [he, Nat.pow_zero]
          have hne := hexact.zero he
          exact (Nat.mod_eq_of_lt (by omega)).symm
        · rfl
      · exact .inl ⟨hrun.next_more hz, fun hm hexact =>
          (hval hm hexact).next hrun hm hexact hz⟩
    · rw [next_hold hhold]
      exact .inr ⟨hhold, hres⟩

/-- The module finishes, whatever the inputs are. -/
theorem exists_finish (i : In w) (q : Regs w) (k : ℕ) :
    ∃ n, (after i q k n).finish = true := by
  refine ⟨w * 2 + 1, ?_⟩
  rcases after_cases (i := i) q k (w * 2 + 1) with ⟨hrun, -⟩ | ⟨hhold, -⟩
  · have hle := hrun.le_width
    omega
  · exact decide_eq_true hhold

/-- Where the products fit, the module finishes with the power. -/
theorem correct_of_exact (i : In w) (hm : 0 < i.modulo.toNat)
    (hexact : Exact i) : Correct i := by
  refine fun q k => ⟨exists_finish i q k, fun n hfin => ?_⟩
  rcases after_cases (i := i) q k n with ⟨hrun, -⟩ | ⟨-, hres⟩
  · have hhold : (after i q k n).state = HOLD := of_decide_eq_true hfin
    rw [hrun.state] at hhold
    exact absurd hhold (by decide)
  · exact hres hm hexact

/-- The fifth power of three modulo seven, in four bits. -/
theorem correct_of_exact_seven : Correct (w := 2) ⟨3#4, 7#4, 5#4, true⟩ :=
  correct_of_exact _ (by decide) (by decide)

/-- The square of six modulo seven, whose product has more than four bits. -/
theorem square_cut : ¬ Correct (w := 2) ⟨6#4, 7#4, 2#4, true⟩ := by
  intro h
  have hfin := (h ⟨0#4, 0#4, 0#4, 0#4, 0#2⟩ 0).2 3 (by decide +kernel)
  exact absurd hfin (by decide +kernel)

/-- A base and a modulus of at most half the bits are enough. -/
theorem exact_of_le {i : In w} (hb : i.base.toNat < 2 ^ w)
    (hm : i.modulo.toNat ≤ 2 ^ w) (hpos : 0 < i.modulo.toNat)
    (hzero : i.exponent.toNat = 0 → i.modulo.toNat ≠ 1) : Exact i := by
  have hw : 0 < w := by
    rcases Nat.eq_zero_or_pos w with rfl | hw
    · have := i.modulo.isLt
      omega
    · exact hw
  have hsplit := two_pow_double w
  have hhalf : 2 ^ w ≤ 2 ^ (w * 2 - 1) :=
    Nat.pow_le_pow_right (by decide) (by omega)
  have hpower : ∀ k, power i.base.toNat i.modulo.toNat k < 2 ^ w := by
    intro k
    unfold power
    split_ifs
    · exact hb
    · exact Nat.lt_of_lt_of_le (Nat.mod_lt _ hpos) hm
  have hlow : ∀ k, lowPower i.base.toNat i.exponent.toNat i.modulo.toNat k <
      2 ^ w := by
    intro k
    unfold lowPower
    split_ifs
    · exact Nat.one_lt_two_pow (by omega)
    · exact Nat.lt_of_lt_of_le (Nat.mod_lt _ hpos) hm
  have hfits : ∀ x y, x < 2 ^ w → y < 2 ^ w →
      Fits (w * 2) i.modulo.toNat (x * y) := by
    intro x y hx hy
    refine ⟨?_, .inl (Nat.le_trans hm hhalf)⟩
    have hlt : x * y < 2 ^ (w * 2) := by
      rw [hsplit]
      exact Nat.mul_lt_mul'' hx hy
    rw [Nat.mod_eq_of_lt hlt]
  exact ⟨hzero, fun k _ _ => hfits _ _ (hlow k) (hpower k),
    fun k _ _ => hfits _ _ (hpower k) (hpower k)⟩

end ArianeSoc.Rsa.ModExp
