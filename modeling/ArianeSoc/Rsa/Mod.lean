import ArianeSoc.BitField
import ArianeSoc.LongDivision

/-!
# The divider of the RSA accelerator

`mod.v`: a loop of `WIDTH` turns over the partial remainder `p` of
`WIDTH + 1` bits and over `A`, from which the bits of the dividend leave at
the top while those of the quotient come in at the bottom.

A turn takes bit `WIDTH - 1` of `p - N` for its sign, not the top bit.
`SignRight` says for which operands the bit is the sign in every turn, and
`mod_eq_iff` that the module is right exactly for these.
-/

namespace ArianeSoc.Rsa.Mod

open LongDivision

variable {w : ℕ}

/-- The variables of the loop. -/
structure Vars (w : ℕ) where
  A : BitVec w
  p : BitVec (w + 1)

/-- `{p[WIDTH-2:0], A[WIDTH-1]}`, in the width of `p`. -/
def Vars.shifted (s : Vars w) : BitVec (w + 1) :=
  (s.p.extractLsb' 0 (w - 1) ++ s.A.extractLsb' (w - 1) 1).setWidth (w + 1)

/-- `p - N`. -/
def Vars.diff (N : BitVec w) (s : Vars w) : BitVec (w + 1) :=
  s.shifted - N.setWidth (w + 1)

/-- One turn of the loop. -/
def turn (N : BitVec w) (s : Vars w) : Vars w :=
  if (s.diff N).getLsbD (w - 1) then
    ⟨s.A <<< 1, s.diff N + N.setWidth (w + 1)⟩
  else ⟨s.A <<< 1 ||| 1#w, s.diff N⟩

/-- The variables after `j` turns. -/
def loop (a n : BitVec w) : ℕ → Vars w
  | 0 => ⟨a, 0#(w + 1)⟩
  | j + 1 => turn n (loop a n j)

def R (a n : BitVec w) : BitVec w := (loop a n w).p.setWidth w

def Q (a n : BitVec w) : BitVec w := (loop a n w).A

/-! ## The operands for which the sign is right -/

/-- A divisor of at most half the range, or the next one with a dividend of
at least half the range. -/
def SignRight (w a n : ℕ) : Prop :=
  n ≤ 2 ^ (w - 1) ∨ n = 2 ^ (w - 1) + 1 ∧ 2 ^ (w - 1) ≤ a

instance (w a n : ℕ) : Decidable (SignRight w a n) :=
  inferInstanceAs (Decidable (_ ∨ _))

theorem two_pow_half {w : ℕ} (hw : 0 < w) : 2 ^ w = 2 * 2 ^ (w - 1) := by
  rw [← Nat.pow_succ']
  congr 1
  omega

theorem two_pow_double (w : ℕ) : 2 ^ (w * 2) = 2 ^ w * 2 ^ w := by
  rw [Nat.mul_two, Nat.pow_add]

/-- Bit `w - 1` of a difference that is not further from zero than half the
range is its sign. -/
theorem sign_bit {x : BitVec (w + 1)} {n : BitVec w} (hw : 0 < w)
    (hx : x.toNat < 2 ^ w) (hlo : n.toNat ≤ 2 ^ (w - 1) + x.toNat)
    (hhi : x.toNat < n.toNat + 2 ^ (w - 1)) :
    (x - n.setWidth (w + 1)).getLsbD (w - 1) = decide (x.toNat < n.toNat) := by
  have hn := n.isLt
  have hhalf := two_pow_half hw
  have htop : 2 ^ (w + 1) = 2 * 2 ^ w := Nat.pow_succ'
  have hdiff : (x - n.setWidth (w + 1)).toNat =
      if x.toNat < n.toNat then 2 ^ (w + 1) - n.toNat + x.toNat
      else x.toNat - n.toNat := by
    rw [BitVec.toNat_sub, BitVec.toNat_setWidth_of_le (by omega)]
    split_ifs with h
    · exact Nat.mod_eq_of_lt (by omega)
    · rw [Nat.mod_eq_sub_mod (by omega)]
      rw [Nat.mod_eq_of_lt (by omega)]
      omega
  rw [BitVec.getLsbD, hdiff, Nat.testBit_eq_decide_div_mod_eq]
  apply decide_eq_decide.mpr
  split_ifs with h
  · refine iff_of_true ?_ h
    have hdiv : (2 ^ (w + 1) - n.toNat + x.toNat) / 2 ^ (w - 1) = 3 :=
      Nat.div_eq_of_lt_le (by omega) (by omega)
    rw [hdiv]
  · refine iff_of_false ?_ h
    rw [Nat.div_eq_of_lt (by omega)]
    decide

/-! ## The loop -/

/-- The variables after `j` turns: the remainder of the bits taken so far,
and their quotient below the bits that are left. -/
structure Inv (a n : BitVec w) (j : ℕ) (s : Vars w) : Prop where
  p : s.p.toNat = leading a.toNat w j % n.toNat
  A : ∀ i < w, s.A.getLsbD i =
    if i < j then (leading a.toNat w j / n.toNat).testBit i
    else a.getLsbD (i - j)

variable {a n : BitVec w} {j : ℕ} {s : Vars w}

/-- The bit that a turn takes from the dividend. -/
def digit (a : BitVec w) (j : ℕ) : ℕ :=
  (a.toNat.testBit (w - (j + 1))).toNat

theorem digit_lt : digit a j < 2 := Bool.toNat_lt _

theorem Inv.init : Inv a n 0 (loop a n 0) where
  p := by
    rw [leading_zero a.isLt, Nat.zero_mod]
    rfl
  A i _ := by simp [loop]

/-- With its top two bits clear the partial remainder loses nothing. -/
theorem Inv.shifted (h : Inv a n j s) (hj : j < w)
    (hrem : leading a.toNat w j % n.toNat < 2 ^ (w - 1)) :
    s.shifted.toNat = partialRem n.toNat (leading a.toNat w j) (digit a j) := by
  have hbit : (s.A.extractLsb' (w - 1) 1).toNat = digit a j := by
    rw [BitVec.extractLsb'_toNat, Nat.shiftRight_eq_div_pow, digit,
      Nat.toNat_testBit, ← Nat.toNat_testBit, ← Nat.toNat_testBit]
    have hA := h.A (w - 1) (by omega)
    rw [if_neg (by omega)] at hA
    show (s.A.getLsbD (w - 1)).toNat = _
    rw [hA, Nat.sub_right_comm]
    rfl
  have hpow : 2 ^ (w + 1) = 4 * 2 ^ (w - 1) := by
    rw [← Nat.pow_add 2 2]
    congr 1
    omega
  have hd : digit a j < 2 := digit_lt
  have hlow : (s.p.extractLsb' 0 (w - 1)).toNat =
      leading a.toNat w j % n.toNat := by
    rw [BitVec.extractLsb'_toNat, Nat.shiftRight_zero, h.p]
    exact Nat.mod_eq_of_lt hrem
  rw [Vars.shifted, BitVec.toNat_setWidth, BitField.toNat_append_add, hlow,
    hbit, partialRem, Nat.mod_eq_of_lt (by omega)]
  omega

/-- A turn in which the sign is right. -/
theorem Inv.turn (h : Inv a n j s) (hn : 0 < n.toNat) (hj : j < w)
    (hrem : leading a.toNat w j % n.toNat < 2 ^ (w - 1))
    (hsign : n.toNat ≤ 2 ^ (w - 1) +
      partialRem n.toNat (leading a.toNat w j) (digit a j)) :
    Inv a n (j + 1) (turn n s) := by
  have hx := h.shifted hj hrem
  have hd : digit a j < 2 := digit_lt
  have hlt : partialRem n.toNat (leading a.toNat w j) (digit a j) <
      2 * n.toNat := partialRem_lt hn hd
  have hmod := digit_mod (t := leading a.toNat w j) hn hd
  have hdiv := digit_div (t := leading a.toNat w j) hn hd
  have hlead : 2 * leading a.toNat w j + digit a j =
      leading a.toNat w (j + 1) := (leading_succ hj).symm
  have hnw := n.isLt
  have hhalf : 2 ^ w = 2 * 2 ^ (w - 1) := two_pow_half (by omega)
  have hxlt : s.shifted.toNat < 2 ^ w := by
    rw [hx]
    unfold partialRem
    omega
  have hbit : (s.diff n).getLsbD (w - 1) =
      decide (s.shifted.toNat < n.toNat) :=
    sign_bit (by omega) hxlt (by omega) (by omega)
  have hN : (n.setWidth (w + 1)).toNat = n.toNat :=
    BitVec.toNat_setWidth_of_le (by omega)
  rw [hlead] at hmod hdiv
  unfold Mod.turn
  rw [hbit]
  by_cases hc : s.shifted.toNat < n.toNat
  · rw [decide_eq_true hc, if_pos rfl]
    rw [hx] at hc
    rw [if_pos hc] at hmod hdiv
    refine ⟨?_, fun i hi => ?_⟩
    · rw [hmod, Vars.diff, BitVec.sub_add_cancel, hx]
    · have hsame : leading a.toNat w (j + 1) / n.toNat =
          2 * (leading a.toNat w j / n.toNat) := hdiv
      rw [BitVec.getLsbD_shiftLeft, hsame]
      rcases i with _ | i
      · simp
      · rw [Nat.testBit_succ, Nat.mul_div_cancel_left _ (by decide)]
        simpa [hi] using h.A i (by omega)
  · rw [decide_eq_false hc, if_neg Bool.false_ne_true]
    have hsub : (s.diff n).toNat = s.shifted.toNat - n.toNat := by
      rw [Vars.diff, BitVec.toNat_sub_of_le
        (by rw [BitVec.le_def, hN]; omega), hN]
    rw [hx] at hc hsub
    rw [if_neg hc] at hmod hdiv
    refine ⟨by rw [hmod, hsub], fun i hi => ?_⟩
    rw [BitVec.getLsbD_or, BitVec.getLsbD_shiftLeft, hdiv]
    rcases i with _ | i
    · simp [hi, Nat.testBit_zero]
    · have hhalfq : (2 * (leading a.toNat w j / n.toNat) + 1) / 2 =
          leading a.toNat w j / n.toNat := by omega
      rw [Nat.testBit_succ, hhalfq]
      simpa [hi] using h.A i (by omega)

/-- For these operands the sign is right in every turn. -/
theorem sign_of_signRight (hn : 0 < n.toNat)
    (h : SignRight w a.toNat n.toNat) (hj : j < w) :
    leading a.toNat w j % n.toNat < 2 ^ (w - 1) ∧
      n.toNat ≤ 2 ^ (w - 1) +
        partialRem n.toNat (leading a.toNat w j) (digit a j) := by
  have hmod := Nat.mod_lt (leading a.toNat w j) hn
  rcases h with hle | ⟨heq, hle⟩
  · exact ⟨by omega, by omega⟩
  · have hlt : leading a.toNat w j < 2 ^ j := leading_lt a.isLt (by omega)
    have hpow : 2 ^ j ≤ 2 ^ (w - 1) :=
      Nat.pow_le_pow_right (by decide) (by omega)
    have hfix : leading a.toNat w j % n.toNat = leading a.toNat w j :=
      Nat.mod_eq_of_lt (by omega)
    refine ⟨by omega, ?_⟩
    -- the first bit is set, so that the partial remainder is not zero
    have hpos : 0 < leading a.toNat w (j + 1) := by
      apply Nat.div_pos _ (Nat.two_pow_pos _)
      exact Nat.le_trans (Nat.pow_le_pow_right (by decide) (by omega)) hle
    rw [leading_succ hj] at hpos
    have hpart : partialRem n.toNat (leading a.toNat w j) (digit a j) =
        2 * leading a.toNat w j + digit a j := by
      rw [partialRem, hfix]
    have hd : digit a j = (a.toNat.testBit (w - (j + 1))).toNat := rfl
    omega

theorem inv_loop (hn : 0 < n.toNat) (h : SignRight w a.toNat n.toNat)
    (hj : j ≤ w) : Inv a n j (loop a n j) := by
  induction j with
  | zero => exact .init
  | succ j ih =>
    obtain ⟨hrem, hsign⟩ := sign_of_signRight hn h hj
    exact (ih (by omega)).turn hn hj hrem hsign

/-- The module is right where the sign is. -/
theorem mod_of_signRight (hn : 0 < n.toNat)
    (h : SignRight w a.toNat n.toNat) :
    (R a n).toNat = a.toNat % n.toNat ∧ (Q a n).toNat = a.toNat / n.toNat := by
  have hinv := inv_loop hn h (Nat.le_refl w)
  have hp := hinv.p
  have hA := hinv.A
  rw [leading_self] at hp hA
  have hlt := Nat.mod_lt a.toNat hn
  have hnw := n.isLt
  constructor
  · rw [R, BitVec.toNat_setWidth, hp]
    exact Nat.mod_eq_of_lt (by omega)
  · apply Nat.eq_of_testBit_eq
    intro i
    by_cases hi : i < w
    · exact (hA i hi).trans (if_pos hi)
    · have hquot : a.toNat / n.toNat < 2 ^ i :=
        Nat.lt_of_le_of_lt (Nat.div_le_self _ _) (Nat.lt_of_lt_of_le a.isLt
          (Nat.pow_le_pow_right (by decide) (by omega)))
      rw [Nat.testBit_lt_two_pow hquot, ← BitVec.getLsbD]
      exact BitVec.getLsbD_of_ge _ _ (by omega)

/-! ## Where the sign is wrong -/

/-- A bit of the quotient moves up by one place a turn. -/
theorem turn_getLsbD {i : ℕ} (hi : i + 1 < w) :
    (turn n s).A.getLsbD (i + 1) = s.A.getLsbD i := by
  unfold turn
  split_ifs
  · rw [BitVec.getLsbD_shiftLeft]
    simp only [hi, decide_true, Bool.true_and]
    rfl
  · rw [BitVec.getLsbD_or, BitVec.getLsbD_shiftLeft]
    simp [hi]

theorem loop_getLsbD (hj : j < w) :
    (loop a n (j + 1)).A.getLsbD j = (loop a n 1).A.getLsbD 0 := by
  induction j with
  | zero => rfl
  | succ j ih =>
    rw [← ih (by omega)]
    exact turn_getLsbD (s := loop a n (j + 1)) hj

/-- Otherwise the first turn takes the difference for positive. -/
theorem first_turn (hn : 0 < n.toNat) (h : ¬ SignRight w a.toNat n.toNat) :
    (loop a n 1).A.getLsbD 0 = true := by
  have hnw := n.isLt
  have hw : 0 < w := by
    rcases Nat.eq_zero_or_pos w with rfl | hw
    · simp at hnw
      omega
    · exact hw
  have hhalf := two_pow_half hw
  have htop : 2 ^ (w + 1) = 2 * 2 ^ w := Nat.pow_succ'
  obtain ⟨hlt, hne⟩ := not_or.mp h
  have hx := (Inv.init (a := a) (n := n)).shifted hw (by
    rw [leading_zero a.isLt, Nat.zero_mod]
    exact Nat.two_pow_pos _)
  rw [partialRem, leading_zero a.isLt, Nat.zero_mod, Nat.mul_zero,
    Nat.zero_add] at hx
  -- the first bit of the dividend is set if it is at least half the range
  have hfirst : digit a 0 = a.toNat / 2 ^ (w - 1) := by
    have h1 := leading_succ (a := a.toNat) hw
    rw [leading_zero a.isLt, Nat.mul_zero] at h1
    exact (Nat.zero_add _).symm.trans h1.symm
  have hd : digit a 0 < 2 := digit_lt
  have hbit : ((loop a n 0).diff n).getLsbD (w - 1) = false := by
    have hdiff : ((loop a n 0).diff n).toNat =
        2 ^ (w + 1) - n.toNat + digit a 0 := by
      rw [Vars.diff, BitVec.toNat_sub, BitVec.toNat_setWidth_of_le (by omega),
        hx]
      refine Nat.mod_eq_of_lt ?_
      have : 1 ≤ 2 ^ (w - 1) := Nat.two_pow_pos _
      omega
    rw [BitVec.getLsbD, hdiff, Nat.testBit_eq_decide_div_mod_eq]
    apply decide_eq_false
    have hdiv : (2 ^ (w + 1) - n.toNat + digit a 0) / 2 ^ (w - 1) = 2 := by
      apply Nat.div_eq_of_lt_le
      · omega
      · by_cases ha : 2 ^ (w - 1) ≤ a.toNat
        · have hne' : n.toNat ≠ 2 ^ (w - 1) + 1 := fun heq => hne ⟨heq, ha⟩
          omega
        · rw [hfirst, Nat.div_eq_of_lt (by omega)]
          omega
    rw [hdiv]
    decide
  show (turn n (loop a n 0)).A.getLsbD 0 = true
  unfold turn
  rw [hbit, if_neg Bool.false_ne_true]
  simp [hw]

/-- The module returns remainder and quotient exactly where the sign is
right. -/
theorem mod_eq_iff (a n : BitVec w) (hn : 0 < n.toNat) :
    ((R a n).toNat = a.toNat % n.toNat ∧
        (Q a n).toNat = a.toNat / n.toNat) ↔
      SignRight w a.toNat n.toNat := by
  refine ⟨fun ⟨_, hq⟩ => ?_, mod_of_signRight hn⟩
  by_contra h
  have hfirst := first_turn hn h
  have hlt := (not_or.mp h).1
  have ha := a.isLt
  rcases w with _ | _ | w
  · have := n.isLt
    omega
  · have := n.isLt
    simp at hlt
    omega
  · have hlast : (Q a n).getLsbD (w + 1) = true := by
      rw [← hfirst]
      exact loop_getLsbD (Nat.lt_succ_self _)
    have hge : 2 ^ (w + 1) ≤ (Q a n).toNat :=
      Nat.ge_two_pow_of_testBit hlast
    have hquot : a.toNat / n.toNat < 2 := by
      rw [Nat.div_lt_iff_lt_mul hn]
      have hpow : 2 ^ (w + 1 + 1) = 2 * 2 ^ (w + 1) := Nat.pow_succ'
      show a.toNat < 2 * n.toNat
      have hhalf : 2 ^ (w + 1 + 1 - 1) < n.toNat := Nat.lt_of_not_le hlt
      rw [Nat.add_sub_cancel] at hhalf
      omega
    have htwo : 2 ≤ 2 ^ (w + 1) := by
      rw [Nat.pow_succ']
      have := Nat.two_pow_pos w
      omega
    omega

theorem mod_eq_iff_bytes :
    ((R 200#8 129#8).toNat = 200 % 129 ∧ (Q 200#8 129#8).toNat = 200 / 129) ↔
      SignRight 8 200 129 :=
  mod_eq_iff 200#8 129#8 (by decide)

/-- A dividend below a divisor near the top of the range. -/
theorem mod_wrong :
    ¬ ((R 5#8 200#8).toNat = 5 % 200 ∧ (Q 5#8 200#8).toNat = 5 / 200) := by
  decide +kernel

end ArianeSoc.Rsa.Mod
