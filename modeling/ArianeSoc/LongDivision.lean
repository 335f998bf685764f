import Mathlib.Algebra.Group.Nat.Defs
import Mathlib.Tactic.Common

/-!
# Division digit by digit

Binary long division takes the bits of the dividend from the top.  When the
bits taken so far are the number `t`, the quotient so far is `t / n` and the
remainder `t % n`, and `digit_mod` and `digit_div` say what the next bit
makes of them: one comparison and at most one subtraction.

`leading a w j` is the number that the first `j` of the `w` bits of `a` are.

The other way to divide shifts the divisor instead: from the remainder and
the quotient by `2 * d`, `halve_mod` and `halve_div` make those by `d` with
one comparison.  Nothing here names a divider.
-/

namespace LongDivision

variable {a n t w j b : ℕ}

/-- The remainder and one more digit, before the subtraction. -/
def partialRem (n t b : ℕ) : ℕ := 2 * (t % n) + b

theorem partialRem_lt (hn : 0 < n) (hb : b < 2) :
    partialRem n t b < 2 * n := by
  have hr := Nat.mod_lt t hn
  unfold partialRem
  omega

theorem digit_split :
    2 * t + b = partialRem n t b + n * (2 * (t / n)) := by
  have ht := Nat.div_add_mod t n
  have hmul : n * (2 * (t / n)) = 2 * (n * (t / n)) := Nat.mul_left_comm _ _ _
  unfold partialRem
  omega

theorem digit_mod (hn : 0 < n) (hb : b < 2) :
    (2 * t + b) % n =
      if partialRem n t b < n then partialRem n t b
      else partialRem n t b - n := by
  have hlt := partialRem_lt (t := t) hn hb
  rw [digit_split (n := n), Nat.add_mul_mod_self_left]
  split_ifs with h
  · exact Nat.mod_eq_of_lt h
  · rw [Nat.mod_eq_sub_mod (Nat.le_of_not_lt h)]
    exact Nat.mod_eq_of_lt (by omega)

theorem digit_div (hn : 0 < n) (hb : b < 2) :
    (2 * t + b) / n =
      2 * (t / n) + if partialRem n t b < n then 0 else 1 := by
  have hlt := partialRem_lt (t := t) hn hb
  conv_lhs => rw [digit_split (n := n)]
  rw [Nat.add_mul_div_left _ _ hn, Nat.add_comm]
  split_ifs with h
  · rw [Nat.div_eq_of_lt h]
  · have hone : partialRem n t b / n = 1 :=
      Nat.div_eq_of_lt_le (by omega) (by omega)
    rw [hone]

/-! ## The bits of the dividend -/

/-- The first `j` of the `w` bits of `a`. -/
def leading (a w j : ℕ) : ℕ := a / 2 ^ (w - j)

theorem leading_zero (ha : a < 2 ^ w) : leading a w 0 = 0 :=
  Nat.div_eq_of_lt ha

theorem leading_self : leading a w w = a := by
  rw [leading, Nat.sub_self, Nat.pow_zero, Nat.div_one]

theorem leading_succ (hj : j < w) :
    leading a w (j + 1) =
      2 * leading a w j + (a.testBit (w - (j + 1))).toNat := by
  have hpow : 2 ^ (w - j) = 2 ^ (w - (j + 1)) * 2 := by
    rw [← Nat.pow_succ]
    congr 1
    omega
  rw [leading, leading, hpow, ← Nat.div_div_eq_div_mul,
    Nat.toNat_testBit]
  omega

theorem leading_lt (ha : a < 2 ^ w) (hj : j ≤ w) :
    leading a w j < 2 ^ j := by
  rw [leading, Nat.div_lt_iff_lt_mul (Nat.two_pow_pos _), ← Nat.pow_add]
  rwa [Nat.add_sub_cancel' hj]

/-! ## The divisor shifted -/

variable {d : ℕ}

theorem halve_split (hd : 0 < d) :
    a / d = 2 * (a / (2 * d)) + a % (2 * d) / d ∧
      a % d = a % (2 * d) % d := by
  have ha := Nat.div_add_mod a (2 * d)
  have hmul : 2 * d * (a / (2 * d)) = d * (2 * (a / (2 * d))) := by
    rw [Nat.mul_comm 2 d, Nat.mul_assoc]
  rw [hmul] at ha
  constructor
  · conv_lhs => rw [← ha]
    rw [Nat.mul_add_div hd]
  · conv_lhs => rw [← ha]
    rw [Nat.mul_add_mod]

theorem halve_mod (hd : 0 < d) :
    a % d = if a % (2 * d) < d then a % (2 * d) else a % (2 * d) - d := by
  have hlt : a % (2 * d) < 2 * d := Nat.mod_lt a (by omega)
  rw [(halve_split hd).2]
  split_ifs with h
  · exact Nat.mod_eq_of_lt h
  · rw [Nat.mod_eq_sub_mod (Nat.le_of_not_lt h)]
    exact Nat.mod_eq_of_lt (by omega)

theorem halve_div (hd : 0 < d) :
    a / d = 2 * (a / (2 * d)) + if a % (2 * d) < d then 0 else 1 := by
  have hlt : a % (2 * d) < 2 * d := Nat.mod_lt a (by omega)
  rw [(halve_split hd).1]
  split_ifs with h
  · rw [Nat.div_eq_of_lt h]
  · have hone : a % (2 * d) / d = 1 :=
      Nat.div_eq_of_lt_le (by omega) (by omega)
    rw [hone]

end LongDivision
