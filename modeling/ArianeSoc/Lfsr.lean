import Mathlib.Data.Nat.Notation
import Mathlib.Logic.Function.Basic
import Mathlib.Tactic.Common

/-!
# Shift registers with linear feedback

A register of `n + 1` bits that shifts to the right and takes the parity of
its tapped bits as its new highest bit.  `shift` is linear over the field of
two elements, so that what it loses is what it maps to zero.

* `shift_eq_zero_iff`: apart from zero, only the word `1` can be mapped to
  zero, and it is exactly if its bit is not tapped.
* `shift_injective_iff`: exactly then two words are confused.

Nothing here names a design.
-/

namespace Lfsr

variable {w n : ℕ}

/-- The parity of `f 0` to `f (m - 1)`. -/
def parity (f : ℕ → Bool) : ℕ → Bool
  | 0 => false
  | m + 1 => parity f m ^^ f m

theorem parity_xor (f g : ℕ → Bool) (m : ℕ) :
    parity (fun k => f k ^^ g k) m = (parity f m ^^ parity g m) := by
  induction m with
  | zero => rfl
  | succ m ih =>
    rw [parity, parity, parity, ih, Bool.xor_assoc, Bool.xor_assoc,
      Bool.xor_left_comm (parity g m)]

theorem parity_congr {f g : ℕ → Bool} {m : ℕ} (h : ∀ k < m, f k = g k) :
    parity f m = parity g m := by
  induction m with
  | zero => rfl
  | succ m ih =>
    rw [parity, parity, h m (Nat.lt_succ_self m),
      ih fun k hk => h k (Nat.lt_succ_of_lt hk)]

/-- Only the lowest bit can count. -/
theorem parity_low {f : ℕ → Bool} (h : ∀ k, f (k + 1) = false) (m : ℕ) :
    parity f (m + 1) = f 0 := by
  induction m with
  | zero => simp [parity]
  | succ m ih => rw [parity, ih, h m, Bool.xor_false]

/-- The reduction `^x`. -/
def xorBits (x : BitVec w) : Bool := parity x.getLsbD w

/-- One shift with the taps `p`. -/
def shift (p x : BitVec (n + 1)) : BitVec (n + 1) :=
  BitVec.cons (xorBits (p &&& x)) (x.extractLsb' 1 n)

variable {p x y : BitVec (n + 1)}

theorem shift_xor : shift p (x ^^^ y) = shift p x ^^^ shift p y := by
  have hbits : xorBits (p &&& (x ^^^ y)) =
      (xorBits (p &&& x) ^^ xorBits (p &&& y)) := by
    rw [xorBits, xorBits, xorBits, ← parity_xor]
    refine parity_congr fun k _ => ?_
    rw [BitVec.getLsbD_and, BitVec.getLsbD_and, BitVec.getLsbD_and,
      BitVec.getLsbD_xor, Bool.and_xor_distrib_left]
  ext k hk
  simp only [shift, hbits, BitVec.getElem_xor, BitVec.getElem_cons,
    BitVec.getElem_extractLsb', BitVec.getLsbD_xor]
  split <;> rfl

theorem eq_zero_or_one_of_high (h : x.extractLsb' 1 n = 0#n) :
    x = 0#(n + 1) ∨ x = 1#(n + 1) := by
  have hhigh : ∀ k, x.getLsbD (k + 1) = false := by
    intro k
    by_cases hk : k < n
    · have hbit := congrArg (fun v => v.getLsbD k) h
      simpa [hk, Nat.add_comm] using hbit
    · exact BitVec.getLsbD_of_ge x (k + 1) (by omega)
  cases hlow : x.getLsbD 0 with
  | false =>
    left
    refine BitVec.eq_of_getLsbD_eq fun k _ => ?_
    cases k with
    | zero => simpa using hlow
    | succ k => simpa using hhigh k
  | true =>
    right
    refine BitVec.eq_of_getLsbD_eq fun k _ => ?_
    cases k with
    | zero => simpa using hlow
    | succ k => simpa [BitVec.getLsbD_one] using hhigh k

theorem xorBits_and_one : xorBits (p &&& 1#(n + 1)) = p.getLsbD 0 := by
  rw [xorBits, parity_low]
  · simp
  · intro k
    simp [BitVec.getLsbD_one]

theorem cons_eq_zero_iff {b : Bool} {v : BitVec n} :
    BitVec.cons b v = 0#(n + 1) ↔ b = false ∧ v = 0#n := by
  constructor
  · intro h
    have hbit : ∀ k, (BitVec.cons b v).getLsbD k = false := by
      rw [h]
      exact fun k => BitVec.getLsbD_zero
    refine ⟨?_, BitVec.eq_of_getLsbD_eq fun k hk => ?_⟩
    · have htop := hbit n
      rwa [BitVec.getLsbD_cons, if_pos rfl] at htop
    · have hne : k ≠ n := Nat.ne_of_lt hk
      simpa [BitVec.getLsbD_cons, hne] using hbit k
  · rintro ⟨rfl, rfl⟩
    refine BitVec.eq_of_getLsbD_eq fun k _ => ?_
    simp

/-- What is lost. -/
theorem shift_eq_zero_iff :
    shift p x = 0#(n + 1) ↔
      x = 0#(n + 1) ∨ x = 1#(n + 1) ∧ p.getLsbD 0 = false := by
  rw [shift, cons_eq_zero_iff]
  constructor
  · rintro ⟨hbit, hhigh⟩
    rcases eq_zero_or_one_of_high hhigh with hx | rfl
    · exact Or.inl hx
    · exact Or.inr ⟨rfl, xorBits_and_one.symm.trans hbit⟩
  · rintro (rfl | ⟨rfl, htap⟩)
    · refine ⟨?_, by simp⟩
      rw [xorBits, parity_low] <;> simp
    · refine ⟨xorBits_and_one.trans htap, BitVec.eq_of_getLsbD_eq ?_⟩
      intro k _
      simp [BitVec.getLsbD_one]

theorem shift_injective_iff :
    Function.Injective (shift p) ↔ p.getLsbD 0 = true := by
  constructor
  · intro h
    by_contra htap
    have hlost : shift p 1#(n + 1) = shift p 0#(n + 1) := by
      rw [shift_eq_zero_iff.mpr (Or.inl rfl)]
      exact shift_eq_zero_iff.mpr
        (Or.inr ⟨rfl, Bool.eq_false_iff.mpr htap⟩)
    exact absurd (h hlost) (by simp)
  · intro htap x y hxy
    have hzero : shift p (x ^^^ y) = 0#(n + 1) := by
      rw [shift_xor, hxy, BitVec.xor_self]
    rcases shift_eq_zero_iff.mp hzero with hx | ⟨-, hno⟩
    · exact BitVec.xor_eq_zero_iff.mp hx
    · exact absurd (htap.symm.trans hno) (by decide)

end Lfsr
