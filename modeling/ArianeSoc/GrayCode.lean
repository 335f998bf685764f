import Mathlib.Algebra.Group.Nat.Defs
import Mathlib.Tactic.Common

/-!
# Gray codes

`encode` is the binary-reflected Gray code of a word of any width and
`decode` its inverse, as the fixed point of the equation that a decoder
without a clock solves.

* `decode_encode` says that nothing is lost.
* Two neighbours differ in one bit, so that whoever reads a code while it
  changes, some bits old and some new, reads one of the two (`mix_succ`).
* Two words are half a turn apart if and only if their codes differ in
  the two highest bits only (`eq_add_half_iff`).

Nothing here names a design.
-/

namespace Gray

variable {w : ℕ} {x y mask : BitVec w} {i j : ℕ}

def encode (x : BitVec w) : BitVec w := x >>> 1 ^^^ x

/-- The rounds of `b = (b >>> 1) ^^^ g`, from 0 on. -/
def rounds (g : BitVec w) : ℕ → BitVec w
  | 0 => 0
  | n + 1 => rounds g n >>> 1 ^^^ g

/-- The rounds have come to rest after as many as there are bits. -/
def decode (g : BitVec w) : BitVec w := rounds g w

theorem getLsbD_encode :
    (encode x).getLsbD i = (x.getLsbD (i + 1) ^^ x.getLsbD i) := by
  unfold encode
  rw [BitVec.getLsbD_xor, BitVec.getLsbD_ushiftRight, Nat.add_comm]

theorem encode_xor : encode (x ^^^ y) = encode x ^^^ encode y := by
  refine BitVec.eq_of_getLsbD_eq fun i _ => ?_
  rw [BitVec.getLsbD_xor, getLsbD_encode, getLsbD_encode, getLsbD_encode,
    BitVec.getLsbD_xor, BitVec.getLsbD_xor]
  cases x.getLsbD i <;> cases x.getLsbD (i + 1) <;>
    cases y.getLsbD i <;> cases y.getLsbD (i + 1) <;> rfl

/-- A round shifts what is still wrong by one bit. -/
theorem rounds_xor (n : ℕ) : rounds (encode x) n ^^^ x = x >>> n := by
  induction n with
  | zero =>
    show 0#w ^^^ x = x >>> 0
    rw [BitVec.zero_xor, BitVec.ushiftRight_zero]
  | succ n ih =>
    have hround : rounds (encode x) (n + 1) ^^^ x =
        (rounds (encode x) n ^^^ x) >>> 1 := by
      show rounds (encode x) n >>> 1 ^^^ (x >>> 1 ^^^ x) ^^^ x = _
      rw [BitVec.ushiftRight_xor_distrib, BitVec.xor_assoc,
        BitVec.xor_assoc, BitVec.xor_self, BitVec.xor_zero]
    rw [hround, ih, BitVec.shiftRight_add]

theorem decode_encode : decode (encode x) = x := by
  have h := rounds_xor (x := x) w
  rw [BitVec.ushiftRight_eq_zero (Nat.le_refl w)] at h
  rw [decode, ← BitVec.xor_zero (x := rounds (encode x) w),
    ← BitVec.xor_self (x := x), ← BitVec.xor_assoc, h, BitVec.zero_xor]

theorem encode_inj : encode x = encode y ↔ x = y := by
  refine ⟨fun h => ?_, fun h => by rw [h]⟩
  rw [← decode_encode (x := x), h, decode_encode]

/-! ## Neighbours -/

/-- An increment changes the bit: all bits below it are set. -/
def carries (x : BitVec w) (i : ℕ) : Bool :=
  decide (i < w) && decide (∀ j < i, x.getLsbD j = true)

theorem carries_iff :
    carries x i = true ↔ i < w ∧ ∀ j < i, x.getLsbD j = true := by
  rw [carries, Bool.and_eq_true, decide_eq_true_iff, decide_eq_true_iff]

theorem getLsbD_succ :
    (x + 1#w).getLsbD i = (x.getLsbD i ^^ carries x i) := by
  -- the successor is the negative of the complement
  rw [show x + 1#w = -(~~~x) by rw [BitVec.neg_eq_not_add, BitVec.not_not],
    BitVec.getLsbD_neg, BitVec.getLsbD_not]
  by_cases hi : i < w
  · have hborrow : decide (∃ j < i, (~~~x).getLsbD j = true) =
        !decide (∀ j < i, x.getLsbD j = true) := by
      rw [← decide_not, decide_eq_decide, not_forall]
      refine exists_congr fun j => ?_
      rw [BitVec.getLsbD_not, Classical.not_imp, Bool.not_eq_true]
      refine and_congr_right fun hj => ?_
      rw [decide_eq_true (show j < w by omega), Bool.true_and,
        Bool.not_eq_true']
    rw [carries, decide_eq_true hi, hborrow, Bool.true_and, Bool.true_and,
      Bool.true_and]
    cases x.getLsbD i <;> simp
  · rw [carries, decide_eq_false hi, BitVec.getLsbD_of_ge x i (by omega)]
    rfl

/-- The one bit in which the codes of neighbours differ is the highest that
an increment changes. -/
theorem carries_of_differ
    (h : (encode x).getLsbD i ≠ (encode (x + 1#w)).getLsbD i) :
    carries x i = true ∧ carries x (i + 1) = false := by
  rw [getLsbD_encode, getLsbD_encode, getLsbD_succ, getLsbD_succ] at h
  have hdown : carries x (i + 1) = true → carries x i = true := by
    rw [carries_iff, carries_iff]
    exact fun hc => ⟨by omega, fun j hj => hc.2 j (by omega)⟩
  revert h hdown
  cases x.getLsbD i <;> cases x.getLsbD (i + 1) <;>
    cases carries x i <;> cases carries x (i + 1) <;> simp

theorem eq_of_differ
    (hi : (encode x).getLsbD i ≠ (encode (x + 1#w)).getLsbD i)
    (hj : (encode x).getLsbD j ≠ (encode (x + 1#w)).getLsbD j) : i = j := by
  have hle : ∀ {k l}, carries x k = true → carries x (l + 1) = false →
      k ≤ l := by
    intro k l hk hl
    by_contra hlt
    have hup : carries x (l + 1) = true := by
      rw [carries_iff] at hk ⊢
      exact ⟨by omega, fun j hj => hk.2 j (by omega)⟩
    rw [hl] at hup
    exact Bool.false_ne_true hup
  obtain ⟨hci, hni⟩ := carries_of_differ hi
  obtain ⟨hcj, hnj⟩ := carries_of_differ hj
  exact Nat.le_antisymm (hle hci hnj) (hle hcj hni)

/-- The bits of the mask from the old word, all others from the new one. -/
def mix (mask old new : BitVec w) : BitVec w :=
  (old &&& mask) ||| (new &&& ~~~mask)

theorem getLsbD_mix (hi : i < w) : (mix mask x y).getLsbD i =
    if mask.getLsbD i then x.getLsbD i else y.getLsbD i := by
  unfold mix
  rw [BitVec.getLsbD_or, BitVec.getLsbD_and, BitVec.getLsbD_and,
    BitVec.getLsbD_not, decide_eq_true hi]
  cases mask.getLsbD i <;> simp

theorem mix_self : mix mask x x = x := by
  refine BitVec.eq_of_getLsbD_eq fun i hi => ?_
  rw [getLsbD_mix hi, ite_self]

/-- Whoever reads a counter while it changes reads its old or its new
value. -/
theorem mix_succ (mask x : BitVec w) :
    mix mask (encode x) (encode (x + 1#w)) = encode x ∨
      mix mask (encode x) (encode (x + 1#w)) = encode (x + 1#w) := by
  by_cases hnew : ∃ k, (encode x).getLsbD k ≠
      (encode (x + 1#w)).getLsbD k ∧ mask.getLsbD k = false
  · obtain ⟨k, hk, hmask⟩ := hnew
    refine .inr (BitVec.eq_of_getLsbD_eq fun i hi => ?_)
    rw [getLsbD_mix hi]
    split_ifs with hold
    · by_contra hdiffer
      rw [eq_of_differ hdiffer hk, hmask] at hold
      exact Bool.false_ne_true hold
    · rfl
  · refine .inl (BitVec.eq_of_getLsbD_eq fun i hi => ?_)
    rw [getLsbD_mix hi]
    split_ifs with hold
    · rfl
    · by_contra hdiffer
      rw [Bool.not_eq_true] at hold
      exact hnew ⟨i, fun he => hdiffer he.symm, hold⟩

/-! ## Half a turn -/

/-- Half a turn of a counter changes its highest bit. -/
theorem add_half (x : BitVec (w + 1)) :
    x + BitVec.twoPow (w + 1) w = x ^^^ BitVec.twoPow (w + 1) w := by
  have hdisjoint : ∀ z : BitVec (w + 1), z.getLsbD w = false →
      z + BitVec.twoPow (w + 1) w = z ^^^ BitVec.twoPow (w + 1) w := by
    intro z hz
    have hand : z &&& BitVec.twoPow (w + 1) w = 0#(w + 1) := by
      rw [BitVec.and_twoPow, if_neg (by rw [hz]; exact Bool.false_ne_true)]
    rw [BitVec.add_eq_or_of_and_eq_zero _ _ hand]
    refine BitVec.eq_of_getLsbD_eq fun i _ => ?_
    rw [BitVec.getLsbD_or, BitVec.getLsbD_xor, BitVec.getLsbD_twoPow]
    by_cases hi : w = i
    · subst hi
      rw [hz]
      simp
    · simp [hi]
  cases hx : x.getLsbD w with
  | false => exact hdisjoint x hx
  | true =>
    -- half a turn more brings the word without its highest bit to `x`
    have hflip : (x ^^^ BitVec.twoPow (w + 1) w).getLsbD w = false := by
      rw [BitVec.getLsbD_xor, BitVec.getLsbD_twoPow, hx]
      simp
    have hback := hdisjoint _ hflip
    rw [BitVec.xor_assoc, BitVec.xor_self, BitVec.xor_zero] at hback
    have hturn : BitVec.twoPow (w + 1) w + BitVec.twoPow (w + 1) w =
        0#(w + 1) := by
      refine BitVec.eq_of_toNat_eq ?_
      rw [BitVec.toNat_add, BitVec.toNat_twoPow_of_lt (by omega),
        ← Nat.two_mul, ← Nat.pow_succ', Nat.mod_self, BitVec.toNat_zero]
    calc x + BitVec.twoPow (w + 1) w
        = (x ^^^ BitVec.twoPow (w + 1) w) +
            (BitVec.twoPow (w + 1) w + BitVec.twoPow (w + 1) w) := by
          rw [← BitVec.add_assoc, hback]
      _ = x ^^^ BitVec.twoPow (w + 1) w := by
          rw [hturn, BitVec.add_zero]

theorem getLsbD_encode_half :
    (encode (BitVec.twoPow (w + 2) (w + 1))).getLsbD i =
      (decide (i = w + 1) || decide (i = w)) := by
  rw [getLsbD_encode, BitVec.getLsbD_twoPow, BitVec.getLsbD_twoPow,
    decide_eq_true (show w + 1 < w + 2 by omega), Bool.true_and,
    Bool.true_and]
  by_cases h₁ : i = w + 1
  · simp [h₁]
  · simp [h₁, eq_comm]

/-- The codes of two words are equal but for their two highest bits if and
only if the words are half a turn apart. -/
theorem eq_add_half_iff {x y : BitVec (w + 2)} :
    x = y + BitVec.twoPow (w + 2) (w + 1) ↔
      (encode x).getLsbD (w + 1) ≠ (encode y).getLsbD (w + 1) ∧
        (encode x).getLsbD w ≠ (encode y).getLsbD w ∧
          ∀ i < w, (encode x).getLsbD i = (encode y).getLsbD i := by
  rw [add_half, ← encode_inj, encode_xor]
  have hbit : ∀ i, (encode y ^^^
      encode (BitVec.twoPow (w + 2) (w + 1))).getLsbD i =
        ((encode y).getLsbD i ^^ (decide (i = w + 1) || decide (i = w))) :=
    fun i => by rw [BitVec.getLsbD_xor, getLsbD_encode_half]
  constructor
  · intro h
    rw [h]
    refine ⟨?_, ?_, fun i hi => ?_⟩
    · rw [hbit]
      simp
    · rw [hbit]
      simp
    · rw [hbit, decide_eq_false (by omega), decide_eq_false (by omega)]
      simp
  · rintro ⟨htop, hnext, hlow⟩
    refine BitVec.eq_of_getLsbD_eq fun i hi => ?_
    rw [hbit]
    by_cases h₁ : i = w + 1
    · subst h₁
      simpa using Bool.eq_not_of_ne htop
    · by_cases h₂ : i = w
      · subst h₂
        simpa using Bool.eq_not_of_ne hnext
      · rw [hlow i (by omega)]
        simp [h₁, h₂]

end Gray
