import ArianeSoc.BitField
import ArianeSoc.Serdiv.Unit

/-!
# Signs and the alignment of the divider

The divider works on two words of the same sign.  `sgn neg m` is the word
of the magnitude `m` with the sign `neg`; the comparator, the subtraction
and the shift are those of the magnitudes.

`aligned` is what the leading zero counts say of the magnitudes: the divisor
is shifted far enough and not too far, or the quotient is zero.  A negative
dividend is inverted and not negated before its zeros are counted, and a
zero is appended in place of a one.  For the dividend `-1` the count is one
too high, which matters for the divisor one alone (`MinusOneByOne`).
-/

namespace ArianeSoc.Serdiv

open CommonCells

/-! ## Words of a sign -/

/-- The word of a magnitude with a sign. -/
def sgn (neg : Bool) (m : ℕ) : BitVec 64 :=
  if neg then - BitVec.ofNat 64 m else BitVec.ofNat 64 m

/-- The magnitudes a dividend may have. -/
structure FitsA (neg : Bool) (a : ℕ) : Prop where
  lt : a < 2 ^ 64
  neg : neg = true → a ≤ 2 ^ 63

/-- The magnitudes the shifted divisor may have. -/
structure FitsB (neg : Bool) (m : ℕ) : Prop where
  pos : 0 < m
  le : m ≤ 2 ^ 64
  lt : neg = false → m < 2 ^ 64

theorem toNat_sgn_false (m : ℕ) : (sgn false m).toNat = m % 2 ^ 64 :=
  BitVec.toNat_ofNat m 64

theorem toNat_sgn_true (m : ℕ) :
    (sgn true m).toNat = (2 ^ 64 - m % 2 ^ 64) % 2 ^ 64 := by
  show (- BitVec.ofNat 64 m).toNat = _
  rw [BitVec.toNat_neg, BitVec.toNat_ofNat]

variable {neg : Bool} {a m s : ℕ}

/-- The comparator compares the magnitudes. -/
theorem abComp_sgn {q : Regs} (ha : FitsA neg a) (hm : FitsB neg m)
    (hA : q.opA = sgn neg a) (hB : q.opB = sgn neg m)
    (hinv : q.compInv = neg) (hz : q.opBZero = false) :
    abComp q = decide (m ≤ a) := by
  unfold abComp
  rw [hA, hB, hinv, hz, Bool.or_false]
  have hlt := ha.lt
  have hneg := ha.neg
  have hpos := hm.pos
  have hle := hm.le
  have hmlt := hm.lt
  have heq : ∀ x y : BitVec 64, x = y ↔ x.toNat = y.toNat :=
    fun x y => ⟨congrArg _, BitVec.eq_of_toNat_eq⟩
  rw [Bool.eq_iff_iff, decide_eq_true_iff]
  cases neg with
  | false =>
    have hm' := hmlt rfl
    simp only [Bool.and_eq_true, Bool.or_eq_true, decide_eq_true_iff,
      Bool.xor_false, heq, BitVec.lt_def, toNat_sgn_false, ne_eq,
      BitVec.toNat_ofNat]
    omega
  | true =>
    have ha' := hneg rfl
    simp only [Bool.and_eq_true, Bool.or_eq_true, decide_eq_true_iff,
      Bool.xor_true, Bool.not_eq_true', decide_eq_false_iff_not, heq,
      BitVec.lt_def, toNat_sgn_true, ne_eq, BitVec.toNat_ofNat]
    omega

theorem sgn_sub (h : m ≤ a) : sgn neg a - sgn neg m = sgn neg (a - m) := by
  apply BitVec.eq_of_toNat_eq
  rw [BitVec.toNat_sub]
  cases neg with
  | false =>
    rw [toNat_sgn_false, toNat_sgn_false, toNat_sgn_false]
    omega
  | true =>
    rw [toNat_sgn_true, toNat_sgn_true, toNat_sgn_true]
    omega

/-- The shift by one, with the sign coming in. -/
theorem sgn_half (h : FitsB neg (2 * m)) :
    BitVec.ofBool neg ++ (sgn neg (2 * m)).extractLsb' 1 63 = sgn neg m := by
  apply BitVec.eq_of_toNat_eq
  rw [BitField.toNat_append_add, BitVec.extractLsb'_toNat,
    Nat.shiftRight_eq_div_pow]
  have hpos := h.pos
  have hle := h.le
  have hlt := h.lt
  cases neg with
  | false =>
    have hlt' := hlt rfl
    have hzero : (BitVec.ofBool false).toNat = 0 := rfl
    rw [toNat_sgn_false, toNat_sgn_false, hzero]
    omega
  | true =>
    have hone : (BitVec.ofBool true).toNat = 1 := rfl
    rw [toNat_sgn_true, toNat_sgn_true, hone]
    omega

theorem sgn_shiftLeft : sgn neg m <<< s = sgn neg (m * 2 ^ s) := by
  have hpow : BitVec.twoPow 64 s = BitVec.ofNat 64 (2 ^ s) := by
    apply BitVec.eq_of_toNat_eq
    rw [BitVec.toNat_twoPow, BitVec.toNat_ofNat]
  rw [BitVec.shiftLeft_eq_mul_twoPow, hpow]
  cases neg with
  | false => exact (BitVec.ofNat_mul m (2 ^ s)).symm
  | true =>
    show - BitVec.ofNat 64 m * _ = - BitVec.ofNat 64 (m * 2 ^ s)
    rw [BitVec.ofNat_mul, BitVec.neg_mul]

theorem neg_sgn : - sgn neg m = sgn (!neg) m := by
  cases neg with
  | false => rfl
  | true => exact BitVec.neg_neg

/-! ## The operands -/

/-- The sign that both words get. -/
def commonSign (i : In) : Bool := i.signed && opBSign i

/-- The magnitude of a word, read with a sign. -/
def magnitude (neg : Bool) (x : BitVec 64) : ℕ :=
  if neg then 2 ^ 64 - x.toNat else x.toNat

def magA (i : In) : ℕ := magnitude (i.signed && opASign i) i.opA
def magB (i : In) : ℕ := magnitude (commonSign i) i.opB

/-- The operands for which the count of zeros is wrong and matters. -/
def MinusOneByOne (i : In) : Prop :=
  i.signed = true ∧ i.opA = - 1#64 ∧ i.opB = 1#64

instance (i : In) : Decidable (MinusOneByOne i) :=
  inferInstanceAs (Decidable (_ ∧ _ ∧ _))

theorem sgn_magnitude (neg : Bool) (x : BitVec 64) :
    sgn neg (magnitude neg x) = x := by
  apply BitVec.eq_of_toNat_eq
  have hx := x.isLt
  cases neg with
  | false => exact (toNat_sgn_false _).trans (Nat.mod_eq_of_lt hx)
  | true =>
    rw [toNat_sgn_true]
    show (2 ^ 64 - (2 ^ 64 - x.toNat) % 2 ^ 64) % 2 ^ 64 = _
    omega

theorem magnitude_bound {x : BitVec 64} {p : Bool} :
    magnitude (p && x.msb) x < 2 ^ 64 ∧
      (p = true → magnitude (p && x.msb) x ≤ 2 ^ 63) := by
  have hx := x.isLt
  have hmsb := BitVec.msb_eq_decide x
  unfold magnitude
  cases hp : p && x.msb with
  | false =>
    refine ⟨hx, fun h => ?_⟩
    rw [h, Bool.true_and, hmsb, decide_eq_false_iff_not] at hp
    show x.toNat ≤ _
    omega
  | true =>
    rw [Bool.and_eq_true, hmsb, decide_eq_true_iff] at hp
    have hge := hp.2
    refine ⟨?_, fun _ => ?_⟩
    · show 2 ^ 64 - x.toNat < _
      omega
    · show 2 ^ 64 - x.toNat ≤ _
      omega

variable {i : In}

theorem fitsA_magA : FitsA (commonSign i) (magA i) where
  lt := magnitude_bound.1
  neg h := by
    unfold commonSign at h
    rw [Bool.and_eq_true] at h
    exact magnitude_bound.2 h.1

/-- The load gives the dividend the sign of the divisor. -/
theorem loaded_opA :
    (if i.signed && (opASign i ^^ opBSign i) then - i.opA else i.opA) =
      sgn (commonSign i) (magA i) := by
  have ha := sgn_magnitude (i.signed && opASign i) i.opA
  have hmag : magnitude (i.signed && opASign i) i.opA = magA i := rfl
  rw [hmag] at ha
  unfold commonSign
  rw [← ha, neg_sgn]
  cases i.signed <;> cases opASign i <;> cases opBSign i <;> rfl

theorem opB_eq : i.opB = sgn (commonSign i) (magB i) :=
  (sgn_magnitude _ _).symm

/-! ## The counts of zeros -/

/-- The dividend's input of the counter: its magnitude, or twice the
magnitude less two. -/
theorem toNat_lzcAInput :
    (lzcAInput i).toNat =
      if i.signed && opASign i then 2 * (magA i - 1) else magA i := by
  have hx := i.opA.isLt
  have hmsb := BitVec.msb_eq_decide i.opA
  unfold lzcAInput magA magnitude
  cases h : i.signed && opASign i with
  | false => rfl
  | true =>
    rw [opASign, Bool.and_eq_true, hmsb, decide_eq_true_iff] at h
    have hge := h.2
    have hbit : (0#1).toNat = 0 := rfl
    simp only [if_true]
    rw [BitVec.toNat_setWidth, BitField.toNat_append_add, BitVec.toNat_not,
      hbit]
    omega

/-- The divisor's: its magnitude, or the magnitude less one. -/
theorem toNat_lzcBInput :
    (lzcBInput i).toNat =
      if commonSign i then magB i - 1 else magB i := by
  have hx := i.opB.isLt
  unfold lzcBInput magB magnitude commonSign
  cases i.signed && opBSign i with
  | false => rfl
  | true =>
    simp only [if_true]
    rw [BitVec.toNat_not]
    omega

/-- The count of zeros of a word of the width, with 64 for zero. -/
def zeros (x : BitVec 64) : ℕ :=
  if Lzc.empty 6 x then 64 else (Lzc.cnt 6 x).toNat

theorem zeros_le (x : BitVec 64) : zeros x ≤ 64 := by
  unfold zeros
  split_ifs with h
  · exact Nat.le_refl 64
  · exact Nat.le_of_lt (Lzc.cnt_bounds rfl (Bool.not_eq_true _ ▸ h)).1

theorem zeros_eq (x : BitVec 64) (h : x.toNat = 0) : zeros x = 64 := by
  have hzero : x = 0#64 := BitVec.eq_of_toNat_eq h
  exact if_pos ((Lzc.empty_iff rfl).mpr hzero)

theorem zeros_bounds (x : BitVec 64) (h : x.toNat ≠ 0) :
    zeros x < 64 ∧ 2 ^ (63 - zeros x) ≤ x.toNat ∧
      x.toNat < 2 ^ (64 - zeros x) := by
  have hempty : Lzc.empty 6 x = false := by
    rw [← Bool.not_eq_true, Lzc.empty_iff rfl]
    rintro rfl
    exact h rfl
  have hz : zeros x = (Lzc.cnt 6 x).toNat :=
    if_neg (by rw [hempty]; exact Bool.false_ne_true)
  rw [hz]
  exact Lzc.cnt_bounds rfl hempty

theorem toNat_shiftA : (shiftA i).toNat = zeros (lzcAInput i) := by
  unfold shiftA zeros
  split_ifs
  · rfl
  · rw [BitVec.toNat_setWidth]
    have hlt := (Lzc.cnt 6 (lzcAInput i)).isLt
    omega

/-- The shift as a number, and whether it is negative. -/
theorem toNat_divShift (hb : (lzcBInput i).toNat ≠ 0) :
    (divShift i).toNat =
      (256 + zeros (lzcBInput i) - zeros (lzcAInput i)) % 256 := by
  have hempty : Lzc.empty 6 (lzcBInput i) = false := by
    rw [← Bool.not_eq_true, Lzc.empty_iff rfl]
    intro h
    rw [h] at hb
    exact hb rfl
  have hz : zeros (lzcBInput i) = (Lzc.cnt 6 (lzcBInput i)).toNat :=
    if_neg (by rw [hempty]; exact Bool.false_ne_true)
  have hle := zeros_le (lzcAInput i)
  have hlt := (Lzc.cnt 6 (lzcBInput i)).isLt
  unfold divShift
  rw [hempty, if_neg Bool.false_ne_true, BitVec.toNat_setWidth,
    BitVec.toNat_sub, BitVec.toNat_setWidth, BitVec.toNat_setWidth,
    toNat_shiftA, hz]
  omega

theorem slt_iff : (divShift i).slt 0#8 = true ↔ 128 ≤ (divShift i).toNat := by
  rw [BitVec.slt_zero_iff_msb_cond, BitVec.msb_eq_decide]
  exact decide_eq_true_iff

/-! ## The alignment -/

theorem magB_pos (hb : i.opB ≠ 0#64) : 0 < magB i := by
  have hx := i.opB.isLt
  unfold magB magnitude
  split_ifs
  · omega
  · exact Nat.pos_of_ne_zero fun h => hb (BitVec.eq_of_toNat_eq h)

/-- A zero count that is not 64 does not underrate the dividend. -/
theorem magA_le (ha : (lzcAInput i).toNat ≠ 0) :
    magA i ≤ (lzcAInput i).toNat := by
  rw [toNat_lzcAInput] at ha ⊢
  split_ifs at ha ⊢
  · omega
  · exact Nat.le_refl _

theorem toNat_lzcBInput_le : (lzcBInput i).toNat ≤ magB i := by
  rw [toNat_lzcBInput]
  split_ifs
  · exact Nat.sub_le _ _
  · exact Nat.le_refl _

/-- The two ways of the zero count to be 64 with the divisor one. -/
theorem minusOneByOne_of (ha : (lzcAInput i).toNat = 0)
    (hb : (lzcBInput i).toNat ≠ 0) (hone : magB i = 1)
    (hpos : 0 < magA i) : MinusOneByOne i := by
  rw [toNat_lzcAInput] at ha
  rw [toNat_lzcBInput] at hb
  have hsign : commonSign i = false := by
    by_contra h
    rw [if_pos (Bool.not_eq_false _ ▸ h)] at hb
    omega
  split_ifs at ha with h
  · have hsigned := (Bool.and_eq_true _ _ ▸ h).1
    have hx := i.opA.isLt
    unfold magA magnitude at ha hpos
    rw [if_pos h] at ha hpos
    unfold magB magnitude at hone
    rw [hsign] at hone
    refine ⟨hsigned, BitVec.eq_of_toNat_eq ?_, BitVec.eq_of_toNat_eq hone⟩
    show i.opA.toNat = 2 ^ 64 - 1
    omega
  · omega

/-- With the shift not negative the divisor goes far enough up, and not out
of the word. -/
theorem aligned (hb : i.opB ≠ 0#64) (hs : (divShift i).slt 0#8 = false) :
    (divShift i).toNat ≤ 64 ∧
      magA i < magB i * 2 ^ ((divShift i).toNat + 1) ∧
      FitsB (commonSign i) (magB i * 2 ^ (divShift i).toNat) := by
  have hpos := magB_pos hb
  have hlt := (fitsA_magA (i := i)).lt
  have hB := toNat_lzcBInput (i := i)
  rw [← Bool.not_eq_true, slt_iff] at hs
  by_cases hzero : (lzcBInput i).toNat = 0
  · -- the divisor is `-1` and is shifted out as far as it can be
    have hsign : commonSign i = true := by
      by_contra h
      rw [hzero, if_neg h] at hB
      omega
    rw [hzero, if_pos hsign] at hB
    have hone : magB i = 1 := by omega
    have h64 : (divShift i).toNat = 64 := by
      have hempty : Lzc.empty 6 (lzcBInput i) = true :=
        (Lzc.empty_iff rfl).mpr (BitVec.eq_of_toNat_eq hzero)
      unfold divShift
      rw [if_pos hempty]
      rfl
    rw [h64, hone, hsign]
    exact ⟨Nat.le_refl 64, by omega, by omega, by omega, by simp⟩
  · obtain ⟨hzb, hlo, hhi⟩ := zeros_bounds _ hzero
    have hdiv := toNat_divShift hzero
    have hza := zeros_le (lzcAInput i)
    have hle : zeros (lzcAInput i) ≤ zeros (lzcBInput i) := by omega
    have hA : (lzcAInput i).toNat ≠ 0 := by
      intro h
      have h64 := zeros_eq _ h
      omega
    obtain ⟨-, -, hahi⟩ := zeros_bounds _ hA
    have hamag := magA_le hA
    have hbmag := toNat_lzcBInput_le (i := i)
    have hsub : (divShift i).toNat =
        zeros (lzcBInput i) - zeros (lzcAInput i) := by omega
    rw [hsub]
    generalize zeros (lzcAInput i) = za at *
    generalize zeros (lzcBInput i) = zb at *
    have hup : 2 ^ (63 - zb) * 2 ^ (zb - za + 1) = 2 ^ (64 - za) := by
      rw [← Nat.pow_add]
      congr 1
      omega
    have hdown : 2 ^ (64 - zb) * 2 ^ (zb - za) = 2 ^ (64 - za) := by
      rw [← Nat.pow_add]
      congr 1
      omega
    have htop : 2 ^ (64 - za) ≤ 2 ^ 64 :=
      Nat.pow_le_pow_right (by decide) (Nat.sub_le _ _)
    refine ⟨by omega, ?_, ?_, ?_, fun hneg => ?_⟩
    · have hmul := Nat.mul_le_mul_right (2 ^ (zb - za + 1))
        (Nat.le_trans hlo hbmag)
      omega
    · exact Nat.mul_pos hpos (Nat.two_pow_pos _)
    · have hbound : magB i ≤ 2 ^ (64 - zb) := by
        split_ifs at hB <;> omega
      have hmul := Nat.mul_le_mul_right (2 ^ (zb - za)) hbound
      omega
    · rw [hneg, if_neg Bool.false_ne_true] at hB
      have hmul := Nat.mul_lt_mul_of_pos_right (hB ▸ hhi)
        (Nat.two_pow_pos (zb - za))
      omega

/-- With a negative shift the quotient is zero, but for `-1` by one. -/
theorem small (hb : i.opB ≠ 0#64) (hs : (divShift i).slt 0#8 = true)
    (hno : ¬ MinusOneByOne i) : magA i < magB i := by
  have hpos := magB_pos hb
  rw [slt_iff] at hs
  have hzero : (lzcBInput i).toNat ≠ 0 := by
    intro h
    have hempty : Lzc.empty 6 (lzcBInput i) = true :=
      (Lzc.empty_iff rfl).mpr (BitVec.eq_of_toNat_eq h)
    unfold divShift at hs
    rw [if_pos hempty] at hs
    exact absurd hs (by decide)
  obtain ⟨hzb, hlo, -⟩ := zeros_bounds _ hzero
  have hdiv := toNat_divShift hzero
  have hza := zeros_le (lzcAInput i)
  have hlt : zeros (lzcBInput i) < zeros (lzcAInput i) := by omega
  have hbmag := toNat_lzcBInput_le (i := i)
  by_cases hA : (lzcAInput i).toNat = 0
  · have hle : magA i ≤ 1 := by
      rw [toNat_lzcAInput] at hA
      split_ifs at hA <;> omega
    by_contra hge
    exact hno (minusOneByOne_of hA hzero (by omega) (by omega))
  · obtain ⟨-, -, hahi⟩ := zeros_bounds _ hA
    have hamag := magA_le hA
    have hpow : 2 ^ (64 - zeros (lzcAInput i)) ≤
        2 ^ (63 - zeros (lzcBInput i)) :=
      Nat.pow_le_pow_right (by decide) (by omega)
    omega

end ArianeSoc.Serdiv
