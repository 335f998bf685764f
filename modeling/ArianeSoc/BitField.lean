import Mathlib.Algebra.Group.Nat.Defs
import Mathlib.Data.Nat.Bits
import Mathlib.Tactic.Common

/-!
# Fields of a packed register

`BitField w n` names `n` consecutive bits of a `w`-bit register by the
position of the lowest one.  `get` and `set` read and write a field,
`mask` is the register with ones at the field and zeros elsewhere, and
`merge m old new` takes the bits of the mask `m` from `new` and the others
from `old`.

A claim that a write leaves part of a register alone is the claim that
the register and its new value agree under a mask.  `set_and_of_disjoint`
and `merge_and_of_disjoint` reduce it to the disjointness of two masks,
which is a closed fact for a named field.  Nothing here names a register.
-/

/-- `n` consecutive bits of a `w`-bit register, from bit `lo` up. -/
structure BitField (w n : Nat) where
  lo : Nat

namespace BitField

variable {w n k : Nat}

/-- The ones of the field, in a register that is zero elsewhere. -/
def mask (f : BitField w n) : BitVec w :=
  (BitVec.allOnes n).setWidth w <<< f.lo

/-- The field of a register. -/
def get (f : BitField w n) (x : BitVec w) : BitVec n :=
  x.extractLsb' f.lo n

/-- The register with `v` in the field. -/
def set (f : BitField w n) (v : BitVec n) (x : BitVec w) : BitVec w :=
  (x &&& ~~~ f.mask) ||| (v.setWidth w <<< f.lo)

/-- The bits of `m` from `new`, the others from `old`. -/
def merge (m old new : BitVec w) : BitVec w :=
  (old &&& ~~~ m) ||| (new &&& m)

theorem getLsbD_mask (f : BitField w n) (i : Nat) :
    f.mask.getLsbD i = (decide (i < w) && decide (f.lo ≤ i ∧ i < f.lo + n)) := by
  simp only [mask, BitVec.getLsbD_shiftLeft, BitVec.getLsbD_setWidth,
    BitVec.getLsbD_allOnes]
  by_cases hw : i < w
  · by_cases hlo : i < f.lo
    · simp [hw, hlo, Nat.not_le.mpr hlo]
    · have hshift : i - f.lo < w := by omega
      have hn : i - f.lo < n ↔ i < f.lo + n := by omega
      simp [hw, hlo, hshift, hn, Nat.not_lt.mp hlo]
  · simp [hw]

theorem getLsbD_set (f : BitField w n) (v : BitVec n) (x : BitVec w)
    (i : Nat) :
    (f.set v x).getLsbD i =
      if i < w ∧ f.lo ≤ i ∧ i < f.lo + n then v.getLsbD (i - f.lo)
      else x.getLsbD i := by
  simp only [set, BitVec.getLsbD_or, BitVec.getLsbD_and, BitVec.getLsbD_not,
    getLsbD_mask, BitVec.getLsbD_shiftLeft, BitVec.getLsbD_setWidth]
  by_cases hw : i < w
  · by_cases hlo : i < f.lo
    · simp [hw, hlo, Nat.not_le.mpr hlo]
    · by_cases hn : i < f.lo + n
      · simp [hw, hlo, hn, Nat.not_lt.mp hlo]
        omega
      · have hv : v.getLsbD (i - f.lo) = false :=
          BitVec.getLsbD_of_ge v _ (by omega)
        simp [hw, hlo, hn, hv]
  · have hx : x.getLsbD i = false := BitVec.getLsbD_of_ge x i (by omega)
    simp [hw, hx]

theorem getLsbD_merge (m old new : BitVec w) (i : Nat) :
    (merge m old new).getLsbD i =
      if m.getLsbD i then new.getLsbD i else old.getLsbD i := by
  simp only [merge, BitVec.getLsbD_or, BitVec.getLsbD_and,
    BitVec.getLsbD_not]
  by_cases hw : i < w
  · cases m.getLsbD i <;> simp [hw]
  · simp [BitVec.getLsbD_of_ge m i (by omega),
      BitVec.getLsbD_of_ge old i (by omega)]

/-- The value of two parts of a register put together. -/
theorem toNat_append_add (x : BitVec n) (y : BitVec k) :
    (x ++ y).toNat = x.toNat * 2 ^ k + y.toNat := by
  rw [BitVec.toNat_append, ← Nat.shiftLeft_add_eq_or_of_lt y.isLt,
    Nat.shiftLeft_eq]

/-! ## Agreement under a mask -/

/-- A write to a field outside the mask `m` is not seen under `m`. -/
theorem set_and_of_disjoint (f : BitField w n) (v : BitVec n)
    (x m : BitVec w) (hm : f.mask &&& m = 0#w) :
    f.set v x &&& m = x &&& m := by
  apply BitVec.eq_of_getLsbD_eq
  intro i hi
  have hbit : (f.mask &&& m).getLsbD i = false := by rw [hm]; simp
  rw [BitVec.getLsbD_and, getLsbD_mask] at hbit
  rw [BitVec.getLsbD_and, BitVec.getLsbD_and, getLsbD_set]
  by_cases hf : f.lo ≤ i ∧ i < f.lo + n
  · simp_all
  · rw [if_neg (fun h => hf h.2)]

/-- A masked write under a mask disjoint from `m` is not seen under `m`. -/
theorem merge_and_of_disjoint (p old new m : BitVec w)
    (hm : p &&& m = 0#w) : merge p old new &&& m = old &&& m := by
  apply BitVec.eq_of_getLsbD_eq
  intro i _
  have hbit : (p &&& m).getLsbD i = false := by rw [hm]; simp
  rw [BitVec.getLsbD_and] at hbit
  rw [BitVec.getLsbD_and, BitVec.getLsbD_and, getLsbD_merge]
  cases hp : p.getLsbD i
  · simp
  · simp_all

/-! ## Reading a field back -/

theorem getLsbD_get (f : BitField w n) (x : BitVec w) (i : Nat) :
    (f.get x).getLsbD i = (decide (i < n) && x.getLsbD (f.lo + i)) := by
  simp [get, BitVec.getLsbD_extractLsb']

/-- A field that fits the register reads back as it was set. -/
theorem get_set (f : BitField w n) (v : BitVec n) (x : BitVec w)
    (hw : f.lo + n ≤ w) : f.get (f.set v x) = v := by
  apply BitVec.eq_of_getLsbD_eq
  intro i hi
  rw [getLsbD_get, getLsbD_set, if_pos (by omega)]
  simp [hi]

/-- A field that lies inside the one that was set. -/
theorem get_set_of_subfield (g : BitField w k) (f : BitField w n)
    (v : BitVec n) (x : BitVec w) (hlo : f.lo ≤ g.lo)
    (hhi : g.lo + k ≤ f.lo + n) (hw : f.lo + n ≤ w) :
    g.get (f.set v x) = v.extractLsb' (g.lo - f.lo) k := by
  apply BitVec.eq_of_getLsbD_eq
  intro i hi
  have hpos : g.lo + i - f.lo = g.lo - f.lo + i := by omega
  rw [getLsbD_get, getLsbD_set, if_pos (by omega),
    BitVec.getLsbD_extractLsb', hpos]

/-- A field is not changed by setting a field beside it. -/
theorem get_set_of_disjoint (f : BitField w n) (g : BitField w k)
    (v : BitVec k) (x : BitVec w)
    (h : f.lo + n ≤ g.lo ∨ g.lo + k ≤ f.lo) :
    f.get (g.set v x) = f.get x := by
  apply BitVec.eq_of_getLsbD_eq
  intro i hi
  rw [getLsbD_get, getLsbD_get, getLsbD_set, if_neg (by omega)]

/-- A masked write of the whole field changes it to the new value. -/
theorem get_merge_of_allOnes (f : BitField w n) (m old new : BitVec w)
    (hm : f.get m = BitVec.allOnes n) : f.get (merge m old new) = f.get new := by
  apply BitVec.eq_of_getLsbD_eq
  intro i hi
  have hbit : (f.get m).getLsbD i = true := by rw [hm]; simp [hi]
  rw [getLsbD_get] at hbit
  rw [getLsbD_get, getLsbD_get, getLsbD_merge]
  simp_all

/-- A masked write outside the field does not change it. -/
theorem get_merge_of_disjoint (f : BitField w n) (m old new : BitVec w)
    (hm : f.get m = 0#n) : f.get (merge m old new) = f.get old := by
  apply BitVec.eq_of_getLsbD_eq
  intro i hi
  have hbit : (f.get m).getLsbD i = false := by rw [hm]; simp
  rw [getLsbD_get] at hbit
  rw [getLsbD_get, getLsbD_get, getLsbD_merge]
  simp_all

end BitField
