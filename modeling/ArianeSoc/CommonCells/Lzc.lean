import Mathlib.Algebra.Group.Nat.Defs
import Mathlib.Tactic.Common

/-!
# The leading zero counter

`lzc.sv` in mode 1, for a width that is a power of two.  A binary tree over
the bits, the top one first: a node is selected if one of its children is,
and passes on the index of the left child if that one is selected.

`node_first` says that the index of a selected node is the first bit that
is set below it, and `cnt_bounds` what the count says of the number.
-/

namespace ArianeSoc.CommonCells.Lzc

/-- An element of `sel_nodes` and `index_nodes`. -/
structure Node where
  sel : Bool
  index : ℕ

/-- Node `k` of the level with `h` levels below it.  The lowest level of the
source reads its two bits itself. -/
def node (x : ℕ → Bool) : ℕ → ℕ → Node
  | 0, k => ⟨x k, k⟩
  | h + 1, k =>
    ⟨(node x h (2 * k)).sel || (node x h (2 * k + 1)).sel,
      if (node x h (2 * k)).sel then (node x h (2 * k)).index
      else (node x h (2 * k + 1)).index⟩

variable {w h k : ℕ}

/-- `in_tmp`: the bits from the top. -/
def inTmp (x : BitVec w) (i : ℕ) : Bool := x.getLsbD (w - 1 - i)

/-- `cnt_o`. -/
def cnt (h : ℕ) (x : BitVec w) : BitVec h :=
  BitVec.ofNat h (node (inTmp x) h 0).index

/-- `empty_o`. -/
def empty (h : ℕ) (x : BitVec w) : Bool := !(node (inTmp x) h 0).sel

/-! ## What a node says -/

/-- `j` is the first bit that is set from `lo` up, and it lies below
`hi`. -/
structure First (x : ℕ → Bool) (lo hi j : ℕ) : Prop where
  le : lo ≤ j
  lt : j < hi
  set : x j = true
  clear : ∀ m, lo ≤ m → m < j → x m = false

variable {x : ℕ → Bool}

theorem node_clear (hsel : (node x h k).sel = false) :
    ∀ j, k * 2 ^ h ≤ j → j < (k + 1) * 2 ^ h → x j = false := by
  induction h generalizing k with
  | zero =>
    intro j hlo hhi
    rw [Nat.pow_zero] at hlo hhi
    obtain rfl : j = k := by omega
    exact hsel
  | succ h ih =>
    have hboth : (node x h (2 * k)).sel = false ∧
        (node x h (2 * k + 1)).sel = false := Bool.or_eq_false_iff.mp hsel
    intro j hlo hhi
    rw [Nat.pow_succ'] at hlo hhi
    by_cases hmid : j < (2 * k + 1) * 2 ^ h
    · apply ih hboth.1 j _ hmid
      rw [Nat.mul_comm 2 k, Nat.mul_assoc]
      exact hlo
    · apply ih hboth.2 j (Nat.le_of_not_lt hmid)
      rw [← Nat.mul_assoc] at hhi
      rw [show 2 * k + 1 + 1 = (k + 1) * 2 by omega]
      exact hhi

theorem node_first (hsel : (node x h k).sel = true) :
    First x (k * 2 ^ h) ((k + 1) * 2 ^ h) (node x h k).index := by
  induction h generalizing k with
  | zero =>
    refine ⟨?_, ?_, hsel, fun m hlo hm => ?_⟩
    · exact Nat.le_of_eq (Nat.mul_one k)
    · show k < (k + 1) * 1
      omega
    · have hlo' : k * 1 ≤ m := hlo
      have hm' : m < k := hm
      omega
  | succ h ih =>
    have hpow : 2 ^ (h + 1) = 2 * 2 ^ h := Nat.pow_succ'
    have hlo : k * 2 ^ (h + 1) = 2 * k * 2 ^ h := by
      rw [hpow, ← Nat.mul_assoc, Nat.mul_comm k 2]
    have hhi : (k + 1) * 2 ^ (h + 1) = (2 * k + 1 + 1) * 2 ^ h := by
      rw [hpow, ← Nat.mul_assoc, Nat.mul_comm (k + 1) 2]
      rfl
    have hmid : 2 * k * 2 ^ h ≤ (2 * k + 1) * 2 ^ h :=
      Nat.mul_le_mul_right _ (Nat.le_succ _)
    have hend : (2 * k + 1) * 2 ^ h ≤ (2 * k + 1 + 1) * 2 ^ h :=
      Nat.mul_le_mul_right _ (Nat.le_succ _)
    rw [hlo, hhi]
    cases hl : (node x h (2 * k)).sel with
    | true =>
      have hindex : (node x (h + 1) k).index = (node x h (2 * k)).index :=
        if_pos hl
      have hfirst := ih hl
      rw [hindex]
      exact ⟨hfirst.le, Nat.lt_of_lt_of_le hfirst.lt hend, hfirst.set,
        hfirst.clear⟩
    | false =>
      have hindex : (node x (h + 1) k).index =
          (node x h (2 * k + 1)).index :=
        if_neg (by rw [hl]; exact Bool.false_ne_true)
      have hr : (node x h (2 * k + 1)).sel = true := by
        have hor : ((node x h (2 * k)).sel || (node x h (2 * k + 1)).sel) =
            true := hsel
        rwa [hl, Bool.false_or] at hor
      have hfirst := ih hr
      rw [hindex]
      refine ⟨Nat.le_trans hmid hfirst.le, hfirst.lt, hfirst.set,
        fun m hm hlt => ?_⟩
      by_cases hleft : m < (2 * k + 1) * 2 ^ h
      · exact node_clear hl m hm hleft
      · exact hfirst.clear m (Nat.le_of_not_lt hleft) hlt

/-- The index of a node that is not selected is that of its last bit. -/
theorem node_index_of_clear (hsel : (node x h k).sel = false) :
    (node x h k).index = (k + 1) * 2 ^ h - 1 := by
  induction h generalizing k with
  | zero =>
    rw [Nat.pow_zero, Nat.mul_one, Nat.add_sub_cancel]
    rfl
  | succ h ih =>
    obtain ⟨hl, hr⟩ : (node x h (2 * k)).sel = false ∧
        (node x h (2 * k + 1)).sel = false := Bool.or_eq_false_iff.mp hsel
    have hindex : (node x (h + 1) k).index = (node x h (2 * k + 1)).index :=
      if_neg (by rw [hl]; exact Bool.false_ne_true)
    rw [hindex, ih hr, show 2 * k + 1 + 1 = (k + 1) * 2 by omega,
      Nat.mul_assoc, Nat.pow_succ']

/-! ## What the count says of the number -/

variable {a : BitVec w}

theorem empty_iff (hw : w = 2 ^ h) : empty h a = true ↔ a = 0#w := by
  unfold empty
  cases hsel : (node (inTmp a) h 0).sel with
  | true =>
    refine iff_of_false Bool.false_ne_true fun ha => ?_
    have hset := (node_first hsel).set
    rw [ha, inTmp, BitVec.getLsbD_zero] at hset
    exact Bool.false_ne_true hset
  | false =>
    refine iff_of_true rfl ?_
    apply BitVec.eq_of_getLsbD_eq
    intro j hj
    have hclear := node_clear hsel (w - 1 - j) (by omega) (by omega)
    rw [inTmp, show w - 1 - (w - 1 - j) = j by omega] at hclear
    rw [hclear, BitVec.getLsbD_zero]

/-- A count of `c` zeros says that the number has `w - c` bits. -/
theorem cnt_bounds (hw : w = 2 ^ h) (ha : empty h a = false) :
    (cnt h a).toNat < w ∧ 2 ^ (w - 1 - (cnt h a).toNat) ≤ a.toNat ∧
      a.toNat < 2 ^ (w - (cnt h a).toNat) := by
  have hfirst := node_first (k := 0) (x := inTmp a) (h := h) (by
    unfold empty at ha
    rwa [Bool.not_eq_false'] at ha)
  have hlt := hfirst.lt
  have hcnt : (cnt h a).toNat = (node (inTmp a) h 0).index := by
    rw [cnt, BitVec.toNat_ofNat]
    exact Nat.mod_eq_of_lt (by omega)
  rw [hcnt]
  have hset := hfirst.set
  have hclear := hfirst.clear
  generalize (node (inTmp a) h 0).index = c at hlt hset hclear ⊢
  have hcw : c < w := by omega
  refine ⟨hcw, Nat.ge_two_pow_of_testBit hset, ?_⟩
  apply Nat.lt_pow_two_of_testBit
  intro j hj
  by_cases hjw : j < w
  · have hbit := hclear (w - 1 - j) (by omega) (by omega)
    rw [inTmp, show w - 1 - (w - 1 - j) = j by omega] at hbit
    exact hbit
  · exact BitVec.getLsbD_of_ge a j (by omega)

end ArianeSoc.CommonCells.Lzc
