import ArianeSoc.Ring
import Mathlib.Algebra.Group.Nat.Defs
import Mathlib.Data.List.Basic
import Mathlib.Logic.Function.Basic
import Mathlib.Tactic.Common

/-!
# The two ends of a network link

`space_avail_top.v` is the credit counter of an output, for a receiver with
`size` slots and a counter of `w` bits.  `valid` and `yummy` are registered
before they count, so that `count_f` is what was free one cycle ago, and
`spc_avail` corrects it by what came since.

`Tracks` says that the registers stand for a number of credits.  Then
`spc_avail` is high exactly if there is one (`Tracks.spcAvail_iff`), the
counter never saturates (`Tracks.countTemp_toNat`), and the registers go on
to stand for the credits after the cycle (`Tracks.next`).

`network_input_blk_multi_out.v` is the input buffer of a port, with `2 ^ b`
slots.  It has no guards of its own: an element that comes in goes to the
tail, and `thanks_in` frees the head and is passed on to the sender as
`yummy_out` one cycle later.

`Holds` says that the buffer holds a list, oldest element first, and
`Holds.next` what it holds after a cycle that neither overflows it nor
takes from it when it is empty.
-/

namespace ArianeSoc.Noc

/-- The registers of `space_avail_top`. -/
structure SpaceAvail (w : ℕ) where
  yummyF : Bool
  validF : Bool
  countF : BitVec w
  isOneF : Bool
  isTwoOrMoreF : Bool

namespace SpaceAvail

variable {w : ℕ} (size : ℕ) (q : SpaceAvail w)

def reset (w : ℕ) : SpaceAvail w where
  yummyF := false
  validF := false
  countF := BitVec.ofNat w size
  isOneF := size = 1
  isTwoOrMoreF := 2 ≤ size

def spcAvail : Bool := q.isTwoOrMoreF || q.yummyF || (q.isOneF && !q.validF)

def up : Bool := q.yummyF && !q.validF

def down : Bool := !q.yummyF && q.validF

/-- The counter; it stays at 0 and at the size rather than to wrap. -/
def countTemp : BitVec w :=
  if q.countF = 0#w then
    if q.up then q.countF + 1#w else q.countF
  else if q.countF = BitVec.ofNat w size then
    if q.down then q.countF - 1#w else q.countF
  else
    match q.up, q.down with
    | true, false => q.countF + 1#w
    | false, true => q.countF - 1#w
    | _, _ => q.countF

/-- All bits above bit 0 are 0. -/
def topBitsZero (count : BitVec w) : Bool := count >>> 1 = 0#w

def next (valid yummy : Bool) : SpaceAvail w where
  yummyF := yummy
  validF := valid
  countF := q.countTemp size
  isOneF := topBitsZero (q.countTemp size) && (q.countTemp size).getLsbD 0
  isTwoOrMoreF := !topBitsZero (q.countTemp size)

/-! ## Credits -/

/-- The registers stand for `held` credits. -/
structure Tracks (size : ℕ) (q : SpaceAvail w) (held : ℕ) : Prop where
  count : q.countF.toNat + q.yummyF.toNat = held + q.validF.toNat
  count_le : q.countF.toNat ≤ size
  held_le : held ≤ size
  sent : q.validF = true → 0 < q.countF.toNat
  one : q.isOneF = true ↔ q.countF.toNat = 1
  two : q.isTwoOrMoreF = true ↔ 2 ≤ q.countF.toNat

variable {size q} {held : ℕ}

theorem topBitsZero_iff {count : BitVec w} :
    topBitsZero count = true ↔ count.toNat < 2 := by
  unfold topBitsZero
  rw [decide_eq_true_iff, ← BitVec.toNat_inj, BitVec.toNat_ushiftRight,
    Nat.shiftRight_eq_div_pow, BitVec.toNat_zero]
  omega

theorem isOne_iff {count : BitVec w} :
    (topBitsZero count && count.getLsbD 0) = true ↔ count.toNat = 1 := by
  rw [Bool.and_eq_true, topBitsZero_iff, BitVec.getLsbD,
    Nat.testBit_zero, decide_eq_true_iff]
  omega

theorem Tracks.reset (h : size < 2 ^ w) :
    Tracks size (SpaceAvail.reset size w) size := by
  have hsize : (BitVec.ofNat w size).toNat = size := by
    rw [BitVec.toNat_ofNat, Nat.mod_eq_of_lt h]
  refine ⟨?_, Nat.le_of_eq hsize, Nat.le_refl _, fun hv => ?_, ?_, ?_⟩
  · show (BitVec.ofNat w size).toNat + 0 = size + 0
    rw [hsize]
  · exact absurd hv Bool.false_ne_true
  · show decide (size = 1) = true ↔ (BitVec.ofNat w size).toNat = 1
    rw [hsize, decide_eq_true_iff]
  · show decide (2 ≤ size) = true ↔ 2 ≤ (BitVec.ofNat w size).toNat
    rw [hsize, decide_eq_true_iff]

/-- There is a credit if and only if `spc_avail` is high. -/
theorem Tracks.spcAvail_iff (h : Tracks size q held) :
    q.spcAvail = true ↔ 0 < held := by
  have hcount := h.count
  have hsent := h.sent
  unfold spcAvail
  rw [Bool.or_eq_true, Bool.or_eq_true, Bool.and_eq_true, h.two, h.one,
    Bool.not_eq_true']
  cases hv : q.validF <;> cases hy : q.yummyF <;>
    simp only [hv, hy, Bool.toNat_false, Bool.toNat_true, true_imp_iff]
      at hcount hsent ⊢ <;>
    simp only [Bool.false_eq_true, Bool.true_eq_false, or_false, or_true,
      and_true, and_false, true_or, true_iff] <;>
    omega

/-- The counter counts every credit that comes and every one that goes. -/
theorem Tracks.countTemp_toNat (h : Tracks size q held)
    (hsize : size < 2 ^ w) : (q.countTemp size).toNat = held := by
  have hcount := h.count
  have hle := h.count_le
  have hheld := h.held_le
  have hlt := q.countF.isLt
  have hzero : q.countF = 0#w ↔ q.countF.toNat = 0 := by
    rw [← BitVec.toNat_inj, BitVec.toNat_zero]
  have hfull : q.countF = BitVec.ofNat w size ↔ q.countF.toNat = size := by
    rw [← BitVec.toNat_inj, BitVec.toNat_ofNat, Nat.mod_eq_of_lt hsize]
  have hadd : q.countF.toNat < size →
      (q.countF + 1#w).toNat = q.countF.toNat + 1 := by
    intro hroom
    rw [BitVec.toNat_add, BitVec.toNat_ofNat,
      Nat.mod_eq_of_lt (by omega : 1 < 2 ^ w), Nat.mod_eq_of_lt (by omega)]
  have hsub : 0 < q.countF.toNat →
      (q.countF - 1#w).toNat = q.countF.toNat - 1 := by
    intro hpos
    have hone : (1#w).toNat = 1 := by
      rw [BitVec.toNat_ofNat]
      exact Nat.mod_eq_of_lt (by omega)
    rw [BitVec.toNat_sub_of_le (by rw [BitVec.le_def]; omega), hone]
  unfold countTemp up down
  cases hv : q.validF <;> cases hy : q.yummyF <;>
    simp only [hv, hy, Bool.toNat_false, Bool.toNat_true] at hcount <;>
    simp only [hzero, hfull, Bool.not_true, Bool.not_false, Bool.and_true,
      Bool.and_false, if_true, Bool.false_eq_true, if_false] <;>
    split_ifs <;> omega

theorem Tracks.next (h : Tracks size q held) (hsize : size < 2 ^ w)
    {valid yummy : Bool} (hvalid : valid = true → 0 < held) {held' : ℕ}
    (hheld : held' + valid.toNat = held + yummy.toNat)
    (hle : held' ≤ size) : Tracks size (q.next size valid yummy) held' := by
  have hcount := h.countTemp_toNat hsize
  refine ⟨?_, ?_, hle, ?_, ?_, ?_⟩
  · show (q.countTemp size).toNat + _ = _
    rw [hcount]
    exact hheld.symm
  · show (q.countTemp size).toNat ≤ size
    rw [hcount]
    exact h.held_le
  · intro hv
    show 0 < (q.countTemp size).toNat
    rw [hcount]
    exact hvalid hv
  · exact isOne_iff
  · show (!topBitsZero (q.countTemp size)) = true ↔
      2 ≤ (q.countTemp size).toNat
    rw [Bool.not_eq_true', ← Bool.not_eq_true, topBitsZero_iff]
    omega

end SpaceAvail

end ArianeSoc.Noc

namespace ArianeSoc.Noc

/-- The registers of `network_input_blk_multi_out`. -/
structure InputBlk (b : ℕ) (α : Type) where
  storageDataF : BitVec b → α
  headPtrF : BitVec b
  tailPtrF : BitVec b
  elementsInArrayF : BitVec (b + 1)
  yummyOutF : Bool

namespace InputBlk

variable {b : ℕ} {α : Type}

/-- The state after reset, which leaves the storage as it is. -/
def reset (storageDataF : BitVec b → α) : InputBlk b α :=
  ⟨storageDataF, 0, 0, 0, false⟩

variable (q : InputBlk b α)

def dataVal : α := q.storageDataF q.headPtrF

def dataAvail : Bool := q.elementsInArrayF ≠ 0

/-- One cycle; `dataIn` is `some` data if `valid_in` is high. -/
def next (dataIn : Option α) (thanksIn : Bool) : InputBlk b α where
  storageDataF :=
    match dataIn with
    | none => q.storageDataF
    | some x => Function.update q.storageDataF q.tailPtrF x
  headPtrF := if thanksIn then q.headPtrF + 1 else q.headPtrF
  tailPtrF := if dataIn.isSome then q.tailPtrF + 1 else q.tailPtrF
  elementsInArrayF :=
    match dataIn.isSome, thanksIn with
    | false, false => q.elementsInArrayF
    | false, true => q.elementsInArrayF - 1
    | true, false => q.elementsInArrayF + 1
    | true, true => q.elementsInArrayF
  yummyOutF := thanksIn

/-! ## The list that a buffer holds -/

/-- The buffer holds `xs`, oldest element first. -/
structure Holds (q : InputBlk b α) (xs : List α) : Prop where
  length_le : xs.length ≤ 2 ^ b
  elements : q.elementsInArrayF.toNat = xs.length
  tail : q.tailPtrF = Ring.slot q.headPtrF xs.length
  storage : ∀ j x, xs[j]? = some x →
    q.storageDataF (Ring.slot q.headPtrF j) = x

/-- The list after a cycle. -/
def after (xs : List α) (dataIn : Option α) (thanksIn : Bool) : List α :=
  (if thanksIn then xs.tail else xs) ++ dataIn.toList

variable {q} {q' : InputBlk b α} {x : α} {xs : List α}

theorem one_toNat : (1 : BitVec (b + 1)).toNat = 1 := by
  show (1#(b + 1)).toNat = 1
  rw [BitVec.toNat_ofNat]
  exact Nat.mod_eq_of_lt (Nat.one_lt_two_pow (by omega))

theorem Holds.reset (storageDataF : BitVec b → α) :
    Holds (InputBlk.reset storageDataF) [] where
  length_le := Nat.zero_le _
  elements := BitVec.toNat_zero
  tail := Ring.slot_zero.symm
  storage j x hx := by simp at hx

theorem Holds.dataAvail_iff (h : Holds q xs) :
    q.dataAvail = true ↔ xs ≠ [] := by
  unfold dataAvail
  rw [decide_eq_true_iff, Ne, Ne, not_iff_not, ← List.length_eq_zero_iff,
    ← h.elements]
  constructor
  · intro hz
    rw [hz]
    exact BitVec.toNat_zero
  · intro hz
    exact BitVec.eq_of_toNat_eq (hz.trans BitVec.toNat_zero.symm)

theorem Holds.dataVal_eq (h : Holds q (x :: xs)) : q.dataVal = x := by
  have hx := h.storage 0 x rfl
  rwa [Ring.slot_zero] at hx

/-- An element comes in at the tail. -/
theorem Holds.push (h : Holds q xs) (hlen : xs.length < 2 ^ b)
    (hh : q'.headPtrF = q.headPtrF) (ht : q'.tailPtrF = q.tailPtrF + 1)
    (he : q'.elementsInArrayF = q.elementsInArrayF + 1)
    (hs : q'.storageDataF = Function.update q.storageDataF q.tailPtrF x) :
    Holds q' (xs ++ [x]) := by
  have helements := h.elements
  have hlength : (xs ++ [x]).length = xs.length + 1 := by simp
  have hpow : 2 ^ (b + 1) = 2 * 2 ^ b := by rw [Nat.pow_succ, Nat.mul_comm]
  refine ⟨by omega, ?_, ?_, fun j y hy => ?_⟩
  · rw [he, BitVec.toNat_add, one_toNat, Nat.mod_eq_of_lt (by omega)]
    omega
  · rw [ht, h.tail, hh, hlength, ← Ring.slot_add]
    rfl
  · have hj : j < xs.length + 1 :=
      hlength ▸ (List.getElem?_eq_some_iff.mp hy).1
    rw [hs, hh, h.tail]
    by_cases hlast : j = xs.length
    · subst hlast
      rw [Function.update_self]
      rw [List.getElem?_append_right (Nat.le_refl _), Nat.sub_self] at hy
      exact Option.some.inj hy
    · have hne : Ring.slot q.headPtrF j ≠
          Ring.slot q.headPtrF xs.length := by
        rw [Ne, Ring.slot_eq_iff (by omega) hlen]
        exact hlast
      rw [Function.update_of_ne hne]
      rw [List.getElem?_append_left (by omega)] at hy
      exact h.storage j y hy

/-- The element at the head leaves. -/
theorem Holds.pop (h : Holds q (x :: xs))
    (hh : q'.headPtrF = q.headPtrF + 1) (ht : q'.tailPtrF = q.tailPtrF)
    (he : q'.elementsInArrayF = q.elementsInArrayF - 1)
    (hs : q'.storageDataF = q.storageDataF) : Holds q' xs := by
  have hle := h.length_le
  have helements := h.elements
  rw [List.length_cons] at hle helements
  have hslot : ∀ j, Ring.slot (q.headPtrF + 1) j =
      Ring.slot q.headPtrF (j + 1) := by
    intro j
    rw [Nat.add_comm, ← Ring.slot_add]
    rfl
  refine ⟨by omega, ?_, ?_, fun j y hy => ?_⟩
  · have hone : (1 : BitVec (b + 1)).toNat = 1 := one_toNat
    rw [he, BitVec.toNat_sub_of_le (by rw [BitVec.le_def]; omega), hone]
    omega
  · rw [ht, h.tail, hh, hslot]
    rfl
  · rw [hs, hh, hslot]
    exact h.storage (j + 1) y (by rwa [List.getElem?_cons_succ])

/-- What the buffer holds after a cycle. -/
theorem Holds.next (h : Holds q xs) {dataIn : Option α} {thanksIn : Bool}
    (hroom : dataIn.isSome = true → xs.length < 2 ^ b)
    (hthanks : thanksIn = true → xs ≠ []) :
    Holds (q.next dataIn thanksIn) (after xs dataIn thanksIn) := by
  unfold after
  cases dataIn with
  | none =>
    rw [Option.toList_none, List.append_nil]
    cases thanksIn with
    | false => exact ⟨h.length_le, h.elements, h.tail, h.storage⟩
    | true =>
      obtain ⟨y, ys, rfl⟩ := List.exists_cons_of_ne_nil (hthanks rfl)
      exact h.pop rfl rfl rfl rfl
  | some x =>
    rw [Option.toList_some]
    have hlen := hroom rfl
    cases thanksIn with
    | false => exact h.push hlen rfl rfl rfl rfl
    | true =>
      obtain ⟨y, ys, rfl⟩ := List.exists_cons_of_ne_nil (hthanks rfl)
      -- the element goes in first, then the head leaves
      have hpush : Holds (q.next (some x) false) (y :: ys ++ [x]) :=
        h.push hlen rfl rfl rfl rfl
      refine hpush.pop rfl rfl ?_ rfl
      show q.elementsInArrayF = q.elementsInArrayF + 1 - 1
      rw [BitVec.add_sub_cancel]

end InputBlk

end ArianeSoc.Noc
