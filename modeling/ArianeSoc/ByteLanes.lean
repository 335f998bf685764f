import Mathlib.Algebra.Group.Nat.Defs
import Mathlib.Data.Nat.Bits
import Mathlib.Tactic.Common

/-!
# The bytes of a word and of a memory

`byte x j` is byte `j` of a word of any width and `gather w f n` the word
whose lowest `n` bytes are `f 0`, `f 1` and so on.  A memory gives a byte for
every address; `write` stores the bytes of a word that a mask of lanes
names, and `read` gathers a word.

* `byte_shiftLeft`, `byte_shiftRight`, `byte_extractLsb'` and
  `byte_replicate` say which byte of the operand a byte of the result is.
* `write_of_lanes` is what a write does whose mask names the lanes from `o`
  to `o + n`, and `byte_read` what a read finds.

Nothing here names a design.
-/

namespace ByteLanes

variable {w n m : ℕ}

/-- Byte `j`, counted from the lowest. -/
def byte (x : BitVec w) (j : ℕ) : BitVec 8 :=
  x.extractLsb' (8 * j) 8

theorem getLsbD_byte (x : BitVec w) (j : ℕ) {i : ℕ} (hi : i < 8) :
    (byte x j).getLsbD i = x.getLsbD (8 * j + i) := by
  rw [byte, BitVec.getLsbD_extractLsb', decide_eq_true hi, Bool.true_and]

/-- Two bytes are equal if their bits are. -/
theorem byte_congr {x : BitVec w} {y : BitVec n} {j k : ℕ}
    (h : ∀ i < 8, x.getLsbD (8 * j + i) = y.getLsbD (8 * k + i)) :
    byte x j = byte y k := by
  apply BitVec.eq_of_getLsbD_eq
  intro i hi
  rw [getLsbD_byte x j hi, getLsbD_byte y k hi]
  exact h i hi

theorem eq_of_byte_eq {x y : BitVec w} (hw : w ≤ 8 * n)
    (h : ∀ j < n, byte x j = byte y j) : x = y := by
  apply BitVec.eq_of_getLsbD_eq
  intro i hi
  have hmod : i % 8 < 8 := Nat.mod_lt i (by decide)
  have hbit := congrArg (BitVec.getLsbD · (i % 8)) (h (i / 8) (by omega))
  simp only [getLsbD_byte _ _ hmod, Nat.div_add_mod] at hbit
  exact hbit

@[simp] theorem byte_zero (j : ℕ) : byte (0#w) j = 0#8 := by
  apply BitVec.eq_of_getLsbD_eq
  intro i hi
  rw [getLsbD_byte _ j hi, BitVec.getLsbD_zero, BitVec.getLsbD_zero]

theorem byte_shiftLeft (x : BitVec w) {o j : ℕ} (h : 8 * (o + j) + 8 ≤ w) :
    byte (x <<< (8 * o)) (o + j) = byte x j := by
  apply byte_congr
  intro i hi
  have hlt : 8 * (o + j) + i < w := by omega
  have hge : ¬ 8 * (o + j) + i < 8 * o := by omega
  have hsub : 8 * (o + j) + i - 8 * o = 8 * j + i := by omega
  rw [BitVec.getLsbD_shiftLeft, decide_eq_true hlt, decide_eq_false hge,
    hsub]
  rfl

theorem byte_shiftRight (x : BitVec w) (o j : ℕ) :
    byte (x >>> (8 * o)) j = byte x (o + j) := by
  apply byte_congr
  intro i _
  rw [BitVec.getLsbD_ushiftRight]
  congr 1
  omega

theorem byte_extractLsb' (x : BitVec w) {a j : ℕ} (h : 8 * j + 8 ≤ n) :
    byte (x.extractLsb' (8 * a) n) j = byte x (a + j) := by
  apply byte_congr
  intro i hi
  have hlt : 8 * j + i < n := by omega
  rw [BitVec.getLsbD_extractLsb', decide_eq_true hlt, Bool.true_and]
  congr 1
  omega

/-- A byte of the first copy. -/
theorem byte_replicate (x : BitVec w) {k j : ℕ} (hk : 0 < k)
    (h : 8 * j + 8 ≤ w) :
    byte (x.replicate k) j = byte x j := by
  apply byte_congr
  intro i hi
  have hlt : 8 * j + i < w := by omega
  have hle : w ≤ w * k := Nat.le_mul_of_pos_right w hk
  rw [BitVec.getLsbD_replicate, decide_eq_true (by omega), Bool.true_and,
    Nat.mod_eq_of_lt hlt]

/-! ## Bytes put together -/

theorem byte_append_zero (x : BitVec w) (y : BitVec 8) :
    byte (x ++ y) 0 = y := by
  apply BitVec.eq_of_getLsbD_eq
  intro i hi
  rw [getLsbD_byte _ 0 hi, BitVec.getLsbD_append, Nat.mul_zero, Nat.zero_add,
    if_pos hi]

theorem byte_append_succ (x : BitVec w) (y : BitVec 8) (j : ℕ) :
    byte (x ++ y) (j + 1) = byte x j := by
  apply byte_congr
  intro i _
  rw [BitVec.getLsbD_append, if_neg (by omega)]
  congr 1
  omega

/-! ## Words from bytes -/

/-- The word of the bytes `f 0` to `f (n - 1)`. -/
def gather (w : ℕ) (f : ℕ → BitVec 8) : ℕ → BitVec w
  | 0 => 0#w
  | n + 1 => gather w f n ||| ((f n).setWidth w <<< (8 * n))

theorem getLsbD_gather_of_ge (f : ℕ → BitVec 8) {i : ℕ} (h : 8 * n ≤ i) :
    (gather w f n).getLsbD i = false := by
  induction n with
  | zero => exact BitVec.getLsbD_zero
  | succ n ih =>
    have hbit : (f n).getLsbD (i - 8 * n) = false :=
      BitVec.getLsbD_of_ge (f n) _ (by omega)
    rw [gather, BitVec.getLsbD_or, ih (by omega), BitVec.getLsbD_shiftLeft,
      BitVec.getLsbD_setWidth, hbit]
    simp

theorem byte_gather (f : ℕ → BitVec 8) {j : ℕ} (hj : j < n)
    (hn : 8 * n ≤ w) : byte (gather w f n) j = f j := by
  induction n with
  | zero => exact absurd hj (Nat.not_lt_zero j)
  | succ n ih =>
    apply BitVec.eq_of_getLsbD_eq
    intro i hi
    have hlt : 8 * j + i < w := by omega
    rw [getLsbD_byte _ j hi, gather, BitVec.getLsbD_or,
      BitVec.getLsbD_shiftLeft, BitVec.getLsbD_setWidth,
      decide_eq_true hlt]
    rcases Nat.lt_succ_iff_lt_or_eq.1 hj with hjn | rfl
    · -- the byte added last is above this one
      have hbelow : 8 * j + i < 8 * n := by omega
      rw [← getLsbD_byte _ j hi, ih hjn (by omega), decide_eq_true hbelow]
      simp
    · have habove : ¬ 8 * j + i < 8 * j := by omega
      have hsub : 8 * j + i - 8 * j = i := by omega
      rw [getLsbD_gather_of_ge f (by omega), decide_eq_false habove, hsub,
        decide_eq_true (show i < w by omega)]
      rfl

/-! ## Memories -/

/-- A byte for every address. -/
abbrev Memory (m : ℕ) := BitVec m → BitVec 8

/-- The bytes of the word at an address. -/
def Memory.read (mem : Memory m) (w : ℕ) (a : BitVec m) : BitVec w :=
  gather w (fun j => mem (a + BitVec.ofNat m j)) (w / 8)

/-- The memory after the bytes of the lanes in `strb` have been stored. -/
def Memory.write (mem : Memory m) (a : BitVec m) (strb : BitVec n)
    (data : BitVec w) : Memory m :=
  fun b =>
    if strb.getLsbD (b - a).toNat then byte data (b - a).toNat else mem b

variable {mem : Memory m} {a : BitVec m}

theorem byte_read {j : ℕ} (hj : 8 * j + 8 ≤ w) :
    byte (mem.read w a) j = mem (a + BitVec.ofNat m j) :=
  byte_gather (fun j => mem (a + BitVec.ofNat m j)) (by omega) (by omega)

/-- The addresses of the `n` lanes from `o`. -/
theorem toNat_sub_lt_iff {b : BitVec m} {o : ℕ} (h : o + n ≤ 2 ^ m) :
    (b - (a + BitVec.ofNat m o)).toNat < n ↔
      o ≤ (b - a).toNat ∧ (b - a).toNat < o + n := by
  have hd := (b - a).isLt
  rcases Nat.eq_zero_or_pos n with rfl | hpos
  · omega
  have ho : o % 2 ^ m = o := Nat.mod_eq_of_lt (by omega)
  rw [← BitVec.sub_sub, BitVec.toNat_sub, BitVec.toNat_ofNat, ho]
  by_cases hle : o ≤ (b - a).toNat
  · have hsum : 2 ^ m - o + (b - a).toNat = 2 ^ m + ((b - a).toNat - o) := by
      omega
    rw [hsum, Nat.add_mod_left, Nat.mod_eq_of_lt (by omega)]
    omega
  · rw [Nat.mod_eq_of_lt (by omega)]
    omega

theorem toNat_sub_of_lt {b : BitVec m} {o : ℕ} (h : o + n ≤ 2 ^ m)
    (hb : (b - (a + BitVec.ofNat m o)).toNat < n) :
    (b - a).toNat = o + (b - (a + BitVec.ofNat m o)).toNat := by
  have hlane := (toNat_sub_lt_iff h).1 hb
  have ho : o % 2 ^ m = o := Nat.mod_eq_of_lt (by omega)
  have hd := (b - a).isLt
  rw [← BitVec.sub_sub, BitVec.toNat_sub (b - a), BitVec.toNat_ofNat, ho]
  have hsum : 2 ^ m - o + (b - a).toNat = 2 ^ m + ((b - a).toNat - o) := by
    omega
  rw [hsum, Nat.add_mod_left, Nat.mod_eq_of_lt (by omega)]
  omega

/-- The mask of the `k` lanes from `o`. -/
theorem getLsbD_lanes {o k : ℕ} (h : o + k ≤ n) (j : ℕ) :
    (((BitVec.allOnes k).setWidth n) <<< o).getLsbD j =
      decide (o ≤ j ∧ j < o + k) := by
  rw [BitVec.getLsbD_shiftLeft, BitVec.getLsbD_setWidth,
    BitVec.getLsbD_allOnes]
  by_cases hlow : j < o
  · rw [decide_eq_true hlow,
      decide_eq_false (show ¬ (o ≤ j ∧ j < o + k) by omega)]
    simp
  · rw [decide_eq_false hlow]
    by_cases hhigh : j < o + k
    · rw [decide_eq_true (show j < n by omega),
        decide_eq_true (show j - o < n by omega),
        decide_eq_true (show j - o < k by omega),
        decide_eq_true (show o ≤ j ∧ j < o + k by omega)]
      rfl
    · rw [decide_eq_false (show ¬ j - o < k by omega),
        decide_eq_false (show ¬ (o ≤ j ∧ j < o + k) by omega)]
      simp

/-- A write of the `k` lanes from `o` stores at the `k` addresses from
`a + o`. -/
theorem write_of_lanes {strb : BitVec n} {data : BitVec w} {o k : ℕ}
    (h : o + k ≤ 2 ^ m)
    (hstrb : ∀ j, strb.getLsbD j = decide (o ≤ j ∧ j < o + k))
    (b : BitVec m) :
    mem.write a strb data b =
      if (b - (a + BitVec.ofNat m o)).toNat < k then
        byte data (o + (b - (a + BitVec.ofNat m o)).toNat)
      else mem b := by
  rw [Memory.write, hstrb]
  by_cases hb : (b - (a + BitVec.ofNat m o)).toNat < k
  · rw [if_pos hb, if_pos (decide_eq_true ((toNat_sub_lt_iff h).1 hb)),
      toNat_sub_of_lt h hb]
  · have hout : ¬ (o ≤ (b - a).toNat ∧ (b - a).toNat < o + k) :=
      fun hlane => hb ((toNat_sub_lt_iff h).2 hlane)
    rw [if_neg hb, decide_eq_false hout, if_neg Bool.false_ne_true]

end ByteLanes
