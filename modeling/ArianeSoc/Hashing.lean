import Mathlib.Algebra.Group.Nat.Defs
import Mathlib.Data.List.Basic
import Mathlib.Tactic.Common

/-!
# Hashing with a compression function

A message of any number of bits is padded with a one, zeros and its length
to whole blocks, and a compression function chains the blocks from an
initial value (`digest`).  `hmac` keys such a hash: the inner hash takes the
message behind one mask of the key, the outer hash takes the inner one
behind another.

Nothing here names a design.
-/

namespace Hashing

variable {h b n : ℕ}

/-- The zeros between the one and the length. -/
def zeros (b l n : ℕ) : ℕ := (b - (n + 1 + l) % b) % b

/-- A message with a one, zeros and its length. -/
def pad (b l : ℕ) (m : BitVec n) : BitVec (n + 1 + zeros b l n + l) :=
  m ++ 1#1 ++ 0#(zeros b l n) ++ BitVec.ofNat l n

/-- The blocks of a message, from its front. -/
def blocks (b : ℕ) (m : BitVec n) : List (BitVec b) :=
  (List.range (n / b)).map fun j => m.extractLsb' (n - b * (j + 1)) b

/-- The hash of a message. -/
def digest (compress : BitVec h → BitVec b → BitVec h) (iv : BitVec h)
    (l : ℕ) (m : BitVec n) : BitVec h :=
  (blocks b (pad b l m)).foldl compress iv

/-- The keyed hash of a message, the key being a block. -/
def hmac (compress : BitVec h → BitVec b → BitVec h) (iv : BitVec h)
    (l : ℕ) (ipad opad key : BitVec b) (m : BitVec n) : BitVec h :=
  digest compress iv l ((key ^^^ opad) ++
    digest compress iv l ((key ^^^ ipad) ++ m))

/-! ## The blocks of a message -/

section Blocks

theorem append_pad {a u v w : ℕ} (x : BitVec a) (y : BitVec u)
    (z : BitVec v) (l : BitVec w) :
    x ++ y ++ z ++ l =
      (x ++ (y ++ z ++ l)).cast (by simp only [Nat.add_assoc]) := by
  refine BitVec.eq_of_getLsbD_eq fun k _ => ?_
  simp only [BitVec.getLsbD_cast, BitVec.getLsbD_append]
  split_ifs <;> first | omega | rfl | (congr 1; omega)

theorem append_append_pad {a n u v w : ℕ} (x : BitVec a) (m : BitVec n)
    (y : BitVec u) (z : BitVec v) (l : BitVec w) :
    x ++ m ++ y ++ z ++ l =
      (x ++ (m ++ y ++ z ++ l)).cast (by simp only [Nat.add_assoc]) := by
  refine BitVec.eq_of_getLsbD_eq fun k _ => ?_
  simp only [BitVec.getLsbD_cast, BitVec.getLsbD_append]
  split_ifs <;> first | omega | rfl | (congr 1; omega)

variable {b n n' u v w : ℕ}

theorem blocks_cast (h : n = n') (m : BitVec n) :
    blocks b (m.cast h) = blocks b m := by
  subst h
  rfl

variable (hb : 0 < b)
include hb

theorem blocks_self (x : BitVec b) : blocks b x = [x] := by
  rw [blocks, Nat.div_self hb]
  show [x.extractLsb' (b - b * (0 + 1)) b] = [x]
  rw [Nat.zero_add, Nat.mul_one, Nat.sub_self, BitVec.extractLsb'_eq_self]

/-- A block in front of a message. -/
theorem blocks_append (x : BitVec b) (y : BitVec n) :
    blocks b (x ++ y) = x :: blocks b y := by
  have hlen : (b + n) / b = n / b + 1 := by
    rw [Nat.add_comm, Nat.add_div_right n hb]
  rw [blocks, hlen, List.range_succ_eq_map, List.map_cons, List.map_map,
    blocks]
  congr 1
  · rw [Nat.zero_add, Nat.mul_one, Nat.add_sub_cancel_left]
    exact BitVec.extractLsb'_append_eq_left
  · refine List.map_congr_left fun j hj => ?_
    have hfits : b * (j + 1) ≤ n := by
      have hj' : j + 1 ≤ n / b := List.mem_range.mp hj
      calc b * (j + 1) ≤ b * (n / b) := Nat.mul_le_mul_left b hj'
        _ ≤ n := Nat.mul_div_le n b
    have hstart : b + n - b * (j + 1 + 1) = n - b * (j + 1) := by
      rw [Nat.mul_add b (j + 1) 1, Nat.mul_one]
      omega
    have hle : b ≤ b * (j + 1) := Nat.le_mul_of_pos_right b (Nat.succ_pos j)
    show (x ++ y).extractLsb' (b + n - b * (j + 1 + 1)) b = _
    rw [hstart]
    exact BitVec.extractLsb'_append_eq_of_add_le (by omega)

/-- A block in front of the rest of a message and its padding. -/
theorem blocks_append_pad (x : BitVec b) (y : BitVec u) (z : BitVec v)
    (l : BitVec w) :
    blocks b (x ++ y ++ z ++ l) = x :: blocks b (y ++ z ++ l) := by
  rw [append_pad, blocks_cast, blocks_append hb]

/-- A block in front of a message that is padded behind it. -/
theorem blocks_pad_append (x : BitVec b) (m : BitVec n) (l : ℕ) :
    blocks b (pad b l (x ++ m)) =
      x :: blocks b (m ++ 1#1 ++ 0#(zeros b l (b + n)) ++
        BitVec.ofNat l (b + n)) := by
  rw [pad, append_append_pad, blocks_cast, blocks_append hb]

end Blocks

end Hashing
