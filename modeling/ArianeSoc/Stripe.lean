import Mathlib.Data.List.Basic
import Mathlib.Tactic.Common

/-!
# Striped lists

A list is dealt out to `2 ^ b` lanes in turn: `stripe k xs` is what lane
`k` gets if the first element goes to lane `0`.  Lanes are numbered by
`BitVec b`, so that they wrap by themselves.

* `stripe_cons` and `tail_stripe_zero` take the first element away: every
  lane then counts from the lane behind the one that had it.
* `stripe_append` deals out more elements.
* `length_stripe` is the length of a lane of two.

Nothing here names a design.
-/

namespace Stripe

variable {b : ℕ} {α β : Type*}

/-- The elements of lane `k`. -/
def stripe (k : BitVec b) : List α → List α
  | [] => []
  | x :: xs =>
    if k = 0#b then x :: stripe (k - 1#b) xs else stripe (k - 1#b) xs

variable {k : BitVec b} {x : α} {xs ys : List α}

@[simp] theorem stripe_nil : stripe k ([] : List α) = [] := rfl

theorem stripe_cons_zero :
    stripe (0#b) (x :: xs) = x :: stripe (0#b - 1#b) xs :=
  if_pos rfl

theorem stripe_cons_of_ne (h : k ≠ 0#b) :
    stripe k (x :: xs) = stripe (k - 1#b) xs :=
  if_neg h

theorem tail_stripe_zero :
    (stripe (0#b) (x :: xs)).tail = stripe (0#b - 1#b) xs := by
  rw [stripe_cons_zero, List.tail_cons]

theorem stripe_append :
    stripe k (xs ++ ys) =
      stripe k xs ++ stripe (k - BitVec.ofNat b xs.length) ys := by
  induction xs generalizing k with
  | nil => simp
  | cons x xs ih =>
    have hlen : k - 1#b - BitVec.ofNat b xs.length =
        k - BitVec.ofNat b (x :: xs).length := by
      rw [List.length_cons, Nat.add_comm, BitVec.ofNat_add,
        BitVec.sub_sub]
    by_cases hk : k = 0#b
    · subst hk
      rw [List.cons_append, stripe_cons_zero, stripe_cons_zero, ih, hlen]
      rfl
    · rw [List.cons_append, stripe_cons_of_ne hk, stripe_cons_of_ne hk, ih,
        hlen]

/-- Of two lanes the first one gets the odd element. -/
theorem length_stripe (k : BitVec 1) (xs : List α) :
    (stripe k xs).length = (xs.length + 1 - k.toNat) / 2 := by
  induction xs generalizing k with
  | nil =>
    have hk := k.isLt
    simp only [stripe_nil, List.length_nil]
    omega
  | cons x xs ih =>
    rw [List.length_cons]
    rcases BitVec.eq_zero_or_eq_one k with rfl | rfl
    · rw [stripe_cons_zero, List.length_cons, ih]
      show (xs.length + 1 - 1) / 2 + 1 = (xs.length + 1 + 1 - 0) / 2
      omega
    · rw [stripe_cons_of_ne (by decide), ih]
      show (xs.length + 1 - 0) / 2 = (xs.length + 1 + 1 - 1) / 2
      omega

end Stripe
