import Mathlib.Data.List.Perm.Basic
import Mathlib.Tactic.Common

/-!
# Operations in another order

A list of operations is applied from the left.  Operations that do not
conflict commute, and of two that conflict the earlier one is finished
before the later one starts.  Then `foldl_eq_of_perm` says that any order
that respects what is finished before what has the same result.

Nothing here names a design.
-/

namespace Reorder

variable {α β : Type*} {f : β → α → β} {conflict before : α → α → Prop}

/-- An operation may go in front of others that it commutes with. -/
theorem foldl_move {x : α} {as : List α}
    (hcomm : ∀ b, ∀ a ∈ as, f (f b a) x = f (f b x) a) (bs : List α)
    (b : β) : (as ++ x :: bs).foldl f b = (x :: (as ++ bs)).foldl f b := by
  induction as generalizing b with
  | nil => rfl
  | cons a as ih =>
    have hrest := ih (fun c a' ha' => hcomm c a' (List.mem_cons_of_mem _ ha'))
    have hswap := hcomm b a List.mem_cons_self
    calc (a :: as ++ x :: bs).foldl f b
        = (x :: (as ++ bs)).foldl f (f b a) := hrest (f b a)
      _ = (as ++ bs).foldl f (f (f b a) x) := rfl
      _ = (as ++ bs).foldl f (f (f b x) a) := by rw [hswap]
      _ = (x :: (a :: as ++ bs)).foldl f b := rfl

/-- Any order that respects what is finished before what has the same
result. -/
theorem foldl_eq_of_perm
    (hcomm : ∀ b x y, ¬conflict x y → f (f b y) x = f (f b x) y)
    {xs ys : List α} (hperm : ys.Perm xs)
    (hxs : xs.Pairwise fun x y => conflict x y → before x y)
    (hys : ys.Pairwise fun x y => ¬before y x) (b : β) :
    ys.foldl f b = xs.foldl f b := by
  induction xs generalizing ys b with
  | nil =>
    rw [List.perm_nil.mp hperm]
  | cons x xs ih =>
    obtain ⟨hx, hxs'⟩ := List.pairwise_cons.mp hxs
    obtain ⟨as, bs, rfl⟩ := List.append_of_mem
      (hperm.mem_iff.mpr List.mem_cons_self)
    have hrest : (as ++ bs).Perm xs :=
      List.Perm.cons_inv (List.perm_middle.symm.trans hperm)
    have hparts := List.pairwise_append.mp hys
    -- what comes before `x` does not conflict with it
    have hfree : ∀ c, ∀ a ∈ as, f (f c a) x = f (f c x) a := by
      intro c a ha
      refine hcomm c x a fun hconf => ?_
      have hmem : a ∈ xs :=
        hrest.mem_iff.mp (List.mem_append.mpr (Or.inl ha))
      exact hparts.2.2 a ha x List.mem_cons_self (hx a hmem hconf)
    have hsub : (as ++ bs).Sublist (as ++ x :: bs) :=
      List.Sublist.append_left (List.sublist_cons_self x bs) as
    rw [foldl_move hfree, List.foldl_cons, List.foldl_cons]
    exact ih hrest hxs' (hys.sublist hsub) _

end Reorder
