import Mathlib.Data.Finset.Card
import Mathlib.Data.Finset.Range
import Mathlib.Logic.Function.Basic
import Mathlib.Tactic.Common

/-!
# How many entries of a table refer to a thing

A table maps the keys below `N` to what they refer to.  `refs` counts the
keys that refer to `x`; a write of one key moves one reference
(`refs_update`).

Nothing here names a program.
-/

namespace RefCount

variable {β : Type*} [DecidableEq β] {N : ℕ} {f g : ℕ → β} {x y : β} {k : ℕ}

/-- The number of keys below `N` that refer to `x`. -/
def refs (N : ℕ) (f : ℕ → β) (x : β) : ℕ :=
  ((Finset.range N).filter fun k => f k = x).card

theorem refs_pos (hk : k < N) (h : f k = x) : 0 < refs N f x :=
  Finset.card_pos.mpr
    ⟨k, Finset.mem_filter.mpr ⟨Finset.mem_range.mpr hk, h⟩⟩

theorem refs_eq_zero_iff : refs N f x = 0 ↔ ∀ k < N, f k ≠ x := by
  unfold refs
  rw [Finset.card_eq_zero, Finset.filter_eq_empty_iff]
  simp only [Finset.mem_range, ne_eq]

/-- The keys besides `k`. -/
theorem refs_eq_add (hk : k < N) :
    refs N f x = (((Finset.range N).erase k).filter fun j => f j = x).card +
      if f k = x then 1 else 0 := by
  unfold refs
  conv_lhs => rw [← Finset.insert_erase (Finset.mem_range.mpr hk)]
  rw [Finset.filter_insert]
  split_ifs
  · rw [Finset.card_insert_of_notMem]
    intro hmem
    exact Finset.notMem_erase k _ (Finset.mem_filter.mp hmem).1
  · rfl

/-- The old reference of the key is gone, the new one is there. -/
theorem refs_update (hk : k < N) :
    refs N (Function.update f k y) x + (if f k = x then 1 else 0) =
      refs N f x + if y = x then 1 else 0 := by
  have hrest : (((Finset.range N).erase k).filter
      fun j => Function.update f k y j = x) =
      ((Finset.range N).erase k).filter fun j => f j = x := by
    refine Finset.filter_congr fun j hj => ?_
    rw [Function.update_of_ne (Finset.ne_of_mem_erase hj)]
  rw [refs_eq_add hk (f := Function.update f k y), refs_eq_add hk (f := f),
    hrest, Function.update_self]
  omega

end RefCount
