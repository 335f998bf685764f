import Mathlib.Algebra.Group.Nat.Defs
import Mathlib.Data.List.Basic
import Mathlib.Tactic.Common

/-!
# The arbiter `rr_arb_tree` and `lzc`

`common_cells/src/rr_arb_tree.sv` for `2 ^ n` inputs, with and without
`LockIn`.  At each node of the tree the right half is taken if the left one
has no request, or if both have one and the bit of the round-robin counter
for this level is set.

* `pick_spec`: with a request, the index is one that requests.
* `Locked`: what the decisions of a locked arbiter stand for, as long as a
  request that was not granted stays.

`lzc` counts the trailing zeros of a vector.
-/

namespace ArianeSoc.CommonCells

/-! ## The first set bit -/

/-- The number of trailing zeros of `n` bits, `n - 1` if all are zero. -/
def lzc (n : ℕ) (p : ℕ → Bool) : ℕ :=
  ((List.range n).find? p).getD (n - 1)

/-- All of `n` bits are zero. -/
def lzcEmpty (n : ℕ) (p : ℕ → Bool) : Bool := !(List.range n).any p

section Lzc

variable {n k : ℕ} {p : ℕ → Bool}

theorem lzc_spec (hk : k < n) (hp : p k = true) :
    lzc n p < n ∧ p (lzc n p) = true := by
  rw [lzc]
  cases hfind : (List.range n).find? p with
  | none =>
    have hnot := List.find?_eq_none.mp hfind k (List.mem_range.mpr hk)
    exact absurd hp hnot
  | some m =>
    exact ⟨List.mem_range.mp (List.mem_of_find?_eq_some hfind),
      List.find?_some hfind⟩

theorem lzcEmpty_iff : lzcEmpty n p = false ↔ ∃ k, k < n ∧ p k = true := by
  simp [lzcEmpty]

end Lzc

/-! ## The tree -/

/-- A request among the `2 ^ n` inputs from `base` on. -/
def anyReq (req : ℕ → Bool) : ℕ → ℕ → Bool
  | 0, base => req base
  | n + 1, base => anyReq req n base || anyReq req n (base + 2 ^ n)

/-- The index that the tree selects. -/
def pick (req : ℕ → Bool) (rr : ℕ) : ℕ → ℕ → ℕ
  | 0, base => base
  | n + 1, base =>
    if !anyReq req n base ||
        (anyReq req n (base + 2 ^ n) && rr.testBit n) then
      pick req rr n (base + 2 ^ n)
    else pick req rr n base

section Tree

variable {req : ℕ → Bool} {r : ℕ}

theorem anyReq_iff (n base : ℕ) :
    anyReq req n base = true ↔
      ∃ k, base ≤ k ∧ k < base + 2 ^ n ∧ req k = true := by
  induction n generalizing base with
  | zero =>
    constructor
    · intro h
      exact ⟨base, Nat.le_refl _, by omega, h⟩
    · rintro ⟨k, hlo, hhi, hk⟩
      have heq : k = base := by omega
      rw [heq] at hk
      exact hk
  | succ n ih =>
    have hpow : 2 ^ (n + 1) = 2 ^ n + 2 ^ n := by omega
    rw [anyReq, Bool.or_eq_true, ih, ih]
    constructor
    · rintro (⟨k, hlo, hhi, hk⟩ | ⟨k, hlo, hhi, hk⟩)
      · exact ⟨k, hlo, by omega, hk⟩
      · exact ⟨k, by omega, by omega, hk⟩
    · rintro ⟨k, hlo, hhi, hk⟩
      by_cases hleft : k < base + 2 ^ n
      · exact Or.inl ⟨k, hlo, hleft, hk⟩
      · exact Or.inr ⟨k, by omega, by omega, hk⟩

/-- The tree selects a request if there is one. -/
theorem pick_spec (n base : ℕ) (h : anyReq req n base = true) :
    base ≤ pick req r n base ∧ pick req r n base < base + 2 ^ n ∧
      req (pick req r n base) = true := by
  induction n generalizing base with
  | zero => exact ⟨Nat.le_refl _, by rw [pick]; omega, h⟩
  | succ n ih =>
    have hpow : 2 ^ (n + 1) = 2 ^ n + 2 ^ n := by omega
    rw [anyReq, Bool.or_eq_true] at h
    rw [pick]
    split_ifs with hright
    · have hreq : anyReq req n (base + 2 ^ n) = true := by
        rw [Bool.or_eq_true, Bool.and_eq_true, Bool.not_eq_true'] at hright
        rcases hright with hleft | ⟨hreq, -⟩
        · rw [hleft] at h
          exact h.resolve_left Bool.false_ne_true
        · exact hreq
      obtain ⟨hlo, hhi, hk⟩ := ih (base + 2 ^ n) hreq
      exact ⟨by omega, by omega, hk⟩
    · have hreq : anyReq req n base = true := by
        rw [Bool.or_eq_true, not_or, Bool.not_eq_true',
          Bool.not_eq_false] at hright
        exact hright.1
      obtain ⟨hlo, hhi, hk⟩ := ih base hreq
      exact ⟨hlo, by omega, hk⟩

end Tree

/-! ## The arbiter -/

/-- The registers; those of the lock are used with `LockIn` only. -/
structure RrArbTree where
  rr : ℕ
  lock : Bool
  reqQ : ℕ → Bool

namespace RrArbTree

def reset : RrArbTree := ⟨0, false, fun _ => false⟩

variable (n : ℕ) (a : RrArbTree) (req : ℕ → Bool) (gnt : Bool)

/-- The next value of the round-robin counter. -/
def rrNext (reqO : Bool) : ℕ :=
  if gnt && reqO then (if a.rr = 2 ^ n - 1 then 0 else a.rr + 1) else a.rr

/-- The index without `LockIn`. -/
def idx : ℕ := pick req a.rr n 0

/-- One cycle without `LockIn`. -/
def next : RrArbTree :=
  { a with rr := a.rrNext n gnt (anyReq req n 0) }

/-- The requests that a locked arbiter decides on. -/
def reqD : ℕ → Bool := if a.lock then a.reqQ else req

/-- The index with `LockIn`. -/
def idxLocked : ℕ := pick (a.reqD req) a.rr n 0

/-- One cycle with `LockIn`. -/
def nextLocked : RrArbTree where
  rr := a.rrNext n gnt (anyReq (a.reqD req) n 0)
  lock := anyReq (a.reqD req) n 0 && !gnt
  reqQ := a.reqD req

/-- A locked arbiter decides on requests that are still there. -/
def Locked : Prop :=
  a.lock = true →
    anyReq a.reqQ n 0 = true ∧ ∀ k, k < 2 ^ n → a.reqQ k = true → req k = true

variable {n a req gnt} {req' : ℕ → Bool}

theorem idx_spec (h : anyReq req n 0 = true) :
    a.idx n req < 2 ^ n ∧ req (a.idx n req) = true := by
  obtain ⟨-, hlt, hreq⟩ := pick_spec (r := a.rr) n 0 h
  rw [Nat.zero_add] at hlt
  exact ⟨hlt, hreq⟩

theorem locked_reset : Locked n reset req := fun h =>
  absurd h Bool.false_ne_true

/-- A locked arbiter selects a request if there is one. -/
theorem Locked.idx_spec (h : Locked n a req) (hany : anyReq req n 0 = true) :
    a.idxLocked n req < 2 ^ n ∧ req (a.idxLocked n req) = true := by
  rw [idxLocked, reqD]
  split_ifs with hlock
  · obtain ⟨hq, hstay⟩ := h hlock
    obtain ⟨-, hlt, hreq⟩ := pick_spec (r := a.rr) n 0 hq
    rw [Nat.zero_add] at hlt
    exact ⟨hlt, hstay _ hlt hreq⟩
  · obtain ⟨-, hlt, hreq⟩ := pick_spec (r := a.rr) n 0 hany
    rw [Nat.zero_add] at hlt
    exact ⟨hlt, hreq⟩

/-- A cycle keeps it if the requests stay until one is granted. -/
theorem Locked.next (h : Locked n a req)
    (hstay : gnt = false → ∀ k, k < 2 ^ n → req k = true → req' k = true) :
    Locked n (a.nextLocked n req gnt) req' := by
  intro hlock
  have hparts : anyReq (a.reqD req) n 0 = true ∧ gnt = false := by
    simpa [nextLocked] using hlock
  refine ⟨hparts.1, fun k hk hreq => hstay hparts.2 k hk ?_⟩
  have hreqD : a.reqD req k = true := hreq
  rw [reqD] at hreqD
  split_ifs at hreqD with hl
  · exact (h hl).2 k hk hreqD
  · exact hreqD

end RrArbTree

end ArianeSoc.CommonCells
