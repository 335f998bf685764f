import Mathlib.Algebra.Group.Nat.Defs
import Mathlib.Data.Set.Basic
import Mathlib.Logic.Function.Basic
import Mathlib.Tactic.Common

/-!
# Circular windows and queues

An array of `2 ^ b` cells is indexed by `BitVec b`, so that an index wraps
by itself.  `slot start j` is the cell `j` places behind `start` and
`window start n` the first `n` cells from `start` on.

* `slot_add`, `slot_eq_iff` and `exists_slot` say how cells are numbered.
* `mem_window_add` and `mem_window_drop` say what a window gains at its end
  and what it loses at its start.

A queue of at most `2 ^ b` elements lies in such an array from the cell
`start` on.  A cell carries a flag that says whether it belongs to the queue,
and `val` is what a cell holds.  `Holds` says that the array holds the list
`xs`, oldest element first.

* `Holds.push`, `Holds.pop` and `Holds.clear` are the three operations,
  each an update of single cells.
* `Holds.flag_start` and `Holds.val_start` are what the cell at `start`
  says.

A log of any length goes through such an array if the element of number `i`
takes the cell `i` and the elements before `lo` are given up.  `Keeps` says
that the array holds the others, and `Flags` that an array of flags marks
their cells.

Nothing here names a design.
-/

namespace Ring

variable {b : ℕ} {start k : BitVec b} {j j' m n : ℕ}

/-- The cell `j` places behind `start`. -/
def slot (start : BitVec b) (j : ℕ) : BitVec b :=
  start + BitVec.ofNat b j

/-- The first `n` cells from `start` on. -/
def window (start : BitVec b) (n : ℕ) : Set (BitVec b) :=
  {k | (k - start).toNat < n}

theorem mem_window : k ∈ window start n ↔ (k - start).toNat < n := Iff.rfl

@[simp] theorem slot_zero : slot start 0 = start := by
  simp [slot]

theorem slot_add : slot (slot start m) j = slot start (m + j) := by
  rw [slot, slot, slot, BitVec.add_assoc, BitVec.ofNat_add]

/-- How far a cell is from the start. -/
theorem slot_sub_toNat (h : j < 2 ^ b) : (slot start j - start).toNat = j := by
  rw [slot, BitVec.add_comm, BitVec.add_sub_cancel, BitVec.toNat_ofNat]
  exact Nat.mod_eq_of_lt h

theorem slot_of_sub : slot start (k - start).toNat = k := by
  rw [slot, BitVec.ofNat_toNat, BitVec.setWidth_eq, BitVec.add_comm,
    BitVec.sub_add_cancel]

theorem slot_eq_iff (hj : j < 2 ^ b) (hj' : j' < 2 ^ b) :
    slot start j = slot start j' ↔ j = j' := by
  refine ⟨fun h => ?_, fun h => by rw [h]⟩
  have hd : (slot start j - start).toNat = (slot start j' - start).toNat := by
    rw [h]
  rwa [slot_sub_toNat hj, slot_sub_toNat hj'] at hd

theorem slot_mem_window (hj : j < 2 ^ b) :
    slot start j ∈ window start n ↔ j < n := by
  rw [mem_window, slot_sub_toNat hj]

/-- Every cell of a window has a number. -/
theorem exists_slot (h : k ∈ window start n) :
    ∃ j, j < n ∧ j < 2 ^ b ∧ slot start j = k :=
  ⟨(k - start).toNat, h, (k - start).isLt, slot_of_sub⟩

@[simp] theorem not_mem_window_zero : k ∉ window start 0 :=
  Nat.not_lt_zero _

/-- A window of one more cell. -/
theorem mem_window_succ (hn : n < 2 ^ b) :
    k ∈ window start (n + 1) ↔ k ∈ window start n ∨ k = slot start n := by
  rw [mem_window, mem_window, Nat.lt_succ_iff_lt_or_eq]
  refine or_congr Iff.rfl ⟨fun h => ?_, fun h => ?_⟩
  · rw [← h, slot_of_sub]
  · rw [h, slot_sub_toNat hn]

/-- The window behind the first `m` cells. -/
theorem mem_window_drop (h : m + n ≤ 2 ^ b) :
    k ∈ window (slot start m) n ↔
      k ∈ window start (m + n) ∧ k ∉ window start m := by
  constructor
  · intro hk
    obtain ⟨j, hj, -, rfl⟩ := exists_slot hk
    rw [slot_add, slot_mem_window (by omega), slot_mem_window (by omega)]
    omega
  · rintro ⟨hk, hm⟩
    obtain ⟨j, hj, hjb, rfl⟩ := exists_slot hk
    rw [slot_mem_window hjb, Nat.not_lt] at hm
    obtain ⟨d, rfl⟩ := Nat.exists_eq_add_of_le hm
    rw [← slot_add, slot_mem_window (by omega)]
    omega

end Ring

/-! ## Queues -/

namespace Ring

variable {b : ℕ} {α β : Type*} {val : α → β} {flag : α → Bool}
  {f : BitVec b → α} {start k : BitVec b} {x : β} {xs : List β} {e : α}

/-- The array `f` holds the queue `xs` from the cell `start` on. -/
structure Holds (val : α → β) (flag : α → Bool) (f : BitVec b → α)
    (start : BitVec b) (xs : List β) : Prop where
  length_le : xs.length ≤ 2 ^ b
  val_slot : ∀ j x, xs[j]? = some x → val (f (slot start j)) = x
  flag_iff : ∀ k, flag (f k) = true ↔ k ∈ window start xs.length

namespace Holds

/-- No cell belongs to the empty queue. -/
theorem clear (h : ∀ k, flag (f k) = false) : Holds val flag f start [] where
  length_le := Nat.zero_le _
  val_slot j x hx := by simp at hx
  flag_iff k := by simp [h k]

/-- The cell at the start belongs to the queue unless the queue is empty. -/
theorem flag_start (h : Holds val flag f start xs) :
    flag (f start) = true ↔ xs ≠ [] := by
  rw [h.flag_iff, mem_window, BitVec.sub_self]
  exact List.length_pos_iff

/-- The cell at the start holds the oldest element. -/
theorem val_start (h : Holds val flag f start (x :: xs)) :
    val (f start) = x := by
  have hx := h.val_slot 0 x rfl
  rwa [slot_zero] at hx

/-- A new element goes into the first free cell. -/
theorem push (h : Holds val flag f start xs) (hlen : xs.length < 2 ^ b)
    (he : flag e = true) :
    Holds val flag (Function.update f (slot start xs.length) e) start
      (xs ++ [val e]) where
  length_le := by
    rw [List.length_append, List.length_singleton]
    omega
  val_slot j x hx := by
    by_cases hj : j = xs.length
    · subst hj
      rw [Function.update_self]
      rw [List.getElem?_append_right (Nat.le_refl _), Nat.sub_self] at hx
      exact Option.some.inj hx
    · have hlt : j < xs.length := by
        have hj' : j < (xs ++ [val e]).length := by
          rw [List.getElem?_eq_some_iff] at hx
          exact hx.1
        rw [List.length_append, List.length_singleton] at hj'
        omega
      have hne : slot start j ≠ slot start xs.length := by
        rw [Ne, slot_eq_iff (by omega) hlen]
        exact hj
      rw [Function.update_of_ne hne]
      rw [List.getElem?_append_left hlt] at hx
      exact h.val_slot j x hx
  flag_iff k := by
    rw [List.length_append, List.length_singleton, mem_window_succ hlen,
      ← h.flag_iff]
    by_cases hk : k = slot start xs.length
    · rw [hk, Function.update_self]
      simp [he]
    · rw [Function.update_of_ne hk]
      simp [hk]

/-- The cell of the oldest element is given up. -/
theorem pop (h : Holds val flag f start (x :: xs)) (he : flag e = false) :
    Holds val flag (Function.update f start e) (slot start 1) xs where
  length_le := by
    have hle := h.length_le
    rw [List.length_cons] at hle
    omega
  val_slot j y hy := by
    have hj : j < xs.length := by
      rw [List.getElem?_eq_some_iff] at hy
      exact hy.1
    have hle := h.length_le
    rw [List.length_cons] at hle
    have hne : slot start (1 + j) ≠ start := by
      have hzero : slot start (1 + j) = slot start 0 ↔ 1 + j = 0 :=
        slot_eq_iff (by omega) (by omega)
      rw [slot_zero] at hzero
      rw [Ne, hzero]
      omega
    rw [slot_add, Function.update_of_ne hne]
    refine h.val_slot (1 + j) y ?_
    rw [Nat.add_comm, List.getElem?_cons_succ]
    exact hy
  flag_iff k := by
    have hle := h.length_le
    have hflag := h.flag_iff k
    rw [List.length_cons] at hle hflag
    rw [mem_window_drop (by omega), Nat.add_comm 1, ← hflag]
    have hone : k ∈ window start 1 ↔ k = start := by
      rw [mem_window_succ (by omega), slot_zero]
      simp
    rw [hone]
    by_cases hk : k = start
    · rw [hk, Function.update_self]
      simp [he]
    · rw [Function.update_of_ne hk]
      simp [hk]

end Holds

/-! ## Logs -/

section Logs

variable {lo lo' i j n : ℕ}

theorem slot_ofNat : slot (BitVec.ofNat b n) j = BitVec.ofNat b (n + j) := by
  rw [slot, BitVec.ofNat_add]

/-- The numbers of the elements that are held name different cells. -/
theorem ofNat_eq_iff (hi : lo ≤ i) (hi' : i < lo + 2 ^ b) (hj : lo ≤ j)
    (hj' : j < lo + 2 ^ b) : BitVec.ofNat b i = BitVec.ofNat b j ↔ i = j := by
  obtain ⟨i, rfl⟩ := Nat.exists_eq_add_of_le hi
  obtain ⟨j, rfl⟩ := Nat.exists_eq_add_of_le hj
  rw [← slot_ofNat, ← slot_ofNat, slot_eq_iff (by omega) (by omega)]
  omega

/-- The array holds the elements of the log from number `lo` on. -/
structure Keeps (f : BitVec b → β) (log : List β) (lo : ℕ) : Prop where
  length_le : log.length ≤ lo + 2 ^ b
  cell : ∀ i x, lo ≤ i → log[i]? = some x → f (BitVec.ofNat b i) = x

namespace Keeps

variable {f : BitVec b → β} {log : List β}

theorem nil (f : BitVec b → β) : Keeps f [] 0 where
  length_le := Nat.zero_le _
  cell i x _ hx := by simp at hx

/-- Elements are given up. -/
theorem mono (h : Keeps f log lo) (hle : lo ≤ lo') : Keeps f log lo' where
  length_le := Nat.le_trans h.length_le (Nat.add_le_add_right hle _)
  cell i x hi := h.cell i x (Nat.le_trans hle hi)

/-- A new element takes the next cell. -/
theorem push (h : Keeps f log lo) (hlo : lo ≤ log.length)
    (hlen : log.length < lo + 2 ^ b) (x : β) :
    Keeps (Function.update f (BitVec.ofNat b log.length) x) (log ++ [x]) lo where
  length_le := by
    rw [List.length_append, List.length_singleton]
    omega
  cell i y hi hy := by
    rcases Nat.lt_trichotomy i log.length with hlt | rfl | hgt
    · have hne : BitVec.ofNat b i ≠ BitVec.ofNat b log.length := by
        rw [Ne, ofNat_eq_iff hi (by omega) hlo hlen]
        omega
      rw [List.getElem?_append_left hlt] at hy
      rw [Function.update_of_ne hne]
      exact h.cell i y hi hy
    · rw [List.getElem?_append_right (Nat.le_refl _), Nat.sub_self] at hy
      rw [Function.update_self]
      exact Option.some.inj hy
    · have hlt := (List.getElem?_eq_some_iff.mp hy).1
      rw [List.length_append, List.length_singleton] at hlt
      omega

end Keeps

/-- The flags mark the cells of the numbers from `lo` up to `n`. -/
structure Flags (v : BitVec b → Bool) (lo n : ℕ) : Prop where
  lo_le : lo ≤ n
  le_add : n ≤ lo + 2 ^ b
  flag_iff : ∀ k, v k = true ↔ k ∈ window (BitVec.ofNat b lo) (n - lo)

namespace Flags

variable {v : BitVec b → Bool}

theorem clear (h : ∀ k, v k = false) : Flags v n n where
  lo_le := Nat.le_refl n
  le_add := Nat.le_add_right n _
  flag_iff k := by
    rw [Nat.sub_self, h k]
    simp

theorem first (h : Flags v lo n) :
    v (BitVec.ofNat b lo) = true ↔ lo < n := by
  rw [h.flag_iff, mem_window, BitVec.sub_self]
  exact Nat.sub_pos_iff_lt

theorem push (h : Flags v lo n) (hn : n < lo + 2 ^ b) :
    Flags (Function.update v (BitVec.ofNat b n) true) lo (n + 1) where
  lo_le := Nat.le_succ_of_le h.lo_le
  le_add := hn
  flag_iff k := by
    have hlo := h.lo_le
    rw [Nat.succ_sub hlo, mem_window_succ (by omega), ← h.flag_iff,
      slot_ofNat, Nat.add_sub_cancel' hlo]
    by_cases hk : k = BitVec.ofNat b n
    · rw [hk, Function.update_self]
      simp
    · rw [Function.update_of_ne hk]
      simp [hk]

theorem pop (h : Flags v lo n) (hn : lo < n) :
    Flags (Function.update v (BitVec.ofNat b lo) false) (lo + 1) n where
  lo_le := hn
  le_add := by
    have hle := h.le_add
    omega
  flag_iff k := by
    have hle := h.le_add
    have hlen : n - lo = 1 + (n - (lo + 1)) := by omega
    have hone : k ∈ window (BitVec.ofNat b lo) 1 ↔ k = BitVec.ofNat b lo := by
      rw [mem_window_succ (Nat.two_pow_pos b), slot_zero]
      simp
    rw [← slot_ofNat, mem_window_drop (by omega), ← hlen, ← h.flag_iff, hone]
    by_cases hk : k = BitVec.ofNat b lo
    · rw [hk, Function.update_self]
      simp
    · rw [Function.update_of_ne hk]
      simp [hk]

end Flags

end Logs

end Ring
