import Mathlib.Data.List.Basic
import Mathlib.Logic.Function.Basic
import Mathlib.Tactic.Common

/-!
# The queue `fifo_v3`

`common_cells/src/fifo_v3.sv` without fall-through, with a depth above
zero.  The memory is read at `read_pointer` and written at `write_pointer`;
both wrap at the depth, and `status_cnt` tells a full queue from an empty
one.

`Holds` says that the queue holds a list, oldest element first, and
`Holds.next` what it holds after a cycle.
-/

namespace ArianeSoc.CommonCells

/-- The registers of `fifo_v3`. -/
structure FifoV3 (α : Type) where
  readPointer : ℕ
  writePointer : ℕ
  statusCnt : ℕ
  mem : ℕ → α

namespace FifoV3

variable {α : Type}

/-- The state after reset. -/
def init (zero : α) : FifoV3 α where
  readPointer := 0
  writePointer := 0
  statusCnt := 0
  mem := fun _ => zero

variable (depth : ℕ) (q : FifoV3 α)

def fullO : Bool := q.statusCnt == depth

def emptyO : Bool := q.statusCnt == 0

def dataO : α := q.mem q.readPointer

/-- A pointer advances and wraps at the depth. -/
def advance (p : ℕ) : ℕ := if p = depth - 1 then 0 else p + 1

/-- The inputs of `fifo_v3`. -/
structure In (α : Type) where
  flush : Bool
  push : Bool
  data : α
  pop : Bool

/-- One cycle. -/
def next (i : In α) : FifoV3 α :=
  let push := i.push && !q.fullO depth
  let pop := i.pop && !q.emptyO
  { readPointer :=
      if i.flush then 0
      else if pop then advance depth q.readPointer else q.readPointer
    writePointer :=
      if i.flush then 0
      else if push then advance depth q.writePointer else q.writePointer
    statusCnt :=
      if i.flush then 0
      else if push && pop then q.statusCnt
      else if pop then q.statusCnt - 1
      else if push then q.statusCnt + 1
      else q.statusCnt
    mem :=
      if push then Function.update q.mem q.writePointer i.data else q.mem }

/-! ## The list that a queue holds -/

/-- The place of the memory that lies `j` behind `p`. -/
def place (p j : ℕ) : ℕ := if p + j < depth then p + j else p + j - depth

variable {depth q} {p j k : ℕ} {x : α} {xs : List α}

theorem advance_lt (hp : p < depth) : advance depth p < depth := by
  unfold advance
  split_ifs <;> omega

theorem place_zero (hp : p < depth) : place depth p 0 = p := by
  unfold place
  split_ifs <;> omega

theorem place_succ (hj : j < depth) :
    place depth p (j + 1) = place depth (advance depth p) j := by
  unfold place advance
  split_ifs <;> omega

theorem advance_place (hp : p < depth) (hj : j < depth) :
    advance depth (place depth p j) = place depth p (j + 1) := by
  unfold place advance
  split_ifs <;> omega

theorem place_inj (hj : j < depth) (hk : k < depth) :
    place depth p j = place depth p k ↔ j = k := by
  unfold place
  split_ifs <;> omega

/-- The queue holds `xs`, oldest element first. -/
structure Holds (depth : ℕ) (q : FifoV3 α) (xs : List α) : Prop where
  length_le : xs.length ≤ depth
  read_lt : q.readPointer < depth
  count : q.statusCnt = xs.length
  write : q.writePointer = place depth q.readPointer xs.length
  mem : ∀ j x, xs[j]? = some x →
    q.mem (place depth q.readPointer j) = x

namespace Holds

variable (h : Holds depth q xs)
include h

theorem depth_pos : 0 < depth := Nat.zero_lt_of_lt h.read_lt

theorem fullO_iff : q.fullO depth = true ↔ xs.length = depth := by
  rw [fullO, h.count, beq_iff_eq]

theorem emptyO_iff : q.emptyO = true ↔ xs = [] := by
  rw [emptyO, h.count, beq_iff_eq, List.length_eq_zero_iff]

/-- The output is the oldest element. -/
theorem dataO_eq (hx : xs.head? = some x) : q.dataO = x := by
  have hmem := h.mem 0 x (by rwa [← List.head?_eq_getElem?])
  rwa [place_zero h.read_lt] at hmem

end Holds

/-- A queue that is popped is not empty. -/
theorem Holds.exists_cons (h : Holds depth q xs) {pop : Bool}
    (hpop : (pop && !q.emptyO) = true) : ∃ y ys, xs = y :: ys := by
  refine List.exists_cons_of_ne_nil fun hnil => ?_
  simp [h.emptyO_iff.mpr hnil] at hpop

/-- A queue that is pushed is not full. -/
theorem Holds.length_lt (h : Holds depth q xs) {push : Bool}
    (hpush : (push && !q.fullO depth) = true) : xs.length < depth := by
  refine Nat.lt_of_le_of_ne h.length_le fun hlen => ?_
  simp [h.fullO_iff.mpr hlen] at hpush

/-- A queue that holds nothing. -/
theorem Holds.nil (hpos : 0 < depth) (hr : q.readPointer = 0)
    (hw : q.writePointer = 0) (hc : q.statusCnt = 0) :
    Holds depth q [] where
  length_le := Nat.zero_le _
  read_lt := by omega
  count := hc
  write := by rw [hw, hr, List.length_nil, place_zero hpos]
  mem j x hx := by simp at hx

theorem Holds.init (zero : α) (hpos : 0 < depth) :
    Holds depth (FifoV3.init zero) [] :=
  Holds.nil hpos rfl rfl rfl

/-- The queue without its oldest element. -/
theorem Holds.pop {q' : FifoV3 α} (h : Holds depth q (x :: xs))
    (hr : q'.readPointer = advance depth q.readPointer)
    (hw : q'.writePointer = q.writePointer)
    (hc : q'.statusCnt = q.statusCnt - 1) (hm : q'.mem = q.mem) :
    Holds depth q' xs := by
  have hle := h.length_le
  have hcount := h.count
  rw [List.length_cons] at hle hcount
  refine ⟨by omega, ?_, by omega, ?_, fun j y hy => ?_⟩
  · rw [hr]
    exact advance_lt h.read_lt
  · rw [hw, h.write, hr, List.length_cons,
      place_succ (by omega)]
  · have hj : j < xs.length := (List.getElem?_eq_some_iff.mp hy).1
    rw [hm, hr, ← place_succ (by omega)]
    exact h.mem (j + 1) y (by rwa [List.getElem?_cons_succ])

/-- The queue with one more element. -/
theorem Holds.push {q' : FifoV3 α} (h : Holds depth q xs)
    (hlen : xs.length < depth) (hr : q'.readPointer = q.readPointer)
    (hw : q'.writePointer = advance depth q.writePointer)
    (hc : q'.statusCnt = q.statusCnt + 1)
    (hm : q'.mem = Function.update q.mem q.writePointer x) :
    Holds depth q' (xs ++ [x]) := by
  have hcount := h.count
  have hlength : (xs ++ [x]).length = xs.length + 1 := by simp
  refine ⟨by omega, by rw [hr]; exact h.read_lt, by omega, ?_,
    fun j y hy => ?_⟩
  · rw [hw, h.write, hr, hlength, advance_place h.read_lt hlen]
  · have hj : j < xs.length + 1 :=
      hlength ▸ (List.getElem?_eq_some_iff.mp hy).1
    rw [hm, hr, h.write]
    by_cases hlast : j = xs.length
    · subst hlast
      rw [Function.update_self]
      rw [List.getElem?_append_right (Nat.le_refl _), Nat.sub_self] at hy
      exact Option.some.inj hy
    · have hne : place depth q.readPointer j ≠
          place depth q.readPointer xs.length := by
        rw [Ne, place_inj (by omega) hlen]
        exact hlast
      rw [Function.update_of_ne hne]
      rw [List.getElem?_append_left (by omega)] at hy
      exact h.mem j y hy

/-- A flush empties the queue. -/
theorem Holds.flush (h : Holds depth q xs) {i : In α}
    (hflush : i.flush = true) : Holds depth (q.next depth i) [] := by
  refine Holds.nil h.depth_pos ?_ ?_ ?_ <;> exact if_pos hflush

/-- The elements after a cycle. -/
def after (depth : ℕ) (xs : List α) (i : In α) : List α :=
  if i.flush then []
  else (if i.pop then xs.tail else xs) ++
    if i.push && decide (xs.length < depth) then [i.data] else []

/-- The guards of the queue are those of the list. -/
theorem Holds.after_eq (h : Holds depth q xs) (i : In α)
    (hflush : i.flush = false) :
    after depth xs i =
      (if i.pop && !q.emptyO then xs.tail else xs) ++
        if i.push && !q.fullO depth then [i.data] else [] := by
  have hle := h.length_le
  have hfull : (!q.fullO depth) = decide (xs.length < depth) := by
    rw [Bool.eq_iff_iff, Bool.not_eq_true', ← Bool.not_eq_true, h.fullO_iff,
      decide_eq_true_iff]
    omega
  rw [after, hflush, hfull]
  by_cases hempty : q.emptyO = true
  · have hnil : xs = [] := h.emptyO_iff.mp hempty
    simp [hempty, hnil]
  · simp [hempty]

/-- What the queue holds after a cycle. -/
theorem Holds.next (h : Holds depth q xs) (i : In α) :
    Holds depth (q.next depth i) (after depth xs i) := by
  by_cases hflush : i.flush = true
  · rw [after, if_pos hflush]
    exact h.flush hflush
  rw [Bool.not_eq_true] at hflush
  rw [h.after_eq i hflush]
  have hcount := h.count
  rcases hpop : i.pop && !q.emptyO with _ | _ <;>
    rcases hpush : i.push && !q.fullO depth with _ | _
  · -- nothing happens
    rw [if_neg Bool.false_ne_true, if_neg Bool.false_ne_true,
      List.append_nil]
    have hsame : q.next depth i = q := by
      simp [FifoV3.next, hflush, hpop, hpush]
    rw [hsame]
    exact h
  · have hlt := h.length_lt hpush
    refine h.push hlt ?_ ?_ ?_ ?_ <;>
      simp [FifoV3.next, hflush, hpop, hpush]
  · obtain ⟨y, ys, rfl⟩ := h.exists_cons hpop
    rw [if_neg Bool.false_ne_true, List.append_nil]
    refine h.pop ?_ ?_ ?_ ?_ <;>
      simp [FifoV3.next, hflush, hpop, hpush]
  · obtain ⟨y, ys, rfl⟩ := h.exists_cons hpop
    have hlt := h.length_lt hpush
    rw [List.length_cons] at hlt hcount
    -- the queue between the pop and the push
    have hmid : Holds depth
        { q with
          readPointer := advance depth q.readPointer
          statusCnt := q.statusCnt - 1 } ys := h.pop rfl rfl rfl rfl
    refine hmid.push (by omega) ?_ ?_ ?_ ?_ <;>
      simp [FifoV3.next, hflush, hpop, hpush]
    omega

end FifoV3

end ArianeSoc.CommonCells
