import ArianeSoc.Lsu.Bypass
import Mathlib.Algebra.Group.Nat.Defs
import Mathlib.Logic.Function.Basic

/-!
# The store buffer

`store_buffer.sv` holds two circular queues.  A store enters the
speculative queue when its address is translated, moves to the commit queue
when its instruction commits, and leaves it when the data cache grants the
write.  The depths are powers of two, `DEPTH_SPEC = 2 ^ s` and
`DEPTH_COMMIT = 2 ^ c`, so the pointers wrap by themselves; the source sets
four and, depending on the cache, eight or four.

`stepSpec` is the process `core_if` and `stepCommit` the process
`store_if`.  `pageOffsetMatchesO` is the process `address_checker`.
-/

namespace ArianeSoc.StoreBuffer

/-- A cell of a queue. -/
structure Entry where
  address : BitVec 56
  data : BitVec 64
  be : BitVec 8
  dataSize : BitVec 2
  valid : Bool
  deriving DecidableEq

def Entry.zero : Entry := ⟨0#56, 0#64, 0#8, 0#2, false⟩

/-- The registers. -/
structure State (s c : Nat) where
  specQueue : BitVec s → Entry
  specStatusCnt : BitVec (s + 1)
  specReadPointer : BitVec s
  specWritePointer : BitVec s
  commitQueue : BitVec c → Entry
  commitStatusCnt : BitVec (c + 1)
  commitReadPointer : BitVec c
  commitWritePointer : BitVec c

/-- The registers after a reset. -/
def reset (s c : Nat) : State s c where
  specQueue := fun _ => Entry.zero
  specStatusCnt := 0#_
  specReadPointer := 0#_
  specWritePointer := 0#_
  commitQueue := fun _ => Entry.zero
  commitStatusCnt := 0#_
  commitReadPointer := 0#_
  commitWritePointer := 0#_

/-- The inputs of one cycle. -/
structure In where
  flush : Bool
  commit : Bool
  valid : Bool
  paddr : BitVec 56
  data : BitVec 64
  be : BitVec 8
  dataSize : BitVec 2
  dataGnt : Bool

variable {s c : Nat} (q : State s c) (i : In)

/-! ## The outputs -/

/-- `ready_o`: a store that is accepted now enters the queue one cycle
later, so one cell is kept back. -/
def readyO (commit : Bool) : Bool :=
  q.specStatusCnt.toNat < 2 ^ s - 1 || commit

/-- `commit_ready_o`. -/
def commitReadyO : Bool := q.commitStatusCnt.toNat < 2 ^ c

/-- `no_st_pending_o`. -/
def noStPendingO : Bool := q.commitStatusCnt = 0#(c + 1)

/-- `store_buffer_empty_o`. -/
def storeBufferEmptyO : Bool :=
  q.specStatusCnt = 0#(s + 1) && noStPendingO q

/-- The cell whose store the data cache is asked to write. -/
def request : Entry := q.commitQueue q.commitReadPointer

/-- `req_port_o.data_req`. -/
def dataReqO : Bool := (request q).valid

/-- The data cache takes the write. -/
def granted : Bool := dataReqO q && i.dataGnt

/-- The cell that a commit moves. -/
def committing : Entry := q.specQueue q.specReadPointer

/-- The cell that enters the speculative queue. -/
def entering : Entry := ⟨i.paddr, i.data, i.be, i.dataSize, true⟩

/-- Bits 11 to 3 of an address, the double word in its page. -/
def pageWord {n : Nat} (a : BitVec n) : BitVec 9 := a.extractLsb' 3 9

/-- The cell holds a store in the double word of `pageOffset`. -/
def Entry.hits (e : Entry) (pageOffset : BitVec 12) : Bool :=
  e.valid && pageWord pageOffset == pageWord e.address

/-- `page_offset_matches_o`, with the store that is just entering. -/
def pageOffsetMatchesO (pageOffset : BitVec 12) (paddr : BitVec 56)
    (validWithoutFlush : Bool) : Bool :=
  (∃ k, (q.commitQueue k).hits pageOffset) ∨
    (∃ k, (q.specQueue k).hits pageOffset) ∨
    pageWord pageOffset = pageWord paddr ∧ validWithoutFlush

/-! ## The next state -/

/-- A cell without its valid flag. -/
def Entry.drop (e : Entry) : Entry := { e with valid := false }

/-- The speculative queue after the store that enters. -/
def specPush : State s c :=
  if i.valid then
    { q with
      specQueue :=
        Function.update q.specQueue q.specWritePointer (entering i)
      specWritePointer := q.specWritePointer + 1#s
      specStatusCnt := q.specStatusCnt + 1#(s + 1) }
  else q

/-- The speculative queue after the store that commits. -/
def specPop (commit : Bool) (d : State s c) : State s c :=
  if commit then
    { d with
      specQueue := Function.update d.specQueue q.specReadPointer
        (d.specQueue q.specReadPointer).drop
      specReadPointer := q.specReadPointer + 1#s
      specStatusCnt := d.specStatusCnt - 1#(s + 1) }
  else d

/-- A flush drops the speculative stores. -/
def specFlush (flush : Bool) (d : State s c) : State s c :=
  if flush then
    { d with
      specQueue := fun k => (d.specQueue k).drop
      specWritePointer := q.specReadPointer
      specStatusCnt := 0#(s + 1) }
  else d

/-- The process `core_if`. -/
def stepSpec : State s c :=
  specFlush q i.flush (specPop q i.commit (specPush q i))

/-- The commit queue after the store that is granted. -/
def commitPop (d : State s c) : State s c :=
  if granted q i then
    { d with
      commitQueue := Function.update d.commitQueue q.commitReadPointer
        (d.commitQueue q.commitReadPointer).drop
      commitReadPointer := q.commitReadPointer + 1#c
      commitStatusCnt := d.commitStatusCnt - 1#(c + 1) }
  else d

/-- The commit queue after the store that commits. -/
def commitPush (d : State s c) : State s c :=
  if i.commit then
    { d with
      commitQueue :=
        Function.update d.commitQueue q.commitWritePointer (committing q)
      commitWritePointer := q.commitWritePointer + 1#c
      commitStatusCnt := d.commitStatusCnt + 1#(c + 1) }
  else d

/-- One cycle: both processes read the registers `q`. -/
def step : State s c := commitPush q i (commitPop q i (stepSpec q i))

/-! ## The double words of the stores -/

variable {q i}

/-- The double word of an address is in its page offset. -/
theorem pageWord_offset {n : Nat} (a : BitVec n) :
    pageWord (a.extractLsb' 0 12) = pageWord a := by
  ext k hk
  simp [pageWord]

/-- The double word of an address is in the address without its lowest
bits. -/
theorem pageWord_of_doubleWord {n : Nat} {a b : BitVec n}
    (h : a.extractLsb' 3 53 = b.extractLsb' 3 53) :
    pageWord a = pageWord b := by
  have hword : ∀ a : BitVec n, pageWord a =
      (a.extractLsb' 3 53).extractLsb' 0 9 := by
    intro a
    ext k hk
    simp [pageWord]
    omega
  rw [hword, h, ← hword]

/-- No valid cell of the queue lies in the double word `w` of its page. -/
def Avoids {n : Nat} (f : BitVec n → Entry) (w : BitVec 9) : Prop :=
  ∀ k, (f k).valid = true → pageWord (f k).address ≠ w

theorem Avoids.update {n : Nat} {f : BitVec n → Entry} {w : BitVec 9}
    {e : Entry} (h : Avoids f w) (he : e.valid = true → pageWord e.address ≠ w)
    (k : BitVec n) : Avoids (Function.update f k e) w := by
  intro j
  by_cases hj : j = k
  · rw [hj, Function.update_self]
    exact he
  · rw [Function.update_of_ne hj]
    exact h j

/-- A cell without its valid flag is in no one's way. -/
theorem Avoids.drop {n : Nat} {f : BitVec n → Entry} {w : BitVec 9}
    (h : Avoids f w) (e : Entry) (k : BitVec n) :
    Avoids (Function.update f k e.drop) w :=
  h.update (fun he => absurd he Bool.false_ne_true) k

/-- No store of the buffer lies in the double word `w` of its page. -/
structure Clear (q : State s c) (w : BitVec 9) : Prop where
  spec : Avoids q.specQueue w
  commit : Avoids q.commitQueue w

/-- The stores only move from queue to queue, but for one that enters. -/
theorem clear_step {w : BitVec 9} (h : Clear q w)
    (hi : i.valid = true → pageWord i.paddr ≠ w) : Clear (step q i) w where
  spec := by
    have hpush : Avoids (specPush q i).specQueue w := by
      unfold specPush
      split_ifs with hv
      · exact h.spec.update (fun _ => hi hv) _
      · exact h.spec
    have hpop : ∀ d : State s c, Avoids d.specQueue w →
        Avoids (specPop q i.commit d).specQueue w := by
      intro d hd
      unfold specPop
      split_ifs
      · exact hd.drop _ _
      · exact hd
    have hflush : ∀ d : State s c, Avoids d.specQueue w →
        Avoids (specFlush q i.flush d).specQueue w := by
      intro d hd
      unfold specFlush
      split_ifs
      · exact fun k hk => absurd hk Bool.false_ne_true
      · exact hd
    have hframe : (step q i).specQueue = (stepSpec q i).specQueue := by
      unfold step commitPush commitPop
      split_ifs <;> rfl
    rw [hframe]
    exact hflush _ (hpop _ hpush)
  commit := by
    have hframe : (stepSpec q i).commitQueue = q.commitQueue := by
      unfold stepSpec specFlush specPop specPush
      split_ifs <;> rfl
    have hpop : Avoids (commitPop q i (stepSpec q i)).commitQueue w := by
      unfold commitPop
      split_ifs
      · exact Avoids.drop (hframe ▸ h.commit) _ _
      · exact hframe ▸ h.commit
    unfold step commitPush
    split_ifs
    · exact hpop.update (h.spec _) _
    · exact hpop

theorem clear_of_not_matches {pageOffset : BitVec 12} {paddr : BitVec 56}
    {valid : Bool} (h : pageOffsetMatchesO q pageOffset paddr valid = false) :
    Clear q (pageWord pageOffset) ∧
      (valid = true → pageWord paddr ≠ pageWord pageOffset) := by
  simp only [pageOffsetMatchesO, decide_eq_false_iff_not, not_or,
    not_exists, Entry.hits, Bool.and_eq_true, beq_iff_eq, not_and] at h
  obtain ⟨hc, hs, he⟩ := h
  exact ⟨⟨fun k hk heq => hs k hk heq.symm, fun k hk heq => hc k hk heq.symm⟩,
    fun hv heq => he heq.symm hv⟩

end ArianeSoc.StoreBuffer
