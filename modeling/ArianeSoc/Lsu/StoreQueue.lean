import ArianeSoc.Lsu.StoreBuffer
import ArianeSoc.Ring

/-!
# The store buffer as two lists

`Queues` is what the store buffer is for: a list of speculative stores and
a list of committed ones, oldest first.  A commit moves the oldest
speculative store behind the committed ones, a grant takes the oldest
committed one away and a flush drops the speculative ones.

`Refines` says that the arrays, pointers and counters of the buffer hold
the two lists.  `refines_step` keeps it for a cycle that meets `Room`: a
store enters only if there is a free cell, and a commit finds a store, a
free cell and no flush.

`Counted` is what the commit queue of the store buffer keeps whatever the
speculative queue holds: its counter is the number of commits without a
grant, and a valid cell lies among that many cells from the read pointer
on.  So no write is granted while the counter is zero.
-/

namespace ArianeSoc.StoreBuffer

open Ring

/-! ## The two lists -/

/-- What is written to the data cache. -/
structure Store where
  address : BitVec 56
  data : BitVec 64
  be : BitVec 8
  dataSize : BitVec 2
  deriving DecidableEq

/-- The store in a cell. -/
def Entry.store (e : Entry) : Store := ⟨e.address, e.data, e.be, e.dataSize⟩

/-- The speculative and the committed stores, oldest first. -/
structure Queues where
  spec : List Store
  commit : List Store
  deriving DecidableEq

/-- A cycle of the two lists, in which a store enters, one commits, one is
granted and the speculative ones are flushed. -/
def Queues.step (a : Queues) (push : Option Store) (commit flush grant : Bool) :
    Queues where
  spec :=
    if flush then []
    else (if commit then a.spec.tail else a.spec) ++ push.toList
  commit :=
    (if grant then a.commit.tail else a.commit) ++
      (if commit then a.spec.head?.toList else [])

variable {s c : Nat} {q : State s c} {i : In} {a : Queues}

/-- The store that enters in a cycle. -/
def pushed (i : In) : Option Store :=
  if i.valid then some (entering i).store else none

/-! ## The relation -/

/-- The speculative queue holds `xs`. -/
structure HoldsSpec (q : State s c) (xs : List Store) : Prop where
  holds : Holds Entry.store Entry.valid q.specQueue q.specReadPointer xs
  write : q.specWritePointer = slot q.specReadPointer xs.length
  count : q.specStatusCnt.toNat = xs.length

/-- The commit queue holds `xs`. -/
structure HoldsCommit (q : State s c) (xs : List Store) : Prop where
  holds : Holds Entry.store Entry.valid q.commitQueue q.commitReadPointer xs
  write : q.commitWritePointer = slot q.commitReadPointer xs.length
  count : q.commitStatusCnt.toNat = xs.length

/-- The buffer holds the two lists. -/
structure Refines (q : State s c) (a : Queues) : Prop where
  spec : HoldsSpec q a.spec
  commit : HoldsCommit q a.commit

/-- The queues have room for what enters and the store that commits is
there and not flushed. -/
structure Room (a : Queues) (s c : Nat) (i : In) : Prop where
  push : i.valid = true → a.spec.length < 2 ^ s
  present : i.commit = true → a.spec ≠ []
  commit : i.commit = true → a.commit.length < 2 ^ c
  no_flush : i.commit = true → i.flush = false

theorem refines_reset (s c : Nat) : Refines (reset s c) ⟨[], []⟩ :=
  ⟨⟨Holds.clear fun _ => rfl, slot_zero.symm, rfl⟩,
    ⟨Holds.clear fun _ => rfl, slot_zero.symm, rfl⟩⟩

/-! ## Counting -/

theorem count_succ {n m : Nat} {k : BitVec (n + 1)} (h : k.toNat = m)
    (hm : m < 2 ^ n) : (k + 1#(n + 1)).toNat = m + 1 := by
  have hpow : 2 ^ (n + 1) = 2 * 2 ^ n := by rw [Nat.pow_succ, Nat.mul_comm]
  have hone : (1#(n + 1)).toNat = 1 := by
    rw [BitVec.toNat_ofNat]
    exact Nat.mod_eq_of_lt (by omega)
  rw [BitVec.toNat_add, hone, h]
  exact Nat.mod_eq_of_lt (by omega)

theorem count_pred {n m : Nat} {k : BitVec (n + 1)} (h : k.toNat = m + 1) :
    (k - 1#(n + 1)).toNat = m := by
  have hlt := k.isLt
  have hone : (1#(n + 1)).toNat = 1 := by
    rw [BitVec.toNat_ofNat]
    exact Nat.mod_eq_of_lt (by omega)
  have hle : 1#(n + 1) ≤ k := by
    rw [BitVec.le_def, hone]
    omega
  rw [BitVec.toNat_sub_of_le hle, hone]
  omega

theorem slot_succ {n j : Nat} {start : BitVec n} :
    slot start j + 1#n = slot start (j + 1) := by
  rw [← slot_add]
  rfl

/-! ## The speculative queue -/

theorem holdsSpec_push {xs : List Store} (h : HoldsSpec q xs)
    (hroom : i.valid = true → xs.length < 2 ^ s) :
    HoldsSpec (specPush q i) (xs ++ (pushed i).toList) := by
  unfold specPush pushed
  split_ifs with hv
  · have hlen := hroom hv
    have hpush := h.holds.push (e := entering i) hlen rfl
    rw [← h.write] at hpush
    refine ⟨hpush, ?_, ?_⟩
    · show q.specWritePointer + 1#s = slot q.specReadPointer _
      rw [h.write, slot_succ]
      simp
    · show (q.specStatusCnt + 1#(s + 1)).toNat = _
      rw [count_succ h.count hlen]
      simp
  · simpa using h

theorem holdsSpec_pop {d : State s c} {x : Store} {xs : List Store}
    (h : HoldsSpec d (x :: xs)) (hread : d.specReadPointer = q.specReadPointer) :
    HoldsSpec (specPop q true d) xs := by
  have hpop := h.holds.pop (e := (d.specQueue d.specReadPointer).drop) rfl
  have hwrite := h.write
  rw [hread] at hpop hwrite
  refine ⟨hpop, ?_, ?_⟩
  · show d.specWritePointer = slot (q.specReadPointer + 1#s) xs.length
    rw [hwrite, List.length_cons, Nat.add_comm]
    exact slot_add.symm
  · exact count_pred h.count

theorem holdsSpec_flush {d : State s c}
    (hread : d.specReadPointer = q.specReadPointer) :
    HoldsSpec (specFlush q true d) [] :=
  ⟨Holds.clear fun _ => rfl, by
    show q.specReadPointer = slot d.specReadPointer 0
    rw [hread, slot_zero], rfl⟩

theorem specReadPointer_push :
    (specPush q i).specReadPointer = q.specReadPointer := by
  unfold specPush
  split_ifs <;> rfl

theorem holdsSpec_step (h : HoldsSpec q a.spec) (hr : Room a s c i) :
    HoldsSpec (stepSpec q i)
      (a.step (pushed i) i.commit i.flush (granted q i)).spec := by
  have hpush := holdsSpec_push (i := i) h hr.push
  unfold stepSpec Queues.step
  cases hc : i.commit with
  | true =>
    rw [hr.no_flush hc]
    obtain ⟨x, xs, hspec⟩ := List.exists_cons_of_ne_nil (hr.present hc)
    rw [hspec] at hpush ⊢
    exact holdsSpec_pop hpush specReadPointer_push
  | false =>
    cases i.flush with
    | true => exact holdsSpec_flush specReadPointer_push
    | false => exact hpush

/-! ## The commit queue -/

/-- The process `core_if` leaves the commit queue alone. -/
theorem holdsCommit_stepSpec {xs : List Store} (h : HoldsCommit q xs) :
    HoldsCommit (stepSpec q i) xs := by
  have hframe : ∀ d : State s c, HoldsCommit d xs →
      HoldsCommit (specFlush q i.flush (specPop q i.commit d)) xs := by
    intro d hd
    unfold specFlush specPop
    split_ifs <;> exact ⟨hd.holds, hd.write, hd.count⟩
  apply hframe
  unfold specPush
  split_ifs <;> exact ⟨h.holds, h.write, h.count⟩

/-- A write is asked for exactly if there is a committed store. -/
theorem dataReqO_iff {xs : List Store} (h : HoldsCommit q xs) :
    dataReqO q = true ↔ xs ≠ [] := h.holds.flag_start

theorem holdsCommit_pop {d : State s c} {xs : List Store}
    (h : HoldsCommit d xs) (hq : HoldsCommit q xs)
    (hread : d.commitReadPointer = q.commitReadPointer) :
    HoldsCommit (commitPop q i d)
      (if granted q i then xs.tail else xs) := by
  unfold commitPop
  split_ifs with hg
  · have hreq : dataReqO q = true := by
      simp only [granted, Bool.and_eq_true] at hg
      exact hg.1
    obtain ⟨x, rest, rfl⟩ :=
      List.exists_cons_of_ne_nil ((dataReqO_iff hq).mp hreq)
    have hpop := h.holds.pop (e := (d.commitQueue d.commitReadPointer).drop) rfl
    have hwrite := h.write
    rw [hread] at hpop hwrite
    refine ⟨hpop, ?_, count_pred h.count⟩
    show d.commitWritePointer = slot (q.commitReadPointer + 1#c) rest.length
    rw [hwrite, List.length_cons, Nat.add_comm]
    exact slot_add.symm
  · exact h

theorem holdsCommit_push {d : State s c} {xs : List Store}
    (h : HoldsCommit d xs) (hwrite : d.commitWritePointer = q.commitWritePointer)
    (hcommit : i.commit = true →
      xs.length < 2 ^ c ∧ (committing q).valid = true) :
    HoldsCommit (commitPush q i d)
      (xs ++ if i.commit then [(committing q).store] else []) := by
  unfold commitPush
  split_ifs with hc
  · obtain ⟨hlen, hvalid⟩ := hcommit hc
    have hpush := h.holds.push hlen hvalid
    rw [← h.write, hwrite] at hpush
    refine ⟨hpush, ?_, ?_⟩
    · show q.commitWritePointer + 1#c = slot d.commitReadPointer _
      rw [← hwrite, h.write, slot_succ]
      simp
    · show (d.commitStatusCnt + 1#(c + 1)).toNat = _
      rw [count_succ h.count hlen]
      simp
  · simpa using h

theorem commitPointers_stepSpec :
    (stepSpec q i).commitReadPointer = q.commitReadPointer ∧
      (stepSpec q i).commitWritePointer = q.commitWritePointer := by
  unfold stepSpec specFlush specPop specPush
  split_ifs <;> exact ⟨rfl, rfl⟩

theorem commitWritePointer_pop (d : State s c) :
    (commitPop q i d).commitWritePointer = d.commitWritePointer := by
  unfold commitPop
  split_ifs <;> rfl

/-- The store that commits is the oldest speculative one. -/
theorem committing_of_present (h : HoldsSpec q a.spec) (hne : a.spec ≠ []) :
    (committing q).valid = true ∧
      a.spec.head? = some (committing q).store := by
  refine ⟨h.holds.flag_start.mpr hne, ?_⟩
  obtain ⟨x, xs, hspec⟩ := List.exists_cons_of_ne_nil hne
  have hholds := h.holds
  rw [hspec] at hholds ⊢
  exact congrArg some hholds.val_start.symm

theorem holdsCommit_step (h : Refines q a) (hr : Room a s c i) :
    HoldsCommit (step q i)
      (a.step (pushed i) i.commit i.flush (granted q i)).commit := by
  have hpop := holdsCommit_pop (i := i) (holdsCommit_stepSpec (i := i) h.commit)
    h.commit commitPointers_stepSpec.1
  have hlist : (if i.commit then a.spec.head?.toList else []) =
      if i.commit then [(committing q).store] else [] := by
    split_ifs with hc
    · rw [(committing_of_present h.spec (hr.present hc)).2]
      rfl
    · rfl
  show HoldsCommit (step q i) (_ ++ _)
  rw [hlist]
  refine holdsCommit_push hpop ?_ fun hc => ⟨?_, ?_⟩
  · rw [commitWritePointer_pop, commitPointers_stepSpec.2]
  · have hlen := hr.commit hc
    split_ifs
    · rw [List.length_tail]
      omega
    · exact hlen
  · exact (committing_of_present h.spec (hr.present hc)).1

/-! ## One cycle -/

/-- The process `store_if` leaves the speculative queue alone. -/
theorem holdsSpec_store_if {d : State s c} {xs : List Store}
    (h : HoldsSpec d xs) :
    HoldsSpec (commitPush q i (commitPop q i d)) xs := by
  unfold commitPush commitPop
  split_ifs <;> exact ⟨h.holds, h.write, h.count⟩

/-- One cycle of the buffer is one cycle of the two lists. -/
theorem refines_step (h : Refines q a) (hr : Room a s c i) :
    Refines (step q i)
      (a.step (pushed i) i.commit i.flush (granted q i)) :=
  ⟨holdsSpec_store_if (holdsSpec_step h.spec hr), holdsCommit_step h hr⟩

end ArianeSoc.StoreBuffer

namespace ArianeSoc.StoreBuffer

open Ring

variable {s c : Nat} {q d : State s c} {i : In} {n : Nat}

/-- `n` stores wait in the commit queue. -/
structure Counted (q : State s c) (n : Nat) : Prop where
  count : q.commitStatusCnt.toNat = n
  le : n ≤ 2 ^ c
  write : q.commitWritePointer = slot q.commitReadPointer n
  valid : ∀ k, (q.commitQueue k).valid = true →
    k ∈ window q.commitReadPointer n

theorem counted_reset (s c : Nat) : Counted (reset s c) 0 where
  count := by simp [reset]
  le := Nat.zero_le _
  write := slot_zero.symm
  valid k hk := absurd hk Bool.false_ne_true

/-- A write is granted only if a store waits. -/
theorem Counted.pos_of_granted (h : Counted q n) (hg : granted q i = true) :
    0 < n := by
  simp only [granted, Bool.and_eq_true] at hg
  have hin := h.valid q.commitReadPointer hg.1
  rw [mem_window, BitVec.sub_self] at hin
  simpa using hin

/-- No store waits exactly if the buffer says so. -/
theorem Counted.noStPendingO_iff (h : Counted q n) :
    noStPendingO q = true ↔ n = 0 := by
  rw [← h.count, noStPendingO, decide_eq_true_eq]
  constructor
  · intro hz
    simp [hz]
  · intro hz
    exact BitVec.eq_of_toNat_eq (by simp [hz])

/-- The process `core_if` leaves the commit queue alone. -/
theorem Counted.stepSpec (h : Counted q n) : Counted (stepSpec q i) n := by
  have hframe : (StoreBuffer.stepSpec q i).commitStatusCnt =
        q.commitStatusCnt ∧
      (StoreBuffer.stepSpec q i).commitQueue = q.commitQueue := by
    unfold StoreBuffer.stepSpec specFlush specPop specPush
    split_ifs <;> exact ⟨rfl, rfl⟩
  obtain ⟨hread, hwrite⟩ := commitPointers_stepSpec (q := q) (i := i)
  refine ⟨?_, h.le, ?_, ?_⟩
  · rw [hframe.1, h.count]
  · rw [hwrite, hread, h.write]
  · rw [hframe.2, hread]
    exact h.valid

theorem Counted.pop (h : Counted d n) (hq : Counted q n)
    (hread : d.commitReadPointer = q.commitReadPointer) :
    Counted (commitPop q i d) (n - (granted q i).toNat) := by
  unfold commitPop
  split_ifs with hg
  · have hpos := hq.pos_of_granted hg
    obtain ⟨m, rfl⟩ := Nat.exists_eq_add_of_le' hpos
    have hle := h.le
    have hm : m + 1 - (granted q i).toNat = m := by simp [hg]
    rw [hm]
    refine ⟨count_pred h.count, by omega, ?_, fun k hk => ?_⟩
    · show d.commitWritePointer = slot (q.commitReadPointer + 1#c) m
      rw [h.write, hread, Nat.add_comm m 1]
      exact slot_add.symm
    · show k ∈ window (slot q.commitReadPointer 1) m
      have hne : k ≠ q.commitReadPointer := by
        rintro rfl
        simp [Entry.drop] at hk
      have hk' : (Function.update d.commitQueue q.commitReadPointer
          (d.commitQueue q.commitReadPointer).drop k).valid = true := hk
      rw [Function.update_of_ne hne] at hk'
      have hin := h.valid k hk'
      rw [mem_window_drop (by omega), Nat.add_comm 1 m, ← hread]
      refine ⟨hin, fun hone => hne ?_⟩
      rw [mem_window_succ (by omega), slot_zero, hread] at hone
      exact hone.resolve_left not_mem_window_zero
  · simpa [hg] using h

theorem Counted.push (h : Counted d n) (hn : i.commit = true → n < 2 ^ c)
    (hwrite : d.commitWritePointer = q.commitWritePointer) :
    Counted (commitPush q i d) (n + i.commit.toNat) := by
  unfold commitPush
  split_ifs with hc
  · have hlt := hn hc
    have hsucc : n + i.commit.toNat = n + 1 := by simp [hc]
    rw [hsucc]
    refine ⟨count_succ h.count hlt, hlt, ?_, fun k hk => ?_⟩
    · show q.commitWritePointer + 1#c = slot d.commitReadPointer (n + 1)
      rw [← hwrite, h.write, slot_succ]
    · show k ∈ window d.commitReadPointer (n + 1)
      rw [mem_window_succ hlt, ← h.write, hwrite]
      by_cases hk' : k = q.commitWritePointer
      · exact Or.inr hk'
      · have hold : (Function.update d.commitQueue q.commitWritePointer
            (committing q) k).valid = true := hk
        rw [Function.update_of_ne hk'] at hold
        exact Or.inl (h.valid k hold)
  · simpa [hc] using h

/-- What waits after a cycle. -/
theorem Counted.step (h : Counted q n)
    (hready : i.commit = true → commitReadyO q = true) :
    Counted (StoreBuffer.step q i)
      (n - (granted q i).toNat + i.commit.toNat) := by
  have hpop := (h.stepSpec (i := i)).pop (i := i) h
    commitPointers_stepSpec.1
  refine hpop.push (fun hc => ?_) ?_
  · have hlt := hready hc
    rw [commitReadyO, decide_eq_true_eq, h.count] at hlt
    exact Nat.lt_of_le_of_lt (Nat.sub_le _ _) hlt
  · rw [commitWritePointer_pop, commitPointers_stepSpec.2]

end ArianeSoc.StoreBuffer
