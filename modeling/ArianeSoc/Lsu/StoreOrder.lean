import ArianeSoc.Lsu.StoreQueue
import ArianeSoc.Lsu.StoreUnit
import ArianeSoc.Sync

/-!
# Every committed store is written once and in order

`Track` runs the store unit beside the two lists of `StoreBuffer.Queues`.
The stores that enter the lists are the ones the store unit has taken one
cycle before, with the address that the translation gives then; `committed`
logs the oldest speculative store at each commit, and `granted` logs what
the data cache is asked to write at each grant.

* `Inv` relates the store unit to the lists.  A store is posted only if
  there is a free cell, because the unit takes one only if the queue is not
  nearly full or loses a store in that cycle.
* `stores_exact`: in every run the buffer holds the two lists, no queue
  overflows or underflows, and the writes granted, followed by the stores
  in the commit queue, are the stores committed.

The commit stage commits only a store that is there, into a queue that is
ready (`CommitOk`).  A commit beside a flush breaks the pointers of the
speculative queue; `store_lost` is a run in which a later store is then
never written.
-/

namespace ArianeSoc.StoreUnit

open Sync Lsu StoreBuffer

variable {s c : Nat}

/-- The store unit beside the stores it has taken. -/
structure Track (s c : Nat) where
  unit : State s c
  queues : Queues
  taken : Option LsuCtrl
  committed : List Store
  granted : List Store

namespace Track

def reset (s c : Nat) : Track s c :=
  ⟨StoreUnit.reset s c, ⟨[], []⟩, none, [], []⟩

/-- What a store writes, at the address of its translation. -/
def storeOf (l : LsuCtrl) (paddr : BitVec 56) : Store :=
  ⟨paddr, stDataNext l, l.be, extractTransferSize l.operator⟩

/-- The store that is posted in a cycle: the one taken in the cycle
before. -/
def posted (t : Track s c) (i : In) : Option Store :=
  if storeBufferValid t.unit i then t.taken.map (storeOf · i.paddr) else none

def step (t : Track s c) (i : In) : Track s c where
  unit := StoreUnit.step t.unit i
  queues := t.queues.step (t.posted i) i.commit i.flush
    (StoreBuffer.granted t.unit.buffer (bufferIn t.unit i))
  taken := if accepts t.unit i then some i.lsuCtrl else none
  committed := t.committed ++
    if i.commit then t.queues.spec.head?.toList else []
  granted := t.granted ++
    if StoreBuffer.granted t.unit.buffer (bufferIn t.unit i) then
      [(request t.unit.buffer).store] else []

end Track

/-- The commit stage commits a store that is there, and only if the commit
queue is ready. -/
def CommitOk (t : Track s c) (i : In) : Prop :=
  i.commit = true → t.queues.spec ≠ [] ∧ commitReadyO t.unit.buffer = true

instance (t : Track s c) (i : In) : Decidable (CommitOk t i) :=
  inferInstanceAs (Decidable (_ → _))

/-- A store commits in the cycle of a flush. -/
def CommitFlush (i : In) : Prop := i.commit = true ∧ i.flush = true

instance (i : In) : Decidable (CommitFlush i) :=
  inferInstanceAs (Decidable (_ ∧ _))

/-! ## The invariant -/

/-- The registers hold the realigned data of the store `l`. -/
structure Carries (q : State s c) (l : LsuCtrl) : Prop where
  data : q.stData = stDataNext l
  be : q.stBe = l.be
  dataSize : q.stDataSize = extractTransferSize l.operator

/-- The store unit and the lists agree. -/
structure Inv (t : Track s c) : Prop where
  refines : Refines t.unit.buffer t.queues
  taken : t.unit.state = .VALID_STORE →
    ∃ l, t.taken = some l ∧ Carries t.unit l
  room : t.unit.state = .VALID_STORE → t.queues.spec.length < 2 ^ s
  log : t.committed = t.granted ++ t.queues.commit

theorem inv_reset (s c : Nat) : Inv (Track.reset s c) where
  refines := refines_reset s c
  taken h := by cases h
  room h := by cases h
  log := rfl

variable {t : Track s c} {i : In}

/-- What the buffer is given is what the lists are given. -/
theorem pushed_eq_posted (h : Inv t) :
    pushed (bufferIn t.unit i) = t.posted i := by
  show (if storeBufferValid t.unit i then _ else _) =
    if storeBufferValid t.unit i then _ else _
  split_ifs with hv
  · obtain ⟨l, hl, hc⟩ := h.taken (valid_of_storeBufferValid hv)
    rw [hl]
    simp [entering, Entry.store, bufferIn, Track.storeOf, hc.data, hc.be,
      hc.dataSize]
  · rfl

/-- A cycle that obeys the commit stage and does not flush a commit has
room. -/
theorem room_of_inv (h : Inv t) (hc : CommitOk t i) (hf : ¬ CommitFlush i) :
    Room t.queues s c (bufferIn t.unit i) where
  push hv := h.room (valid_of_storeBufferValid hv)
  present hi := (hc hi).1
  commit hi := by
    have hready := (hc hi).2
    simp only [commitReadyO, decide_eq_true_eq] at hready
    rw [← h.refines.commit.count]
    exact hready
  no_flush hi := by
    by_contra hfl
    exact hf ⟨hi, Bool.not_eq_false _ ▸ hfl⟩

/-- The unit takes a store only if the queue keeps a free cell for it. -/
theorem length_spec_step_lt (h : Inv t) (hc : CommitOk t i)
    (hnext : stateNext t.unit i = .VALID_STORE) :
    (t.step i).queues.spec.length < 2 ^ s := by
  obtain ⟨hacc, hflush, -⟩ := accepts_of_valid hnext
  have hready : t.unit.buffer.specStatusCnt.toNat < 2 ^ s - 1 ∨
      i.commit = true := by
    simp only [accepts, stReady, Bool.and_eq_true] at hacc
    simpa [readyO] using hacc.2.1
  rw [h.refines.spec.count] at hready
  have hle := h.refines.spec.holds.length_le
  have hposted : (t.posted i).toList.length ≤ 1 ∧
      ((t.posted i).toList.length = 1 → t.queues.spec.length < 2 ^ s) := by
    unfold Track.posted
    split_ifs with hv
    · refine ⟨?_, fun _ => h.room (valid_of_storeBufferValid hv)⟩
      cases t.taken <;> simp
    · simp
  obtain ⟨hone, hroom⟩ := hposted
  show (Queues.step _ _ _ _ _).spec.length < _
  simp only [Queues.step, hflush, Bool.false_eq_true, if_false,
    List.length_append]
  split_ifs with hci
  · have hpos := List.length_pos_iff.mpr (hc hci).1
    rw [List.length_tail]
    omega
  · have hlt := hready.resolve_right hci
    omega

/-- What the data cache takes is the oldest committed store. -/
theorem granted_head (h : Inv t)
    (hg : StoreBuffer.granted t.unit.buffer (bufferIn t.unit i) = true) :
    t.queues.commit =
      (request t.unit.buffer).store :: t.queues.commit.tail := by
  have hreq : dataReqO t.unit.buffer = true := by
    simp only [StoreBuffer.granted, Bool.and_eq_true] at hg
    exact hg.1
  obtain ⟨x, xs, hx⟩ :=
    List.exists_cons_of_ne_nil ((dataReqO_iff h.refines.commit).mp hreq)
  have hholds := h.refines.commit.holds
  rw [hx] at hholds ⊢
  exact congrArg (· :: xs) hholds.val_start.symm

/-- The logs grow by what commits and by what is granted. -/
theorem log_step (h : Inv t) :
    (t.step i).committed = (t.step i).granted ++ (t.step i).queues.commit := by
  show t.committed ++ _ = (t.granted ++ _) ++ (Queues.step _ _ _ _ _).commit
  simp only [Queues.step]
  rw [h.log]
  split_ifs with hc hg hg
  all_goals simp only [List.append_nil, List.append_assoc]
  · rw [← List.append_assoc [_], List.singleton_append, ← granted_head h hg]
  · rw [List.singleton_append, ← granted_head h hg]

theorem inv_step (h : Inv t) (hc : CommitOk t i) (hf : ¬ CommitFlush i) :
    Inv (t.step i) where
  refines := by
    have hstep := refines_step h.refines (room_of_inv h hc hf)
    rw [pushed_eq_posted h] at hstep
    exact hstep
  taken hv := by
    refine ⟨i.lsuCtrl, ?_, ⟨rfl, rfl, rfl⟩⟩
    exact if_pos (accepts_of_valid hv).1
  room hv := length_spec_step_lt h hc hv
  log := log_step h

/-! ## Every run -/

/-- The queues agree with the lists, and the writes granted are the stores
committed but for those that still wait in the commit queue. -/
structure Exact (t : Track s c) : Prop where
  refines : Refines t.unit.buffer t.queues
  log : t.committed = t.granted ++ t.queues.commit

/-- No store enters a full queue, and none leaves an empty one. -/
def NoOverflow (t : Track s c) (i : In) : Prop :=
  Room t.queues s c (bufferIn t.unit i) ∧
    pushed (bufferIn t.unit i) = t.posted i ∧
    (StoreBuffer.granted t.unit.buffer (bufferIn t.unit i) = true →
      t.queues.commit.head? = some (request t.unit.buffer).store)

/-- In every run in which the commit stage commits a store that is there to
a queue that is ready, and no store commits in the cycle of a flush, the
queues hold the two lists, neither overflows or underflows, and the writes
that the data cache grants are the stores committed, in order. -/
theorem stores_exact (s c : Nat) (is : List In)
    (hcommit : Along Track.step CommitOk (Track.reset s c) is)
    (hflush : Along Track.step (fun _ i => ¬ CommitFlush i)
      (Track.reset s c) is) :
    Always Track.step Exact (Track.reset s c) is ∧
      Along Track.step NoOverflow (Track.reset s c) is := by
  have hkeep : ∀ (t : Track s c) i, CommitOk t i ∧ ¬ CommitFlush i →
      Inv t → Inv (t.step i) := fun t i h ht => inv_step ht h.1 h.2
  have hcond := hcommit.and hflush
  refine ⟨(hcond.always hkeep (inv_reset s c)).mono fun t ht =>
    ⟨ht.refines, ht.log⟩, ?_⟩
  refine (hcond.along hkeep (inv_reset s c)).mono ?_
  rintro t i ⟨⟨hc, hf⟩, ht⟩
  refine ⟨room_of_inv ht hc hf, pushed_eq_posted ht, fun hg => ?_⟩
  rw [granted_head ht hg]
  rfl

/-- A cycle with a ready data cache and nothing else. -/
def In.idle : In where
  flush := false
  valid := false
  lsuCtrl := LsuCtrl.zero
  commit := false
  paddr := 0#56
  ex := ExceptionT.none
  dtlbHit := true
  dataGnt := true
  amoBufferReady := true

/-- A store of `data` is taken. -/
def In.offer (data : BitVec 64) : In :=
  { In.idle with
    valid := true
    lsuCtrl :=
      { LsuCtrl.zero with
        valid := true
        data := data
        be := 0xFF#8
        fu := .STORE
        operator := .SD } }

/-- A store is taken, posted at `0x1000` and committed in the cycle in
which the next one is taken; that one is flushed. -/
def flushedStore : List In :=
  [In.offer 1#64, { In.idle with paddr := 0x1000#56 },
    { In.offer 2#64 with commit := true },
    { In.idle with flush := true, paddr := 0x2000#56 }, In.idle]

theorem stores_exact_flushedStore :
    Always Track.step Exact (Track.reset 2 3) flushedStore ∧
      Along Track.step NoOverflow (Track.reset 2 3) flushedStore :=
  stores_exact 2 3 flushedStore (by decide +kernel) (by decide +kernel)

/-- A store is committed in the cycle of a flush, and the next one is
committed without. -/
def committedBesideFlush : List In :=
  [In.offer 1#64, { In.idle with paddr := 0x1000#56 },
    { In.idle with commit := true, flush := true },
    In.offer 2#64, { In.idle with paddr := 0x2000#56 },
    { In.idle with commit := true }]

/-- Two stores are committed and one is granted, and no cell of the commit
queue holds the other. -/
theorem store_lost :
    let t := run Track.step (Track.reset 2 3) committedBesideFlush
    Along Track.step CommitOk (Track.reset 2 3) committedBesideFlush ∧
      t.committed = [⟨0x1000#56, 1#64, 0xFF#8, 3#2⟩,
        ⟨0x2000#56, 2#64, 0xFF#8, 3#2⟩] ∧
      t.granted = [⟨0x1000#56, 1#64, 0xFF#8, 3#2⟩] ∧
      (∀ k, (t.unit.buffer.commitQueue k).valid = false) ∧
      noStPendingO t.unit.buffer = false := by
  decide +kernel

end ArianeSoc.StoreUnit
