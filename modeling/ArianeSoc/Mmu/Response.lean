import ArianeSoc.Mmu.Ptw
import ArianeSoc.Sync

/-!
# Which response the page table walker looks at

The data cache answers the granted requests of the walker in order, each
once and after any delay.  `Port` follows this from the outside: the walks
are numbered, `outstanding` holds the granted requests without an answer,
each with its walk, and `arriving` is the request whose answer is in the
register `dataRvalid` now.

* `pending_step`: one cycle of the machine, as the requests in flight see
  it.
* `Tracked` is the invariant.  The walker has one request in flight in the
  states `PTE_LOOKUP` and `WAIT_RVALID` and none in the others, and in
  `PTE_LOOKUP` it is the request of the present walk for the present entry.
* `response_matches`: every response that is looked at was issued by the
  walk that looks at it.

A flush in `WAIT_RVALID` before the answer has come sends the machine to
`IDLE` with a request in flight.  `StrayFlush` is this case, and
`stray_response` is a run in which the next walk takes the answer for its
own.
-/

namespace ArianeSoc.Ptw

open Sync

variable {n : Nat}

/-! ## The requests in flight -/

/-- A granted request: the walk that issued it and the address. -/
structure Req where
  walk : Nat
  addr : BitVec 56
  deriving DecidableEq

/-- The requests of the walker as the cache sees them. -/
structure Port where
  walk : Nat
  outstanding : List Req
  arriving : Option Req
  deriving DecidableEq

namespace Port

/-- No walk has started. -/
def reset : Port := ⟨0, [], none⟩

/-- The requests without an answer that the walker has seen. -/
def pending (p : Port) : List Req := p.arriving.toList ++ p.outstanding

/-- A walk starts. -/
def starts (q : State n) (i : In n) : Bool :=
  q.state = .IDLE ∧ stateNext q i = .WAIT_GRANT

/-- A request is granted. -/
def granted (q : State n) (i : In n) : Bool := dataReqO q && i.dataGnt

/-- One cycle: an answer belongs to the oldest request. -/
def step (p : Port) (q : State n) (i : In n) : Port where
  walk := if starts q i then p.walk + 1 else p.walk
  outstanding :=
    (if i.dataRvalid then p.outstanding.tail else p.outstanding) ++
      (if granted q i then [⟨p.walk, q.ptwPptr⟩] else [])
  arriving := if i.dataRvalid then p.outstanding.head? else none

/-- The cache answers only requests that it has granted before. -/
def Answers (p : Port) (i : In n) : Prop :=
  i.dataRvalid = true → p.outstanding ≠ []

instance (p : Port) (i : In n) : Decidable (Answers p i) :=
  inferInstanceAs (Decidable (_ → _))

end Port

/-- The walker together with its requests. -/
structure Track (n : Nat) where
  ptw : State n
  port : Port
  deriving DecidableEq

namespace Track

def reset (n : Nat) : Track n := ⟨Ptw.reset n, Port.reset⟩

def step (t : Track n) (i : In n) : Track n :=
  ⟨Ptw.step t.ptw i, t.port.step t.ptw i⟩

end Track

/-- A flush in the state `WAIT_RVALID` before the answer has come. -/
def StrayFlush (q : State n) (i : In n) : Prop :=
  q.state = .WAIT_RVALID ∧ q.dataRvalid = false ∧ i.flush = true

instance (q : State n) (i : In n) : Decidable (StrayFlush q i) :=
  inferInstanceAs (Decidable (_ ∧ _ ∧ _))

/-- The response that the walker looks at answers the request of its own
walk for the entry it waits for. -/
def Matches (q : State n) (p : Port) : Prop :=
  lookingUp q = true → p.arriving = some ⟨p.walk, q.ptwPptr⟩

instance (q : State n) (p : Port) : Decidable (Matches q p) :=
  inferInstanceAs (Decidable (_ → _))

/-! ## The invariant -/

/-- The requests in flight that a state of the machine accounts for. -/
def Accounted (q : State n) (p : Port) : Prop :=
  match q.state with
  | .PTE_LOOKUP => p.pending = [⟨p.walk, q.ptwPptr⟩]
  | .WAIT_RVALID => ∃ r, p.pending = [r]
  | _ => p.pending = []

/-- The registers and the requests in flight agree. -/
structure Tracked (q : State n) (p : Port) : Prop where
  arriving : q.dataRvalid = p.arriving.isSome
  accounted : Accounted q p

theorem tracked_reset (n : Nat) : Tracked (reset n) Port.reset :=
  ⟨rfl, rfl⟩

variable {q : State n} {p : Port} {i : In n}

/-- The walker forgets the request whose answer is in the register, and
the granted one comes on top. -/
theorem pending_step (ha : Port.Answers p i) :
    (p.step q i).pending = p.outstanding ++
      (if Port.granted q i then [⟨p.walk, q.ptwPptr⟩] else []) := by
  unfold Port.pending Port.step
  cases hr : i.dataRvalid with
  | false => rfl
  | true =>
    obtain ⟨r, rest, hout⟩ := List.exists_cons_of_ne_nil (ha hr)
    simp [hout]

theorem arriving_step (ha : Port.Answers p i) :
    (step q i).dataRvalid = (p.step q i).arriving.isSome := by
  show i.dataRvalid = (if i.dataRvalid then p.outstanding.head? else none).isSome
  cases hr : i.dataRvalid with
  | false => rfl
  | true =>
    obtain ⟨r, rest, hout⟩ := List.exists_cons_of_ne_nil (ha hr)
    simp [hout]

/-- A register that holds an answer leaves nothing outstanding behind the
one request in flight. -/
theorem outstanding_of_arriving {r : Req} (h : Tracked q p)
    (hp : p.pending = [r]) (hv : q.dataRvalid = true) :
    p.outstanding = [] ∧ p.arriving = some r := by
  have hsome := h.arriving
  rw [hv] at hsome
  obtain ⟨r', hr'⟩ := Option.isSome_iff_exists.mp hsome.symm
  rw [Port.pending, hr'] at hp
  obtain ⟨rfl, hout⟩ := List.cons_eq_cons.mp hp
  exact ⟨hout, hr'⟩

/-- Without an answer in the register the request is still outstanding. -/
theorem outstanding_of_not_arriving (h : Tracked q p)
    (hv : q.dataRvalid = false) : p.outstanding = p.pending := by
  have hnone : p.arriving = none := by
    have hsome := h.arriving
    rw [hv] at hsome
    simpa using hsome.symm
  rw [Port.pending, hnone]
  rfl

/-- With nothing in flight, only a grant puts a request in flight. -/
theorem pending_step_of_empty (ha : Port.Answers p i) (h : p.pending = [])
    (hg : Port.granted q i = false) : (p.step q i).pending = [] := by
  have hout : p.outstanding = [] := (List.append_eq_nil_iff.mp h).2
  rw [pending_step ha, hout, hg]
  rfl

theorem granted_of_ne (h : q.state ≠ .WAIT_GRANT) :
    Port.granted q i = false := by
  simp [Port.granted, dataReqO, h]

theorem walk_step_of_ne (h : q.state ≠ .IDLE) :
    (p.step q i).walk = p.walk := by
  simp [Port.step, Port.starts, h]

/-- Nothing is in flight in a state that accounts for nothing. -/
theorem accounted_of_empty (h : p.pending = [])
    (hl : q.state ≠ .PTE_LOOKUP) (hw : q.state ≠ .WAIT_RVALID) :
    Accounted q p := by
  unfold Accounted
  split
  · exact absurd ‹_› hl
  · exact absurd ‹_› hw
  · exact h

/-- The one request in flight is the one that `PTE_LOOKUP` waits for, or is
waited for in `WAIT_RVALID`. -/
theorem accounted_of_pending
    (hp : (p.step q i).pending = [⟨p.walk, q.ptwPptr⟩])
    (hwalk : (p.step q i).walk = p.walk)
    (hptr : (step q i).ptwPptr = q.ptwPptr)
    (h : stateNext q i = .PTE_LOOKUP ∨ stateNext q i = .WAIT_RVALID) :
    Accounted (step q i) (p.step q i) := by
  have hst : (step q i).state = stateNext q i := rfl
  unfold Accounted
  rw [hst, hp, hwalk, hptr]
  rcases h with h | h <;> rw [h]
  exact ⟨_, rfl⟩

theorem accounted_of_waitGrant (hq : q.state = .WAIT_GRANT)
    (ha : Port.Answers p i) (hacc : p.pending = []) :
    Accounted (step q i) (p.step q i) := by
  have hst : (step q i).state = stateNext q i := rfl
  have hnext := stateNext_waitGrant (i := i) hq
  cases hg : i.dataGnt with
  | false =>
    simp only [hg, Bool.false_eq_true, if_false] at hnext
    refine accounted_of_empty (pending_step_of_empty ha hacc
      (by simp [Port.granted, hg])) ?_ ?_ <;> rw [hst]
    all_goals rcases hnext with h' | h' <;> simp [h']
  | true =>
    simp only [hg, if_true] at hnext
    have hout : p.outstanding = [] := (List.append_eq_nil_iff.mp hacc).2
    have hp : (p.step q i).pending = [⟨p.walk, q.ptwPptr⟩] := by
      rw [pending_step ha, hout]
      simp [Port.granted, dataReqO, hq, hg]
    exact accounted_of_pending hp (walk_step_of_ne (by simp [hq]))
      (ptwPptr_step (Or.inl hq)) hnext

theorem accounted_of_lookup (h : Tracked q p) (hq : q.state = .PTE_LOOKUP)
    (ha : Port.Answers p i) (hacc : p.pending = [⟨p.walk, q.ptwPptr⟩]) :
    Accounted (step q i) (p.step q i) := by
  have hst : (step q i).state = stateNext q i := rfl
  have hnext := stateNext_lookup (i := i) hq
  have hg : Port.granted q i = false := granted_of_ne (by simp [hq])
  cases hv : q.dataRvalid with
  | true =>
    simp only [hv, if_true] at hnext
    have hout := (outstanding_of_arriving h hacc hv).1
    have hp : (p.step q i).pending = [] := by
      rw [pending_step ha, hout, hg]
      rfl
    refine accounted_of_empty hp ?_ ?_ <;> rw [hst]
    all_goals rcases hnext with h' | h' | h' <;> simp [h']
  | false =>
    simp only [hv, Bool.false_eq_true, if_false] at hnext
    have hout := outstanding_of_not_arriving h hv
    have hp : (p.step q i).pending = [⟨p.walk, q.ptwPptr⟩] := by
      rw [pending_step ha, hout, hacc, hg]
      rfl
    exact accounted_of_pending hp (walk_step_of_ne (by simp [hq]))
      (ptwPptr_step (Or.inr ⟨hq, hv⟩)) hnext

theorem accounted_of_waitRvalid (h : Tracked q p) (hq : q.state = .WAIT_RVALID)
    (ha : Port.Answers p i) (hf : ¬ StrayFlush q i) {r : Req}
    (hacc : p.pending = [r]) : Accounted (step q i) (p.step q i) := by
  have hst : (step q i).state = stateNext q i := rfl
  have hnext := stateNext_waitRvalid (i := i) hq
  have hg : Port.granted q i = false := granted_of_ne (by simp [hq])
  cases hv : q.dataRvalid with
  | true =>
    have hout := (outstanding_of_arriving h hacc hv).1
    have hp : (p.step q i).pending = [] := by
      rw [pending_step ha, hout, hg]
      rfl
    rw [hv, if_pos (Or.inl rfl)] at hnext
    refine accounted_of_empty hp ?_ ?_ <;> rw [hst] <;> simp [hnext]
  | false =>
    have hflush : i.flush = false := by
      by_contra hne
      exact hf ⟨hq, hv, Bool.not_eq_false _ ▸ hne⟩
    rw [hv, hflush, if_neg (by simp)] at hnext
    have hp : (p.step q i).pending = [r] := by
      rw [pending_step ha, outstanding_of_not_arriving h hv, hacc, hg]
      rfl
    unfold Accounted
    rw [hst, hnext]
    exact ⟨r, hp⟩

/-- One cycle keeps the account, unless it is a stray flush. -/
theorem accounted_step (h : Tracked q p) (ha : Port.Answers p i)
    (hf : ¬ StrayFlush q i) : Accounted (step q i) (p.step q i) := by
  have hacc := h.accounted
  have hst : (step q i).state = stateNext q i := rfl
  unfold Accounted at hacc
  cases hq : q.state with
  | IDLE =>
    simp only [hq] at hacc
    refine accounted_of_empty (pending_step_of_empty ha hacc
      (granted_of_ne (by simp [hq]))) ?_ ?_ <;> rw [hst]
    all_goals rcases stateNext_idle (i := i) hq with h' | h' <;> simp [h']
  | WAIT_GRANT =>
    simp only [hq] at hacc
    exact accounted_of_waitGrant hq ha hacc
  | PTE_LOOKUP =>
    simp only [hq] at hacc
    exact accounted_of_lookup h hq ha hacc
  | WAIT_RVALID =>
    simp only [hq] at hacc
    obtain ⟨r, hacc⟩ := hacc
    exact accounted_of_waitRvalid h hq ha hf hacc
  | PROPAGATE_ERROR =>
    simp only [hq] at hacc
    refine accounted_of_empty (pending_step_of_empty ha hacc
      (granted_of_ne (by simp [hq]))) ?_ ?_ <;> rw [hst]
    all_goals simp [stateNext_error hq]

theorem tracked_step (h : Tracked q p) (ha : Port.Answers p i)
    (hf : ¬ StrayFlush q i) : Tracked (step q i) (p.step q i) :=
  ⟨arriving_step ha, accounted_step h ha hf⟩

theorem Tracked.matches (h : Tracked q p) : Matches q p := by
  intro hlook
  obtain ⟨hst, hv⟩ : q.state = .PTE_LOOKUP ∧ q.dataRvalid = true := by
    simpa [lookingUp] using hlook
  have hacc := h.accounted
  simp only [Accounted, hst] at hacc
  exact (outstanding_of_arriving h hacc hv).2

/-! ## Every run -/

/-- In every run with a cache that answers granted requests only, in order
and once, and without a stray flush, every response that the walker looks
at answers a request of the present walk. -/
theorem response_matches (n : Nat) (is : List (In n))
    (hcache : Along Track.step (fun t i => t.port.Answers i)
      (Track.reset n) is)
    (hflush : Along Track.step (fun t i => ¬ StrayFlush t.ptw i)
      (Track.reset n) is) :
    Always Track.step (fun t => Matches t.ptw t.port) (Track.reset n) is := by
  have hinv : Always Track.step (fun t => Tracked t.ptw t.port)
      (Track.reset n) is := by
    refine (hcache.and hflush).always ?_ (tracked_reset n)
    intro t i h ht
    exact tracked_step ht h.1 h.2
  exact hinv.mono fun t ht => ht.matches

/-- A cycle with translation on and nothing else. -/
def In.idle : In 1 where
  flush := false
  enableTranslation := true
  enLdStTranslation := true
  lsuIsStore := false
  dataGnt := false
  dataRvalid := false
  dataRdata := 0#64
  asid := 0#1
  itlbAccess := false
  itlbHit := false
  itlbVaddr := 0#64
  dtlbAccess := false
  dtlbHit := false
  dtlbVaddr := 0#64
  satpPpn := 0x80000#44
  mxr := false

/-- A load at `a` misses. -/
def loadAt (a : BitVec 64) : In 1 :=
  { In.idle with dtlbAccess := true, dtlbVaddr := a }

/-- A walk for `0x40201000` is granted, flushed and answered, then a walk
is granted and answered. -/
def flushedWalk : List (In 1) :=
  [loadAt 0x40201000#64,
    { In.idle with dataGnt := true },
    { In.idle with flush := true },
    { In.idle with dataRvalid := true, dataRdata := 0xCF#64 },
    In.idle,
    loadAt 0x80201000#64,
    { In.idle with dataGnt := true },
    { In.idle with dataRvalid := true, dataRdata := 0xCF#64 }]

theorem response_matches_flushedWalk :
    Always Track.step (fun t => Matches t.ptw t.port) (Track.reset 1)
      flushedWalk :=
  response_matches 1 flushedWalk (by decide +kernel) (by decide +kernel)

/-- The walk is flushed twice before its answer comes.  The answer arrives
together with the grant of the next walk, with one request in flight at
any time. -/
def flushedTwice : List (In 1) :=
  [loadAt 0x40201000#64,
    { In.idle with dataGnt := true },
    { In.idle with flush := true },
    { In.idle with flush := true },
    loadAt 0x80201000#64,
    { In.idle with dataGnt := true, dataRvalid := true,
                   dataRdata := 0xCF#64 }]

/-- The second walk takes the answer to the first one for its own and fills
the data TLB with it. -/
theorem stray_response :
    let t := run Track.step (Track.reset 1) flushedTwice
    Along Track.step (fun t i => t.port.Answers i) (Track.reset 1)
        flushedTwice ∧
      ¬ Matches t.ptw t.port ∧
      t.port.arriving = some ⟨1, entryAddr 0x80000#44 1#9⟩ ∧
      t.port.walk = 2 ∧ t.ptw.ptwPptr = entryAddr 0x80000#44 2#9 ∧
      (dtlbUpdateO t.ptw In.idle).valid = true := by
  decide +kernel

end ArianeSoc.Ptw
