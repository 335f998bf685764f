import ArianeSoc.Frontend.InstrRealign
import ArianeSoc.Frontend.QueueOrder

/-!
# The front-end from the instruction cache to the decoder

The part of `frontend.sv` that takes the words of the instruction cache
through the re-aligner into the queue: the registers of the cache's answer,
the two modules and the kill signals.  What the branch predictors say is an
input; a prediction counts only for a valid instruction.

A `Trace` adds what a run of the front-end is about: the items and entries
since the last flush of the queue, the address of the next word, and the
fetch faults that came with the words.

* `fetchAddr` is the address the next word has: behind a redirection its
  target, else the word behind the last one, as `npc_select` has it.
* `Trace.Env` is what the cache, the controller and the decoder promise.
* `Linked` is what follows for the addresses: the queue's packets go on at
  each other's end (`Linked.continues`).
-/

namespace ArianeSoc.Frontend

/-! ## The module -/

/-- The registers of `frontend`. -/
structure State where
  icacheData : BitVec 32
  icacheVaddr : BitVec 64
  icacheValid : Bool
  icacheExValid : Bool
  realign : InstrRealign.State
  queue : InstrQueue.State

def init : State where
  icacheData := 0#32
  icacheVaddr := 0#64
  icacheValid := false
  icacheExValid := false
  realign := InstrRealign.init
  queue := InstrQueue.init

/-- `icache_dreq_o_t` -/
structure IcacheDreq where
  valid : Bool
  vaddr : BitVec 64
  data : BitVec 32
  ex : Bool
  deriving DecidableEq, Repr

/-- The inputs of `frontend`. -/
structure In where
  flush : Bool
  isMispredict : Bool
  dreq : IcacheDreq
  predict : BitVec 1 → Cf
  predictAddress : BitVec 64
  fetchEntryReady : Bool

variable (s : State) (i : In)

def realignIn (flush : Bool) : InstrRealign.In where
  flush := flush
  valid := s.icacheValid
  address := s.icacheVaddr
  data := s.icacheData

/-- The instructions of the re-aligner. -/
def slot (k : BitVec 1) : InstrRealign.Slot :=
  if k = 0#1 then InstrRealign.slot0 s.realign (realignIn s false)
  else InstrRealign.slot1 s.realign (realignIn s false)

def cfType (k : BitVec 1) : Cf :=
  if (slot s k).valid then i.predict k else .NoCF

def queueIn : InstrQueue.In where
  flush := i.flush
  instr := fun k => (slot s k).instr
  addr := fun k => (slot s k).addr
  valid := InstrQueue.mask fun k => (slot s k).valid
  exception := s.icacheExValid
  predictAddress := i.predictAddress
  cfType := cfType s i
  fetchEntryReady := i.fetchEntryReady

def bpValid : Bool := cfType s i 0#1 != .NoCF || cfType s i 1#1 != .NoCF

def replay : Bool := InstrQueue.replayO s.queue (queueIn s i)

def replayAddr : BitVec 64 := InstrQueue.replayAddrO s.queue (queueIn s i)

def killS1 : Bool := i.isMispredict || i.flush || replay s i

def killS2 : Bool := killS1 s i || bpValid s i

/-- One cycle. -/
def step : State where
  icacheData :=
    if i.dreq.valid then icacheData i.dreq.vaddr i.dreq.data
    else s.icacheData
  icacheVaddr := if i.dreq.valid then i.dreq.vaddr else s.icacheVaddr
  icacheValid := i.dreq.valid
  icacheExValid := if i.dreq.valid then i.dreq.ex else s.icacheExValid
  realign := InstrRealign.step s.realign (realignIn s (killS2 s i))
  queue := InstrQueue.step s.queue (queueIn s i)

/-! ## Runs -/

/-- A fetch fault: how many items were in front of it, and the address of
the instruction. -/
structure Fault where
  position : ℕ
  addr : BitVec 64
  deriving DecidableEq, Repr

/-- The front-end, what went into and out of the queue since its last flush,
the faults since then, and where the next word comes from. -/
structure Trace where
  front : State
  pushed : List InstrQueue.Item
  delivered : List FetchEntry
  faults : List Fault
  expect : Option (BitVec 64)

def Trace.init : Trace where
  front := Frontend.init
  pushed := []
  delivered := []
  faults := []
  expect := none

/-- The run of the queue. -/
def Trace.queue (r : Trace) : InstrQueue.Run where
  queue := r.front.queue
  pushed := r.pushed
  delivered := r.delivered

/-- The address of the instruction that the word in the registers
completes or starts. -/
def instrAddr : BitVec 64 :=
  if s.realign.unaligned then s.realign.unalignedAddress else s.icacheVaddr

/-- The word is fetched again, from the instruction's address on. -/
def refetched : Bool := replay s i && replayAddr s i == instrAddr s

/-- The fault of a word that is not fetched again. -/
def newFault (r : Trace) (i : In) : List Fault :=
  if r.front.icacheValid && r.front.icacheExValid && !refetched r.front i
  then [⟨r.pushed.length, instrAddr r.front⟩] else []

/-- The address of the next word. -/
def fetchAddr (r : Trace) (i : In) : Option (BitVec 64) :=
  if i.flush || i.isMispredict then none
  else if replay r.front i then some (replayAddr r.front i)
  else if bpValid r.front i then some i.predictAddress
  else if i.dreq.valid then some (nextWord i.dreq.vaddr)
  else r.expect

def Trace.step (r : Trace) (i : In) : Trace where
  front := Frontend.step r.front i
  pushed := (r.queue.step (queueIn r.front i)).pushed
  delivered := (r.queue.step (queueIn r.front i)).delivered
  faults := if i.flush then [] else r.faults ++ newFault r i
  expect := fetchAddr r i

/-- What surrounds the front-end: the cache does not answer a killed
request, it answers at even addresses, with the word that was asked for; a
misprediction flushes the queue; the decoder is ready only for a valid
entry. -/
structure Trace.Env (r : Trace) (i : In) : Prop where
  mispredict : i.isMispredict = true → i.flush = true
  ready : i.fetchEntryReady = true →
    InstrQueue.fetchEntryValidO r.front.queue = true
  killed : i.dreq.valid = true → killS2 r.front i = false
  even : i.dreq.valid = true → i.dreq.vaddr.getLsbD 0 = false
  addr : i.dreq.valid = true → ∀ a ∈ r.expect, i.dreq.vaddr = a

instance (r : Trace) (i : In) : Decidable (r.Env i) :=
  decidable_of_iff
    ((i.isMispredict = true → i.flush = true) ∧
      (i.fetchEntryReady = true →
        InstrQueue.fetchEntryValidO r.front.queue = true) ∧
      (i.dreq.valid = true → killS2 r.front i = false) ∧
      (i.dreq.valid = true → i.dreq.vaddr.getLsbD 0 = false) ∧
      (i.dreq.valid = true →
        (r.expect.all fun a => i.dreq.vaddr == a) = true))
    ⟨fun ⟨h1, h2, h3, h4, h5⟩ => ⟨h1, h2, h3, h4, fun hv a ha =>
        beq_iff_eq.mp ((Option.all_eq_true _ _).mp (h5 hv) a ha)⟩,
      fun h => ⟨h.mispredict, h.ready, h.killed, h.even, fun hv =>
        (Option.all_eq_true _ _).mpr fun a ha =>
          beq_iff_eq.mpr (h.addr hv a ha)⟩⟩

/-! ## The addresses of a packet -/

section Packet

open InstrRealign

variable {a : BitVec 64}

theorem nextWord_lower (h0 : a.getLsbD 0 = false)
    (h1 : a.getLsbD 1 = false) : nextWord a = a + 4#64 := by
  rw [nextWord, inWord_lower h0 h1]

theorem nextWord_upper (h0 : a.getLsbD 0 = false)
    (h1 : a.getLsbD 1 = true) : nextWord a = a + 2#64 := by
  rw [getLsbD_zero_eq_false] at h0
  rw [← Bool.not_eq_false, getLsbD_one_eq_false] at h1
  have hlt := a.isLt
  refine BitVec.eq_of_toNat_eq ?_
  rw [nextWord, BitVec.toNat_add, BitVec.toNat_add, inWord_toNat]
  show (a.toNat / 4 * 4 + 0 + 4) % 2 ^ 64 = (a.toNat + 2) % 2 ^ 64
  omega

/-- The next word starts at a word. -/
theorem nextWord_aligned (a : BitVec 64) :
    (nextWord a).getLsbD 0 = false ∧ (nextWord a).getLsbD 1 = false := by
  have hlt := a.isLt
  rw [getLsbD_zero_eq_false, getLsbD_one_eq_false, nextWord,
    BitVec.toNat_add, inWord_toNat]
  show (a.toNat / 4 * 4 + 0 + 4) % 2 ^ 64 % 2 = 0 ∧
    (a.toNat / 4 * 4 + 0 + 4) % 2 ^ 64 / 2 % 2 = 0
  omega

theorem size_append (x y : BitVec 16) :
    InstrQueue.size (x ++ y) = if isCompressed y then 2#64 else 4#64 := by
  have hlow : (x ++ y).extractLsb' 0 2 = y.extractLsb' 0 2 := by
    refine BitVec.eq_of_getLsbD_eq fun k hk => ?_
    rw [BitVec.getLsbD_extractLsb', BitVec.getLsbD_extractLsb',
      BitVec.getLsbD_append, if_pos (by omega)]
  rw [InstrQueue.size, hlow, isCompressed]

theorem high_append_low (x : BitVec 32) :
    x.extractLsb' 16 16 ++ x.extractLsb' 0 16 = x := by
  refine BitVec.eq_of_getLsbD_eq fun k hk => ?_
  rw [BitVec.getLsbD_append, BitVec.getLsbD_extractLsb',
    BitVec.getLsbD_extractLsb']
  split_ifs with hlt
  · rw [decide_eq_true hlt, Bool.true_and, Nat.zero_add]
  · rw [decide_eq_true (by omega), Bool.true_and,
      show 16 + (k - 16) = k by omega]

/-- What holds of a word in the registers and of the half-word that the
re-aligner keeps. -/
structure Fits (s : InstrRealign.State) (i : InstrRealign.In) : Prop where
  valid : i.valid = true
  even : i.address.getLsbD 0 = false
  upper : i.address.getLsbD 1 = true → i.high = 0#16
  half : s.unaligned = true →
    isCompressed s.unalignedInstr = false ∧
      s.unalignedAddress + 2#64 = i.address ∧
        i.address.getLsbD 1 = false

variable {s : InstrRealign.State} {i : InstrRealign.In}

theorem Fits.size_slot0 (h : Fits s i) :
    InstrQueue.size (slot0 s i).instr =
      if s.unaligned || !isCompressed i.low then 4#64 else 2#64 := by
  rcases hu : s.unaligned with _ | _
  · have hinstr : (slot0 s i).instr = i.high ++ i.low := by
      rw [In.high, In.low, high_append_low]
      simp [slot0, hu]
    rw [hinstr, size_append]
    rcases isCompressed i.low with _ | _ <;> rfl
  · have hinstr : (slot0 s i).instr = i.low ++ s.unalignedInstr := by
      simp [slot0, hu]
    rw [hinstr, size_append, (h.half hu).1]
    rfl

/-- No instruction, one or two: where the next one starts. -/
theorem Fits.cases (h : Fits s i) :
    ((slot0 s i).valid = false ∧ (slot1 s i).valid = false ∧
      (slot0 s i).addr = pc (packet s i) (nextWord i.address)) ∨
    ((slot0 s i).valid = true ∧ (slot1 s i).valid = false ∧
      (slot0 s i).addr + InstrQueue.size (slot0 s i).instr =
        pc (packet s i) (nextWord i.address)) ∨
    ((slot0 s i).valid = true ∧ (slot1 s i).valid = true ∧
      (slot1 s i).addr =
        (slot0 s i).addr + InstrQueue.size (slot0 s i).instr ∧
      (slot1 s i).addr + InstrQueue.size (slot1 s i).instr =
        pc (packet s i) (nextWord i.address)) := by
  have hnext : (packet s i).unaligned = unalignedD s i :=
    packet_unaligned h.valid
  have haddr : (packet s i).unalignedAddress = inWord i.address 2#2 :=
    packet_address h.valid
  rw [h.size_slot0, pc, hnext, haddr]
  rcases h1 : i.address.getLsbD 1 with _ | _
  · have hdef : deferred i = false := by
      rw [deferred, h1, Bool.and_false, Bool.false_and]
    have hv0 : (slot0 s i).valid = true := by
      rw [slot0, h.valid, hdef]
      rfl
    have hadd : inWord i.address 2#2 = i.address + 2#64 :=
      inWord_add_two h.even h1
    rw [nextWord_lower h.even h1, unalignedD, hdef,
      if_neg Bool.false_ne_true]
    refine Or.inr ?_
    have hsize : (slot0 s i).addr +
        (if s.unaligned || !isCompressed i.low then 4#64 else 2#64) =
          if upperStarts s i then i.address + 2#64
          else i.address + 4#64 := by
      rw [upperStarts]
      rcases hu : s.unaligned with _ | _
      · rw [slot0, hu]
        rcases isCompressed i.low with _ | _ <;> rfl
      · have hpc : (slot0 s i).addr = s.unalignedAddress := by
          rw [slot0, hu]
          rfl
        rw [hpc, ← (h.half hu).2.1, Bool.or_true, if_pos rfl,
          BitVec.add_assoc]
        rfl
    rw [hsize]
    rcases hup : upperStarts s i with _ | _
    · left
      have hu : s.unaligned = false := by
        rw [upperStarts, Bool.or_eq_false_iff] at hup
        exact hup.2
      refine ⟨hv0, ?_, ?_⟩
      · rw [slot1, hup, Bool.and_false, Bool.false_and]
      · simp [hu]
    · rcases hc : isCompressed i.high with _ | _
      · left
        refine ⟨hv0, ?_, ?_⟩
        · rw [slot1, hc, Bool.and_false]
        · rw [hadd]
          rfl
      · right
        have hslot : slot1 s i = ⟨true, i.address + 2#64, 0#16 ++ i.high⟩ := by
          rw [slot1, h.valid, h1, hup, hc, hadd]
          rfl
        have hsize1 : InstrQueue.size (0#16 ++ i.high) = 2#64 := by
          rw [size_append, hc]
          rfl
        rw [hslot]
        refine ⟨hv0, rfl, rfl, ?_⟩
        show i.address + 2#64 + InstrQueue.size (0#16 ++ i.high) =
          i.address + 4#64
        rw [hsize1, BitVec.add_assoc]
        rfl
  · have hu : s.unaligned = false := by
      rw [← Bool.not_eq_true]
      exact fun hu => Bool.false_ne_true ((h.half hu).2.2.symm.trans h1)
    have hup : inWord i.address 2#2 = i.address := inWord_upper h.even h1
    have hv1 : (slot1 s i).valid = false := by
      rw [slot1, h1, Bool.not_true, Bool.and_false, Bool.false_and,
        Bool.false_and]
    have hslot : (slot0 s i).addr = i.address := by
      rw [slot0, hu]
      rfl
    have hdef : deferred i = !isCompressed i.low := by
      rw [deferred, h.valid, h1]
      rfl
    have hv0 : (slot0 s i).valid = isCompressed i.low := by
      rw [slot0, h.valid, hdef, Bool.not_not]
      rfl
    rw [hslot, hv0, hv1, nextWord_upper h.even h1, unalignedD, hdef, hup, hu,
      upperStarts, hu, Bool.or_false, h.upper h1]
    rcases isCompressed i.low with _ | _
    · exact Or.inl ⟨rfl, rfl, rfl⟩
    · exact Or.inr (Or.inl ⟨rfl, rfl, rfl⟩)

/-- What the re-aligner keeps fits to the next word. -/
theorem Fits.half_packet (h : Fits s i)
    (hu : (packet s i).unaligned = true) :
    isCompressed (packet s i).unalignedInstr = false ∧
      (packet s i).unalignedAddress + 2#64 = nextWord i.address := by
  rw [packet_unaligned h.valid, unalignedD] at hu
  rw [packet_instr h.valid, packet_address h.valid]
  rcases h1 : i.address.getLsbD 1 with _ | _
  · have hdef : deferred i = false := by
      rw [deferred, h1, Bool.and_false, Bool.false_and]
    rw [hdef, if_neg Bool.false_ne_true] at hu ⊢
    constructor
    · split_ifs at hu with hup
      · simpa using hu
      · rw [upperStarts, hu, Bool.or_true] at hup
        exact absurd rfl hup
    · rw [inWord_add_two h.even h1, nextWord_lower h.even h1,
        BitVec.add_assoc]
      rfl
  · rw [inWord_upper h.even h1, nextWord_upper h.even h1]
    refine ⟨?_, rfl⟩
    rcases hc : isCompressed i.low with _ | _
    · have hdef : deferred i = true := by
        rw [deferred, h.valid, h1, hc]
        rfl
      rw [hdef, if_pos rfl]
      exact hc
    · have hdef : deferred i = false := by
        rw [deferred, hc, Bool.not_true, Bool.and_false]
      rw [hdef, if_neg Bool.false_ne_true, upperStarts, hc, Bool.true_or,
        if_pos rfl, h.upper h1] at hu
      exact absurd hu Bool.false_ne_true

end Packet

/-! ## The addresses of a run -/

/-- Where the next word to be re-aligned comes from. -/
def Trace.nextFetch (r : Trace) : Option (BitVec 64) :=
  if r.front.icacheValid then some r.front.icacheVaddr else r.expect

/-- The half-word that is kept, and the last item of the queue, lie in front
of the next word. -/
structure Linked (r : Trace) : Prop where
  even : r.front.icacheValid = true →
    r.front.icacheVaddr.getLsbD 0 = false
  upper : r.front.icacheValid = true →
    r.front.icacheVaddr.getLsbD 1 = true →
      r.front.icacheData.extractLsb' 16 16 = 0#16
  expect : r.front.icacheValid = true →
    r.expect = some (nextWord r.front.icacheVaddr)
  half : r.front.realign.unaligned = true →
    isCompressed r.front.realign.unalignedInstr = false ∧
      ∃ a ∈ r.nextFetch, r.front.realign.unalignedAddress + 2#64 = a ∧
        a.getLsbD 1 = false
  last : ∀ x ∈ r.pushed.getLast?,
    ∃ a ∈ r.nextFetch, x.next = InstrRealign.pc r.front.realign a

theorem Linked.init : Linked Trace.init where
  even h := absurd h Bool.false_ne_true
  upper h := absurd h Bool.false_ne_true
  expect h := absurd h Bool.false_ne_true
  half h := absurd h Bool.false_ne_true
  last x hx := by simp [Trace.init] at hx

namespace Linked

open InstrQueue (bit bit_mask offers offered offers_zero offers_one Item
  Shape Continues stored offered_eq)

variable {r : Trace} {i : In}

theorem fits (h : Linked r) (hv : r.front.icacheValid = true) :
    Fits r.front.realign (realignIn r.front false) where
  valid := hv
  even := h.even hv
  upper := h.upper hv
  half hu := by
    obtain ⟨hc, a, ha, haddr, h1⟩ := h.half hu
    rw [Trace.nextFetch, hv, if_pos rfl, Option.mem_some_iff] at ha
    subst ha
    exact ⟨hc, haddr, h1⟩

theorem bit_valid (s : State) (i : In) (k : BitVec 1) :
    bit (queueIn s i).valid k = (slot s k).valid :=
  bit_mask (fun k => (slot s k).valid) k

theorem slot_invalid {s : State} (hv : s.icacheValid = false)
    (k : BitVec 1) : (slot s k).valid = false := by
  unfold slot
  split_ifs <;>
    simp [InstrRealign.slot0, InstrRealign.slot1, realignIn, hv]

/-- The re-aligner fills the first place first. -/
theorem slot_first (h : Linked r) (hv : (slot r.front 1#1).valid = true) :
    (slot r.front 0#1).valid = true := by
  rcases hvalid : r.front.icacheValid with _ | _
  · rw [slot_invalid hvalid] at hv
    exact absurd hv Bool.false_ne_true
  · rcases (h.fits hvalid).cases with ⟨-, h1, -⟩ | ⟨h0, -⟩ | ⟨h0, -⟩
    · exact absurd (h1.symm.trans hv) Bool.false_ne_true
    · exact h0
    · exact h0

theorem shape (h : Linked r) (he : r.Env i) :
    Shape r.queue (queueIn r.front i) := by
  refine ⟨fun htwo => ?_, he.ready⟩
  have h0 := bit_valid r.front i 0#1
  have h1 := bit_valid r.front i 1#1
  rw [htwo] at h0 h1
  exact Bool.false_ne_true (h0.trans (h.slot_first h1.symm))

/-- The packets of the queue go on at each other's end. -/
theorem continues (h : Linked r) : Continues r.queue (queueIn r.front i) := by
  intro _ hv0
  rw [bit_valid] at hv0 ⊢
  have hvalid : r.front.icacheValid = true := by
    rw [← Bool.not_eq_false]
    intro hvalid
    rw [slot_invalid hvalid] at hv0
    exact Bool.false_ne_true hv0
  refine ⟨fun x hx => ?_, fun hv1 => ?_⟩
  · obtain ⟨a, ha, hnext⟩ := h.last x hx
    rw [Trace.nextFetch, hvalid, if_pos rfl, Option.mem_some_iff] at ha
    subst ha
    exact hnext.symm
  · rcases (h.fits hvalid).cases with ⟨-, h1, -⟩ | ⟨-, h1, -⟩ | ⟨-, -, h1, -⟩
    · exact absurd (h1.symm.trans hv1) Bool.false_ne_true
    · exact absurd (h1.symm.trans hv1) Bool.false_ne_true
    · exact h1

open InstrQueue (Carries Located)

/-- What the word after a cycle has as its address. -/
theorem nextFetch_step (he : r.Env i)
    (hflush : i.flush = false) :
    (killS2 r.front i = false → ∀ a ∈ r.expect,
      a ∈ (r.step i).nextFetch) ∧
    (killS2 r.front i = true →
      (r.step i).nextFetch = fetchAddr r i) := by
  have hmis : i.isMispredict = false := by
    rw [← Bool.not_eq_true]
    exact fun hm => Bool.false_ne_true (hflush.symm.trans (he.mispredict hm))
  constructor
  · intro hk a ha
    show a ∈ (if i.dreq.valid then _ else _ : Option (BitVec 64))
    split_ifs with hv
    · show a ∈ some (if i.dreq.valid then i.dreq.vaddr else _)
      rw [if_pos hv, he.addr hv a ha]
      rfl
    · rw [killS2, killS1, hmis, hflush, Bool.false_or, Bool.false_or,
        Bool.or_eq_false_iff] at hk
      show a ∈ fetchAddr r i
      rw [fetchAddr, hmis, hflush, Bool.or_self, if_neg Bool.false_ne_true,
        hk.1, if_neg Bool.false_ne_true, hk.2, if_neg Bool.false_ne_true,
        if_neg hv]
      exact ha
  · intro hk
    have hv : i.dreq.valid = false := by
      rw [← Bool.not_eq_true]
      exact fun hv => Bool.false_ne_true ((he.killed hv).symm.trans hk)
    show (if i.dreq.valid then _ else _ : Option (BitVec 64)) = _
    rw [hv, if_neg Bool.false_ne_true]
    rfl

theorem packet_eq (s : State) (i : In) :
    InstrQueue.packet (queueIn s i) =
      (if (slot s 0#1).valid then [InstrQueue.item (queueIn s i) 0#1]
        else []) ++
      if (slot s 1#1).valid then [InstrQueue.item (queueIn s i) 1#1]
        else [] := by
  rw [InstrQueue.packet, bit_valid, bit_valid]

/-- Without a prediction the queue is offered the whole packet. -/
theorem offered_of_not_bpValid {s : State} (h : bpValid s i = false) :
    (∀ k, (InstrQueue.item (queueIn s i) k).taken = false) ∧
      offered (queueIn s i) = InstrQueue.packet (queueIn s i) := by
  rw [bpValid, Bool.or_eq_false_iff] at h
  have htaken : ∀ k, (InstrQueue.item (queueIn s i) k).taken = false := by
    intro k
    rcases BitVec.eq_zero_or_eq_one k with rfl | rfl
    · exact h.1
    · exact h.2
  refine ⟨htaken, InstrQueue.cut_eq_self fun x hx => ?_⟩
  rw [packet_eq, List.mem_append] at hx
  rcases hx with hx | hx <;> split_ifs at hx
  · rw [List.mem_singleton.mp hx]
    exact htaken _
  · exact absurd hx List.not_mem_nil
  · rw [List.mem_singleton.mp hx]
    exact htaken _
  · exact absurd hx List.not_mem_nil

/-- With a prediction the last item that is offered goes on at its
target. -/
theorem next_of_bpValid {s : State} (h : bpValid s i = true) :
    offered (queueIn s i) ≠ [] ∧
      ∀ x ∈ (offered (queueIn s i)).getLast?,
        x.next = i.predictAddress := by
  have hsome : ∃ x ∈ InstrQueue.packet (queueIn s i), x.taken = true := by
    have hcf : ∀ k, (cfType s i k != .NoCF) = true →
        (slot s k).valid = true := by
      intro k hk
      rw [cfType] at hk
      split_ifs at hk with hv
      · exact hv
      · exact absurd hk Bool.false_ne_true
    rw [bpValid, Bool.or_eq_true] at h
    rw [packet_eq]
    rcases h with h | h
    · refine ⟨InstrQueue.item (queueIn s i) 0#1, ?_, h⟩
      rw [hcf _ h, if_pos rfl]
      exact List.mem_append_left _ (List.mem_singleton_self _)
    · refine ⟨InstrQueue.item (queueIn s i) 1#1, ?_, h⟩
      rw [hcf 1#1 h, if_pos rfl]
      exact List.mem_append_right _ (List.mem_singleton_self _)
  constructor
  · intro hnil
    obtain ⟨x, hx, -⟩ := hsome
    rw [offered] at hnil
    cases hp : InstrQueue.packet (queueIn s i) with
    | nil =>
      rw [hp] at hx
      exact List.not_mem_nil hx
    | cons y ys =>
      rw [hp, InstrQueue.cut] at hnil
      split_ifs at hnil
  · intro x hx
    have ht := InstrQueue.taken_of_getLast_cut hsome x hx
    have hmem := InstrQueue.mem_of_mem_cut (List.mem_of_getLast? hx)
    rw [Item.next, if_pos ht]
    exact InstrQueue.target_of_mem_packet hmem

/-- Where the instructions go on behind the whole packet. -/
theorem last_packet (h : Linked r) (hv : r.front.icacheValid = true)
    (hbp : bpValid r.front i = false) :
    ∀ x ∈ (r.pushed ++ InstrQueue.packet (queueIn r.front i)).getLast?,
      x.next = InstrRealign.pc
        (InstrRealign.packet r.front.realign (realignIn r.front false))
        (nextWord r.front.icacheVaddr) := by
  obtain ⟨htaken, -⟩ := offered_of_not_bpValid hbp
  have hnext : ∀ k, (InstrQueue.item (queueIn r.front i) k).next =
      (slot r.front k).addr + InstrQueue.size (slot r.front k).instr := by
    intro k
    rw [Item.next, if_neg (by simp [htaken k])]
    rfl
  intro x hx
  rw [packet_eq] at hx
  rcases (h.fits hv).cases with ⟨h0, h1, haddr⟩ | ⟨h0, h1, haddr⟩ |
      ⟨h0, h1, -, haddr⟩
  · rw [show (slot r.front 0#1).valid = false from h0,
      show (slot r.front 1#1).valid = false from h1,
      if_neg Bool.false_ne_true, if_neg Bool.false_ne_true,
      List.append_nil, List.append_nil] at hx
    obtain ⟨a, ha, hlast⟩ := h.last x hx
    rw [Trace.nextFetch, hv, if_pos rfl, Option.mem_some_iff] at ha
    subst ha
    exact hlast.trans haddr
  · rw [show (slot r.front 0#1).valid = true from h0,
      show (slot r.front 1#1).valid = false from h1, if_pos rfl,
      if_neg Bool.false_ne_true, List.append_nil, List.getLast?_concat,
      Option.mem_some_iff] at hx
    rw [← hx, hnext]
    exact haddr
  · rw [show (slot r.front 0#1).valid = true from h0,
      show (slot r.front 1#1).valid = true from h1, if_pos rfl, if_pos rfl,
      ← List.append_assoc, List.getLast?_concat, Option.mem_some_iff] at hx
    rw [← hx, hnext]
    exact haddr

theorem realign_killed (hk : killS2 r.front i = true) :
    (r.step i).front.realign.unaligned = false := by
  show (InstrRealign.step _ (realignIn r.front (killS2 r.front i))).unaligned
    = false
  rw [hk]
  rfl

theorem realign_step (hk : killS2 r.front i = false) :
    (r.step i).front.realign =
      InstrRealign.step r.front.realign (realignIn r.front false) := by
  show InstrRealign.step _ (realignIn r.front (killS2 r.front i)) = _
  rw [hk]

theorem realign_idle (hk : killS2 r.front i = false)
    (hv : r.front.icacheValid = false) :
    (r.step i).front.realign = r.front.realign := by
  rw [realign_step hk]
  simp [InstrRealign.step, realignIn, hv]

theorem stored_of_not_replay (h : Linked r) (he : r.Env i)
    {d : BitVec 1} {gone xs : List Item}
    (hi : Carries r.queue d gone xs) (hr : replay r.front i = false) :
    stored r.front.queue (queueIn r.front i) =
      offered (queueIn r.front i) := by
  by_contra hne
  have hreplay : replay r.front i = true :=
    (InstrQueue.replayO_iff (h.shape he).1 hi.keeps.level).mpr hne
  exact Bool.false_ne_true (hr.symm.trans hreplay)

/-- The last item after a cycle. -/
theorem last_step (h : Linked r) (he : r.Env i) {d : BitVec 1}
    {gone xs : List Item} (hi : Carries r.queue d gone xs)
    (hl : Located r.queue gone xs) (hflush : i.flush = false) :
    ∀ x ∈ (r.pushed ++ stored r.front.queue
        (queueIn r.front i)).getLast?,
      ∃ a ∈ (r.step i).nextFetch,
        x.next = InstrRealign.pc (r.step i).front.realign a := by
  intro x hx
  obtain ⟨hrun, hkill⟩ := nextFetch_step he hflush
  have hmis : i.isMispredict = false := by
    rw [← Bool.not_eq_true]
    exact fun hm => Bool.false_ne_true (hflush.symm.trans (he.mispredict hm))
  rcases hr : replay r.front i with _ | _
  · rw [h.stored_of_not_replay he hi hr] at hx
    rcases hbp : bpValid r.front i with _ | _
    · have hk : killS2 r.front i = false := by
        rw [killS2, killS1, hmis, hflush, hr, hbp]
        rfl
      rw [(offered_of_not_bpValid hbp).2] at hx
      rcases hv : r.front.icacheValid with _ | _
      · have hnone : InstrQueue.packet (queueIn r.front i) = [] := by
          rw [packet_eq, slot_invalid hv, slot_invalid hv]
          rfl
        rw [hnone, List.append_nil] at hx
        obtain ⟨a, ha, hlast⟩ := h.last x hx
        rw [Trace.nextFetch, hv, if_neg Bool.false_ne_true] at ha
        refine ⟨a, hrun hk a ha, ?_⟩
        rw [realign_idle hk hv]
        exact hlast
      · refine ⟨_, hrun hk _ (h.expect hv), ?_⟩
        rw [realign_step hk]
        exact h.last_packet hv hbp x hx
    · have hk : killS2 r.front i = true := by
        rw [killS2, hbp, Bool.or_true]
      obtain ⟨hne, hnext⟩ := next_of_bpValid hbp
      rw [List.getLast?_append_of_ne_nil _ hne] at hx
      refine ⟨i.predictAddress, ?_, ?_⟩
      · rw [hkill hk, fetchAddr, hmis, hflush, Bool.or_self,
          if_neg Bool.false_ne_true, hr, if_neg Bool.false_ne_true, hbp,
          if_pos rfl]
        rfl
      · rw [InstrRealign.pc, realign_killed hk, if_neg Bool.false_ne_true]
        exact hnext x hx
  · have hk : killS2 r.front i = true := by
      rw [killS2, killS1, hr, Bool.or_true, Bool.true_or]
    refine ⟨replayAddr r.front i, ?_, ?_⟩
    · rw [hkill hk, fetchAddr, hmis, hflush, Bool.or_self,
        if_neg Bool.false_ne_true, hr, if_pos rfl]
      rfl
    · rw [InstrRealign.pc, realign_killed hk, if_neg Bool.false_ne_true]
      exact hl.next_replay hi (h.shape he) h.continues hflush hr x hx

/-- The half-word that is kept after a cycle. -/
theorem half_step (h : Linked r) (he : r.Env i) (hflush : i.flush = false)
    (hu : (r.step i).front.realign.unaligned = true) :
    isCompressed (r.step i).front.realign.unalignedInstr = false ∧
      ∃ a ∈ (r.step i).nextFetch,
        (r.step i).front.realign.unalignedAddress + 2#64 = a ∧
          a.getLsbD 1 = false := by
  have hk : killS2 r.front i = false := by
    rw [← Bool.not_eq_true]
    exact fun hk => Bool.false_ne_true ((realign_killed hk).symm.trans hu)
  obtain ⟨hrun, -⟩ := nextFetch_step he hflush
  rcases hv : r.front.icacheValid with _ | _
  · rw [realign_idle hk hv] at hu ⊢
    obtain ⟨hc, a, ha, haddr⟩ := h.half hu
    rw [Trace.nextFetch, hv, if_neg Bool.false_ne_true] at ha
    exact ⟨hc, a, hrun hk a ha, haddr⟩
  · rw [realign_step hk] at hu ⊢
    obtain ⟨hc, haddr⟩ := (h.fits hv).half_packet hu
    exact ⟨hc, _, hrun hk _ (h.expect hv), haddr, (nextWord_aligned _).2⟩

theorem step (h : Linked r) (he : r.Env i) {d : BitVec 1}
    {gone xs : List Item} (hi : Carries r.queue d gone xs)
    (hl : Located r.queue gone xs) : Linked (r.step i) := by
  have hvaddr : i.dreq.valid = true →
      (r.step i).front.icacheVaddr = i.dreq.vaddr := fun hv => if_pos hv
  refine ⟨fun hv => ?_, fun hv h1 => ?_, fun hv => ?_, fun hu => ?_,
    fun x hx => ?_⟩
  · rw [hvaddr hv]
    exact he.even hv
  · rw [hvaddr hv] at h1
    show (if i.dreq.valid then _ else _ : BitVec 32).extractLsb' 16 16 = _
    rw [if_pos (show i.dreq.valid = true from hv),
      InstrRealign.icacheData_upper h1, InstrRealign.high_append]
  · have hk := he.killed hv
    rw [killS2, killS1, Bool.or_eq_false_iff, Bool.or_eq_false_iff,
      Bool.or_eq_false_iff] at hk
    rw [hvaddr hv]
    show fetchAddr r i = _
    rw [fetchAddr, hk.1.1.1, hk.1.1.2, hk.1.2, hk.2, Bool.or_self,
      if_neg Bool.false_ne_true, if_neg Bool.false_ne_true,
      if_neg Bool.false_ne_true, if_pos (show i.dreq.valid = true from hv)]
  · rcases hflush : i.flush with _ | _
    · exact h.half_step he hflush hu
    · have hk : killS2 r.front i = true := by
        rw [killS2, killS1, hflush, Bool.or_true, Bool.true_or, Bool.true_or]
      exact absurd ((realign_killed hk).symm.trans hu) Bool.false_ne_true
  · rcases hflush : i.flush with _ | _
    · have hpushed : (r.step i).pushed =
          r.pushed ++ stored r.front.queue (queueIn r.front i) :=
        if_neg (by simp [queueIn, hflush])
      rw [hpushed] at hx
      exact h.last_step he hi hl hflush x hx
    · have hpushed : (r.step i).pushed = [] := if_pos hflush
      rw [hpushed] at hx
      exact absurd hx (by simp)

end Linked

end ArianeSoc.Frontend
