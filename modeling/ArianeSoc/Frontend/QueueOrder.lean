import ArianeSoc.Frontend.InstrQueue
import ArianeSoc.Stripe
import ArianeSoc.Sync
import Mathlib.Data.List.Chain

/-!
# What the instruction queue delivers

An `Item` is a valid instruction of a packet with all that the packet says
of it.  `offered` are the items of a packet up to the first one predicted
taken, `stored` the ones that the queue takes.

`Keeps` says that the registers hold a list of items.  The lemmas do three
things:

* say which items a packet leaves in which queue (`stored_lane`,
  `stored_targets`);
* follow the list over a cycle (`Keeps.step`);
* follow the address of the next entry (`Located`).
-/

namespace ArianeSoc.Frontend.InstrQueue

open CommonCells Stripe

/-! ## Items -/

/-- A valid instruction of a packet. -/
structure Item where
  data : InstrData
  addr : BitVec 64
  target : BitVec 64
  deriving DecidableEq, Repr

def Item.taken (x : Item) : Bool := x.data.cf != .NoCF

/-- The address of the instruction that follows. -/
def Item.next (x : Item) : BitVec 64 :=
  if x.taken then x.target else x.addr + size x.data.instr

/-- The instruction, its exception flag, its prediction and the predicted
target. -/
abbrev View := BitVec 32 × Bool × Cf × Option (BitVec 64)

def Item.view (x : Item) : View :=
  (x.data.instr, x.data.ex, x.data.cf,
    if x.taken then some x.target else none)

def FetchEntry.view (e : FetchEntry) : View :=
  (e.instruction, e.exValid, e.cf,
    if e.cf != .NoCF then some e.predictAddress else none)

/-- The instruction in one place of a packet. -/
def item (i : In) (j : BitVec 1) : Item where
  data := ⟨i.instr j, i.cfType j, i.exception⟩
  addr := i.addr j
  target := i.predictAddress

/-- The valid instructions of a packet. -/
def packet (i : In) : List Item :=
  (if bit i.valid 0#1 then [item i 0#1] else []) ++
    if bit i.valid 1#1 then [item i 1#1] else []

/-- The items up to the first one predicted taken. -/
def cut : List Item → List Item
  | [] => []
  | x :: xs => if x.taken then [x] else x :: cut xs

def offered (i : In) : List Item := cut (packet i)

theorem cut_eq_self {xs : List Item} (h : ∀ x ∈ xs, x.taken = false) :
    cut xs = xs := by
  induction xs with
  | nil => rfl
  | cons x xs ih =>
    rw [cut, if_neg (by simp [h x List.mem_cons_self]),
      ih fun y hy => h y (List.mem_cons_of_mem x hy)]

/-- If an item is predicted taken, the last one that is offered is. -/
theorem taken_of_getLast_cut {xs : List Item} (h : ∃ x ∈ xs, x.taken = true) :
    ∀ y ∈ (cut xs).getLast?, y.taken = true := by
  induction xs with
  | nil => simp at h
  | cons x xs ih =>
    intro y hy
    rw [cut] at hy
    split_ifs at hy with ht
    · have hxy : x = y := by simpa using hy
      exact hxy ▸ ht
    · obtain ⟨z, hz, hzt⟩ := h
      have hmem : z ∈ xs := by
        rcases List.mem_cons.mp hz with rfl | hmem
        · exact absurd hzt ht
        · exact hmem
      have hne : cut xs ≠ [] := by
        cases xs with
        | nil => exact absurd hmem List.not_mem_nil
        | cons w ws =>
          rw [cut]
          split_ifs <;> exact List.cons_ne_nil _ _
      refine ih ⟨z, hmem, hzt⟩ y ?_
      rwa [List.getLast?_cons_of_ne_nil hne] at hy

theorem mem_of_mem_cut {xs : List Item} {x : Item} (h : x ∈ cut xs) :
    x ∈ xs := by
  induction xs with
  | nil => exact h
  | cons y ys ih =>
    rw [cut] at h
    split_ifs at h
    · exact List.mem_cons.mpr (Or.inl (List.mem_singleton.mp h))
    · rcases List.mem_cons.mp h with rfl | h
      · exact List.mem_cons_self
      · exact List.mem_cons_of_mem y (ih h)

theorem target_of_mem_packet {i : In} {x : Item} (h : x ∈ packet i) :
    x.target = i.predictAddress := by
  rcases List.mem_append.mp h with h | h <;> split_ifs at h
  · rw [List.mem_singleton.mp h]
    rfl
  · exact absurd h List.not_mem_nil
  · rw [List.mem_singleton.mp h]
    rfl
  · exact absurd h List.not_mem_nil

variable (s : State) (i : In)

def stored : List Item := (offered i).take (popcount s i)

/-- The entry that leaves. -/
def deliver : List FetchEntry :=
  if fetchEntryValidO s && i.fetchEntryReady then [fetchEntryO s] else []

/-! ## Runs -/

/-- The queue, and what went in and out since the last flush. -/
structure Run where
  queue : State
  pushed : List Item
  delivered : List FetchEntry

def Run.init : Run where
  queue := InstrQueue.init
  pushed := []
  delivered := []

def Run.step (r : Run) (i : In) : Run where
  queue := InstrQueue.step r.queue i
  pushed := if i.flush then [] else r.pushed ++ stored r.queue i
  delivered := if i.flush then [] else r.delivered ++ deliver r.queue i

/-- The first place of a packet is filled first, and the decoder is ready
only for a valid entry. -/
def Shape (r : Run) (i : In) : Prop :=
  i.valid ≠ 2#2 ∧
    (i.fetchEntryReady = true → fetchEntryValidO r.queue = true)

/-- The addresses of a packet go on where the instructions that were stored
end. -/
def Continues (r : Run) (i : In) : Prop :=
  i.flush = false → bit i.valid 0#1 = true →
    (∀ x ∈ r.pushed.getLast?, i.addr 0#1 = x.next) ∧
      (bit i.valid 1#1 = true →
        i.addr 1#1 = i.addr 0#1 + size (i.instr 0#1))

instance (r : Run) (i : In) : Decidable (Shape r i) := by
  unfold Shape
  infer_instance

instance (r : Run) (i : In) : Decidable (Continues r i) := by
  unfold Continues
  infer_instance

/-- Entries leave as they came, none is left when the queue is empty, and
what is not stored is replayed. -/
structure InOrder (r : Run) (i : In) : Prop where
  delivered : (r.delivered ++ deliver r.queue i).map FetchEntry.view <+:
    r.pushed.map Item.view
  all : fetchEntryValidO r.queue = false →
    r.delivered.map FetchEntry.view = r.pushed.map Item.view
  replay : replayO r.queue i = true ↔ stored r.queue i ≠ offered i
  replayAddr : replayO r.queue i = true →
    (offered i)[(stored r.queue i).length]?.map Item.addr =
      some (replayAddrO r.queue i)

/-- Entries leave with their addresses. -/
def Addressed (r : Run) (i : In) : Prop :=
  (r.delivered ++ deliver r.queue i).map FetchEntry.address <+:
    r.pushed.map Item.addr

/-! ## The items of a packet -/

section Packet

variable {s i}

theorem bit_mask (f : BitVec 1 → Bool) (k : BitVec 1) :
    bit (mask f) k = f k := by
  rcases BitVec.eq_zero_or_eq_one k with rfl | rfl <;>
    · unfold bit mask
      generalize f 0#1 = x
      generalize f 1#1 = y
      revert x y
      decide

theorem bit_and (m n : BitVec 2) (k : BitVec 1) :
    bit (m &&& n) k = (bit m k && bit n k) :=
  BitVec.getLsbD_and

theorem bit_not (m : BitVec 2) (k : BitVec 1) :
    bit (~~~m) k = !bit m k := by
  revert m k
  decide

theorem bit_zero (k : BitVec 1) : bit 0#2 k = false := by
  revert k
  decide

/-- A mask is turned so that its first bit goes to the queue `idx`. -/
theorem bit_rotate (m : BitVec 2) (idx j : BitVec 1) :
    bit (((m ++ m) <<< idx.toNat).extractLsb' 2 2) (idx + j) = bit m j := by
  revert m idx j
  decide

theorem eq_zero_iff_bit (m : BitVec 2) (idx : BitVec 1) :
    m = 0#2 ↔ bit m idx = false ∧ bit m (idx + 1#1) = false := by
  revert m idx
  decide

/-- Both queues, from the queue `idx` on. -/
theorem bits_sum (m : BitVec 2) (idx : BitVec 1) :
    (bit m 0#1).toNat + (bit m 1#1).toNat =
      (bit m idx).toNat + (bit m (idx + 1#1)).toNat := by
  revert m idx
  decide

/-- The place of a packet that goes to a queue. -/
theorem lane_add (idx j : BitVec 1) : idx + j + idx = j := by
  revert idx j
  decide

variable (s i) in
/-- The place `j` holds an item. -/
def offers (j : BitVec 1) : Bool := bit (validMasked i) j

variable (s) in
/-- The queue for the place `j` is full. -/
def fullFor (j : BitVec 1) : Bool := bit (instrQueueFull s) (s.idxIs + j)

variable (s i) in
/-- The item in the place `j` is stored. -/
def stores (j : BitVec 1) : Bool := bit (pushInstrFifo s i) (s.idxIs + j)

theorem bit_taken (j : BitVec 1) : bit (taken i) j = (item i j).taken :=
  bit_mask _ j

theorem offers_zero : offers i 0#1 = bit i.valid 0#1 := by
  have hmask : ∀ v b : BitVec 2, bit (v &&& (3#3 <<<
      (if bit b 0#1 then 0#1 else 1#1).toNat).extractLsb' 1 2) 0#1 =
        bit v 0#1 := by
    decide
  exact hmask i.valid (taken i)

theorem offers_one :
    offers i 1#1 = (bit i.valid 1#1 && !(item i 0#1).taken) := by
  have hmask : ∀ v b : BitVec 2, bit (v &&& (3#3 <<<
      (if bit b 0#1 then 0#1 else 1#1).toNat).extractLsb' 1 2) 1#1 =
        (bit v 1#1 && !bit b 0#1) := by
    decide
  rw [← bit_taken]
  exact hmask i.valid (taken i)

theorem valid_first (hv : i.valid ≠ 2#2) (h : bit i.valid 1#1 = true) :
    bit i.valid 0#1 = true := by
  have hshape : ∀ v : BitVec 2, v ≠ 2#2 → bit v 1#1 = true →
      bit v 0#1 = true := by
    decide
  exact hshape _ hv h

theorem offers_first (hv : i.valid ≠ 2#2) (h : offers i 1#1 = true) :
    offers i 0#1 = true := by
  rw [offers_one, Bool.and_eq_true] at h
  rw [offers_zero]
  exact valid_first hv h.1

theorem offered_eq (hv : i.valid ≠ 2#2) :
    offered i = (if offers i 0#1 then [item i 0#1] else []) ++
      if offers i 1#1 then [item i 1#1] else [] := by
  have hfirst := valid_first (i := i) hv
  rw [offers_zero, offers_one]
  unfold offered packet
  generalize bit i.valid 0#1 = v0 at hfirst ⊢
  generalize bit i.valid 1#1 = v1 at hfirst ⊢
  rcases v0 with _ | _ <;> rcases v1 with _ | _ <;>
    rcases ht : (item i 0#1).taken with _ | _ <;> simp_all [cut]

theorem pushInstr_bit (j : BitVec 1) :
    bit (pushInstr s i) (s.idxIs + j) = (offers i j && !fullFor s j) := by
  rw [pushInstr, bit_and, bit_not, fifoPos, bit_rotate]
  rfl

theorem instrDataIn_lane (j : BitVec 1) :
    instrDataIn s i (s.idxIs + j) = (item i j).data := by
  rw [instrDataIn, lane_add]
  rfl

theorem pushAddress_eq :
    pushAddress s i =
      ((offers i 0#1 && !fullFor s 0#1 && (item i 0#1).taken) ||
        (offers i 1#1 && !fullFor s 1#1 && (item i 1#1).taken)) := by
  have hlane : ∀ j, (bit (pushInstr s i) (s.idxIs + j) &&
      (instrDataIn s i (s.idxIs + j)).cf != .NoCF) =
        (offers i j && !fullFor s j && (item i j).taken) := by
    intro j
    rw [pushInstr_bit, instrDataIn_lane]
    rfl
  rw [← hlane, ← hlane, pushAddress]
  rcases BitVec.eq_zero_or_eq_one s.idxIs with h | h <;> rw [h]
  · rfl
  · exact Bool.or_comm _ _

theorem stores_eq (j : BitVec 1) :
    stores s i j =
      (!addressOverflow s i && (offers i j && !fullFor s j)) := by
  rw [stores, pushInstrFifo]
  split_ifs with h
  · rw [bit_zero, h]
    rfl
  · rw [pushInstr_bit, Bool.eq_false_iff.mpr h]
    rfl

theorem instrOverflow_eq :
    instrOverflow s i =
      ((fullFor s 0#1 && offers i 0#1) ||
        (fullFor s 1#1 && offers i 1#1)) := by
  have hlane : ∀ j, bit (instrQueueFull s &&& fifoPos s i) (s.idxIs + j) =
      (fullFor s j && offers i j) := by
    intro j
    rw [bit_and, fifoPos, bit_rotate]
    rfl
  have hzero := eq_zero_iff_bit (instrQueueFull s &&& fifoPos s i)
    (s.idxIs + 0#1)
  rw [BitVec.add_assoc, hlane, show 0#1 + 1#1 = 1#1 from rfl, hlane] at hzero
  rw [instrOverflow, Bool.eq_iff_iff, bne_iff_ne, Ne, hzero]
  rcases fullFor s 0#1 && offers i 0#1 with _ | _ <;> simp

theorem popcount_eq :
    popcount s i = (stores s i 0#1).toNat + (stores s i 1#1).toNat := by
  rw [popcount, bits_sum _ s.idxIs, stores, stores, BitVec.add_zero]

section Level

-- the queue for the first place is never the fuller one
variable (hv : i.valid ≠ 2#2)
  (hf : fullFor s 0#1 = true → fullFor s 1#1 = true)
include hv hf

theorem stores_first (h : stores s i 1#1 = true) :
    stores s i 0#1 = true := by
  have hoff := offers_first hv
  rw [stores_eq] at h ⊢
  rcases hf0 : fullFor s 0#1 with _ | _
  · simp_all
  · simp_all

theorem stored_eq :
    stored s i = (if stores s i 0#1 then [item i 0#1] else []) ++
      if stores s i 1#1 then [item i 1#1] else [] := by
  have hfirst := stores_first hv hf
  have hoff : ∀ j, stores s i j = true → offers i j = true := by
    intro j h
    rw [stores_eq, Bool.and_eq_true, Bool.and_eq_true] at h
    exact h.2.1
  have h0 := hoff 0#1
  have h1 := hoff 1#1
  rw [stored, offered_eq hv, popcount_eq]
  generalize stores s i 0#1 = c0 at *
  generalize stores s i 1#1 = c1 at *
  rcases c0 with _ | _ <;> rcases c1 with _ | _ <;> simp_all

/-- What a cycle pushes into the queue `k`. -/
theorem stored_lane (k : BitVec 1) :
    stripe (k - s.idxIs) ((stored s i).map Item.data) =
      if bit (pushInstrFifo s i) k then [instrDataIn s i k] else [] := by
  obtain ⟨j, rfl⟩ : ∃ j, k = s.idxIs + j :=
    ⟨k - s.idxIs, by rw [BitVec.add_comm, BitVec.sub_add_cancel]⟩
  have hfirst := stores_first hv hf
  rw [BitVec.add_comm s.idxIs j, BitVec.add_sub_cancel,
    BitVec.add_comm j s.idxIs, instrDataIn_lane, stored_eq hv hf]
  show _ = if stores s i j then [(item i j).data] else []
  rcases BitVec.eq_zero_or_eq_one j with rfl | rfl
  · generalize stores s i 0#1 = c0 at *
    generalize stores s i 1#1 = c1 at *
    rcases c0 with _ | _ <;> rcases c1 with _ | _ <;> simp_all [stripe]
  · generalize stores s i 0#1 = c0 at *
    generalize stores s i 1#1 = c1 at *
    rcases c0 with _ | _ <;> rcases c1 with _ | _ <;> simp_all [stripe]

omit hf in
/-- Without a place for its target nothing of a packet is stored. -/
theorem addressOverflow_cases :
    (addressOverflow s i = true ∧ offers i 0#1 = true ∧
      ∀ j, stores s i j = false) ∨
    (addressOverflow s i = false ∧
      ∀ j, stores s i j = (offers i j && !fullFor s j)) := by
  rcases ho : addressOverflow s i with _ | _
  · refine Or.inr ⟨rfl, fun j => ?_⟩
    rw [stores_eq, ho]
    rfl
  · refine Or.inl ⟨rfl, ?_, fun j => ?_⟩
    · have hpush : pushAddress s i = true := by
        rw [addressOverflow, Bool.and_eq_true] at ho
        exact ho.2
      rw [pushAddress_eq, Bool.or_eq_true] at hpush
      rcases hpush with h | h <;>
        rw [Bool.and_eq_true, Bool.and_eq_true] at h
      · exact h.1.1
      · exact offers_first hv h.1.1
    · rw [stores_eq, ho]
      rfl

/-- What a cycle pushes into the queue of the targets. -/
theorem stored_targets :
    ((stored s i).filter Item.taken).map Item.target =
      if pushAddress s i && !fullAddress s then [i.predictAddress]
      else [] := by
  have hplace : ∀ (j : BitVec 1) (c : Bool),
      ((if c then [item i j] else []).filter Item.taken).map Item.target =
        if c && (item i j).taken then [i.predictAddress] else [] := by
    intro j c
    have htarget : (item i j).target = i.predictAddress := rfl
    rcases ht : (item i j).taken with _ | _ <;> rcases c with _ | _ <;>
      simp [ht, htarget]
  rw [stored_eq hv hf, List.filter_append, List.map_append, hplace, hplace]
  rcases addressOverflow_cases hv (s := s) (i := i) with
    ⟨hover, -, hstores⟩ | ⟨hover, hstores⟩
  · rw [addressOverflow, Bool.and_eq_true] at hover
    simp [hstores, hover.1]
  · have hfull : (pushAddress s i && !fullAddress s) = pushAddress s i := by
      rw [addressOverflow, Bool.and_eq_false_iff] at hover
      rcases hover with h | h <;> simp [h]
    -- of two items that are stored the first one is not taken
    have hone : stores s i 1#1 = true → (item i 0#1).taken = false := by
      intro h
      rw [hstores, offers_one, Bool.and_eq_true, Bool.and_eq_true] at h
      simpa using h.1.2
    rw [hfull, pushAddress_eq, ← hstores, ← hstores]
    rcases h1 : stores s i 1#1 with _ | _
    · simp
    · simp [hone h1]

/-- A packet is replayed if and only if some of it is not stored. -/
theorem replayO_iff : replayO s i = true ↔ stored s i ≠ offered i := by
  have hoff := offers_first (i := i) hv
  rw [stored_eq hv hf, offered_eq hv, replayO, instrOverflow_eq]
  rcases addressOverflow_cases hv (s := s) (i := i) with
    ⟨hover, h0, hstores⟩ | ⟨hover, hstores⟩
  · simp [hover, h0, hstores]
  · rw [hover, hstores, hstores, Bool.or_false]
    generalize offers i 0#1 = o0 at *
    generalize offers i 1#1 = o1 at *
    rcases o0 with _ | _ <;> rcases o1 with _ | _ <;>
      rcases fullFor s 0#1 with _ | _ <;> rcases fullFor s 1#1 with _ | _ <;>
      simp_all

/-- The replay address is that of the first item that is not stored. -/
theorem replayAddrO_eq (h : replayO s i = true) :
    (offered i)[(stored s i).length]?.map Item.addr =
      some (replayAddrO s i) := by
  have hoff := offers_first (i := i) hv
  have haddr : ∀ j, (item i j).addr = i.addr j := fun _ => rfl
  rw [replayO, instrOverflow_eq] at h
  rw [stored_eq hv hf, offered_eq hv, replayAddrO, shamt, popcount_eq]
  rcases addressOverflow_cases hv (s := s) (i := i) with
    ⟨hover, h0, hstores⟩ | ⟨hover, hstores⟩
  · simp [hover, h0, hstores, haddr]
  · rw [hover, Bool.or_false] at h
    rw [hover, hstores, hstores]
    generalize offers i 0#1 = o0 at *
    generalize offers i 1#1 = o1 at *
    generalize fullFor s 0#1 = f0 at *
    generalize fullFor s 1#1 = f1 at *
    rcases o0 with _ | _ <;> rcases o1 with _ | _ <;>
      rcases f0 with _ | _ <;> rcases f1 with _ | _ <;> simp_all

end Level

end Packet

/-! ## The items in the queue -/

/-- The registers hold the items `xs`; the next one leaves through the
queue `d`. -/
structure Keeps (s : State) (d : BitVec 1) (xs : List Item) : Prop where
  ds : s.idxDs = 1#2 <<< d.toNat
  is : s.idxIs = d + BitVec.ofNat 1 xs.length
  lane : ∀ k, (s.instrFifo k).Holds FETCH_FIFO_DEPTH
    (stripe (k - d) (xs.map Item.data))
  address : s.addressFifo.Holds FETCH_FIFO_DEPTH
    ((xs.filter Item.taken).map Item.target)

theorem Keeps.init : Keeps InstrQueue.init 0#1 [] where
  ds := rfl
  is := rfl
  lane _ := FifoV3.Holds.init _ (by decide)
  address := FifoV3.Holds.init _ (by decide)

namespace Keeps

variable {s : State} {i : In} {d : BitVec 1} {xs : List Item} {x : Item}

/-- The queue for the first place of a packet is never the fuller one. -/
theorem level (h : Keeps s d xs) (hfull : fullFor s 0#1 = true) :
    fullFor s 1#1 = true := by
  have hlane : ∀ j, fullFor s j = true ↔
      (stripe (s.idxIs + j - d) (xs.map Item.data)).length =
        FETCH_FIFO_DEPTH := by
    intro j
    rw [fullFor, instrQueueFull, bit_mask]
    exact (h.lane (s.idxIs + j)).fullO_iff
  have hle := (h.lane (s.idxIs + 1#1)).length_le
  have hidx : ∀ j : BitVec 1,
      s.idxIs + j - d = BitVec.ofNat 1 xs.length + j := by
    intro j
    rw [h.is, BitVec.add_assoc, BitVec.add_comm, BitVec.add_sub_cancel]
  rw [hlane, hidx, length_stripe, List.length_map] at hfull ⊢
  rw [hidx, length_stripe, List.length_map] at hle
  rw [BitVec.toNat_add, BitVec.toNat_ofNat] at hfull hle ⊢
  change (xs.length + 1 - (xs.length % 2 + 0) % 2) / 2 = 4 at hfull
  change (xs.length + 1 - (xs.length % 2 + 1) % 2) / 2 ≤ 4 at hle
  show (xs.length + 1 - (xs.length % 2 + 1) % 2) / 2 = 4
  omega

/-- The entry comes from the queue `d`. -/
theorem fetchEntryO_eq (h : Keeps s d xs) :
    fetchEntryO s =
      { address := s.pc
        instruction := (s.instrFifo d).dataO.instr
        predictAddress := s.addressFifo.dataO
        cf := (s.instrFifo d).dataO.cf
        exValid := (s.instrFifo d).dataO.ex
        exTval := s.pc } := by
  unfold fetchEntryO select
  rw [h.ds]
  rcases BitVec.eq_zero_or_eq_one d with rfl | rfl <;> rfl

theorem stripe_head (h : Keeps s d (x :: xs)) :
    (s.instrFifo d).dataO = x.data := by
  refine (h.lane d).dataO_eq ?_
  rw [BitVec.sub_self, List.map_cons, stripe_cons_zero]
  rfl

theorem fetchEntryValidO_iff (h : Keeps s d xs) :
    fetchEntryValidO s = true ↔ xs ≠ [] := by
  have hempty := fun k => (h.lane k).emptyO_iff
  rw [fetchEntryValidO, Bool.not_eq_true', Ne, ← Bool.not_eq_true, not_iff_not,
    Bool.and_eq_true, hempty, hempty]
  constructor
  · rintro ⟨h0, h1⟩
    by_contra hne
    obtain ⟨y, ys, rfl⟩ := List.exists_cons_of_ne_nil hne
    have hd : stripe (d - d) ((y :: ys).map Item.data) = [] := by
      rcases BitVec.eq_zero_or_eq_one d with rfl | rfl
      · exact h0
      · exact h1
    rw [BitVec.sub_self, List.map_cons, stripe_cons_zero] at hd
    exact List.cons_ne_nil _ _ hd
  · rintro rfl
    exact ⟨rfl, rfl⟩

/-- The next entry is the oldest item. -/
theorem view_eq (h : Keeps s d (x :: xs)) :
    FetchEntry.view (fetchEntryO s) = x.view := by
  have hdata := h.stripe_head
  rw [h.fetchEntryO_eq, hdata, FetchEntry.view, Item.view, Item.taken]
  split_ifs with htaken
  · have hout : s.addressFifo.dataO = x.target := by
      refine h.address.dataO_eq ?_
      rw [List.filter_cons_of_pos (show x.taken = true from htaken)]
      rfl
    rw [hout]
  · rfl

end Keeps

/-! ## A cycle -/

namespace Keeps

variable {s : State} {i : In} {d : BitVec 1} {xs : List Item} {x : Item}

theorem bit_idxDs (h : Keeps s d xs) (k : BitVec 1) :
    bit s.idxDs k = decide (k = d) := by
  have hone : ∀ d k : BitVec 1,
      bit (1#2 <<< d.toNat) k = decide (k = d) := by
    decide
  rw [h.ds, hone]

/-- An entry leaves when the decoder is ready. -/
theorem popInstr_eq (h : Keeps s d xs)
    (hr : i.fetchEntryReady = true → fetchEntryValidO s = true)
    (k : BitVec 1) :
    popInstr s i k = (decide (k = d) && i.fetchEntryReady) := by
  rw [popInstr, h.bit_idxDs]
  rcases hready : i.fetchEntryReady with _ | _
  · rw [Bool.and_false, Bool.and_false]
  · rw [hr hready, Bool.and_true]

theorem popAddress_eq (h : Keeps s d xs)
    (hr : i.fetchEntryReady = true → fetchEntryValidO s = true) :
    popAddress s i =
      ((fetchEntryO s).cf != .NoCF && i.fetchEntryReady) := by
  have hsome : ∀ d : BitVec 1,
      (decide (0#1 = d) || decide (1#1 = d)) = true := by
    decide
  rw [popAddress, h.popInstr_eq hr, h.popInstr_eq hr,
    ← Bool.and_or_distrib_right, hsome d, Bool.true_and]

/-- The items that stay, and the queue of the first of them. -/
def rest (i : In) (xs : List Item) : List Item :=
  if i.fetchEntryReady then xs.tail else xs

def restLane (i : In) (d : BitVec 1) : BitVec 1 :=
  if i.fetchEntryReady then d + 1#1 else d

/-- Where the next item goes does not change when one leaves. -/
theorem restLane_add (h : Keeps s d xs)
    (hr : i.fetchEntryReady = true → fetchEntryValidO s = true) :
    s.idxIs = restLane i d + BitVec.ofNat 1 (rest i xs).length := by
  rw [h.is, restLane, rest]
  split_ifs with hready
  · obtain ⟨y, ys, rfl⟩ := List.exists_cons_of_ne_nil
      (h.fetchEntryValidO_iff.mp (hr hready))
    rw [List.tail_cons, List.length_cons, Nat.add_comm, BitVec.ofNat_add,
      BitVec.add_assoc]
  · rfl

/-- What stays in a queue. -/
theorem lane_rest (h : Keeps s d xs)
    (hr : i.fetchEntryReady = true → fetchEntryValidO s = true)
    (k : BitVec 1) :
    (if popInstr s i k then (stripe (k - d) (xs.map Item.data)).tail
      else stripe (k - d) (xs.map Item.data)) =
      stripe (k - restLane i d) ((rest i xs).map Item.data) := by
  rw [h.popInstr_eq hr, restLane, rest]
  rcases hready : i.fetchEntryReady with _ | _
  · rw [Bool.and_false]
    rfl
  · obtain ⟨y, ys, rfl⟩ := List.exists_cons_of_ne_nil
      (h.fetchEntryValidO_iff.mp (hr hready))
    rw [Bool.and_true, if_pos rfl, if_pos rfl, List.tail_cons,
      List.map_cons, ← BitVec.sub_sub]
    by_cases hk : k = d
    · rw [hk, decide_eq_true rfl, if_pos rfl, BitVec.sub_self,
        tail_stripe_zero]
    · have hne : k - d ≠ 0#1 := by
        intro hzero
        rw [BitVec.sub_eq_iff_eq_add, BitVec.zero_add] at hzero
        exact hk hzero
      rw [decide_eq_false hk, if_neg Bool.false_ne_true,
        stripe_cons_of_ne hne]

theorem address_rest (h : Keeps s d xs)
    (hr : i.fetchEntryReady = true → fetchEntryValidO s = true) :
    (if popAddress s i then
        ((xs.filter Item.taken).map Item.target).tail
      else (xs.filter Item.taken).map Item.target) =
      ((rest i xs).filter Item.taken).map Item.target := by
  rw [h.popAddress_eq hr, rest]
  rcases hready : i.fetchEntryReady with _ | _
  · rw [Bool.and_false]
    rfl
  · obtain ⟨y, ys, rfl⟩ := List.exists_cons_of_ne_nil
      (h.fetchEntryValidO_iff.mp (hr hready))
    have hcf : ((fetchEntryO s).cf != .NoCF) = y.taken := by
      rw [h.fetchEntryO_eq, h.stripe_head]
      rfl
    rw [hcf, Bool.and_true, if_pos rfl, List.tail_cons]
    rcases ht : y.taken with _ | _ <;> simp [ht]

/-- What is pushed fits in. -/
theorem push_fits {β : Type} {q : FifoV3 β} {ys : List β}
    (hq : q.Holds FETCH_FIFO_DEPTH ys) {push : Bool} {v : β}
    (hfull : push = true → q.fullO FETCH_FIFO_DEPTH = false) :
    (if push && decide (ys.length < FETCH_FIFO_DEPTH) then [v] else []) =
      if push then [v] else [] := by
  rcases hp : push with _ | _
  · rfl
  · have hlt : ys.length < FETCH_FIFO_DEPTH := by
      refine Nat.lt_of_le_of_ne hq.length_le fun hlen => ?_
      exact Bool.false_ne_true ((hfull hp).symm.trans (hq.fullO_iff.mpr hlen))
    rw [decide_eq_true hlt]
    rfl

theorem pushInstrFifo_fits (k : BitVec 1)
    (h : bit (pushInstrFifo s i) k = true) :
    (s.instrFifo k).fullO FETCH_FIFO_DEPTH = false := by
  rw [pushInstrFifo] at h
  split_ifs at h
  · rw [bit_zero] at h
    exact absurd h Bool.false_ne_true
  · rw [pushInstr, bit_and, bit_not, instrQueueFull, bit_mask,
      Bool.and_eq_true, Bool.not_eq_true'] at h
    exact h.2

theorem shamt_eq (h : Keeps s d xs) (hv : i.valid ≠ 2#2) :
    shamt s i = BitVec.ofNat 1 (stored s i).length := by
  have hfirst := stores_first hv h.level (i := i)
  rw [shamt, popcount_eq, stored_eq hv h.level]
  generalize stores s i 0#1 = c0 at *
  generalize stores s i 1#1 = c1 at *
  rcases c0 with _ | _ <;> rcases c1 with _ | _ <;> rfl

/-- The oldest item leaves and the stored ones come in behind. -/
theorem step (h : Keeps s d xs) {r : Run} (hs : r.queue = s)
    (hshape : Shape r i) (hflush : i.flush = false) :
    Keeps (InstrQueue.step s i) (restLane i d)
      (rest i xs ++ stored s i) := by
  obtain ⟨hv, hr⟩ := hshape
  rw [hs] at hr
  have hidx := h.restLane_add hr
  constructor
  · show (if i.flush then 1#2 else idxDsD s i) = _
    rw [hflush, if_neg Bool.false_ne_true, idxDsD, restLane, h.ds]
    have hturn : ∀ d : BitVec 1,
        (1#2 <<< d.toNat).extractLsb' 0 1 ++
          (1#2 <<< d.toNat).extractLsb' 1 1 = 1#2 <<< (d + 1#1).toNat := by
      decide
    split_ifs
    · exact hturn d
    · rfl
  · show (if i.flush then 0#1 else s.idxIs + shamt s i) = _
    rw [hflush, if_neg Bool.false_ne_true, hidx, h.shamt_eq hv,
      List.length_append, BitVec.ofNat_add, BitVec.add_assoc]
  · intro k
    have hnext := (h.lane k).next (instrFifoIn s i k)
    rw [FifoV3.after, if_neg (by simp [instrFifoIn, hflush])] at hnext
    have hpush := push_fits (h.lane k) (v := instrDataIn s i k)
      (pushInstrFifo_fits k (s := s) (i := i))
    have hlane := stored_lane hv h.level (i := i) k
    rw [List.map_append, stripe_append, List.length_map, BitVec.sub_sub,
      ← hidx, hlane, ← h.lane_rest hr k, ← hpush]
    exact hnext
  · have hnext := h.address.next (addressFifoIn s i)
    rw [FifoV3.after, if_neg (by simp [addressFifoIn, hflush])] at hnext
    have hfits : (pushAddress s i && !fullAddress s) = true →
        s.addressFifo.fullO FETCH_FIFO_DEPTH = false := by
      intro hp
      rw [Bool.and_eq_true, Bool.not_eq_true'] at hp
      exact hp.2
    have hpush := push_fits h.address (v := i.predictAddress) hfits
    rw [List.filter_append, List.map_append, stored_targets hv h.level,
      ← h.address_rest hr, ← hpush]
    exact hnext

/-- A flush empties the queue. -/
theorem step_flush (h : Keeps s d xs) (hflush : i.flush = true) :
    Keeps (InstrQueue.step s i) 0#1 [] := by
  constructor
  · show (if i.flush then 1#2 else idxDsD s i) = _
    rw [hflush, if_pos rfl]
    rfl
  · show (if i.flush then 0#1 else s.idxIs + shamt s i) = _
    rw [hflush, if_pos rfl]
    rfl
  · intro k
    exact (h.lane k).flush (i := instrFifoIn s i k) hflush
  · exact h.address.flush (i := addressFifoIn s i) hflush

end Keeps

/-! ## Runs -/

/-- The items since the last flush are those that left and those in the
queue. -/
structure Carries (r : Run) (d : BitVec 1) (gone xs : List Item) : Prop where
  pushed : r.pushed = gone ++ xs
  delivered : r.delivered.map FetchEntry.view = gone.map Item.view
  keeps : Keeps r.queue d xs

theorem Carries.init : Carries Run.init 0#1 [] [] :=
  ⟨rfl, rfl, Keeps.init⟩

namespace Carries

open Keeps

variable {r : Run} {i : In} {d : BitVec 1} {gone xs : List Item}

/-- The items that leave. -/
def leaving (i : In) (xs : List Item) : List Item :=
  if i.fetchEntryReady then xs.take 1 else []

theorem leaving_append_rest (i : In) (xs : List Item) :
    leaving i xs ++ rest i xs = xs := by
  rw [leaving, rest]
  split_ifs
  · rw [← List.drop_one, List.take_append_drop]
  · rfl

theorem deliver_view (h : Carries r d gone xs) (hshape : Shape r i) :
    (deliver r.queue i).map FetchEntry.view =
      (leaving i xs).map Item.view := by
  rw [deliver, leaving]
  rcases hready : i.fetchEntryReady with _ | _
  · rw [Bool.and_false]
    rfl
  · have hvalid := hshape.2 hready
    obtain ⟨y, ys, rfl⟩ := List.exists_cons_of_ne_nil
      (h.keeps.fetchEntryValidO_iff.mp hvalid)
    rw [hvalid, Bool.and_true, if_pos rfl, if_pos rfl, List.map_singleton,
      h.keeps.view_eq]
    rfl

theorem inOrder (h : Carries r d gone xs) (hshape : Shape r i) :
    InOrder r i where
  delivered := by
    have hall : r.pushed = gone ++ leaving i xs ++ rest i xs := by
      rw [h.pushed, List.append_assoc, leaving_append_rest]
    rw [List.map_append, h.delivered, h.deliver_view hshape,
      ← List.map_append, hall]
    exact (List.prefix_append _ _).map _
  all hvalid := by
    have hnil : xs = [] := by
      by_contra hne
      rw [h.keeps.fetchEntryValidO_iff.mpr hne] at hvalid
      exact Bool.false_ne_true hvalid.symm
    rw [h.delivered, h.pushed, hnil, List.append_nil]
  replay := replayO_iff hshape.1 h.keeps.level
  replayAddr := replayAddrO_eq hshape.1 h.keeps.level

theorem step (h : Carries r d gone xs) (hshape : Shape r i)
    (hflush : i.flush = false) :
    Carries (r.step i) (restLane i d) (gone ++ leaving i xs)
      (rest i xs ++ stored r.queue i) where
  pushed := by
    show (if i.flush then _ else _) = _
    rw [hflush, if_neg Bool.false_ne_true, h.pushed, List.append_assoc,
      List.append_assoc, ← List.append_assoc (leaving i xs),
      leaving_append_rest]
  delivered := by
    show (if i.flush then _ else _ : List FetchEntry).map _ = _
    rw [hflush, if_neg Bool.false_ne_true, List.map_append, h.delivered,
      h.deliver_view hshape, List.map_append]
  keeps := h.keeps.step rfl hshape hflush

theorem step_flush (h : Carries r d gone xs) (hflush : i.flush = true) :
    Carries (r.step i) 0#1 [] [] where
  pushed := if_pos hflush
  delivered := by
    show (if i.flush then _ else _ : List FetchEntry).map _ = _
    rw [hflush, if_pos rfl]
    rfl
  keeps := h.keeps.step_flush hflush

end Carries

/-- The items of a run go on at each other's end, and `pc` is the address
of the item that leaves next. -/
structure Located (r : Run) (gone xs : List Item) : Prop where
  address : r.delivered.map FetchEntry.address = gone.map Item.addr
  chain : r.pushed.IsChain fun x y => y.addr = x.next
  pc : ∀ x ∈ xs.head?, r.queue.pc = x.addr
  pc_nil : xs = [] → ∀ x ∈ r.pushed.getLast?, r.queue.pc = x.next
  reset : r.queue.resetAddress = true ↔ r.pushed = []

theorem Located.init : Located Run.init [] [] where
  address := rfl
  chain := List.IsChain.nil
  pc x hx := by simp at hx
  pc_nil _ x hx := by simp [Run.init] at hx
  reset := iff_of_true rfl rfl

namespace Located

open Keeps Carries

variable {r : Run} {i : In} {d : BitVec 1} {gone xs : List Item}

theorem deliver_address (h : Located r gone xs) (hi : Carries r d gone xs)
    (hshape : Shape r i) :
    (deliver r.queue i).map FetchEntry.address =
      (leaving i xs).map Item.addr := by
  rw [deliver, leaving]
  rcases hready : i.fetchEntryReady with _ | _
  · rw [Bool.and_false]
    rfl
  · have hvalid := hshape.2 hready
    obtain ⟨y, ys, rfl⟩ := List.exists_cons_of_ne_nil
      (hi.keeps.fetchEntryValidO_iff.mp hvalid)
    rw [hvalid, Bool.and_true, if_pos rfl, if_pos rfl, List.map_singleton,
      hi.keeps.fetchEntryO_eq, h.pc y rfl]
    rfl

theorem addressed (h : Located r gone xs) (hi : Carries r d gone xs)
    (hshape : Shape r i) : Addressed r i := by
  have hall : r.pushed = gone ++ leaving i xs ++ rest i xs := by
    rw [hi.pushed, List.append_assoc, leaving_append_rest]
  rw [Addressed, List.map_append, h.address, h.deliver_address hi hshape,
    ← List.map_append, hall]
  exact (List.prefix_append _ _).map _

/-- The items of a packet go on where the last one ended. -/
theorem chain_offered (h : Located r gone xs) (hshape : Shape r i)
    (hc : Continues r i) (hflush : i.flush = false) :
    (r.pushed ++ offered i).IsChain fun x y => y.addr = x.next := by
  have hfirst := offers_first (i := i) hshape.1
  rw [offered_eq hshape.1]
  rcases h0 : offers i 0#1 with _ | _
  · have h1 : offers i 1#1 = false := by
      rw [← Bool.not_eq_true]
      exact fun h1 => Bool.false_ne_true (h0.symm.trans (hfirst h1))
    rw [h1]
    simpa using h.chain
  · have hv0 : bit i.valid 0#1 = true := by
      rw [← offers_zero]
      exact h0
    obtain ⟨hlast, hsecond⟩ := hc hflush hv0
    refine List.IsChain.append h.chain ?_ fun x hx y hy => ?_
    · rcases h1 : offers i 1#1 with _ | _
      · exact List.IsChain.singleton _
      · rw [offers_one, Bool.and_eq_true, Bool.not_eq_true'] at h1
        refine List.IsChain.cons_cons ?_ (List.IsChain.singleton _)
        rw [Item.next, if_neg (by simp [h1.2])]
        exact hsecond h1.1
    · have hhead : y = item i 0#1 := by simpa using hy.symm
      rw [hhead]
      exact hlast x hx

theorem chain_stored (h : Located r gone xs) (hshape : Shape r i)
    (hc : Continues r i) (hflush : i.flush = false) :
    (r.pushed ++ stored r.queue i).IsChain fun x y => y.addr = x.next := by
  have hchain := h.chain_offered hshape hc hflush
  rw [← List.take_append_drop (popcount r.queue i) (offered i),
    ← List.append_assoc] at hchain
  exact hchain.left_of_append

/-- The replay goes on where the last stored item ended. -/
theorem next_replay (h : Located r gone xs) (hi : Carries r d gone xs)
    (hshape : Shape r i) (hc : Continues r i) (hflush : i.flush = false)
    (hreplay : replayO r.queue i = true) :
    ∀ x ∈ (r.pushed ++ stored r.queue i).getLast?,
      x.next = replayAddrO r.queue i := by
  have hchain := h.chain_offered hshape hc hflush
  have haddr := replayAddrO_eq hshape.1 hi.keeps.level hreplay
  rw [Option.map_eq_some_iff] at haddr
  obtain ⟨y, hy, hyaddr⟩ := haddr
  have hlen : (stored r.queue i).length ≤ popcount r.queue i :=
    List.length_take_le _ _
  have hlt : (stored r.queue i).length < (offered i).length :=
    (List.getElem?_eq_some_iff.mp hy).1
  have hdrop : (offered i).drop (popcount r.queue i) =
      y :: (offered i).drop (popcount r.queue i + 1) := by
    have hcount : (stored r.queue i).length = popcount r.queue i := by
      rw [stored, List.length_take] at hlt ⊢
      omega
    rw [hcount] at hy hlt
    rw [List.drop_eq_getElem_cons hlt]
    congr 1
    exact (List.getElem_eq_iff hlt).mpr hy
  rw [← List.take_append_drop (popcount r.queue i) (offered i), hdrop,
    ← List.append_assoc] at hchain
  intro x hx
  rw [← hyaddr]
  exact ((List.isChain_append.mp hchain).2.2 x hx y rfl).symm

/-- An empty queue takes the first instruction of a packet. -/
theorem stores_of_nil {s : State} (hk : Keeps s d []) :
    stores s i 0#1 = bit i.valid 0#1 := by
  have hlane : fullFor s 0#1 = false := by
    rw [fullFor, instrQueueFull, bit_mask, ← Bool.not_eq_true,
      (hk.lane _).fullO_iff]
    show ¬0 = 4
    omega
  have haddr : fullAddress s = false := by
    rw [fullAddress, ← Bool.not_eq_true, hk.address.fullO_iff]
    decide
  rw [stores_eq, addressOverflow, haddr, hlane, offers_zero]
  simp

theorem stored_eq_nil_iff (hi : Carries r d gone xs) (hshape : Shape r i) :
    stored r.queue i = [] ↔ stores r.queue i 0#1 = false := by
  have hfirst := stores_first hshape.1 hi.keeps.level (i := i)
  rw [stored_eq hshape.1 hi.keeps.level]
  rcases h0 : stores r.queue i 0#1 with _ | _
  · have h1 : stores r.queue i 1#1 = false := by
      rw [← Bool.not_eq_true]
      exact fun h1 => Bool.false_ne_true (h0.symm.trans (hfirst h1))
    simp [h1]
  · simp

theorem head_stored (hi : Carries r d gone xs) (hshape : Shape r i)
    {x : Item} (hx : x ∈ (stored r.queue i).head?) :
    x = item i 0#1 ∧ bit i.valid 0#1 = true := by
  have hne : stores r.queue i 0#1 = true := by
    rw [← Bool.not_eq_false, ← stored_eq_nil_iff hi hshape]
    intro hnil
    rw [hnil] at hx
    simp at hx
  rw [stored_eq hshape.1 hi.keeps.level, hne, if_pos rfl,
    List.singleton_append, List.head?_cons, Option.mem_some_iff] at hx
  have hoff := hne
  rw [stores_eq, Bool.and_eq_true, Bool.and_eq_true, offers_zero] at hoff
  exact ⟨hx.symm, hoff.2.1⟩

theorem reset_of_pushed (h : Located r gone xs) (hne : r.pushed ≠ []) :
    r.queue.resetAddress = false := by
  rw [← Bool.not_eq_true, h.reset]
  exact hne

/-- The address moves on with the item that leaves. -/
theorem pcD_ready {y : Item} {ys : List Item}
    (h : Located r gone (y :: ys)) (hi : Carries r d gone (y :: ys))
    (hshape : Shape r i) (hready : i.fetchEntryReady = true) :
    pcD r.queue i = y.next := by
  have hreset : resetsAddress r.queue i = false := by
    rw [resetsAddress, h.reset_of_pushed (by simp [hi.pushed]),
      Bool.and_false]
  have hpc := h.pc y rfl
  have hcf : ((fetchEntryO r.queue).cf != .NoCF) = y.taken := by
    rw [hi.keeps.fetchEntryO_eq, hi.keeps.stripe_head]
    rfl
  have hinstr : (fetchEntryO r.queue).instruction = y.data.instr := by
    rw [hi.keeps.fetchEntryO_eq, hi.keeps.stripe_head]
  rw [pcD, hreset, if_neg Bool.false_ne_true,
    hi.keeps.popAddress_eq hshape.2, hcf, hready, Bool.and_true, if_pos rfl,
    hpc, hinstr, Item.next]
  split_ifs with ht
  · refine hi.keeps.address.dataO_eq ?_
    rw [List.filter_cons_of_pos ht]
    rfl
  · rfl

theorem pcD_idle (hi : Carries r d gone xs) (hshape : Shape r i)
    (hready : i.fetchEntryReady = false)
    (hreset : resetsAddress r.queue i = false) :
    pcD r.queue i = r.queue.pc := by
  rw [pcD, hreset, if_neg Bool.false_ne_true,
    hi.keeps.popAddress_eq hshape.2, hready, Bool.and_false,
    if_neg Bool.false_ne_true, if_neg Bool.false_ne_true]

/-- The address of the first item that comes into an empty queue. -/
theorem pcD_nil (h : Located r gone []) (hi : Carries r d gone [])
    (hshape : Shape r i) (hc : Continues r i) (hflush : i.flush = false)
    (hready : i.fetchEntryReady = false)
    (hv : bit i.valid 0#1 = true) : pcD r.queue i = i.addr 0#1 := by
  by_cases hpushed : r.pushed = []
  · have hreset : resetsAddress r.queue i = true := by
      rw [resetsAddress, hv, h.reset.mpr hpushed]
      rfl
    rw [pcD, if_pos hreset]
  · have hreset : resetsAddress r.queue i = false := by
      rw [resetsAddress, h.reset_of_pushed hpushed, Bool.and_false]
    have hlast := List.getLast?_eq_some_getLast hpushed
    rw [pcD_idle hi hshape hready hreset, h.pc_nil rfl _ hlast,
      (hc hflush hv).1 _ hlast]

theorem step (h : Located r gone xs) (hi : Carries r d gone xs)
    (hshape : Shape r i) (hc : Continues r i) (hflush : i.flush = false) :
    Located (r.step i) (gone ++ leaving i xs)
      (rest i xs ++ stored r.queue i) := by
  have hpushed : (r.step i).pushed = r.pushed ++ stored r.queue i :=
    if_neg (by simp [hflush])
  have hchain := h.chain_stored hshape hc hflush
  have hpc : (r.step i).queue.pc = pcD r.queue i := rfl
  refine ⟨?_, ?_, fun x hx => ?_, fun hnil x hx => ?_, ?_⟩
  · show (if i.flush then _ else _ : List FetchEntry).map _ = _
    rw [hflush, if_neg Bool.false_ne_true, List.map_append, h.address,
      h.deliver_address hi hshape, List.map_append]
  · rw [hpushed]
    exact hchain
  · rw [hpc]
    rcases hready : i.fetchEntryReady with _ | _
    · rw [rest, hready, if_neg Bool.false_ne_true] at hx
      rcases xs with _ | ⟨y, ys⟩
      · obtain ⟨rfl, hv⟩ := head_stored hi hshape hx
        exact h.pcD_nil hi hshape hc hflush hready hv
      · have hxy : y = x := by simpa using hx
        have hreset : resetsAddress r.queue i = false := by
          rw [resetsAddress, h.reset_of_pushed (by simp [hi.pushed]),
            Bool.and_false]
        rw [pcD_idle hi hshape hready hreset, h.pc y rfl, hxy]
    · obtain ⟨y, ys, rfl⟩ := List.exists_cons_of_ne_nil
        (hi.keeps.fetchEntryValidO_iff.mp (hshape.2 hready))
      rw [rest, hready, if_pos rfl, List.tail_cons] at hx
      rw [h.pcD_ready hi hshape hready]
      rw [hi.pushed, List.append_assoc, List.cons_append] at hchain
      have htail := hchain.right_of_append
      exact (htail.rel_head? hx).symm
  · rw [hpc]
    rw [List.append_eq_nil_iff] at hnil
    rw [hpushed, hnil.2, List.append_nil] at hx
    rcases hready : i.fetchEntryReady with _ | _
    · rw [rest, hready, if_neg Bool.false_ne_true] at hnil
      have hne : r.pushed ≠ [] := by
        rintro hempty
        rw [hempty] at hx
        simp at hx
      have hreset : resetsAddress r.queue i = false := by
        rw [resetsAddress, h.reset_of_pushed hne, Bool.and_false]
      rw [pcD_idle hi hshape hready hreset]
      exact h.pc_nil hnil.1 x hx
    · obtain ⟨y, ys, rfl⟩ := List.exists_cons_of_ne_nil
        (hi.keeps.fetchEntryValidO_iff.mp (hshape.2 hready))
      rw [rest, hready, if_pos rfl, List.tail_cons] at hnil
      rw [hi.pushed, hnil.1, List.getLast?_concat, Option.mem_some_iff] at hx
      rw [h.pcD_ready hi hshape hready, hx]
  · show (i.flush || (r.queue.resetAddress && !resetsAddress r.queue i)) =
      true ↔ _
    rw [hflush, Bool.false_or, hpushed, List.append_eq_nil_iff, ← h.reset,
      stored_eq_nil_iff hi hshape, Bool.and_eq_true]
    refine and_congr_right fun hreset => ?_
    have hnil := h.reset.mp hreset
    rw [hi.pushed, List.append_eq_nil_iff] at hnil
    rw [stores_of_nil (hnil.2 ▸ hi.keeps), resetsAddress, hreset,
      Bool.and_true, Bool.not_eq_true']

theorem step_flush (hflush : i.flush = true) : Located (r.step i) [] [] := by
  have hpushed : (r.step i).pushed = [] := if_pos hflush
  refine ⟨?_, ?_, fun x hx => ?_, fun _ x hx => ?_, ?_⟩
  · show (if i.flush then _ else _ : List FetchEntry).map _ = _
    rw [hflush, if_pos rfl]
    rfl
  · rw [hpushed]
    exact List.IsChain.nil
  · simp at hx
  · rw [hpushed] at hx
    simp at hx
  · show (i.flush || _) = true ↔ _
    rw [hflush, hpushed]
    exact iff_of_true rfl rfl

end Located

/-- Entries leave in the order in which the packets brought them, once and
with all that the packet said of them.  Where the packets go on at each
other's end, they leave with their addresses. -/
theorem queue_in_order (is : List In)
    (h : Sync.Along Run.step Shape Run.init is) :
    Sync.Along Run.step InOrder Run.init is ∧
      (Sync.Along Run.step Continues Run.init is →
        Sync.Along Run.step Addressed Run.init is) := by
  constructor
  · have hrun := h.along (P := fun r => ∃ d gone xs, Carries r d gone xs) ?_
      ⟨_, _, _, Carries.init⟩
    · refine hrun.mono fun r i hr => ?_
      obtain ⟨hshape, d, gone, xs, hi⟩ := hr
      exact hi.inOrder hshape
    · rintro r i hshape ⟨d, gone, xs, hi⟩
      rcases hflush : i.flush with _ | _
      · exact ⟨_, _, _, hi.step hshape hflush⟩
      · exact ⟨_, _, _, hi.step_flush hflush⟩
  · intro hc
    have hrun := (h.and hc).along
      (P := fun r => ∃ d gone xs, Carries r d gone xs ∧ Located r gone xs)
      ?_ ⟨_, _, _, Carries.init, Located.init⟩
    · refine hrun.mono fun r i hr => ?_
      obtain ⟨⟨hshape, -⟩, d, gone, xs, hi, hl⟩ := hr
      exact hl.addressed hi hshape
    · rintro r i ⟨hshape, hc⟩ ⟨d, gone, xs, hi, hl⟩
      rcases hflush : i.flush with _ | _
      · exact ⟨_, _, _, hi.step hshape hflush, hl.step hi hshape hc hflush⟩
      · exact ⟨_, _, _, hi.step_flush hflush, Located.step_flush hflush⟩

/-- Two compressed instructions from `a` on; the second one may be
predicted taken, to `0x2000`. -/
def samplePacket (a : BitVec 64) (jump ready flush : Bool) : In where
  flush := flush
  instr := fun _ => 0x4501#32
  addr := fun j => if j = 0#1 then a else a + 2#64
  valid := 3#2
  exception := false
  predictAddress := 0x2000#64
  cfType := fun j => if j = 1#1 ∧ jump = true then .Jump else .NoCF
  fetchEntryReady := ready

def sampleRun : List In :=
  [samplePacket 0x1000#64 false false false,
    samplePacket 0x1004#64 true true false,
    samplePacket 0x2000#64 false true false,
    samplePacket 0x2004#64 false true true,
    samplePacket 0x3000#64 false false false]

theorem queue_in_order_sample :
    Sync.Along Run.step InOrder Run.init sampleRun ∧
      Sync.Along Run.step Addressed Run.init sampleRun := by
  have h := queue_in_order sampleRun (by decide)
  exact ⟨h.1, h.2 (by decide)⟩

end ArianeSoc.Frontend.InstrQueue
