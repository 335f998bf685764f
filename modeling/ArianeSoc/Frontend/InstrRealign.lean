import ArianeSoc.BitField
import ArianeSoc.Sync
import Mathlib.Algebra.Group.Nat.Defs

/-!
# The instruction re-aligner

`instr_realign.sv` for a fetch width of 32, with two instructions in a
packet, and the shift of the instruction cache's word in `frontend.sv`.

A program text gives the half-word at every address.  `decode` reads
instructions from a number of consecutive half-words, and `Feed` keeps what
the packets since a flush have brought: consecutive half-words from a start
address on.  Between two packets the re-aligner holds at most the first
half-word of an instruction (`Aligned`), and `Aligned.packet` is what one
packet does to it.

The upper half of the instruction in slot 0 is not part of a compressed
instruction; `Instr.read` reads the half-words that belong to it.
-/

namespace ArianeSoc.Frontend

/-- The lowest bits of a 32-bit instruction are `11`. -/
def isCompressed (h : BitVec 16) : Bool := h.extractLsb' 0 2 != 3#2

/-- `address` with the lowest bits replaced by `low`. -/
def inWord (address : BitVec 64) (low : BitVec 2) : BitVec 64 :=
  address.extractLsb' 2 62 ++ low

/-- The address of the next 32-bit word. -/
def nextWord (address : BitVec 64) : BitVec 64 := inWord address 0#2 + 4#64

/-- `icache_data`: the half-word at the address comes first. -/
def icacheData (vaddr : BitVec 64) (data : BitVec 32) : BitVec 32 :=
  if vaddr.getLsbD 1 then data >>> 16 else data

namespace InstrRealign

/-! ## The module -/

/-- The registers of `instr_realign`. -/
structure State where
  unaligned : Bool
  unalignedAddress : BitVec 64
  unalignedInstr : BitVec 16
  deriving DecidableEq, Repr

def init : State where
  unaligned := false
  unalignedAddress := 0#64
  unalignedInstr := 0#16

/-- The inputs of `instr_realign`. -/
structure In where
  flush : Bool
  valid : Bool
  address : BitVec 64
  data : BitVec 32
  deriving DecidableEq, Repr

/-- One of the two instructions of a packet. -/
structure Slot where
  valid : Bool
  addr : BitVec 64
  instr : BitVec 32
  deriving DecidableEq, Repr

def In.low (i : In) : BitVec 16 := i.data.extractLsb' 0 16

def In.high (i : In) : BitVec 16 := i.data.extractLsb' 16 16

variable (s : State) (i : In)

/-- A whole instruction starts in the upper half-word. -/
def deferred : Bool :=
  i.valid && i.address.getLsbD 1 && !isCompressed i.low

def slot0 : Slot where
  valid := i.valid && !deferred i
  addr := if s.unaligned then s.unalignedAddress else i.address
  instr := if s.unaligned then i.low ++ s.unalignedInstr else i.data

/-- The upper half-word is the start of an instruction. -/
def upperStarts : Bool := isCompressed i.low || s.unaligned

def slot1 : Slot where
  valid := i.valid && !i.address.getLsbD 1 && upperStarts s i &&
    isCompressed i.high
  addr := inWord i.address 2#2
  instr := if upperStarts s i && isCompressed i.high then
    0#16 ++ i.high else 0#32

def unalignedD : Bool :=
  if deferred i then true
  else if upperStarts s i then !isCompressed i.high
  else s.unaligned

/-- One cycle. -/
def step : State where
  unaligned := !i.flush && if i.valid then unalignedD s i else s.unaligned
  unalignedAddress :=
    if i.valid then inWord i.address 2#2 else s.unalignedAddress
  unalignedInstr :=
    if i.valid then (if deferred i then i.low else i.high)
    else s.unalignedInstr

end InstrRealign

/-! ## Decoding a text -/

/-- The half-word at every address. -/
abbrev Text := BitVec 64 → BitVec 16

/-- The word that contains the address. -/
def Text.word (t : Text) (a : BitVec 64) : BitVec 32 :=
  t (inWord a 2#2) ++ t (inWord a 0#2)

/-- An instruction and its address. -/
structure Instr where
  addr : BitVec 64
  bits : BitVec 32
  deriving DecidableEq, Repr

/-- The instructions that lie in the first half-words from `pc` on. -/
def decode (t : Text) (pc : BitVec 64) : ℕ → List Instr
  | 0 => []
  | n + 1 =>
    if isCompressed (t pc) then
      ⟨pc, 0#16 ++ t pc⟩ :: decode t (pc + 2#64) n
    else
      match n with
      | 0 => []
      | n + 1 => ⟨pc, t (pc + 2#64) ++ t pc⟩ :: decode t (pc + 4#64) n

/-- The half-words of an instruction. -/
def Instr.read (addr : BitVec 64) (instr : BitVec 32) : Instr where
  addr := addr
  bits :=
    if isCompressed (instr.extractLsb' 0 16) then
      0#16 ++ instr.extractLsb' 0 16
    else instr

namespace InstrRealign

def Slot.emit (d : Slot) : List Instr :=
  if d.valid then [Instr.read d.addr d.instr] else []

/-- The valid instructions of a cycle. -/
def emitted (s : State) (i : In) : List Instr :=
  (slot0 s i).emit ++ (slot1 s i).emit

end InstrRealign

/-! ## What the packets bring -/

/-- What the front-end gives the re-aligner: a word of the instruction
cache. -/
structure Fetch where
  flush : Bool
  valid : Bool
  vaddr : BitVec 64
  data : BitVec 32
  deriving DecidableEq, Repr

def Fetch.realign (f : Fetch) : InstrRealign.In where
  flush := f.flush
  valid := f.valid
  address := f.vaddr
  data := icacheData f.vaddr f.data

/-- Consecutive half-words. -/
structure Segment where
  start : BitVec 64
  count : ℕ
  deriving DecidableEq, Repr

/-- The address behind a segment. -/
def Segment.stop (g : Segment) : BitVec 64 :=
  g.start + BitVec.ofNat 64 (2 * g.count)

/-- The segments that flushes have ended, and the one that grows. -/
structure Feed where
  past : List Segment
  cur : Option Segment
  deriving DecidableEq, Repr

def Feed.init : Feed where
  past := []
  cur := none

def Feed.segments (d : Feed) : List Segment := d.past ++ d.cur.toList

/-- The half-words of a packet. -/
def halves (vaddr : BitVec 64) : ℕ := if vaddr.getLsbD 1 then 1 else 2

/-- The growing segment after a cycle, flushes apart. -/
def Feed.grow (d : Feed) (f : Fetch) : Option Segment :=
  if f.valid then
    match d.cur with
    | none => some ⟨f.vaddr, halves f.vaddr⟩
    | some g => some { g with count := g.count + halves f.vaddr }
  else d.cur

def Feed.step (d : Feed) (f : Fetch) : Feed :=
  if f.flush then ⟨d.past ++ (d.grow f).toList, none⟩
  else ⟨d.past, d.grow f⟩

/-- The packets carry the words of the text.  After a flush they start at
any half-word, and from there on they are consecutive. -/
def Feed.Delivers (t : Text) (d : Feed) (f : Fetch) : Prop :=
  f.valid = true → f.data = t.word f.vaddr ∧
    match d.cur with
    | none => f.vaddr.getLsbD 0 = false
    | some g => f.vaddr = g.stop

instance (t : Text) (d : Feed) (f : Fetch) : Decidable (d.Delivers t f) := by
  unfold Feed.Delivers
  cases d.cur <;> infer_instance

/-! ## Addresses inside a word -/

theorem inWord_toNat (a : BitVec 64) (low : BitVec 2) :
    (inWord a low).toNat = a.toNat / 4 * 4 + low.toNat := by
  have h := a.isLt
  rw [inWord, BitField.toNat_append_add, BitVec.extractLsb'_toNat,
    Nat.shiftRight_eq_div_pow]
  omega

theorem getLsbD_zero_eq_false (a : BitVec 64) :
    a.getLsbD 0 = false ↔ a.toNat % 2 = 0 := by
  rw [BitVec.getLsbD, Nat.testBit_zero, decide_eq_false_iff_not]
  omega

theorem getLsbD_one_eq_false (a : BitVec 64) :
    a.getLsbD 1 = false ↔ a.toNat / 2 % 2 = 0 := by
  rw [BitVec.getLsbD, Nat.testBit_succ, Nat.testBit_zero,
    decide_eq_false_iff_not]
  omega

variable {a : BitVec 64}

/-- The upper half-word of a word. -/
theorem inWord_upper (h0 : a.getLsbD 0 = false) (h1 : a.getLsbD 1 = true) :
    inWord a 2#2 = a := by
  rw [getLsbD_zero_eq_false] at h0
  rw [← Bool.not_eq_false, getLsbD_one_eq_false] at h1
  refine BitVec.eq_of_toNat_eq ?_
  rw [inWord_toNat]
  show a.toNat / 4 * 4 + 2 = a.toNat
  omega

theorem inWord_lower (h0 : a.getLsbD 0 = false)
    (h1 : a.getLsbD 1 = false) : inWord a 0#2 = a := by
  rw [getLsbD_zero_eq_false] at h0
  rw [getLsbD_one_eq_false] at h1
  refine BitVec.eq_of_toNat_eq ?_
  rw [inWord_toNat]
  show a.toNat / 4 * 4 + 0 = a.toNat
  omega

theorem inWord_add_two (h0 : a.getLsbD 0 = false)
    (h1 : a.getLsbD 1 = false) : inWord a 2#2 = a + 2#64 := by
  rw [getLsbD_zero_eq_false] at h0
  rw [getLsbD_one_eq_false] at h1
  have hlt := a.isLt
  refine BitVec.eq_of_toNat_eq ?_
  rw [inWord_toNat, BitVec.toNat_add]
  show a.toNat / 4 * 4 + 2 = (a.toNat + 2) % 2 ^ 64
  omega

/-- The address behind a packet is that of a word. -/
theorem add_halves_aligned (h0 : a.getLsbD 0 = false) :
    (a + BitVec.ofNat 64 (2 * halves a)).getLsbD 0 = false ∧
      (a + BitVec.ofNat 64 (2 * halves a)).getLsbD 1 = false := by
  have hlt := a.isLt
  rw [getLsbD_zero_eq_false] at h0 ⊢
  rw [getLsbD_one_eq_false, halves]
  by_cases h1 : a.getLsbD 1 = false
  · rw [if_neg (by rw [h1]; exact Bool.false_ne_true)]
    rw [getLsbD_one_eq_false] at h1
    rw [BitVec.toNat_add]
    show (a.toNat + 4) % 2 ^ 64 % 2 = 0 ∧ (a.toNat + 4) % 2 ^ 64 / 2 % 2 = 0
    omega
  · rw [if_pos (by simpa using h1)]
    rw [getLsbD_one_eq_false] at h1
    rw [BitVec.toNat_add]
    show (a.toNat + 2) % 2 ^ 64 % 2 = 0 ∧ (a.toNat + 2) % 2 ^ 64 / 2 % 2 = 0
    omega

/-! ## One packet -/

section Decode

variable {t : Text} {pc : BitVec 64}

theorem decode_compressed (h : isCompressed (t pc) = true) (n : ℕ) :
    decode t pc (1 + n) =
      ⟨pc, 0#16 ++ t pc⟩ :: decode t (pc + 2#64) n := by
  rw [Nat.add_comm, decode.eq_def]
  exact if_pos h

theorem decode_whole (h : isCompressed (t pc) = false) (n : ℕ) :
    decode t pc (2 + n) =
      ⟨pc, t (pc + 2#64) ++ t pc⟩ :: decode t (pc + 4#64) n := by
  rw [Nat.add_comm, decode.eq_def]
  exact if_neg (by rw [h]; exact Bool.false_ne_true)

theorem decode_half (h : isCompressed (t pc) = false) :
    decode t pc 1 = [] := by
  rw [decode.eq_def]
  exact if_neg (by rw [h]; exact Bool.false_ne_true)

end Decode

namespace InstrRealign

variable {t : Text} {s : State} {i : In}

/-- Where decoding goes on, if the packets reach up to `stop`. -/
def pc (s : State) (stop : BitVec 64) : BitVec 64 :=
  if s.unaligned then s.unalignedAddress else stop

/-- The half-words that are there but not decoded. -/
def pending (s : State) : ℕ := if s.unaligned then 1 else 0

/-- A half-word that is held is the first one of an instruction, and the
last one before `stop`. -/
def Aligned (t : Text) (s : State) (stop : BitVec 64) : Prop :=
  s.unaligned = true →
    stop.getLsbD 1 = false ∧ s.unalignedAddress + 2#64 = stop ∧
      s.unalignedInstr = t s.unalignedAddress ∧
      isCompressed (t s.unalignedAddress) = false

/-- What is there but not decoded is no instruction. -/
theorem Aligned.decode_pending {stop : BitVec 64} (h : Aligned t s stop) :
    decode t (pc s stop) (pending s) = [] := by
  unfold pc pending
  split_ifs with hu
  · exact decode_half (h hu).2.2.2
  · rfl

/-- The registers after a packet without a flush. -/
abbrev packet (s : State) (i : In) : State := step s { i with flush := false }

theorem packet_unaligned (hv : i.valid = true) :
    (packet s i).unaligned = unalignedD s i := by
  simp [packet, step, hv, unalignedD, upperStarts, deferred, In.low, In.high]

theorem packet_address (hv : i.valid = true) :
    (packet s i).unalignedAddress = inWord i.address 2#2 := by
  simp [packet, step, hv]

theorem packet_instr (hv : i.valid = true) :
    (packet s i).unalignedInstr = if deferred i then i.low else i.high := by
  simp [packet, step, hv, deferred, In.low, In.high]

theorem icacheData_upper {data : BitVec 32} (h1 : a.getLsbD 1 = true) :
    icacheData a data = 0#16 ++ data.extractLsb' 16 16 := by
  rw [icacheData, if_pos h1]
  refine BitVec.eq_of_getLsbD_eq fun k hk => ?_
  rw [BitVec.getLsbD_append, BitVec.getLsbD_ushiftRight,
    BitVec.getLsbD_extractLsb']
  by_cases hlt : k < 16
  · simp [hlt]
  · have hout : data.getLsbD (16 + k) = false :=
      BitVec.getLsbD_of_ge _ _ (by omega)
    rw [hout]
    simp [hlt]

theorem low_append (x y : BitVec 16) : (x ++ y).extractLsb' 0 16 = y := by
  refine BitVec.eq_of_getLsbD_eq fun k hk => ?_
  rw [BitVec.getLsbD_extractLsb', BitVec.getLsbD_append]
  simp [hk]

theorem high_append (x y : BitVec 16) :
    (x ++ y).extractLsb' 16 16 = x := by
  refine BitVec.eq_of_getLsbD_eq fun k hk => ?_
  rw [BitVec.getLsbD_extractLsb', BitVec.getLsbD_append]
  simp [hk]

theorem Instr.read_compressed {addr : BitVec 64} {x y : BitVec 16}
    (h : isCompressed y = true) :
    Instr.read addr (x ++ y) = ⟨addr, 0#16 ++ y⟩ := by
  rw [Instr.read, low_append, if_pos h]

theorem Instr.read_whole {addr : BitVec 64} {x y : BitVec 16}
    (h : isCompressed y = false) :
    Instr.read addr (x ++ y) = ⟨addr, x ++ y⟩ := by
  rw [Instr.read, low_append, if_neg (by rw [h]; exact Bool.false_ne_true)]

/-- The input of a packet of the text. -/
structure Packet (t : Text) (a : BitVec 64) (i : In) : Prop where
  valid : i.valid = true
  address : i.address = a
  data : i.data = icacheData a (t.word a)
  aligned : a.getLsbD 0 = false

section Lower

variable (p : Packet t a i) (h1 : a.getLsbD 1 = false)
include p h1

theorem Packet.data_lower : i.data = t (a + 2#64) ++ t a := by
  rw [p.data, icacheData, if_neg (by rw [h1]; exact Bool.false_ne_true),
    Text.word, inWord_add_two p.aligned h1, inWord_lower p.aligned h1]

theorem Packet.low_lower : i.low = t a := by
  rw [In.low, p.data_lower h1, low_append]

theorem Packet.high_lower : i.high = t (a + 2#64) := by
  rw [In.high, p.data_lower h1, high_append]

theorem Packet.not_deferred : deferred i = false := by
  rw [deferred, p.address, h1, Bool.and_false, Bool.false_and]

theorem Packet.slot0_valid : (slot0 s i).valid = true := by
  simp [slot0, p.valid, p.not_deferred h1]

/-- The upper half-word is an instruction or the start of one. -/
theorem Packet.upper (hup : upperStarts s i = true) :
    Aligned t (packet s i) (a + 4#64) ∧
      ∀ m, decode t (a + 2#64) (1 + m) = (slot1 s i).emit ++
        decode t (pc (packet s i) (a + 4#64)) (pending (packet s i) + m) := by
  have hfour : a + 2#64 + 2#64 = a + 4#64 := by rw [BitVec.add_assoc]; rfl
  have hunal : (packet s i).unaligned = !isCompressed i.high := by
    simp [packet_unaligned p.valid, unalignedD, p.not_deferred h1, hup]
  have haddr : (packet s i).unalignedAddress = a + 2#64 := by
    rw [packet_address p.valid, p.address, inWord_add_two p.aligned h1]
  rcases hc : isCompressed i.high with _ | _
  · rw [hc, Bool.not_false] at hunal
    have hinstr : (packet s i).unalignedInstr = t (a + 2#64) := by
      rw [packet_instr p.valid, p.not_deferred h1, if_neg Bool.false_ne_true,
        p.high_lower h1]
    have hempty : (slot1 s i).emit = [] := by
      simp [Slot.emit, slot1, hc]
    constructor
    · intro _
      have halves4 := add_halves_aligned p.aligned
      rw [halves, if_neg (by rw [h1]; exact Bool.false_ne_true)] at halves4
      rw [haddr, hinstr]
      refine ⟨halves4.2, hfour, rfl, ?_⟩
      rw [← p.high_lower h1, hc]
    · intro m
      rw [hempty, pc, pending, hunal, haddr]
      rfl
  · rw [hc, Bool.not_true] at hunal
    have hemit : (slot1 s i).emit = [⟨a + 2#64, 0#16 ++ t (a + 2#64)⟩] := by
      have hread : isCompressed (t (a + 2#64)) = true := by
        rw [← p.high_lower h1, hc]
      have hslot : slot1 s i =
          ⟨true, a + 2#64, 0#16 ++ t (a + 2#64)⟩ := by
        rw [slot1, p.valid, p.address, h1, hup, hc,
          inWord_add_two p.aligned h1, p.high_lower h1]
        rfl
      rw [hslot, Slot.emit, if_pos rfl, Instr.read_compressed hread]
    constructor
    · intro hu
      rw [hunal] at hu
      exact absurd hu Bool.false_ne_true
    · intro m
      rw [hemit, pc, pending, hunal, decode_compressed, hfour]
      · simp
      · rw [← p.high_lower h1, hc]

end Lower

/-- A packet that starts at a word. -/
theorem Aligned.packet_lower (h : Aligned t s a) (p : Packet t a i)
    (h1 : a.getLsbD 1 = false) :
    Aligned t (packet s i) (a + 4#64) ∧
      ∀ m, decode t (pc s a) (pending s + 2 + m) = emitted s i ++
        decode t (pc (packet s i) (a + 4#64))
          (pending (packet s i) + m) := by
  have hvalid := p.slot0_valid h1 (s := s)
  have hlow := p.low_lower h1
  rcases hu : s.unaligned with _ | _
  · have hpc : pc s a = a := by rw [pc, hu]; rfl
    have hpend : pending s = 0 := by rw [pending, hu]; rfl
    have hslot : slot0 s i = ⟨true, a, t (a + 2#64) ++ t a⟩ := by
      rw [← p.data_lower h1, ← p.address, ← hvalid]
      simp [slot0, hu]
    rcases hc : isCompressed (t a) with _ | _
    · -- a whole instruction, nothing is kept
      have hup : upperStarts s i = false := by
        rw [upperStarts, hlow, hc, hu, Bool.or_self]
      have hunal : (InstrRealign.packet s i).unaligned = false := by
        rw [packet_unaligned p.valid, unalignedD, p.not_deferred h1, hup, hu]
        rfl
      have hempty : (slot1 s i).emit = [] := by
        simp [Slot.emit, slot1, hup]
      constructor
      · intro hu'
        rw [hunal] at hu'
        exact absurd hu' Bool.false_ne_true
      · intro m
        rw [emitted, hslot, hempty, Slot.emit, if_pos rfl,
          Instr.read_whole hc, hpc, hpend, Nat.zero_add, decode_whole hc,
          pc, pending, hunal]
        simp
    · have hup : upperStarts s i = true := by
        rw [upperStarts, hlow, hc, Bool.true_or]
      obtain ⟨hnext, hdecode⟩ := p.upper h1 hup
      refine ⟨hnext, fun m => ?_⟩
      rw [emitted, hslot, Slot.emit, if_pos rfl, Instr.read_compressed hc,
        hpc, hpend, show 0 + 2 + m = 1 + (1 + m) by omega,
        decode_compressed hc, hdecode m]
      simp
  · obtain ⟨-, hstop, hinstr, hc⟩ := h hu
    have hup : upperStarts s i = true := by rw [upperStarts, hu, Bool.or_true]
    have hslot : slot0 s i =
        ⟨true, s.unalignedAddress, t a ++ t s.unalignedAddress⟩ := by
      rw [← hinstr, ← hlow, ← hvalid]
      simp [slot0, hu]
    obtain ⟨hnext, hdecode⟩ := p.upper h1 hup
    have hfour : s.unalignedAddress + 4#64 = a + 2#64 := by
      rw [← hstop, BitVec.add_assoc]
      rfl
    refine ⟨hnext, fun m => ?_⟩
    rw [emitted, hslot, Slot.emit, if_pos rfl, Instr.read_whole hc,
      pc, pending, hu, if_pos rfl, if_pos rfl,
      show 1 + 2 + m = 2 + (1 + m) by omega, decode_whole hc, hstop, hfour,
      hdecode m]
    simp

/-- A packet that starts in the upper half of a word. -/
theorem Aligned.packet_upper (h : Aligned t s a) (p : Packet t a i)
    (h1 : a.getLsbD 1 = true) :
    Aligned t (packet s i) (a + 2#64) ∧
      ∀ m, decode t (pc s a) (pending s + 1 + m) = emitted s i ++
        decode t (pc (packet s i) (a + 2#64))
          (pending (packet s i) + m) := by
  have hu : s.unaligned = false := by
    rcases hu : s.unaligned with _ | _
    · rfl
    · exact absurd ((h hu).1.symm.trans h1) Bool.false_ne_true
  have hdata : i.data = 0#16 ++ t a := by
    rw [p.data, icacheData_upper h1, Text.word, high_append,
      inWord_upper p.aligned h1]
  have hlow : i.low = t a := by rw [In.low, hdata, low_append]
  have hhigh : i.high = 0#16 := by rw [In.high, hdata, high_append]
  have hpc : pc s a = a := by rw [pc, hu]; rfl
  have hpend : pending s = 0 := by rw [pending, hu]; rfl
  have hempty : (slot1 s i).emit = [] := by
    rw [Slot.emit, slot1, p.address, h1, Bool.not_true, Bool.and_false,
      Bool.false_and, Bool.false_and]
    rfl
  have hdef : deferred i = !isCompressed (t a) := by
    rw [deferred, p.valid, p.address, h1, hlow]
    rfl
  rcases hc : isCompressed (t a) with _ | _
  · -- the first half of an instruction is kept
    rw [hc, Bool.not_false] at hdef
    have hunal : (InstrRealign.packet s i).unaligned = true := by
      rw [packet_unaligned p.valid, unalignedD, hdef]
      rfl
    have haddr : (InstrRealign.packet s i).unalignedAddress = a := by
      rw [packet_address p.valid, p.address, inWord_upper p.aligned h1]
    have hinstr : (InstrRealign.packet s i).unalignedInstr = t a := by
      rw [packet_instr p.valid, hdef, if_pos rfl, hlow]
    have hnone : (slot0 s i).emit = [] := by
      simp [Slot.emit, slot0, hdef]
    have halves2 := add_halves_aligned p.aligned
    rw [halves, if_pos h1] at halves2
    refine ⟨fun _ => ?_, fun m => ?_⟩
    · rw [haddr, hinstr]
      exact ⟨halves2.2, rfl, rfl, hc⟩
    · rw [emitted, hnone, hempty, hpc, hpend, pc, pending, hunal, haddr]
      simp
  · rw [hc, Bool.not_true] at hdef
    have hup : upperStarts s i = true := by
      rw [upperStarts, hlow, hc, Bool.true_or]
    have hunal : (InstrRealign.packet s i).unaligned = false := by
      rw [packet_unaligned p.valid, unalignedD, hdef, hup, hhigh]
      rfl
    have hslot : slot0 s i = ⟨true, a, 0#16 ++ t a⟩ := by
      rw [slot0, p.valid, hdef, hu, hdata, p.address]
      rfl
    refine ⟨fun hu' => ?_, fun m => ?_⟩
    · rw [hunal] at hu'
      exact absurd hu' Bool.false_ne_true
    · rw [emitted, hslot, hempty, Slot.emit, if_pos rfl,
        Instr.read_compressed hc, hpc, hpend, Nat.zero_add,
        decode_compressed hc, pc, pending, hunal]
      simp

/-- What one packet does. -/
theorem Aligned.packet (h : Aligned t s a) (p : Packet t a i) :
    Aligned t (packet s i) (a + BitVec.ofNat 64 (2 * halves a)) ∧
      ∀ m, decode t (pc s a) (pending s + halves a + m) = emitted s i ++
        decode t (pc (packet s i) (a + BitVec.ofNat 64 (2 * halves a)))
          (pending (packet s i) + m) := by
  rcases h1 : a.getLsbD 1 with _ | _
  · rw [halves, if_neg (by rw [h1]; exact Bool.false_ne_true)]
    exact h.packet_lower p h1
  · rw [halves, if_pos h1]
    exact h.packet_upper p h1

end InstrRealign

/-! ## Runs -/

section Runs

open InstrRealign

variable {t : Text} {d : Feed} {s : State} {f : Fetch}

def Segment.decode (t : Text) (g : Segment) : List Instr :=
  Frontend.decode t g.start g.count

/-- The segment is decoded up to what the re-aligner holds. -/
structure Follows (t : Text) (g : Segment) (s : State) : Prop where
  aligned : Aligned t s g.stop
  even : g.stop.getLsbD 0 = false
  decode : ∀ m, Frontend.decode t g.start (g.count + m) =
    g.decode t ++ Frontend.decode t (pc s g.stop) (pending s + m)

def Tracks (t : Text) (d : Feed) (s : State) : Prop :=
  match d.cur with
  | none => s.unaligned = false
  | some g => Follows t g s

def Segment.append (g : Segment) (n : ℕ) : Segment :=
  { g with count := g.count + n }

theorem Segment.stop_append (g : Segment) (n : ℕ) :
    (g.append n).stop = g.stop + BitVec.ofNat 64 (2 * n) := by
  rw [Segment.stop, Segment.stop, Segment.append, BitVec.add_assoc,
    ← BitVec.ofNat_add, Nat.mul_add]

/-- A packet makes a segment grow. -/
theorem Follows.grow {g : Segment} {i : In} (h : Follows t g s)
    (p : Packet t g.stop i) :
    Follows t (g.append (halves g.stop)) (packet s i) ∧
      (g.append (halves g.stop)).decode t = g.decode t ++ emitted s i := by
  obtain ⟨hnext, hdecode⟩ := h.aligned.packet p
  rw [← Segment.stop_append] at hnext hdecode
  have hgrow : ∀ m,
      Frontend.decode t g.start (g.count + (halves g.stop + m)) =
        g.decode t ++ emitted s i ++
          Frontend.decode t (pc (packet s i) (g.append (halves g.stop)).stop)
            (pending (packet s i) + m) := by
    intro m
    rw [h.decode, ← Nat.add_assoc, hdecode, List.append_assoc]
  have hemit : (g.append (halves g.stop)).decode t =
      g.decode t ++ emitted s i := by
    have h0 := hgrow 0
    rw [Nat.add_zero, Nat.add_zero, hnext.decode_pending,
      List.append_nil] at h0
    exact h0
  refine ⟨⟨hnext, ?_, fun m => ?_⟩, hemit⟩
  · rw [Segment.stop_append]
    exact (add_halves_aligned h.even).1
  · rw [hemit, ← hgrow m, ← Nat.add_assoc]
    rfl

/-- The segment that a packet makes grow. -/
def Feed.target (d : Feed) (f : Fetch) : Segment :=
  d.cur.getD ⟨f.vaddr, 0⟩

theorem Feed.grow_valid (hv : f.valid = true)
    (hstop : f.vaddr = (d.target f).stop) :
    d.grow f = some ((d.target f).append (halves (d.target f).stop)) := by
  rw [← hstop, Feed.grow, if_pos hv, Feed.target, Segment.append]
  rcases d.cur with _ | g
  · simp
  · rfl

theorem Segment.stop_empty (a : BitVec 64) : (Segment.mk a 0).stop = a :=
  BitVec.add_zero a

/-- What the re-aligner is given belongs to the segment. -/
theorem Tracks.target (h : Tracks t d s) (hd : d.Delivers t f)
    (hv : f.valid = true) :
    Follows t (d.target f) s ∧ f.vaddr = (d.target f).stop ∧
      Packet t (d.target f).stop f.realign ∧
      (d.target f).decode t = d.cur.toList.flatMap (Segment.decode t) := by
  obtain ⟨hdata, hat⟩ := hd hv
  have hp : ∀ {a}, f.vaddr = a → a.getLsbD 0 = false →
      Packet t a f.realign := by
    rintro a rfl ha
    exact ⟨hv, rfl, by rw [← hdata]; rfl, ha⟩
  unfold Tracks at h
  unfold Feed.target
  rcases hcur : d.cur with _ | g
  · simp only [hcur] at h hat
    have hstop : f.vaddr = (Segment.mk f.vaddr 0).stop :=
      (Segment.stop_empty _).symm
    have heven : (Segment.mk f.vaddr 0).stop.getLsbD 0 = false := by
      rw [← hstop]
      exact hat
    refine ⟨⟨fun hu => ?_, heven, fun m => ?_⟩, hstop, hp hstop heven, rfl⟩
    · exact absurd (h.symm.trans hu) Bool.false_ne_true
    · rw [pc, pending, h]
      show Frontend.decode t f.vaddr (0 + m) = [] ++ _
      rw [List.nil_append, if_neg Bool.false_ne_true,
        if_neg Bool.false_ne_true, Option.getD_none, Segment.stop_empty]
  · simp only [hcur] at h hat
    refine ⟨h, hat, hp hat h.even, ?_⟩
    simp

theorem emitted_invalid (hv : f.valid = false) :
    emitted s f.realign = [] := by
  have h0 : (slot0 s f.realign).emit = [] := by
    simp [Slot.emit, slot0, Fetch.realign, hv]
  have h1 : (slot1 s f.realign).emit = [] := by
    simp [Slot.emit, slot1, Fetch.realign, hv]
  rw [emitted, h0, h1]
  rfl

theorem step_flush (h : f.flush = true) :
    (InstrRealign.step s f.realign).unaligned = false := by
  simp [InstrRealign.step, Fetch.realign, h]

theorem step_invalid (hf : f.flush = false) (hv : f.valid = false) :
    InstrRealign.step s f.realign = s := by
  simp [InstrRealign.step, Fetch.realign, hf, hv]

theorem step_packet (hf : f.flush = false) :
    InstrRealign.step s f.realign = packet s f.realign := by
  have hsame : { f.realign with flush := false } = f.realign := by
    simp [Fetch.realign, hf]
  rw [packet, hsame]

/-- The re-aligner keeps up with the packets. -/
theorem Tracks.step (h : Tracks t d s) (hd : d.Delivers t f) :
    Tracks t (d.step f) (InstrRealign.step s f.realign) := by
  rcases hf : f.flush with _ | _
  · have hstep : d.step f = ⟨d.past, d.grow f⟩ := by
      simp [Feed.step, hf]
    rw [hstep]
    rcases hv : f.valid with _ | _
    · rw [step_invalid hf hv, Feed.grow, if_neg (by simp [hv])]
      exact h
    · obtain ⟨hfol, hstop, hp, -⟩ := h.target hd hv
      rw [step_packet hf, Feed.grow_valid hv hstop]
      exact (hfol.grow hp).1
  · have hstep : d.step f = ⟨d.past ++ (d.grow f).toList, none⟩ := by
      simp [Feed.step, hf]
    rw [hstep]
    exact step_flush hf

/-- The instructions that the packets of a segment hold. -/
theorem Tracks.log (h : Tracks t d s) (hd : d.Delivers t f) :
    (d.step f).segments.flatMap (Segment.decode t) =
      d.segments.flatMap (Segment.decode t) ++ emitted s f.realign := by
  have hseg : (d.step f).segments = d.past ++ (d.grow f).toList := by
    rcases hf : f.flush with _ | _ <;>
      simp [Feed.step, Feed.segments, hf]
  rw [hseg, Feed.segments, List.flatMap_append, List.flatMap_append,
    List.append_assoc]
  congr 1
  rcases hv : f.valid with _ | _
  · rw [emitted_invalid hv, List.append_nil, Feed.grow,
      if_neg (by simp [hv])]
  · obtain ⟨hfol, hstop, hp, hdecode⟩ := h.target hd hv
    rw [Feed.grow_valid hv hstop, ← hdecode, ← (hfol.grow hp).2]
    simp

/-- The valid instructions of a run are the instructions of the text, read
from each start address as far as the packets reach. -/
theorem realigned_eq_decode (t : Text) (fs : List Fetch)
    (h : Sync.Along Feed.step (Feed.Delivers t) Feed.init fs) :
    Sync.outputs (fun s f => InstrRealign.step s f.realign)
        (fun s f => emitted s f.realign) InstrRealign.init fs =
      (Sync.run Feed.step Feed.init fs).segments.flatMap
        (Segment.decode t) := by
  have hstep : ∀ d s f, Feed.Delivers t d f → Tracks t d s →
      Tracks t (d.step f) (InstrRealign.step s f.realign) :=
    fun d s f hd hs => hs.step hd
  have hlog := h.log_eq (S := Tracks t)
    (f := fun d => d.segments.flatMap (Segment.decode t)) hstep
    (fun d s f hd hs => hs.log hd) (t := InstrRealign.init) rfl
  exact hlog.symm

/-- A compressed instruction, a whole one across two words and, after a
flush, a whole one that starts in the upper half of a word. -/
def sampleText : Text := fun a =>
  if a = 0x1000#64 then 0x4501#16
  else if a = 0x1002#64 then 0x0513#16
  else if a = 0x1004#64 then 0x0015#16
  else if a = 0x1006#64 then 0x8082#16
  else 0#16

def sampleFetches : List Fetch :=
  [⟨false, true, 0x1000#64, 0x05134501#32⟩, ⟨false, false, 0#64, 0#32⟩,
    ⟨true, true, 0x1004#64, 0x80820015#32⟩,
    ⟨false, true, 0x1002#64, 0x05134501#32⟩,
    ⟨false, true, 0x1004#64, 0x80820015#32⟩]

theorem realigned_eq_decode_sample :
    Sync.outputs (fun s f => InstrRealign.step s f.realign)
        (fun s f => emitted s f.realign) InstrRealign.init sampleFetches =
      [⟨0x1000#64, 0x4501#32⟩, ⟨0x1002#64, 0x00150513#32⟩,
        ⟨0x1006#64, 0x8082#32⟩, ⟨0x1002#64, 0x00150513#32⟩,
        ⟨0x1006#64, 0x8082#32⟩] :=
  (realigned_eq_decode sampleText sampleFetches (by decide)).trans
    (by decide)

end Runs

end ArianeSoc.Frontend
