import ArianeSoc.Pk.Driver
import ArianeSoc.Pk.Syscall
import Mathlib.Algebra.Group.Nat.Defs
import Mathlib.Data.List.TakeWhile
import Mathlib.Tactic.Common

/-!
# The services of the machine mode

`mcall_trap` of `machine/mtrap.c` with the drivers it calls.  A service is
the list of the memory accesses it makes through its arguments.  Machine
mode takes an argument as a physical address; only the mask of an IPI is
loaded with `MPRV`, under the translation and the permissions of the
caller.  The registers of the peripherals are not in the list, and the
waits for a peripheral are taken to end.

* The accesses and the loops of the drivers.
* The services and `mcallTrap`.
* `Buffer` and `Uses`: which buffers a list of accesses uses.
* `Service.buffers` and `sbi_confined_iff`: a service stays within what its
  caller can reach exactly if its buffers do.
-/

namespace ArianeSoc.Pk

abbrev Addr := BitVec 64

abbrev Mem := Addr → Byte

/-- The address `k` bytes behind `p`. -/
def off (p : Addr) (k : ℕ) : Addr := p + BitVec.ofNat 64 k

/-- The word that a load at `p` reads. -/
def read32 (mem : Mem) (p : Addr) : Word :=
  le32 (mem p) (mem (off p 1)) (mem (off p 2)) (mem (off p 3))

/-! ## Accesses -/

/-- An access to `size` bytes. -/
inductive Access where
  | load (p : Addr) (size : ℕ)
  | store (p : Addr) (size : ℕ)
  | mprvLoad (p : Addr) (size : ℕ)

/-- A misaligned access traps, and machine mode does not survive a trap of
its own. -/
def Access.aligned : Access → Bool
  | .load p size => decide (p.toNat % size = 0)
  | .store p size => decide (p.toNat % size = 0)
  | .mprvLoad p size => decide (p.toNat % size = 0)

/-- The accesses before the first one that traps. -/
def performed (l : List Access) : List Access := l.takeWhile Access.aligned

/-- What the calling code can reach: the location behind an address that it
may load from or store to. -/
structure Caller where
  load : Addr → Option Addr
  store : Addr → Option Addr

def Caller.Readable (c : Caller) (loc : Addr) : Prop :=
  ∃ va, c.load va = some loc

def Caller.Writable (c : Caller) (loc : Addr) : Prop :=
  ∃ va, c.store va = some loc

/-- The locations that an access reads. -/
def Access.Reads (c : Caller) (loc : Addr) : Access → Prop
  | .load p size => ∃ k, k < size ∧ loc = off p k
  | .store _ _ => False
  | .mprvLoad p size => ∃ k, k < size ∧ c.load (off p k) = some loc

/-- The locations that an access writes. -/
def Access.Writes (loc : Addr) : Access → Prop
  | .load _ _ => False
  | .store p size => ∃ k, k < size ∧ loc = off p k
  | .mprvLoad _ _ => False

/-- All of this the caller could do itself. -/
def Confined (c : Caller) (l : List Access) : Prop :=
  ∀ a ∈ l, ∀ loc, (a.Reads c loc → c.Readable loc) ∧
    (a.Writes loc → c.Writable loc)

/-! ## The drivers -/

/-- The stores of `readMultiFromAddress`. -/
def readMultiFromAddress (pData : Addr) (blockSize : ℕ) : List Access :=
  (List.range blockSize).map fun i =>
    .store (off pData (4 * (blockSize - 1 - i))) 4

/-- The loads of `writeMultiToAddress`. -/
def writeMultiToAddress (pData : Addr) (blockSize : ℕ) : List Access :=
  (List.range blockSize).map fun i => .load (off pData (4 * i)) 4

/-- The loads of `writeMulticharToAddress`. -/
def writeMulticharToAddress (pData : Addr) (blockByteSize : ℕ) :
    List Access :=
  (List.range blockByteSize).map fun i => .load (off pData i) 1

/-- The loop of `verifyMulti` from word `i` on with `n` words to go: its
loads and what it returns. -/
def verifyLoop (mem : Mem) (expectedData receivedData : Addr) :
    ℕ → ℕ → List Access × Word
  | _, 0 => ([], 1)
  | i, n + 1 =>
    let e := off expectedData (4 * i)
    let r := off receivedData (4 * i)
    let rest :=
      if read32 mem e ≠ read32 mem r then ([], 0)
      else verifyLoop mem expectedData receivedData (i + 1) n
    (.load e 4 :: .load r 4 :: rest.1, rest.2)

/-- `verifyMulti`; `block_size` is an `int`. -/
def verifyMulti (mem : Mem) (expectedData receivedData : Addr)
    (blockSize : BitVec 32) : List Access × Word :=
  let size := 4 * blockSize.signExtend 64
  if expectedData + size < expectedData then ([], 0)
  else if receivedData + size < receivedData then ([], 0)
  else verifyLoop mem expectedData receivedData 0 blockSize.toInt.toNat

/-- The loads of the loop of `sha256_hashString` over the string, and
whether it has come to the end of the string.  A byte that is not the last
one is loaded for the test and for the copy. -/
def scanString (mem : Mem) : Addr → ℕ → List Access × Bool
  | _, 0 => ([], false)
  | p, n + 1 =>
    if mem p = 0 then ([.load p 1], true)
    else
      let rest := scanString mem (off p 1) n
      (.load p 1 :: .load p 1 :: rest.1, rest.2)

/-- `sha256_hashString`.  Without an end of the string the loop runs over
all addresses and does not come to the hash. -/
def sha256HashString (mem : Mem) (pString hash : Addr) : List Access :=
  let s := scanString mem pString (2 ^ 64)
  s.1 ++ if s.2 then readMultiFromAddress hash 8 else []

/-- `hmac_hashString`. -/
def hmacHashString (pString hash : Addr) : List Access :=
  writeMulticharToAddress pString 64 ++ readMultiFromAddress hash 8

/-- `aes0_start_encrypt`, and `aes2_start_encrypt`. -/
def aesStartEncrypt (pt st : Addr) : List Access :=
  writeMultiToAddress pt 4 ++ writeMultiToAddress st 4

/-- `rng_read_poly`, and `rng_read_seed`. -/
def rngReadFour (p128 p64 p32 p16 : Addr) : List Access :=
  readMultiFromAddress p128 4 ++ (readMultiFromAddress p64 2 ++
    (readMultiFromAddress p32 1 ++ readMultiFromAddress p16 1))

/-- `rng_write_poly`. -/
def rngWritePoly (p128 p64 p32 p16 : Addr) : List Access :=
  writeMultiToAddress p128 4 ++ (writeMultiToAddress p64 2 ++
    (writeMultiToAddress p32 1 ++ writeMultiToAddress p16 1))

/-! ## The services -/

/-- `mcall_cmp`. -/
def mcallCmp (mem : Mem) (t₁ t₂ : Addr) (length : BitVec 32)
    (equality : Addr) : List Access :=
  (verifyMulti mem t₁ t₂ length).1 ++ [.store equality 4]

/-- `mcall_puts`; the index is an `int`. -/
def mcallPuts (buf : Addr) (bufLen : BitVec 32) : List Access :=
  (List.range bufLen.toNat).map fun i =>
    .load (buf + (BitVec.ofNat 32 i).signExtend 64) 1

/-- `send_ipi_many`. -/
def sendIpiMany (pmask : Addr) : List Access :=
  if pmask = 0 then [] else [.mprvLoad pmask 8]

/-- The services of `mcall_trap`; `noPointer` are those that take no
address, and `enosys` is the rest. -/
inductive Service where
  | noPointer
  | enosys
  | sendIpi
  | aes0StartEncrypt
  | aes0DataOut
  | sha256Hash
  | hmacHash
  | cmp
  | aes1ReadData
  | aes1WriteData
  | aes1ReadConfig
  | puts
  | rngReadData
  | rngReadPoly
  | rngWritePoly
  | rngReadSeed
  | rngWriteSeed
  | rngReadRandSeg
  | rngReadStateCounter
  | aes2StartEncrypt
  | aes2DataOut
  | rsaWritePnum
  | rsaWriteMsgIn
  | rsaReadMsgOut

/-- The timer, the console, the shutdown, the waits for a peripheral, the
configuration of AES1, the reset of a peripheral and the start and the end
of a DMA transfer, which the DMA engine does. -/
def noPointerServices : List ℕ :=
  [0, 1, 2, 3, 8, 21, 25, 34, 36, 37, 46, 48, 52]

/-- The `switch` of `mcall_trap`, with the numbers of `mcall.h`. -/
def service (n : ℕ) : Service :=
  match n with
  | 4 | 5 | 6 | 7 => .sendIpi
  | 20 => .aes0StartEncrypt
  | 22 => .aes0DataOut
  | 23 => .sha256Hash
  | 24 => .hmacHash
  | 26 => .cmp
  | 31 => .aes1ReadData
  | 32 => .aes1WriteData
  | 33 => .aes1ReadConfig
  | 35 => .puts
  | 38 => .rngReadData
  | 39 => .rngReadPoly
  | 40 => .rngWritePoly
  | 41 => .rngReadSeed
  | 42 => .rngWriteSeed
  | 43 => .rngReadRandSeg
  | 44 => .rngReadStateCounter
  | 45 => .aes2StartEncrypt
  | 47 => .aes2DataOut
  | 49 => .rsaWritePnum
  | 50 => .rsaWriteMsgIn
  | 51 => .rsaReadMsgOut
  | _ => if n ∈ noPointerServices then .noPointer else .enosys

/-- What a service does with its arguments, by the `mcall_` functions. -/
def Service.run (mem : Mem) (x : Args) : Service → List Access
  | .noPointer => []
  | .enosys => []
  | .sendIpi => sendIpiMany x.a0
  | .aes0StartEncrypt => aesStartEncrypt x.a0 x.a1
  | .aes0DataOut => readMultiFromAddress x.a0 4
  | .sha256Hash => sha256HashString mem x.a0 x.a1
  | .hmacHash => hmacHashString x.a0 x.a1
  | .cmp => mcallCmp mem x.a0 x.a1 (x.a3.setWidth 32) x.a4
  | .aes1ReadData => readMultiFromAddress x.a0 4
  | .aes1WriteData => writeMultiToAddress x.a0 4
  | .aes1ReadConfig => [.store x.a0 4]
  | .puts => mcallPuts x.a0 (x.a1.setWidth 32)
  | .rngReadData => readMultiFromAddress x.a0 2
  | .rngReadPoly => rngReadFour x.a0 x.a1 x.a2 x.a3
  | .rngWritePoly => Pk.rngWritePoly x.a0 x.a1 x.a2 x.a3
  | .rngReadSeed => rngReadFour x.a0 x.a1 x.a2 x.a3
  | .rngWriteSeed => writeMultiToAddress x.a0 4
  | .rngReadRandSeg => readMultiFromAddress x.a0 2
  | .rngReadStateCounter => readMultiFromAddress x.a0 1
  | .aes2StartEncrypt => aesStartEncrypt x.a0 x.a1
  | .aes2DataOut => readMultiFromAddress x.a0 4
  | .rsaWritePnum => writeMultiToAddress x.a0 64
  | .rsaWriteMsgIn => writeMultiToAddress x.a0 64
  | .rsaReadMsgOut => readMultiFromAddress x.a0 64

/-- `mcall_trap` with the number in `a7`. -/
def mcallTrap (mem : Mem) (n : BitVec 64) (x : Args) : List Access :=
  (service n.toNat).run mem x

/-! ## Buffers -/

/-- `len` bytes from `ptr` on, in elements of `unit` bytes. -/
structure Buffer where
  written : Bool
  unit : ℕ
  ptr : Addr
  len : ℕ

/-- The first access to the buffer traps. -/
def Buffer.Faults (b : Buffer) : Prop :=
  b.len ≠ 0 ∧ b.ptr.toNat % b.unit ≠ 0

/-- The caller can reach all of the buffer. -/
def Buffer.Granted (c : Caller) (b : Buffer) : Prop :=
  ∀ k < b.len,
    if b.written then c.Writable (off b.ptr k) else c.Readable (off b.ptr k)

/-- The caller can reach the buffers up to the first one that traps. -/
def Granted (c : Caller) : List Buffer → Prop
  | [] => True
  | b :: bs => ¬ b.Faults → b.Granted c ∧ Granted c bs

/-- `l` goes through the buffers `bs`, one after the other. -/
structure Uses (l : List Access) (bs : List Buffer) : Prop where
  completes : (∀ a ∈ l, a.aligned = true) ↔ ∀ b ∈ bs, ¬ b.Faults
  confined : ∀ c, Confined c (performed l) ↔ Granted c bs

theorem confined_append {c : Caller} {l m : List Access} :
    Confined c (l ++ m) ↔ Confined c l ∧ Confined c m :=
  List.forall_mem_append

theorem confined_nil (c : Caller) : Confined c [] := by
  intro a ha
  exact absurd ha List.not_mem_nil

theorem performed_eq {l : List Access} (h : ∀ a ∈ l, a.aligned = true) :
    performed l = l :=
  List.takeWhile_eq_self_iff.mpr h

theorem performed_append {l m : List Access}
    (h : ∀ a ∈ l, a.aligned = true) :
    performed (l ++ m) = l ++ performed m := by
  unfold performed
  rw [List.takeWhile_append_of_pos h]

theorem performed_append_of_not {l m : List Access}
    (h : ¬ ∀ a ∈ l, a.aligned = true) :
    performed (l ++ m) = performed l := by
  unfold performed
  rw [List.takeWhile_append, if_neg]
  intro hlen
  refine h (List.takeWhile_eq_self_iff.mp ?_)
  exact (List.takeWhile_prefix _).eq_of_length hlen

theorem granted_cons {c : Caller} {b : Buffer} {bs : List Buffer} :
    Granted c (b :: bs) ↔ (¬ b.Faults → b.Granted c ∧ Granted c bs) :=
  Iff.rfl

theorem granted_append {c : Caller} {bs cs : List Buffer} :
    Granted c (bs ++ cs) ↔
      Granted c bs ∧ ((∀ b ∈ bs, ¬ b.Faults) → Granted c cs) := by
  induction bs with
  | nil => simp [Granted]
  | cons b bs ih =>
    rw [List.cons_append, granted_cons, granted_cons, ih,
      List.forall_mem_cons]
    by_cases hb : b.Faults
    · simp [hb]
    · simp [hb, and_assoc]

theorem uses_nil : Uses [] [] where
  completes := by simp
  confined c := iff_of_true (confined_nil c) trivial

theorem Uses.append {l m : List Access} {bs cs : List Buffer}
    (h : Uses l bs) (k : Uses m cs) : Uses (l ++ m) (bs ++ cs) where
  completes := by
    rw [List.forall_mem_append, List.forall_mem_append, h.completes,
      k.completes]
  confined c := by
    rw [granted_append, ← h.completes, ← h.confined c, ← k.confined c]
    by_cases hl : ∀ a ∈ l, a.aligned = true
    · rw [performed_append hl, confined_append, performed_eq hl,
        imp_iff_right hl]
    · rw [performed_append_of_not hl, and_iff_left fun hc => absurd hc hl]

/-- Accesses that are aligned as the buffer is, and touch what is in it. -/
theorem uses_block {l : List Access} {b : Buffer}
    (haligned : ∀ a ∈ l, a.aligned = decide (b.ptr.toNat % b.unit = 0))
    (hnil : l = [] ↔ b.len = 0)
    (hconf : ∀ c, Confined c l ↔ b.Granted c) : Uses l [b] := by
  have hall : (∀ a ∈ l, a.aligned = true) ↔ ¬ b.Faults := by
    unfold Buffer.Faults
    rw [not_and, not_not, ne_eq, ← hnil]
    constructor
    · intro h hne
      obtain ⟨a, ha⟩ := List.exists_mem_of_ne_nil l hne
      exact of_decide_eq_true ((haligned a ha).symm.trans (h a ha))
    · intro h a ha
      rw [haligned a ha]
      exact decide_eq_true (h (List.ne_nil_of_mem ha))
  refine ⟨?_, fun c => ?_⟩
  · rw [hall, List.forall_mem_singleton]
  · rw [granted_cons, ← hall]
    by_cases h : ∀ a ∈ l, a.aligned = true
    · rw [performed_eq h, imp_iff_right h, hconf c]
      exact (and_iff_left trivial).symm
    · refine iff_of_true ?_ fun hc => absurd hc h
      have hne : ¬ (b.ptr.toNat % b.unit = 0) := by
        intro hz
        exact h fun a ha => (haligned a ha).trans (decide_eq_true hz)
      have hnone : performed l = [] := by
        cases l with
        | nil => rfl
        | cons a l =>
          refine List.takeWhile_cons_of_neg ?_
          rw [haligned a List.mem_cons_self]
          simpa using hne
      rw [hnone]
      exact confined_nil c

/-! ## The loops of the drivers -/

theorem off_off (p : Addr) (a b : ℕ) : off (off p a) b = off p (a + b) := by
  unfold off
  rw [BitVec.add_assoc, ← BitVec.ofNat_add]

theorem off_mod_four (p : Addr) (k : ℕ) :
    (off p (4 * k)).toNat % 4 = p.toNat % 4 := by
  unfold off
  rw [BitVec.toNat_add, BitVec.toNat_ofNat]
  omega

theorem load_confined {c : Caller} {p : Addr} {size : ℕ} :
    (∀ loc, ((Access.load p size).Reads c loc → c.Readable loc) ∧
      ((Access.load p size).Writes loc → c.Writable loc)) ↔
    ∀ k < size, c.Readable (off p k) := by
  constructor
  · intro h k hk
    exact (h (off p k)).1 ⟨k, hk, rfl⟩
  · rintro h loc
    refine ⟨?_, False.elim⟩
    rintro ⟨k, hk, rfl⟩
    exact h k hk

theorem store_confined {c : Caller} {p : Addr} {size : ℕ} :
    (∀ loc, ((Access.store p size).Reads c loc → c.Readable loc) ∧
      ((Access.store p size).Writes loc → c.Writable loc)) ↔
    ∀ k < size, c.Writable (off p k) := by
  constructor
  · intro h k hk
    exact (h (off p k)).2 ⟨k, hk, rfl⟩
  · rintro h loc
    refine ⟨False.elim, ?_⟩
    rintro ⟨k, hk, rfl⟩
    exact h k hk

/-- The bytes of `n` words, word by word. -/
theorem forall_words {P : Addr → Prop} {p : Addr} {n : ℕ} :
    (∀ i < n, ∀ k < 4, P (off (off p (4 * i)) k)) ↔
      ∀ k < 4 * n, P (off p k) := by
  constructor
  · intro h k hk
    have hb := h (k / 4) (by omega) (k % 4) (by omega)
    rwa [off_off, Nat.div_add_mod] at hb
  · intro h i hi k hk
    rw [off_off]
    exact h _ (by omega)

theorem granted_written {c : Caller} {u : ℕ} {p : Addr} {n : ℕ} :
    Buffer.Granted c ⟨true, u, p, n⟩ ↔ ∀ k < n, c.Writable (off p k) :=
  forall₂_congr fun _ _ => Iff.of_eq (if_pos rfl)

theorem granted_read {c : Caller} {u : ℕ} {p : Addr} {n : ℕ} :
    Buffer.Granted c ⟨false, u, p, n⟩ ↔ ∀ k < n, c.Readable (off p k) :=
  forall₂_congr fun _ _ => Iff.of_eq (if_neg Bool.false_ne_true)

theorem readMulti_uses (p : Addr) (n : ℕ) :
    Uses (readMultiFromAddress p n) [⟨true, 4, p, 4 * n⟩] := by
  unfold readMultiFromAddress
  refine uses_block ?_ ?_ fun c => ?_
  · intro a ha
    obtain ⟨i, _, rfl⟩ := List.mem_map.mp ha
    unfold Access.aligned
    dsimp only
    rw [off_mod_four]
  · rw [List.map_eq_nil_iff, List.range_eq_nil]
    dsimp only
    omega
  · unfold Confined
    rw [List.forall_mem_map, granted_written, ← forall_words]
    simp only [List.mem_range, store_confined]
    -- The words are stored from the last one down.
    constructor
    · intro h i hi
      have hw := h (n - 1 - i) (by omega)
      rwa [show n - 1 - (n - 1 - i) = i by omega] at hw
    · intro h i hi
      exact h (n - 1 - i) (by omega)

theorem writeMulti_uses (p : Addr) (n : ℕ) :
    Uses (writeMultiToAddress p n) [⟨false, 4, p, 4 * n⟩] := by
  unfold writeMultiToAddress
  refine uses_block ?_ ?_ fun c => ?_
  · intro a ha
    obtain ⟨i, _, rfl⟩ := List.mem_map.mp ha
    unfold Access.aligned
    dsimp only
    rw [off_mod_four]
  · rw [List.map_eq_nil_iff, List.range_eq_nil]
    dsimp only
    omega
  · unfold Confined
    rw [List.forall_mem_map, granted_read, ← forall_words]
    simp only [List.mem_range, load_confined]

/-- Loads of single bytes. -/
theorem uses_bytes {l : List Access} {p : Addr} {n : ℕ}
    (h : ∀ a, a ∈ l ↔ ∃ i, i < n ∧ a = .load (off p i) 1) :
    Uses l [⟨false, 1, p, n⟩] := by
  refine uses_block ?_ ?_ fun c => ?_
  · intro a ha
    obtain ⟨i, _, rfl⟩ := (h a).mp ha
    unfold Access.aligned
    dsimp only
    rw [Nat.mod_one, Nat.mod_one]
  · constructor
    · rintro rfl
      by_contra hn
      exact List.not_mem_nil ((h _).mpr ⟨0, Nat.pos_of_ne_zero hn, rfl⟩)
    · intro hn
      refine List.eq_nil_iff_forall_not_mem.mpr fun a ha => ?_
      obtain ⟨i, hi, _⟩ := (h a).mp ha
      dsimp only at hn
      omega
  · rw [granted_read]
    unfold Confined
    constructor
    · intro hc i hi
      have hb := load_confined.mp (hc _ ((h _).mpr ⟨i, hi, rfl⟩)) 0
        Nat.one_pos
      rwa [off_off, Nat.add_zero] at hb
    · intro hg a ha
      obtain ⟨i, hi, rfl⟩ := (h a).mp ha
      refine load_confined.mpr fun k hk => ?_
      rw [Nat.lt_one_iff.mp hk, off_off, Nat.add_zero]
      exact hg i hi

theorem mem_map_range {f : ℕ → Access} {n : ℕ} {a : Access} :
    a ∈ (List.range n).map f ↔ ∃ i, i < n ∧ a = f i := by
  rw [List.mem_map]
  refine exists_congr fun i => ?_
  rw [List.mem_range, eq_comm]

theorem writeMultichar_uses (p : Addr) (n : ℕ) :
    Uses (writeMulticharToAddress p n) [⟨false, 1, p, n⟩] :=
  uses_bytes fun _ => mem_map_range

theorem store_uses (p : Addr) :
    Uses [.store p 4] [⟨true, 4, p, 4⟩] := by
  refine uses_block ?_ (by simp) fun c => ?_
  · intro a ha
    rw [List.mem_singleton.mp ha]
    rfl
  · unfold Confined
    rw [List.forall_mem_singleton, store_confined, granted_written]

/-! ## `mcall_puts` -/

/-- An index of an `int` as an offset. -/
theorem sext_toNat {i : ℕ} (hi : i < 2 ^ 32) :
    ((BitVec.ofNat 32 i).signExtend 64).toNat =
      if i < 2 ^ 31 then i else i + (2 ^ 64 - 2 ^ 32) := by
  rw [BitVec.toNat_signExtend, BitVec.msb_eq_decide, BitVec.toNat_setWidth,
    BitVec.toNat_ofNat, Nat.mod_eq_of_lt hi,
    Nat.mod_eq_of_lt (by omega : i < 2 ^ 64)]
  simp only [decide_eq_true_eq]
  split_ifs <;> omega

theorem mcallPuts_uses (buf : Addr) (bufLen : BitVec 32) :
    Uses (mcallPuts buf bufLen)
      [⟨false, 1, buf, min bufLen.toNat (2 ^ 31)⟩,
        ⟨false, 1, buf - 0x80000000, bufLen.toNat - 2 ^ 31⟩] := by
  have hlen : bufLen.toNat =
      min bufLen.toNat (2 ^ 31) + (bufLen.toNat - 2 ^ 31) := by omega
  have hlt := bufLen.isLt
  have hlow : Uses ((List.range (min bufLen.toNat (2 ^ 31))).map fun i =>
      .load (buf + (BitVec.ofNat 32 i).signExtend 64) 1)
      [⟨false, 1, buf, min bufLen.toNat (2 ^ 31)⟩] := by
    refine uses_bytes fun a => ?_
    rw [mem_map_range]
    refine exists_congr fun i => and_congr_right fun hi => ?_
    have hoff : buf + (BitVec.ofNat 32 i).signExtend 64 = off buf i := by
      unfold off
      congr 1
      apply BitVec.eq_of_toNat_eq
      rw [sext_toNat (by omega), if_pos (by omega), BitVec.toNat_ofNat]
      omega
    rw [hoff]
  unfold mcallPuts
  rw [hlen, List.range_add, List.map_append, List.map_map, ← hlen]
  refine hlow.append (uses_bytes fun a => ?_)
  rw [mem_map_range]
  refine exists_congr fun i => and_congr_right fun hi => ?_
  -- Behind `INT_MAX` the index is negative.
  have hoff : buf + (BitVec.ofNat 32
      (min bufLen.toNat (2 ^ 31) + i)).signExtend 64 =
      off (buf - 0x80000000) i := by
    have hmin : min bufLen.toNat (2 ^ 31) = 2 ^ 31 := by omega
    rw [hmin]
    unfold off
    apply BitVec.eq_of_toNat_eq
    rw [BitVec.toNat_add, sext_toNat (by omega), if_neg (by omega),
      BitVec.toNat_add, BitVec.toNat_sub, BitVec.toNat_ofNat,
      show (0x80000000 : Addr).toNat = 2 ^ 31 from rfl]
    omega
  rw [Function.comp_apply, hoff]

/-! ## `sha256_hashString` -/

/-- The length of the string at `p`, if it ends within `n` bytes. -/
def strlen (mem : Mem) : Addr → ℕ → Option ℕ
  | _, 0 => none
  | p, n + 1 =>
    if mem p = 0 then some 0 else (strlen mem (off p 1) n).map (· + 1)

/-- How many bytes `scanString` loads. -/
def scanned (mem : Mem) (p : Addr) (n : ℕ) : ℕ :=
  ((strlen mem p n).map (· + 1)).getD n

theorem scanned_succ {mem : Mem} {p : Addr} {n : ℕ} (h : mem p ≠ 0) :
    scanned mem p (n + 1) = scanned mem (off p 1) n + 1 := by
  unfold scanned
  rw [strlen, if_neg h]
  cases strlen mem (off p 1) n with
  | none => rfl
  | some k => rfl

theorem mem_scanString {mem : Mem} {p : Addr} {n : ℕ} {a : Access} :
    a ∈ (scanString mem p n).1 ↔
      ∃ i, i < scanned mem p n ∧ a = .load (off p i) 1 := by
  have hzero : ∀ p, off p 0 = p := BitVec.add_zero
  induction n generalizing p with
  | zero => simp [scanString, scanned, strlen]
  | succ n ih =>
    by_cases h : mem p = 0
    · have hone : scanned mem p (n + 1) = 1 := by simp [scanned, strlen, h]
      rw [hone, scanString, if_pos h, List.mem_singleton]
      simp [hzero]
    · have hrest : a ∈ (scanString mem (off p 1) n).1 ↔
          ∃ i, i < scanned mem (off p 1) n ∧
            a = .load (off (off p 1) i) 1 := ih
      rw [scanned_succ h, scanString, if_neg h, List.mem_cons,
        List.mem_cons, ← or_assoc, or_self, hrest,
        Nat.exists_lt_succ_left, hzero]
      simp only [off_off, Nat.add_comm 1]

theorem scanString_found (mem : Mem) (p : Addr) (n : ℕ) :
    (scanString mem p n).2 = (strlen mem p n).isSome := by
  induction n generalizing p with
  | zero => rfl
  | succ n ih =>
    unfold scanString strlen
    split_ifs
    · rfl
    · rw [Option.isSome_map]
      exact ih _

/-- The buffers of `sha256_hashString`. -/
def sha256Buffers (mem : Mem) (pString hash : Addr) : List Buffer :=
  match strlen mem pString (2 ^ 64) with
  | some k => [⟨false, 1, pString, k + 1⟩, ⟨true, 4, hash, 32⟩]
  | none => [⟨false, 1, pString, 2 ^ 64⟩]

theorem sha256_uses (mem : Mem) (pString hash : Addr) :
    Uses (sha256HashString mem pString hash)
      (sha256Buffers mem pString hash) := by
  have hs : Uses (scanString mem pString (2 ^ 64)).1
      [⟨false, 1, pString, scanned mem pString (2 ^ 64)⟩] :=
    uses_bytes fun _ => mem_scanString
  unfold sha256HashString sha256Buffers
  dsimp only
  rw [scanString_found]
  unfold scanned at hs
  cases hk : strlen mem pString (2 ^ 64) with
  | none =>
    rw [hk] at hs
    rw [Option.isSome_none, if_neg Bool.false_ne_true, List.append_nil]
    exact hs
  | some k =>
    rw [hk] at hs
    rw [Option.isSome_some, if_pos rfl]
    exact hs.append (readMulti_uses hash 8)

/-! ## `mcall_cmp` -/

/-- How many words `verifyLoop` compares. -/
def comparedFrom (mem : Mem) (expectedData receivedData : Addr) :
    ℕ → ℕ → ℕ
  | _, 0 => 0
  | i, n + 1 =>
    if read32 mem (off expectedData (4 * i)) ≠
        read32 mem (off receivedData (4 * i)) then 1
    else comparedFrom mem expectedData receivedData (i + 1) n + 1

/-- How many words `verifyMulti` compares. -/
def compared (mem : Mem) (expectedData receivedData : Addr)
    (blockSize : BitVec 32) : ℕ :=
  let size := 4 * blockSize.signExtend 64
  if expectedData + size < expectedData then 0
  else if receivedData + size < receivedData then 0
  else comparedFrom mem expectedData receivedData 0 blockSize.toInt.toNat

theorem mem_verifyLoop {mem : Mem} {e r : Addr} {i n : ℕ} {a : Access} :
    a ∈ (verifyLoop mem e r i n).1 ↔
      ∃ j, j < comparedFrom mem e r i n ∧
        (a = .load (off e (4 * (i + j))) 4 ∨
          a = .load (off r (4 * (i + j))) 4) := by
  induction n generalizing i with
  | zero => simp [verifyLoop, comparedFrom]
  | succ n ih =>
    unfold verifyLoop comparedFrom
    dsimp only
    split_ifs with h
    · simp
    · rw [List.mem_cons, List.mem_cons, ← or_assoc, ih,
        Nat.exists_lt_succ_left]
      simp only [Nat.add_zero, Nat.add_assoc, Nat.add_comm 1]

theorem mem_verifyMulti {mem : Mem} {e r : Addr} {bs : BitVec 32}
    {a : Access} :
    a ∈ (verifyMulti mem e r bs).1 ↔
      ∃ j, j < compared mem e r bs ∧
        (a = .load (off e (4 * j)) 4 ∨ a = .load (off r (4 * j)) 4) := by
  unfold verifyMulti compared
  dsimp only
  split_ifs
  · simp
  · simp
  · rw [mem_verifyLoop]
    simp only [Nat.zero_add]

/-- What is compared begins with the first words of the two arrays. -/
theorem verifyMulti_head {mem : Mem} {e r : Addr} {bs : BitVec 32}
    (h : 0 < compared mem e r bs) :
    ∃ l, (verifyMulti mem e r bs).1 = .load e 4 :: .load r 4 :: l := by
  unfold compared at h
  unfold verifyMulti
  dsimp only at h ⊢
  split_ifs at h ⊢
  · exact absurd h (Nat.lt_irrefl 0)
  · exact absurd h (Nat.lt_irrefl 0)
  · cases hn : bs.toInt.toNat with
    | zero =>
      rw [hn] at h
      exact absurd h (Nat.lt_irrefl 0)
    | succ n =>
      unfold verifyLoop
      dsimp only
      rw [Nat.mul_zero, show off e 0 = e from BitVec.add_zero e,
        show off r 0 = r from BitVec.add_zero r]
      exact ⟨_, rfl⟩

/-- The buffers of `verifyMulti` when it compares `n` words.  The first
word of `expectedData` comes before all others. -/
def verifyBuffers (e r : Addr) (n : ℕ) : List Buffer :=
  [⟨false, 4, e, 4 * min 1 n⟩, ⟨false, 4, r, 4 * n⟩, ⟨false, 4, e, 4 * n⟩]

/-! A list of loads of `n` words of each of two arrays. -/

section Pairs

variable {l : List Access} {e r : Addr} {n : ℕ}
  (hmem : ∀ a, a ∈ l ↔ ∃ j, j < n ∧
    (a = .load (off e (4 * j)) 4 ∨ a = .load (off r (4 * j)) 4))

include hmem

theorem confined_pairs (c : Caller) :
    Confined c l ↔ (∀ k < 4 * n, c.Readable (off e k)) ∧
      ∀ k < 4 * n, c.Readable (off r k) := by
  rw [← forall_words, ← forall_words]
  unfold Confined
  constructor
  · intro h
    refine ⟨fun j hj => ?_, fun j hj => ?_⟩
    · exact load_confined.mp (h _ ((hmem _).mpr ⟨j, hj, .inl rfl⟩))
    · exact load_confined.mp (h _ ((hmem _).mpr ⟨j, hj, .inr rfl⟩))
  · rintro ⟨he, hr⟩ a ha
    obtain ⟨j, hj, rfl | rfl⟩ := (hmem a).mp ha
    · exact load_confined.mpr (he j hj)
    · exact load_confined.mpr (hr j hj)

theorem aligned_pairs (hn : 0 < n) :
    (∀ a ∈ l, a.aligned = true) ↔ e.toNat % 4 = 0 ∧ r.toNat % 4 = 0 := by
  constructor
  · intro h
    have he := h _ ((hmem _).mpr ⟨0, hn, .inl rfl⟩)
    have hr := h _ ((hmem _).mpr ⟨0, hn, .inr rfl⟩)
    exact ⟨(off_mod_four e 0).symm.trans (of_decide_eq_true he),
      (off_mod_four r 0).symm.trans (of_decide_eq_true hr)⟩
  · rintro ⟨he, hr⟩ a ha
    obtain ⟨j, _, rfl | rfl⟩ := (hmem a).mp ha
    · exact decide_eq_true ((off_mod_four e j).trans he)
    · exact decide_eq_true ((off_mod_four r j).trans hr)

theorem uses_pairs
    (hhead : 0 < n → ∃ m, l = .load e 4 :: .load r 4 :: m) :
    Uses l (verifyBuffers e r n) := by
  rcases Nat.eq_zero_or_pos n with rfl | hn
  · have hl : l = [] := by
      refine List.eq_nil_iff_forall_not_mem.mpr fun a ha => ?_
      obtain ⟨j, hj, _⟩ := (hmem a).mp ha
      exact absurd hj (Nat.not_lt_zero j)
    subst hl
    refine ⟨?_, fun c => iff_of_true (confined_nil c) ?_⟩
    · simp [verifyBuffers, Buffer.Faults]
    · simp [verifyBuffers, Granted, Buffer.Granted]
  have hfault : ∀ p k, 0 < k → (¬ Buffer.Faults ⟨false, 4, p, 4 * k⟩ ↔
      p.toNat % 4 = 0) := by
    intro p k hk
    unfold Buffer.Faults
    dsimp only
    omega
  have h₁ := hfault e (min 1 n) (by omega)
  have h₂ := hfault r n hn
  have h₃ := hfault e n hn
  obtain ⟨m, hl⟩ := hhead hn
  have hall := aligned_pairs hmem hn
  refine ⟨?_, fun c => ?_⟩
  · rw [hall]
    unfold verifyBuffers
    simp only [List.forall_mem_cons, h₁, h₂, h₃]
    exact ⟨fun h => ⟨h.1, h.2, h.1, List.forall_mem_nil _⟩,
      fun h => ⟨h.1, h.2.1⟩⟩
  · unfold verifyBuffers
    rw [granted_cons, granted_cons, granted_cons, h₁, h₂, h₃, granted_read,
      granted_read, granted_read]
    by_cases he : e.toNat % 4 = 0
    · rw [imp_iff_right he]
      by_cases hr : r.toNat % 4 = 0
      · rw [performed_eq (hall.mpr ⟨he, hr⟩), confined_pairs hmem,
          imp_iff_right hr]
        constructor
        · intro h
          exact ⟨fun k hk => h.1 k (by omega), h.2, fun _ => ⟨h.1, trivial⟩⟩
        · intro h
          exact ⟨(h.2.2 he).1, h.2.1⟩
      · -- The second load traps, after one word of the first array.
        have hp : performed l = [.load e 4] := by
          have ha : (Access.load e 4).aligned = true := decide_eq_true he
          have hb : ¬ (Access.load r 4).aligned = true := by
            simpa [Access.aligned] using hr
          rw [hl]
          unfold performed
          rw [List.takeWhile_cons_of_pos ha, List.takeWhile_cons_of_neg hb]
        have hmin : 4 * min 1 n = 4 := by omega
        rw [hp, and_iff_left fun h => absurd h hr, hmin]
        unfold Confined
        rw [List.forall_mem_singleton, load_confined]
    · have hp : performed l = [] := by
        rw [hl]
        exact List.takeWhile_cons_of_neg (by simpa [Access.aligned] using he)
      rw [hp]
      exact iff_of_true (confined_nil c) fun h => absurd h he

end Pairs

theorem verifyMulti_uses (mem : Mem) (e r : Addr) (bs : BitVec 32) :
    Uses (verifyMulti mem e r bs).1
      (verifyBuffers e r (compared mem e r bs)) :=
  uses_pairs (fun _ => mem_verifyMulti) verifyMulti_head

/-! ## What a service uses -/

/-- `n` words at `p` that a service loads, or stores. -/
def wordBuffer (written : Bool) (p : Addr) (n : ℕ) : Buffer :=
  ⟨written, 4, p, 4 * n⟩

/-- The buffers of a service, from the arguments and the memory. -/
def Service.buffers (mem : Mem) (x : Args) : Service → List Buffer
  | .noPointer => []
  | .enosys => []
  | .sendIpi => []
  | .aes0StartEncrypt => [wordBuffer false x.a0 4, wordBuffer false x.a1 4]
  | .aes0DataOut => [wordBuffer true x.a0 4]
  | .sha256Hash => sha256Buffers mem x.a0 x.a1
  | .hmacHash => [⟨false, 1, x.a0, 64⟩, wordBuffer true x.a1 8]
  | .cmp =>
    verifyBuffers x.a0 x.a1
        (compared mem x.a0 x.a1 (x.a3.setWidth 32)) ++
      [wordBuffer true x.a4 1]
  | .aes1ReadData => [wordBuffer true x.a0 4]
  | .aes1WriteData => [wordBuffer false x.a0 4]
  | .aes1ReadConfig => [wordBuffer true x.a0 1]
  | .puts =>
    [⟨false, 1, x.a0, min (x.a1.setWidth 32 : BitVec 32).toNat (2 ^ 31)⟩,
      ⟨false, 1, x.a0 - 0x80000000,
        (x.a1.setWidth 32 : BitVec 32).toNat - 2 ^ 31⟩]
  | .rngReadData => [wordBuffer true x.a0 2]
  | .rngReadPoly =>
    [wordBuffer true x.a0 4, wordBuffer true x.a1 2, wordBuffer true x.a2 1,
      wordBuffer true x.a3 1]
  | .rngWritePoly =>
    [wordBuffer false x.a0 4, wordBuffer false x.a1 2,
      wordBuffer false x.a2 1, wordBuffer false x.a3 1]
  | .rngReadSeed =>
    [wordBuffer true x.a0 4, wordBuffer true x.a1 2, wordBuffer true x.a2 1,
      wordBuffer true x.a3 1]
  | .rngWriteSeed => [wordBuffer false x.a0 4]
  | .rngReadRandSeg => [wordBuffer true x.a0 2]
  | .rngReadStateCounter => [wordBuffer true x.a0 1]
  | .aes2StartEncrypt => [wordBuffer false x.a0 4, wordBuffer false x.a1 4]
  | .aes2DataOut => [wordBuffer true x.a0 4]
  | .rsaWritePnum => [wordBuffer false x.a0 64]
  | .rsaWriteMsgIn => [wordBuffer false x.a0 64]
  | .rsaReadMsgOut => [wordBuffer true x.a0 64]

theorem aesStartEncrypt_uses (pt st : Addr) :
    Uses (aesStartEncrypt pt st)
      [wordBuffer false pt 4, wordBuffer false st 4] :=
  (writeMulti_uses pt 4).append (writeMulti_uses st 4)

theorem rngReadFour_uses (p128 p64 p32 p16 : Addr) :
    Uses (rngReadFour p128 p64 p32 p16)
      [wordBuffer true p128 4, wordBuffer true p64 2, wordBuffer true p32 1,
        wordBuffer true p16 1] :=
  (readMulti_uses p128 4).append ((readMulti_uses p64 2).append
    ((readMulti_uses p32 1).append (readMulti_uses p16 1)))

theorem rngWritePoly_uses (p128 p64 p32 p16 : Addr) :
    Uses (rngWritePoly p128 p64 p32 p16)
      [wordBuffer false p128 4, wordBuffer false p64 2,
        wordBuffer false p32 1, wordBuffer false p16 1] :=
  (writeMulti_uses p128 4).append ((writeMulti_uses p64 2).append
    ((writeMulti_uses p32 1).append (writeMulti_uses p16 1)))

/-- The load with `MPRV` reads what the caller could read. -/
theorem sendIpiMany_confined (c : Caller) (pmask : Addr) :
    Confined c (performed (sendIpiMany pmask)) := by
  intro a ha loc
  have hmem : a ∈ sendIpiMany pmask := List.takeWhile_subset _ ha
  unfold sendIpiMany at hmem
  split_ifs at hmem
  · exact absurd hmem List.not_mem_nil
  · rw [List.mem_singleton.mp hmem]
    refine ⟨?_, False.elim⟩
    rintro ⟨k, _, hk⟩
    exact ⟨off pmask k, hk⟩

theorem service_confined (c : Caller) (mem : Mem) (x : Args) (s : Service) :
    Confined c (performed (s.run mem x)) ↔ Granted c (s.buffers mem x) := by
  cases s with
  | noPointer => exact uses_nil.confined c
  | enosys => exact uses_nil.confined c
  | sendIpi => exact iff_of_true (sendIpiMany_confined c _) trivial
  | aes0StartEncrypt => exact (aesStartEncrypt_uses _ _).confined c
  | aes0DataOut => exact (readMulti_uses _ 4).confined c
  | sha256Hash => exact (sha256_uses mem _ _).confined c
  | hmacHash =>
    exact ((writeMultichar_uses _ 64).append (readMulti_uses _ 8)).confined c
  | cmp =>
    exact ((verifyMulti_uses mem _ _ _).append (store_uses _)).confined c
  | aes1ReadData => exact (readMulti_uses _ 4).confined c
  | aes1WriteData => exact (writeMulti_uses _ 4).confined c
  | aes1ReadConfig => exact (store_uses _).confined c
  | puts => exact (mcallPuts_uses _ _).confined c
  | rngReadData => exact (readMulti_uses _ 2).confined c
  | rngReadPoly => exact (rngReadFour_uses _ _ _ _).confined c
  | rngWritePoly => exact (rngWritePoly_uses _ _ _ _).confined c
  | rngReadSeed => exact (rngReadFour_uses _ _ _ _).confined c
  | rngWriteSeed => exact (writeMulti_uses _ 4).confined c
  | rngReadRandSeg => exact (readMulti_uses _ 2).confined c
  | rngReadStateCounter => exact (readMulti_uses _ 1).confined c
  | aes2StartEncrypt => exact (aesStartEncrypt_uses _ _).confined c
  | aes2DataOut => exact (readMulti_uses _ 4).confined c
  | rsaWritePnum => exact (writeMulti_uses _ 64).confined c
  | rsaWriteMsgIn => exact (writeMulti_uses _ 64).confined c
  | rsaReadMsgOut => exact (readMulti_uses _ 64).confined c

/-- Whatever the number and the arguments of an `ecall`, machine mode
touches only what the caller could touch itself exactly if the caller can
reach the buffers of the service. -/
theorem sbi_confined_iff (c : Caller) (mem : Mem) (n : BitVec 64)
    (x : Args) :
    Confined c (performed (mcallTrap mem n x)) ↔
      Granted c ((service n.toNat).buffers mem x) :=
  service_confined c mem x _

/-- A supervisor that reaches the memory behind the first 2 MiB, where the
machine mode is. -/
def supervisor : Caller where
  load va := if va < 0x80200000 then none else some va
  store va := if va < 0x80200000 then none else some va

/-- `SBI_AES0_DATA_OUT` overwrites the memory of the machine mode. -/
theorem aes0_overwrites_machine :
    ¬ Confined supervisor
      (performed (mcallTrap (fun _ => 0) 22 ⟨0x80000000, 0, 0, 0, 0, 0⟩)) := by
  intro h
  have hg := (service_confined supervisor _ _ .aes0DataOut).mp h
  have hw := granted_written.mp (hg fun hf => hf.2 rfl).1 0 (by decide)
  obtain ⟨va, hva⟩ := hw
  unfold supervisor at hva
  dsimp only at hva
  split_ifs at hva with hlt
  cases Option.some.inj hva
  exact hlt (by decide)

end ArianeSoc.Pk
