import ArianeSoc.Clint.AxiLite
import Mathlib.Algebra.Group.Nat.Defs
import Mathlib.Data.Fin.Basic
import Mathlib.Data.Nat.Log
import Mathlib.Logic.Function.Basic

/-!
# The registers of the core-local interruptor

`clint` for `N` cores behind its AXI-Lite interface: the software interrupt
bits `msip`, the timer compare values `mtimecmp` and the timer `mtime`, which
counts the rising edges of the real-time clock.

`selected` is the register that the code selects for an address, `mapped` the
one that the memory map of a CLINT has there.  They differ.  The ranges of
the code end with the first address behind their last register, and an index
is cut off to the bits that number the cores; the timer is selected by its
first address only; a software interrupt bit is read in the low half of the
bus whatever half its register lies in.  `writes_mapped_iff` and
`reads_mapped_iff` say for which addresses an access does what the map says,
and `run_value` what a register holds after a run of such writes.
-/

namespace ArianeSoc.Clint

variable {N p r : ℕ}

/-- A register. -/
inductive Reg (N : ℕ)
  | msip (i : Fin N)
  | mtimecmp (i : Fin N)
  | mtime
  deriving DecidableEq

/-- `mtime_q`, `mtimecmp_q` and `msip_q`. -/
@[ext] structure Regs (N : ℕ) where
  mtime : BitVec 64
  mtimecmp : Fin N → BitVec 64
  msip : Fin N → Bool

def Regs.init : Regs N := ⟨0#64, fun _ => 0#64, fun _ => false⟩

/-! ## The code -/

def MSIP_BASE : ℕ := 0x0
def MTIMECMP_BASE : ℕ := 0x4000
def MTIME_BASE : ℕ := 0xbff8

/-- `AddrSelWidth`. -/
def addrSelWidth (N : ℕ) : ℕ := if N = 1 then 1 else Nat.clog 2 N

/-- The core of an index; there is none behind the last one. -/
def core (N k : ℕ) : Option (Fin N) := if h : k < N then some ⟨k, h⟩ else none

section Code

variable (N) (address : BitVec 64)

/-- `address[AddrSelWidth-1+2:2]` for `shift = 2`, and the same for `3`. -/
def index (shift : ℕ) : ℕ := address.toNat / 2 ^ shift % 2 ^ addrSelWidth N

/-- `register_address`. -/
def registerAddress : ℕ := address.toNat % 2 ^ 16

/-- The register of the case statements; the bounds of their ranges are
inclusive.  An index that no core has writes nothing. -/
def selected : Option (Reg N) :=
  if MSIP_BASE ≤ registerAddress address ∧ registerAddress address ≤ MSIP_BASE + 4 * N then
    (core N (index N address 2)).map .msip
  else if MTIMECMP_BASE ≤ registerAddress address ∧
      registerAddress address ≤ MTIMECMP_BASE + 8 * N then
    (core N (index N address 3)).map .mtimecmp
  else if registerAddress address = MTIME_BASE then some .mtime
  else none

end Code

/-- The value of a register as a word. -/
def Regs.value (R : Regs N) : Reg N → BitVec 64
  | .msip i => (BitVec.ofBool (R.msip i)).setWidth 64
  | .mtimecmp i => R.mtimecmp i
  | .mtime => R.mtime

/-- The write of a register. -/
def Regs.set (R : Regs N) : Reg N → BitVec 64 → Regs N
  | .msip i, d => { R with msip := Function.update R.msip i (d.getLsbD 0) }
  | .mtimecmp i, d => { R with mtimecmp := Function.update R.mtimecmp i d }
  | .mtime, d => { R with mtime := d }

/-- A write of the bus. -/
structure Write where
  address : BitVec 64
  wdata : BitVec 64

/-- The part of `wdata` that a register is written with: `wdata[32*address[2]]`
for a software interrupt bit. -/
def Write.data (a : Write) : Reg N → BitVec 64
  | .msip _ => a.wdata >>> (32 * (a.address.getLsbD 2).toNat)
  | _ => a.wdata

/-- The timer after a cycle in which nothing is written. -/
def Regs.tick (R : Regs N) (increaseTimer : Bool) : Regs N :=
  if increaseTimer then { R with mtime := R.mtime + 1#64 } else R

/-- The registers after a cycle. -/
def Regs.step (R : Regs N) (increaseTimer : Bool) (write : Option Write) : Regs N :=
  write.elim (R.tick increaseTimer) fun a =>
    (selected N a.address).elim (R.tick increaseTimer) fun reg =>
      (R.tick increaseTimer).set reg (a.data reg)

/-- `rdata` of a read. -/
def Regs.rdata (R : Regs N) (address : BitVec 64) : BitVec 64 :=
  (selected N address).elim 0#64 R.value

/-! ## The memory map -/

/-- The register that a CLINT whose base is `page` followed by 16 zeros has
at an address. -/
def mapped (page : BitVec 48) (N : ℕ) (address : BitVec 64) : Option (Reg N) :=
  let offset := address.toNat % 2 ^ 16
  if address.toNat / 2 ^ 16 ≠ page.toNat then none
  else if offset < 0x4000 then (core N (offset / 4)).map .msip
  else if offset < 0xbff8 then (core N ((offset - 0x4000) / 8)).map .mtimecmp
  else if offset < 0xc000 then some .mtime
  else none

/-- The bytes of the bus that belong to a register, as a word. -/
def Reg.lanes : Reg N → BitVec 64 → BitVec 64
  | .msip i, d => (d >>> (32 * (i.val % 2))).setWidth 32 |>.setWidth 64
  | _, d => d

/-- What a write of the map stores in a register. -/
def Reg.stored (reg : Reg N) (d : BitVec 64) : BitVec 64 :=
  match reg with
  | .msip _ => (BitVec.ofBool ((reg.lanes d).getLsbD 0)).setWidth 64
  | _ => d

section Map

variable (page : BitVec 48) (N : ℕ) (address : BitVec 64)

/-- A write changes the register that the map has at the address, and
nothing where it has none. -/
def WritesMapped : Prop :=
  ∀ (R : Regs N) (increaseTimer : Bool) (wdata : BitVec 64),
    R.step increaseTimer (some ⟨address, wdata⟩) =
      (mapped page N address).elim (R.tick increaseTimer) fun reg =>
        (R.tick increaseTimer).set reg (reg.lanes wdata)

/-- A read returns the register that the map has at the address in its
bytes. -/
def ReadsMapped : Prop :=
  ∀ (R : Regs N) (reg : Reg N), mapped page N address = some reg →
    reg.lanes (R.rdata address) = R.value reg

/-- The addresses at which a write does what the map says. -/
def Writable : Prop :=
  match mapped page N address with
  | some (.msip _) => 2 ^ addrSelWidth N ∣ page.toNat * 2 ^ 14
  | some (.mtimecmp _) => N ≤ 2048
  | some .mtime => registerAddress address = MTIME_BASE ∧ N ≤ 4094
  | none => selected N address = none

/-- The addresses at which a read does what the map says. -/
def Readable : Prop :=
  match mapped page N address with
  | some (.msip i) => 2 ^ addrSelWidth N ∣ page.toNat * 2 ^ 14 ∧ (i : ℕ) % 2 = 0
  | some (.mtimecmp _) => N ≤ 2048
  | some .mtime => registerAddress address = MTIME_BASE ∧ N ≤ 4094
  | none => True

end Map

/-! ## What an access hits -/

section Access

variable {R : Regs N} {reg reg' : Reg N} {d : BitVec 64}
  {page : BitVec 48} {address : BitVec 64} {i : Fin N}

@[simp] theorem value_init : (Regs.init : Regs N).value reg = 0#64 := by
  cases reg <;> rfl

theorem value_set_self : (R.set reg d).value reg =
    match reg with
    | .msip _ => (BitVec.ofBool (d.getLsbD 0)).setWidth 64
    | _ => d := by
  cases reg <;> simp [Regs.set, Regs.value]

theorem value_set_of_ne (h : reg' ≠ reg) :
    (R.set reg d).value reg' = R.value reg' := by
  cases reg <;> cases reg' <;> simp_all [Regs.set, Regs.value]

/-- A write of ones can be seen in the register that it hits, and in no
other. -/
theorem value_hit {o : Option (Reg N)} {f : Reg N → BitVec 64}
    (hf : ∀ reg, (f reg).getLsbD 0 = true) :
    (o.elim Regs.init fun reg => Regs.init.set reg (f reg)).value reg ≠ 0#64 ↔
      o = some reg := by
  cases o with
  | none => exact iff_of_false (not_not.mpr value_init) nofun
  | some reg' =>
    show (Regs.init.set reg' (f reg')).value reg ≠ 0#64 ↔ some reg' = some reg
    rw [Option.some.injEq]
    by_cases h : reg = reg'
    · subst h
      refine iff_of_true ?_ rfl
      have hne : f reg ≠ 0#64 := by
        intro hzero
        have hbit := hf reg
        rw [hzero, BitVec.getLsbD_zero] at hbit
        cases hbit
      rw [value_set_self]
      cases reg with
      | msip i =>
        have hword : (BitVec.ofBool true).setWidth 64 ≠ 0#64 := by decide
        rwa [hf]
      | mtimecmp i => exact hne
      | mtime => exact hne
    · rw [value_set_of_ne h, value_init]
      exact iff_of_false (not_not.mpr rfl) fun heq => h heq.symm

/-- What the map says of the address of a register. -/
theorem mapped_eq_some_iff : mapped page N address = some reg ↔
    address.toNat / 2 ^ 16 = page.toNat ∧
      match reg with
      | .msip i => address.toNat % 2 ^ 16 < 0x4000 ∧
          address.toNat % 2 ^ 16 / 4 = i
      | .mtimecmp i => 0x4000 ≤ address.toNat % 2 ^ 16 ∧
          address.toNat % 2 ^ 16 < 0xbff8 ∧
          (address.toNat % 2 ^ 16 - 0x4000) / 8 = i
      | .mtime => 0xbff8 ≤ address.toNat % 2 ^ 16 ∧
          address.toNat % 2 ^ 16 < 0xc000 := by
  unfold mapped core
  simp only
  split_ifs
  all_goals cases reg <;> simp [Fin.ext_iff] <;> omega

/-- The data of a write in the code and in the map agree for the register
that the map has at the address. -/
theorem set_data {wdata : BitVec 64} (h : mapped page N address = some reg) :
    R.set reg (Write.data ⟨address, wdata⟩ reg) = R.set reg (reg.lanes wdata) := by
  cases reg with
  | msip i =>
    obtain ⟨-, hlt, hi⟩ := mapped_eq_some_iff.mp h
    have hbit : (address.getLsbD 2).toNat = i % 2 := by
      rw [BitVec.getLsbD, Nat.testBit_eq_decide_div_mod_eq]
      have hpar : address.toNat / 2 ^ 2 % 2 = i % 2 := by omega
      rw [hpar]
      rcases Nat.mod_two_eq_zero_or_one i with h0 | h1
      · rw [h0]
        rfl
      · rw [h1]
        rfl
    have hlow : (Write.data ⟨address, wdata⟩ (.msip i)).getLsbD 0 =
        ((Reg.msip i).lanes wdata).getLsbD 0 := by
      rw [Write.data, hbit]
      simp [Reg.lanes]
    rw [Regs.set, Regs.set, hlow]
  | mtimecmp i => rfl
  | mtime => rfl

theorem writesMapped_iff_selected :
    WritesMapped page N address ↔ selected N address = mapped page N address := by
  constructor
  · intro h
    have hones := h Regs.init false (BitVec.allOnes 64)
    refine Option.ext fun reg => ?_
    have hcode : ∀ reg : Reg N,
        (Write.data ⟨address, BitVec.allOnes 64⟩ reg).getLsbD 0 = true := by
      intro reg
      cases reg with
      | msip i =>
        simp only [Write.data]
        cases address.getLsbD 2 <;> decide
      | mtimecmp i => simp [Write.data]
      | mtime => simp [Write.data]
    have hmap : ∀ reg : Reg N,
        (reg.lanes (BitVec.allOnes 64)).getLsbD 0 = true := by
      intro reg
      cases reg with
      | msip i =>
        rcases Nat.mod_two_eq_zero_or_one i with hi | hi <;> simp [Reg.lanes, hi]
      | mtimecmp i => simp [Reg.lanes]
      | mtime => simp [Reg.lanes]
    have hval : (_ : Regs N).value reg ≠ 0#64 ↔ (_ : Regs N).value reg ≠ 0#64 :=
      iff_of_eq (congrArg (fun R => R.value reg ≠ 0#64) hones)
    exact (value_hit hcode).symm.trans (hval.trans (value_hit hmap))
  · intro h R t wdata
    show (selected N address).elim _ _ = (mapped page N address).elim _ _
    rw [h]
    cases hreg : mapped page N address with
    | none => rfl
    | some reg => exact set_data hreg

/-- The register of a read is selected, and a software interrupt bit that is
read belongs to the low half of the bus. -/
theorem readsMapped_iff_selected :
    ReadsMapped page N address ↔
      ∀ reg, mapped page N address = some reg →
        selected N address = some reg ∧
          ∀ i : Fin N, reg = .msip i → (i : ℕ) % 2 = 0 := by
  constructor
  · intro h reg hreg
    -- the register holds ones and the others zero, so it is the one that is read
    have hread := h (Regs.init.set reg (BitVec.allOnes 64)) reg hreg
    have hval : (Regs.init.set reg (BitVec.allOnes 64)).value reg ≠ 0#64 :=
      (value_hit (o := some reg) (f := fun _ => BitVec.allOnes 64)
        fun _ => by decide).mpr rfl
    have hsel : selected N address = some reg := by
      by_contra hne
      apply hval
      rw [← hread, Regs.rdata]
      cases hs : selected N address with
      | none => cases reg <;> simp [Reg.lanes]
      | some reg' =>
        have hother : reg' ≠ reg := fun heq => hne (by rw [hs, heq])
        show reg.lanes ((Regs.init.set reg _).value reg') = 0#64
        rw [value_set_of_ne hother, value_init]
        cases reg <;> simp [Reg.lanes]
    refine ⟨hsel, fun i hi => ?_⟩
    subst hi
    by_contra hodd
    have hhigh : (i : ℕ) % 2 = 1 := Nat.mod_two_ne_zero.mp hodd
    apply hval
    rw [← hread, Regs.rdata, hsel, Option.elim_some, value_set_self, Reg.lanes,
      hhigh]
    simp
  · intro h R reg hreg
    obtain ⟨hsel, heven⟩ := h reg hreg
    rw [Regs.rdata, hsel]
    cases reg with
    | msip i =>
      rw [Reg.lanes, heven i rfl]
      cases hm : R.msip i <;> simp [Regs.value, hm]
    | mtimecmp i => rfl
    | mtime => rfl

end Access

/-! ## Where the code and the map agree -/

section Addresses

variable {page : BitVec 48} {address : BitVec 64} {i : Fin N} {k x m : ℕ}

theorem core_eq_some : core N k = some i ↔ k = i := by
  unfold core
  split_ifs with h
  · simp [Fin.ext_iff]
  · exact iff_of_false nofun fun heq => h (heq ▸ i.isLt)

theorem add_mod_eq_right_iff (h : k < m) : (x + k) % m = k ↔ m ∣ x := by
  constructor
  · intro heq
    have hdiv := Nat.div_add_mod (x + k) m
    rw [heq] at hdiv
    exact ⟨(x + k) / m, by omega⟩
  · rintro ⟨q, rfl⟩
    rw [Nat.mul_add_mod, Nat.mod_eq_of_lt h]

/-- Every core has an index. -/
theorem lt_two_pow_addrSelWidth (i : Fin N) : (i : ℕ) < 2 ^ addrSelWidth N := by
  have hi := i.isLt
  unfold addrSelWidth
  split_ifs with h
  · omega
  · exact hi.trans_le (Nat.le_pow_clog Nat.one_lt_two N)

theorem addrSelWidth_le (h : N ≤ 2048) : addrSelWidth N ≤ 11 := by
  unfold addrSelWidth
  split_ifs
  · omega
  · exact Nat.clog_le_of_le_pow h

theorem addrSelWidth_ge (h : 2048 < N) : 12 ≤ addrSelWidth N := by
  unfold addrSelWidth
  split_ifs
  · omega
  · exact (Nat.lt_clog_iff_pow_lt Nat.one_lt_two).mpr h

/-- The index of a software interrupt bit takes in bits of the page if there
are very many cores. -/
theorem selected_msip (h : mapped page N address = some (.msip i)) :
    selected N address = some (.msip i) ↔
      2 ^ addrSelWidth N ∣ page.toNat * 2 ^ 14 := by
  obtain ⟨hpage, hlt, hi⟩ := mapped_eq_some_iff.mp h
  have hN := i.isLt
  have hquot : address.toNat / 2 ^ 2 = page.toNat * 2 ^ 14 + i := by omega
  have hrange : MSIP_BASE ≤ registerAddress address ∧
      registerAddress address ≤ MSIP_BASE + 4 * N := by
    unfold MSIP_BASE registerAddress
    omega
  rw [selected, if_pos hrange, index, hquot,
    ← add_mod_eq_right_iff (lt_two_pow_addrSelWidth i), ← core_eq_some]
  simp

/-- The base of the compare values is a multiple of the number of indices up
to 2048 cores. -/
theorem selected_mtimecmp (h : mapped page N address = some (.mtimecmp i)) :
    selected N address = some (.mtimecmp i) ↔ N ≤ 2048 := by
  obtain ⟨hpage, hge, hlt, hi⟩ := mapped_eq_some_iff.mp h
  have hN := i.isLt
  have hquot : address.toNat / 2 ^ 3 = (page.toNat * 2 ^ 13 + 2 ^ 11) + i := by
    omega
  have hindex : index N address 3 = i ↔
      2 ^ addrSelWidth N ∣ page.toNat * 2 ^ 13 + 2 ^ 11 := by
    rw [index, hquot, add_mod_eq_right_iff (lt_two_pow_addrSelWidth i)]
  unfold selected MSIP_BASE MTIMECMP_BASE MTIME_BASE registerAddress
  constructor
  · intro hsel
    by_contra hmany
    split_ifs at hsel with h1 h2 h3
    · simp at hsel
    · have hcore : core N (index N address 3) = some i := by simpa using hsel
      have hdvd : 2 ^ 12 ∣ page.toNat * 2 ^ 13 + 2 ^ 11 :=
        Nat.dvd_trans (Nat.pow_dvd_pow 2 (addrSelWidth_ge (Nat.lt_of_not_le hmany)))
          (hindex.mp (core_eq_some.mp hcore))
      omega
    · simp at hsel
  · intro hfew
    have hdvd : 2 ^ addrSelWidth N ∣ 2 ^ 11 :=
      Nat.pow_dvd_pow 2 (addrSelWidth_le hfew)
    have hpow : 2 ^ addrSelWidth N ∣ 2 ^ 13 :=
      Nat.dvd_trans hdvd (Nat.pow_dvd_pow 2 (by omega))
    have hsum : 2 ^ addrSelWidth N ∣ page.toNat * 2 ^ 13 + 2 ^ 11 :=
      Nat.dvd_add (Nat.dvd_mul_left_of_dvd hpow _) hdvd
    rw [if_neg (by omega), if_pos (by omega), core_eq_some.mpr (hindex.mpr hsum)]
    rfl

/-- The range of the compare values takes in the timer from 4095 cores on. -/
theorem selected_mtime (h : mapped page N address = some .mtime) :
    selected N address = some .mtime ↔
      registerAddress address = MTIME_BASE ∧ N ≤ 4094 := by
  obtain ⟨hpage, hge, hlt⟩ := mapped_eq_some_iff.mp h
  unfold selected MSIP_BASE MTIMECMP_BASE MTIME_BASE
  unfold registerAddress
  split_ifs with h1 h2 h3
  · simp
    omega
  · simp
    omega
  · simp
    omega
  · simp
    omega

theorem writesMapped_iff : WritesMapped page N address ↔ Writable page N address := by
  rw [writesMapped_iff_selected, Writable]
  rcases hreg : mapped page N address with _ | (i | i | _)
  · exact Iff.rfl
  · exact selected_msip hreg
  · exact selected_mtimecmp hreg
  · exact selected_mtime hreg

theorem readsMapped_iff : ReadsMapped page N address ↔ Readable page N address := by
  rw [readsMapped_iff_selected, Readable]
  rcases hreg : mapped page N address with _ | (i | i | _)
  · simp
  · simp [selected_msip hreg]
  · simp [selected_mtimecmp hreg]
  · simp [selected_mtime hreg]

/-- Up to 2048 cores an index depends on the offset only. -/
theorem index_eq (hN : N ≤ 2048) {shift : ℕ} (hshift : shift ≤ 5) :
    index N address shift =
      registerAddress address / 2 ^ shift % 2 ^ addrSelWidth N := by
  have hsplit : 2 ^ 16 = 2 ^ shift * 2 ^ (16 - shift) := by
    rw [← Nat.pow_add]
    congr 1
    omega
  have hquot : address.toNat / 2 ^ shift =
      2 ^ (16 - shift) * (address.toNat / 2 ^ 16) +
        registerAddress address / 2 ^ shift := by
    have hdiv := Nat.div_add_mod address.toNat (2 ^ 16)
    rw [← Nat.mul_add_div (Nat.two_pow_pos shift), ← Nat.mul_assoc, ← hsplit,
      registerAddress, hdiv]
  have hdvd : 2 ^ addrSelWidth N ∣ 2 ^ (16 - shift) :=
    Nat.pow_dvd_pow 2 ((addrSelWidth_le hN).trans (by omega))
  obtain ⟨q, hq⟩ := Nat.dvd_mul_right_of_dvd hdvd (address.toNat / 2 ^ 16)
  rw [index, hquot, hq, Nat.mul_add_mod]

/-- An index behind the last core stays there unless it wraps. -/
theorem core_wrap_eq_none (hk : k ≤ N) :
    core N (k % 2 ^ addrSelWidth N) = none ↔
      k = N ∧ (N ≤ 1 ∨ 2 ^ addrSelWidth N ≠ N) := by
  have hnone : ∀ j, core N j = none ↔ N ≤ j := fun j => by
    unfold core
    split_ifs with h <;> simp <;> omega
  rw [hnone]
  rcases Nat.lt_or_eq_of_le hk with hlt | rfl
  · rw [Nat.mod_eq_of_lt (lt_two_pow_addrSelWidth ⟨k, hlt⟩)]
    omega
  · unfold addrSelWidth
    split_ifs with hone
    · subst hone
      simp
    · have hle := Nat.le_pow_clog Nat.one_lt_two k
      rcases Nat.lt_or_eq_of_le hle with hlt | heq
      · rw [Nat.mod_eq_of_lt hlt]
        omega
      · rw [← heq, Nat.mod_self]
        omega

/-- Up to 2048 cores the code selects no register exactly where no bytes of
one are, the timer behind its first address counted there, but for the first
address behind the registers of each kind: its index wraps to core 0 if the
number of cores is a power of two. -/
theorem selected_none_iff (hN : N ≤ 2048) :
    selected N address = none ↔
      4 * N ≤ registerAddress address ∧
      ¬ (0x4000 ≤ registerAddress address ∧
        registerAddress address < 0x4000 + 8 * N) ∧
      registerAddress address ≠ 0xbff8 ∧
      (registerAddress address = 4 * N ∨
        registerAddress address = 0x4000 + 8 * N →
          N ≤ 1 ∨ 2 ^ addrSelWidth N ≠ N) := by
  unfold selected MSIP_BASE MTIMECMP_BASE MTIME_BASE
  rw [index_eq hN (by omega), index_eq hN (by omega)]
  generalize registerAddress address = a
  split_ifs with h1 h2 h3
  · rw [Option.map_eq_none_iff, core_wrap_eq_none (by omega)]
    omega
  · have hpow : 2 ^ addrSelWidth N ∣ 2 ^ 11 :=
      Nat.pow_dvd_pow 2 (addrSelWidth_le hN)
    obtain ⟨q, hq⟩ := hpow
    have hquot : a / 2 ^ 3 = 2 ^ 11 + (a - 0x4000) / 8 := by omega
    rw [Option.map_eq_none_iff, hquot, hq, Nat.mul_add_mod,
      core_wrap_eq_none (by omega)]
    omega
  · exact iff_of_false nofun fun h => h.2.2.1 h3
  · refine iff_of_true rfl ?_
    omega

end Addresses

/-! ## The device -/

/-- The interface, the registers, and the synchronizer and the edge detector
of the real-time clock. -/
structure State (N r : ℕ) where
  axi : AxiLite.State r
  regs : Regs N
  regQ : BitVec 2
  serialQ : Bool

def init : State N r := ⟨AxiLite.init, Regs.init, 0#2, false⟩

/-- The inputs; the read data of the request come from the registers. -/
structure Input (p : ℕ) where
  axiReqI : AxiLite.Input p
  rtcI : Bool

section Device

variable (s : State N r) (x : Input p)

/-- `increase_timer`: a rising edge. -/
def increaseTimer : Bool := s.regQ.getLsbD 1 && !s.serialQ

/-- The write of the interface. -/
def write : Option Write :=
  if AxiLite.enO s.axi x.axiReqI && AxiLite.weO s.axi x.axiReqI then
    some ⟨AxiLite.addressO s.axi x.axiReqI, AxiLite.dataO x.axiReqI⟩
  else none

/-- `rdata`. -/
def rdata : BitVec 64 :=
  if AxiLite.enO s.axi x.axiReqI && !AxiLite.weO s.axi x.axiReqI then
    s.regs.rdata (AxiLite.addressO s.axi x.axiReqI)
  else 0#64

/-- One clock cycle of `clint`. -/
def step : State N r where
  axi := AxiLite.step s.axi { x.axiReqI with dataI := rdata s x }
  regs := s.regs.step (increaseTimer s) (write s x)
  regQ := s.regQ.shiftConcat x.rtcI
  serialQ := s.regQ.getLsbD 1

end Device

/-- What was last written to a register, and the ticks since then. -/
structure Last where
  written : BitVec 64
  ticks : ℕ

section History

variable (page : BitVec 48) (reg : Reg N)

/-- The account after a cycle. -/
def Last.next (l : Last) (increaseTimer : Bool) (write : Option Write) : Last :=
  match write.filter fun a => mapped page N a.address = some reg with
  | some a => ⟨reg.stored a.wdata, 0⟩
  | none => ⟨l.written, l.ticks + increaseTimer.toNat⟩

/-- The account after a run. -/
def lastWrite (l : Last) (s : State N r) : List (Input p) → Last
  | [] => l
  | x :: xs =>
    lastWrite (l.next page reg (increaseTimer s) (write s x)) (step s x) xs

/-- What the register holds then. -/
def Last.value (l : Last) : BitVec 64 :=
  if reg = .mtime then l.written + BitVec.ofNat 64 l.ticks else l.written

end History

section Runs

variable {page : BitVec 48} {reg : Reg N} {R : Regs N} {l : Last}
  {w : Option Write} {t : Bool}

theorem value_tick : (R.tick t).value reg =
    R.value reg + if reg = .mtime then BitVec.ofNat 64 t.toNat else 0#64 := by
  cases t <;> cases reg <;> simp [Regs.tick, Regs.value]

/-- A cycle keeps the account of a register. -/
theorem value_step (hw : ∀ a, w = some a → Writable page N a.address)
    (h : R.value reg = l.value reg) :
    (R.step t w).value reg = (l.next page reg t w).value reg := by
  have hkeep : (R.tick t).value reg =
      (Last.mk l.written (l.ticks + t.toNat)).value reg := by
    rw [value_tick, h]
    unfold Last.value
    split_ifs
    · rw [BitVec.ofNat_add, BitVec.add_assoc]
    · rw [BitVec.add_zero]
  cases w with
  | none => exact hkeep
  | some a =>
    rw [writesMapped_iff.mpr (hw a rfl) R t a.wdata]
    by_cases hreg : mapped page N a.address = some reg
    · have hnext : l.next page reg t (some a) = ⟨reg.stored a.wdata, 0⟩ := by
        simp [Last.next, Option.filter, hreg]
      rw [hreg, hnext, Option.elim_some, value_set_self]
      cases reg <;> simp [Last.value, Reg.stored, Reg.lanes]
    · have hnext : l.next page reg t (some a) = ⟨l.written, l.ticks + t.toNat⟩ := by
        simp [Last.next, Option.filter, hreg]
      rw [hnext, ← hkeep]
      cases hother : mapped page N a.address with
      | none => rfl
      | some reg' =>
        exact value_set_of_ne fun heq => hreg (by rw [hother, heq])

/-- After a run of such writes a register holds what was last written to it,
and the timer the ticks since then on top. -/
theorem run_value {s : State N r} {xs : List (Input p)}
    (ha : Sync.Along step
      (fun s x => ∀ a, write s x = some a → Writable page N a.address) s xs)
    (h : s.regs.value reg = l.value reg) :
    (Sync.run step s xs).regs.value reg = (lastWrite page reg l s xs).value reg := by
  induction xs generalizing s l with
  | nil => exact h
  | cons x xs ih => exact ih ha.2 (value_step ha.1 h)

/-- A read cycle returns the register in its bytes. -/
theorem rdata_lanes {s : State N r} {x : Input p} (hread : s.axi.stateQ = .READ)
    (haddr : Readable page N s.axi.addressQ)
    (hreg : mapped page N s.axi.addressQ = some reg) :
    reg.lanes (rdata s x) = s.regs.value reg := by
  have hen : AxiLite.enO s.axi x.axiReqI = true := by simp [AxiLite.enO, hread]
  have hwe : AxiLite.weO s.axi x.axiReqI = false := by simp [AxiLite.weO, hread]
  rw [rdata, AxiLite.addressO, hen, hwe]
  exact readsMapped_iff.mpr haddr s.regs reg hreg

end Runs

/-- A write does what the map of a CLINT says exactly at the `Writable`
addresses and a read at the `Readable` ones, for every number of cores; and
after a run from reset with such writes a register holds, and such a read
returns, what was last written, for the timer with the ticks since then. -/
theorem isolates_iff (page : BitVec 48) :
    (∀ N address, (WritesMapped page N address ↔ Writable page N address) ∧
      (ReadsMapped page N address ↔ Readable page N address)) ∧
    ∀ (N p r : ℕ) (xs : List (Input p)),
      Sync.Along step (fun (s : State N r) x =>
        ∀ a, write s x = some a → Writable page N a.address) init xs →
      ∀ reg : Reg N,
        (Sync.run step (init : State N r) xs).regs.value reg =
            (lastWrite page reg ⟨0#64, 0⟩ (init : State N r) xs).value reg ∧
          ∀ x : Input p, (Sync.run step (init : State N r) xs).axi.stateQ = .READ →
            Readable page N (Sync.run step (init : State N r) xs).axi.addressQ →
            mapped page N (Sync.run step (init : State N r) xs).axi.addressQ = some reg →
            reg.lanes (rdata (Sync.run step (init : State N r) xs) x) =
              (lastWrite page reg ⟨0#64, 0⟩ (init : State N r) xs).value reg := by
  refine ⟨fun N address => ⟨writesMapped_iff, readsMapped_iff⟩, fun N p r xs ha reg => ?_⟩
  have hinit : (init : State N r).regs.value reg = (Last.mk 0#64 0).value reg := by
    show Regs.init.value reg = _
    rw [value_init]
    unfold Last.value
    split_ifs <;> rfl
  have hvalue := run_value ha hinit
  refine ⟨hvalue, fun x hread haddr hreg => ?_⟩
  rw [rdata_lanes hread haddr hreg, hvalue]

/-- With two cores a write behind their software interrupt bits sets the bit
of core 0. -/
theorem not_isolates_behind : ¬ WritesMapped 0x200#48 2 0x2000008#64 := by
  rw [writesMapped_iff_selected]
  decide

/-- The bit of core 1 is read as zero. -/
theorem not_isolates_odd : ¬ ReadsMapped 0x200#48 2 0x2000004#64 := by
  intro h
  have hread := h ⟨0#64, fun _ => 0#64, fun _ => true⟩ (.msip 1) (by decide)
  exact absurd hread (by decide)

end ArianeSoc.Clint
