import ArianeSoc.Loop
import ArianeSoc.Pk.Syscall
import Mathlib.Algebra.Group.Nat.Defs
import Mathlib.Data.Finset.Insert
import Mathlib.Logic.Function.Basic
import Mathlib.Tactic.Common

/-!
# The address space of the proxy kernel

`pk/mmap.c`: the page table, the region descriptors, the heap break and the
operations on them.  A page table entry holds nothing, a pointer to the
descriptor of a page that has not been populated, or a frame.  An operation
that has no result has stopped the kernel, at a failed `kassert` or in a
loop without an end.

The content of the pages and of the files is left out; whether a page of a
file can be read is an argument.  An entry in a table that does not exist
yet reads as empty, as all functions of the source take it.

* The entries, the descriptors and the state.
* The page tables and the descriptors: `walkCreate` and `vmrAlloc`.
* `vmAlloc`, the search for free pages.
* `handlePageFault`, `doMunmap`, `doMmap`, `doBrk` and `doMprotect`.
* `pkVmInit` and `loadElf`, and the runs of the operations after them.
-/

namespace ArianeSoc.Pk.Mmap

abbrev Addr := BitVec 64

/-! ## Entries and protections -/

/-- `*pte`: nothing, `(pte_t)v` for a descriptor, or `pte_create`. -/
inductive Pte where
  | zero
  | lazy (v : ℕ)
  | leaf (ppn : ℕ) (type : BitVec 8)
  deriving DecidableEq

abbrev PTE_V : BitVec 8 := 0x01

abbrev PTE_R : BitVec 8 := 0x02

abbrev PTE_W : BitVec 8 := 0x04

abbrev PTE_X : BitVec 8 := 0x08

abbrev PTE_U : BitVec 8 := 0x10

abbrev PTE_A : BitVec 8 := 0x40

abbrev PTE_D : BitVec 8 := 0x80

abbrev PROT_READ : BitVec 32 := 1

abbrev PROT_WRITE : BitVec 32 := 2

abbrev PROT_EXEC : BitVec 32 := 4

/-- `prot_to_type`. -/
def protToType (prot : BitVec 32) (user : Bool) : BitVec 8 :=
  let pte : BitVec 8 := 0
  let pte := if prot &&& PROT_READ ≠ 0 then pte ||| PTE_R ||| PTE_A else pte
  let pte := if prot &&& PROT_WRITE ≠ 0 then pte ||| PTE_W ||| PTE_D else pte
  let pte := if prot &&& PROT_EXEC ≠ 0 then pte ||| PTE_X ||| PTE_A else pte
  let pte := if pte = 0 then PTE_R else pte
  if user then pte ||| PTE_U else pte

/-- `pte_create`. -/
def pteCreate (ppn : ℕ) (type : BitVec 8) : Pte := .leaf ppn (PTE_V ||| type)

/-- `vmr_t`. -/
structure Vmr where
  addr : Addr
  length : Addr
  file : Option ℕ
  offset : Addr
  refcnt : BitVec 32
  prot : BitVec 32

/-- A page of zeros, as descriptors. -/
def Vmr.clear : Vmr := ⟨0, 0, none, 0, 0, 0⟩

/-- `MAX_VMR`: descriptors of 40 bytes in one page. -/
abbrev MAX_VMR : ℕ := 102

/-! ## The state -/

/-- `mem_pages` of `pk_vm_init`, which caps the memory to 2 GiB. -/
def memPages (memSize : ℕ) : ℕ := min memSize (2 ^ 31) / 4096

/-- `free_pages`. -/
def freePages (memSize : ℕ) : ℕ := max 8 (memPages memSize / 2 ^ 8)

/-- The machine: the size of its memory and the first page behind the
kernel image, which lies at `DRAM_BASE`. -/
structure Config where
  memSize : ℕ
  firstFreePage : ℕ
  demandPaging : Bool
  firstFree_aligned : firstFreePage % 4096 = 0
  image_le : 2 ^ 31 ≤ firstFreePage
  fits : firstFreePage + freePages memSize * 4096 ≤
    2 ^ 31 + min memSize (2 ^ 31)

/-- `first_free_paddr`. -/
def Config.firstFreePaddr (c : Config) : ℕ :=
  c.firstFreePage + freePages c.memSize * 4096

/-- `current.mmap_max`. -/
def Config.mmapMax (c : Config) : Addr :=
  BitVec.ofNat 64 (min (2 ^ 31)
    (min c.memSize (2 ^ 31) - (c.firstFreePaddr - 2 ^ 31)))

/-- What the free pages have been used for: the tables there are below the
root, by level and index, and the page of the descriptors. -/
structure Pool where
  tables : Finset (ℕ × ℕ)
  nextFreePage : ℕ
  vmrsUp : Bool

/-- The page table, by page number, the pool of its tables, the descriptors
and the break. -/
structure Vm where
  pte : ℕ → Pte
  pool : Pool
  vmr : ℕ → Vmr
  brk : Addr
  brkMin : Addr
  brkMax : Addr

variable (c : Config)

/-- The page number of an address: `pt_idx` masks the bits above
`VA_BITS`. -/
def vpn (a : Addr) : ℕ := a.toNat / 4096 % 2 ^ 27

def Vm.setPte (s : Vm) (k : ℕ) (p : Pte) : Vm :=
  { s with pte := Function.update s.pte k p }

def Vm.setVmr (s : Vm) (v : ℕ) (d : Vmr) : Vm :=
  { s with vmr := Function.update s.vmr v d }

/-- `__valid_user_range`. -/
def validUserRange (vaddr len : Addr) : Bool :=
  if vaddr + len < vaddr then false else decide (vaddr + len ≤ c.mmapMax)

/-- The turns after which a loop over pages has come twice around the
address space. -/
abbrev forever : ℕ := 2 ^ 53

/-- `for (a = addr; a < stop; a += RISCV_PGSIZE)`. -/
def forPages (body : Vm → Addr → Option Vm) (addr stop : Addr) (s : Vm) :
    Option Vm :=
  ForLoop.upto body stop 4096 forever addr s

/-! ## Page tables and descriptors -/

/-- `__page_alloc`. -/
def pageAlloc (q : Pool) : Option Pool :=
  if q.nextFreePage = freePages c.memSize then none
  else some { q with nextFreePage := q.nextFreePage + 1 }

/-- One level of `__walk_create`: the table `t` is made if it is missing. -/
def walkLevel (t : ℕ × ℕ) (q : Pool) : Option Pool :=
  if t ∈ q.tables then some q
  else (pageAlloc c q).map fun q => { q with tables := insert t q.tables }

/-- `__walk_create` for page `k`. -/
def walkCreate (k : ℕ) (q : Pool) : Option Pool :=
  (walkLevel c (2, k / 2 ^ 18) q).bind (walkLevel c (1, k / 2 ^ 9))

/-- The first lines of `__vmr_alloc`: the page of the descriptors. -/
def vmrPage (q : Pool) : Option Pool :=
  if q.vmrsUp then some q
  else (pageAlloc c q).map fun q => { q with vmrsUp := true }

/-- `__vmr_alloc`: the descriptor, or none if all are in use. -/
def vmrAlloc (addr length : Addr) (file : Option ℕ) (offset : Addr)
    (refcnt prot : BitVec 32) (s : Vm) : Option (Vm × Option ℕ) :=
  (vmrPage c s.pool).map fun q =>
    let s := { s with pool := q }
    match (List.range MAX_VMR).find? fun v => (s.vmr v).refcnt = 0 with
    | none => (s, none)
    | some v =>
      (s.setVmr v ⟨addr, length, file, offset, refcnt, prot⟩, some v)

/-- `__vmr_decref(v, 1)`. -/
def vmrDecref (v : ℕ) (s : Vm) : Vm :=
  s.setVmr v { s.vmr v with refcnt := (s.vmr v).refcnt - 1 }

/-! ## The search for free pages -/

/-- `__va_avail`. -/
def vaAvail (s : Vm) (vaddr : Addr) : Bool := decide (s.pte (vpn vaddr) = .zero)

/-- The inner loop of `__vm_alloc`, from `a` down to `first`. -/
def scanDown (s : Vm) (first : Addr) : ℕ → Addr → Addr
  | 0, a => a
  | n + 1, a =>
    if a > first ∧ vaAvail s a then scanDown s first n (a - 4096) else a

/-- The outer loop of `__vm_alloc`. -/
def vmAllocLoop (s : Vm) (npage stop : Addr) : ℕ → Addr → Option Addr
  | 0, _ => none
  | n + 1, a =>
    if a ≤ stop then
      if vaAvail s a = false then vmAllocLoop s npage stop n (a + 4096)
      else
        let first := a
        let last := a + (npage - 1) * 4096
        let a := scanDown s first ((last.toNat - first.toNat) / 4096) last
        if a > first then vmAllocLoop s npage stop n (a + 4096) else some a
    else some 0

/-- `__vm_alloc`. -/
def vmAlloc (npage : Addr) (s : Vm) : Option Addr :=
  vmAllocLoop s npage (c.mmapMax - npage * 4096) forever s.brk

/-! ## Page faults -/

/-- The last test of `__handle_page_fault`. -/
def allows (type : BitVec 8) (prot : BitVec 32) : Bool :=
  decide (type &&& (PTE_V ||| protToType prot true) =
    PTE_V ||| protToType prot true)

/-- `__handle_page_fault`, and whether it returns 0.  `io` says which pages
can be read from their file. -/
def handlePageFault (io : ℕ → Bool) (vaddr : Addr) (prot : BitVec 32)
    (s : Vm) : Option (Vm × Bool) :=
  let page := vaddr >>> 12 <<< 12
  if validUserRange c page 1 = false then some (s, false)
  else
    match s.pte (vpn page) with
    | .zero => some (s, false)
    | .leaf _ type => some (s, allows type prot)
    | .lazy v =>
      if (s.vmr v).file.isSome ∧ io (vpn page) = false then none
      else
        let s := vmrDecref v s
        let ppn := (vaddr >>> 12).toNat + c.firstFreePaddr / 4096
        let type := protToType (s.vmr v).prot true
        some (s.setPte (vpn page) (pteCreate ppn type),
          allows (PTE_V ||| type) prot)

/-! ## `munmap` and `mmap` -/

/-- One turn of `__do_munmap`. -/
def munmapPage (s : Vm) (a : Addr) : Vm :=
  match s.pte (vpn a) with
  | .zero => s
  | .lazy v => (vmrDecref v s).setPte (vpn a) .zero
  | .leaf _ _ => s.setPte (vpn a) .zero

/-- `__do_munmap`. -/
def doMunmapPages (addr len : Addr) (s : Vm) : Option Vm :=
  forPages (fun s a => some (munmapPage s a)) addr (addr + len) s

/-- One turn of the mapping loop of `__do_mmap`. -/
def mapPage (v : ℕ) (s : Vm) (a : Addr) : Option Vm :=
  (walkCreate c (vpn a) s.pool).bind fun q =>
    let s := { s with pool := q }
    (if s.pte (vpn a) ≠ .zero then doMunmapPages a 4096 s else some s).map
      fun s => s.setPte (vpn a) (.lazy v)

/-- One turn of the populating loop of `__do_mmap`, with its `kassert`. -/
def populatePage (io : ℕ → Bool) (prot : BitVec 32) (s : Vm) (a : Addr) :
    Option Vm :=
  (handlePageFault c io a prot s).bind fun r =>
    if r.2 then some r.1 else none

/-- `(uintptr_t)-1`. -/
abbrev FAILED : Addr := -1

/-- Where `__do_mmap` puts the pages: no answer if the search has no end,
none in it if there is no place. -/
def place (addr length : Addr) (flags : BitVec 32) (s : Vm) :
    Option (Option Addr) :=
  if flags &&& MAP_FIXED ≠ 0 then
    if addr &&& 4095 ≠ 0 ∨ validUserRange c addr length = false then some none
    else some (some addr)
  else
    (vmAlloc c ((length - 1) / 4096 + 1) s).map fun a =>
      if a = 0 then none else some a

/-- The loops of `__do_mmap`. -/
def mapPages (io : ℕ → Bool) (v : ℕ) (addr length : Addr)
    (prot flags : BitVec 32) (s : Vm) : Option Vm :=
  (forPages (mapPage c v) addr (addr + length) s).bind fun s =>
    if c.demandPaging = false ∨ flags &&& MAP_POPULATE ≠ 0 then
      forPages (populatePage c io prot) addr (addr + length) s
    else some s

/-- `__do_mmap`. -/
def doMmapPages (io : ℕ → Bool) (addr length : Addr)
    (prot flags : BitVec 32) (file : Option ℕ) (offset : Addr) (s : Vm) :
    Option (Vm × Addr) :=
  (place c addr length flags s).bind fun p =>
    match p with
    | none => some (s, FAILED)
    | some addr =>
      (vmrAlloc c addr length file offset
        (((length - 1) / 4096 + 1).setWidth 32) prot s).bind fun r =>
        match r.2 with
        | none => some (r.1, FAILED)
        | some v =>
          (mapPages c io v addr length prot flags r.1).map fun s => (s, addr)

/-- `do_munmap`. -/
def doMunmap (addr length : Addr) (s : Vm) : Option (Vm × Addr) :=
  if addr &&& 4095 ≠ 0 ∨ validUserRange c addr length = false then
    some (s, -22)
  else (doMunmapPages addr length s).map fun s => (s, 0)

/-- `do_mmap`; `file` is what `file_get(fd)` gives. -/
def doMmap (io : ℕ → Bool) (addr length : Addr) (prot flags : BitVec 32)
    (file : Option ℕ) (offset : Addr) (s : Vm) : Option (Vm × Addr) :=
  if flags &&& MAP_PRIVATE = 0 ∨ length = 0 ∨ offset &&& 4095 ≠ 0 then
    some (s, -22)
  else if flags &&& MAP_ANONYMOUS = 0 ∧ file = none then some (s, -9)
  else
    let f := if flags &&& MAP_ANONYMOUS = 0 then file else none
    (doMmapPages c io addr length prot flags f offset s).map fun r =>
      (if r.2 < r.1.brkMax then { r.1 with brkMax := r.2 } else r.1, r.2)

/-! ## The break -/

/-- `ROUNDUP(a, RISCV_PGSIZE)`. -/
def roundup (a : Addr) : Addr := ((a - 1) / 4096 + 1) * 4096

/-- The new break that `__do_brk` clamps an address to. -/
def clampBrk (addr : Addr) (s : Vm) : Addr :=
  if addr < s.brkMin then s.brkMin
  else if addr > s.brkMax then s.brkMax
  else addr

/-- `current.brk`, once it has been set. -/
def Vm.theBrk (s : Vm) : Addr := if s.brk = 0 then roundup s.brkMin else s.brk

/-- `__do_brk`, with its `kassert`. -/
def doBrk (addr : Addr) (s : Vm) : Option (Vm × Addr) :=
  let newbrk := clampBrk addr s
  let s := { s with brk := s.theBrk }
  let newbrkPage := roundup newbrk
  let moved :=
    if s.brk > newbrkPage then
      doMunmapPages newbrkPage (s.brk - newbrkPage) s
    else if s.brk < newbrkPage then
      (doMmapPages c (fun _ => true) s.brk (newbrkPage - s.brk) (-1)
        (MAP_FIXED ||| MAP_PRIVATE ||| MAP_ANONYMOUS) none 0 s).bind fun r =>
        if r.2 = s.brk then some r.1 else none
    else some s
  moved.map fun s => ({ s with brk := newbrkPage }, newbrk)

/-! ## `mprotect` -/

/-- One turn of `do_mprotect`: an error, or the page with its new
protection. -/
def mprotectPage (prot : BitVec 32) (s : Vm) (a : Addr) : Except Addr Vm :=
  match s.pte (vpn a) with
  | .zero => .error (-12)
  | .lazy v =>
    if ((s.vmr v).prot ^^^ prot) &&& ~~~(s.vmr v).prot ≠ 0 then .error (-13)
    else .ok (s.setVmr v { s.vmr v with prot := prot })
  | .leaf ppn type =>
    if type &&& PTE_U = 0 ∨
        prot &&& PROT_READ ≠ 0 ∧ type &&& PTE_R = 0 ∨
        prot &&& PROT_WRITE ≠ 0 ∧ type &&& PTE_W = 0 ∨
        prot &&& PROT_EXEC ≠ 0 ∧ type &&& PTE_X = 0 then .error (-13)
    else .ok (s.setPte (vpn a) (pteCreate ppn (protToType prot true)))

/-- The loop of `do_mprotect`, which breaks at an error. -/
def mprotectLoop (prot : BitVec 32) (stop : Addr) :
    ℕ → Addr → Vm → Option (Vm × Addr)
  | 0, _, _ => none
  | n + 1, a, s =>
    if a < stop then
      match mprotectPage prot s a with
      | .error e => some (s, e)
      | .ok s => mprotectLoop prot stop n (a + 4096) s
    else some (s, 0)

/-- `do_mprotect`. -/
def doMprotect (addr length : Addr) (prot : BitVec 32) (s : Vm) :
    Option (Vm × Addr) :=
  if addr &&& 4095 ≠ 0 then some (s, -22)
  else mprotectLoop prot (addr + length) forever addr s

/-! ## From the boot to the program -/

/-- The state before `pk_vm_init`. -/
def Vm.cold : Vm where
  pte _ := .zero
  pool := ⟨∅, 0, false⟩
  vmr _ := Vmr.clear
  brk := 0
  brkMin := 0
  brkMax := c.mmapMax

/-- One turn of `__map_kernel_range` for the kernel memory, which is mapped
to itself with all rights. -/
def mapKernelPage (i : ℕ) (s : Vm) : Option Vm :=
  (walkCreate c (2 ^ 19 + i) s.pool).map fun q =>
    { s with pool := q }.setPte (2 ^ 19 + i)
      (pteCreate (2 ^ 19 + i) (protToType 7 false))

/-- The pages of the stack. -/
def stackPages : ℕ := min (memPages c.memSize / 2 ^ 5) 2048

/-- `pk_vm_init`: the root table, the kernel memory, the user stack and the
kernel stack. -/
def pkVmInit : Option Vm :=
  (pageAlloc c (Vm.cold c).pool).bind fun q =>
    (ForLoop.turns (mapKernelPage c) (c.firstFreePaddr / 4096 - 2 ^ 19)
        { Vm.cold c with pool := q }).bind fun s =>
      let stackSize := BitVec.ofNat 64 (stackPages c * 4096)
      (doMmapPages c (fun _ => true) (c.mmapMax - stackSize) stackSize 7
          (MAP_PRIVATE ||| MAP_ANONYMOUS ||| MAP_FIXED) none 0 s).bind
        fun r =>
          if r.2 = FAILED then none
          else (pageAlloc c r.1.pool).map fun q => { r.1 with pool := q }

/-- A segment to load, at its biased address; a segment is not longer in
the file than in memory. -/
structure Segment where
  vaddr : Addr
  filesz : Addr
  memsz : Addr
  prot : BitVec 32
  filesz_le : filesz ≤ memsz

/-- The body of the loop of `load_elf` for a segment with a `p_memsz`. -/
def loadSegment (g : Segment) (s : Vm) : Option Vm :=
  let prepad := g.vaddr &&& 4095
  let start := g.vaddr - prepad
  let s :=
    if g.vaddr + g.memsz > s.brkMin then
      { s with brkMin := g.vaddr + g.memsz }
    else s
  let flags := MAP_FIXED ||| MAP_PRIVATE
  (doMmapPages c (fun _ => true) start (g.filesz + prepad)
      (g.prot ||| PROT_WRITE) (flags ||| MAP_POPULATE) none 0 s).bind fun r =>
    if r.2 ≠ start then none
    else
      let loaded :=
        if g.prot &&& PROT_WRITE = 0 then
          (doMprotect start (g.filesz + prepad) g.prot r.1).bind fun r =>
            if r.2 ≠ 0 then none else some r.1
        else some r.1
      loaded.bind fun s =>
        let mapped := roundup (g.filesz + prepad) - prepad
        if g.memsz > mapped then
          (doMmapPages c (fun _ => true) (g.vaddr + mapped)
              (g.memsz - mapped) g.prot (flags ||| MAP_ANONYMOUS) none 0
              s).bind fun r =>
            if r.2 ≠ g.vaddr + mapped then none else some r.1
        else some s

/-- `load_elf`, with the segments in the order in which it goes through
them. -/
def loadElf (segs : List Segment) (s : Vm) : Option Vm :=
  segs.foldlM (fun s g => loadSegment c g s) s

/-- The state in which the program starts. -/
def start (segs : List Segment) : Option Vm :=
  (pkVmInit c).bind (loadElf c segs)

/-! ## Runs -/

/-- The operations, with what the files give. -/
inductive Op where
  | mmap (io : ℕ → Bool) (addr length : Addr) (prot flags : BitVec 32)
      (file : Option ℕ) (offset : Addr)
  | munmap (addr length : Addr)
  | brk (addr : Addr)
  | mprotect (addr length : Addr) (prot : BitVec 32)
  | fault (io : ℕ → Bool) (vaddr : Addr) (prot : BitVec 32)

/-- An operation that the kernel survives; a page fault that is not
handled ends the program. -/
def Op.run (s : Vm) : Op → Option Vm
  | .mmap io addr length prot flags file offset =>
    (doMmap c io addr length prot flags file offset s).map Prod.fst
  | .munmap addr length => (doMunmap c addr length s).map Prod.fst
  | .brk addr => (doBrk c addr s).map Prod.fst
  | .mprotect addr length prot =>
    (doMprotect addr length prot s).map Prod.fst
  | .fault io vaddr prot =>
    (handlePageFault c io vaddr prot s).bind fun r =>
      if r.2 then some r.1 else none

/-- One operation of a kernel that may have stopped. -/
def step (o : Option Vm) (op : Op) : Option Vm := o.bind (op.run c)

end ArianeSoc.Pk.Mmap
