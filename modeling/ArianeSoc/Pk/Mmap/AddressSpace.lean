import ArianeSoc.Pk.Mmap.Cases
import ArianeSoc.Pk.Mmap.Place
import ArianeSoc.Sync
import Mathlib.Tactic.Common

/-!
# The address space through any run

Which entries the page table may hold, and that every operation keeps to
them.  A populated user page `k` has the frame `k + first_free_paddr/4096`,
a page that is not populated points to a descriptor that counts its pages,
and both kinds lie below `mmap_max`.

`Inv` is the invariant.  The one operation that can break it is a request
without `MAP_FIXED` for more pages than user memory has (`Sane`): the end
of the search wraps, and the pages go to wherever enough are free.

* The invariant and the operations, each with its lemma.
* `start_inv`: the boot and the loader.
* `addressSpace_always`: every state of a run.
-/

namespace ArianeSoc.Pk.Mmap

variable {c : Config} {s s' : Vm}

/-! ## The invariant -/

/-- What may stand at page `k`: an entry that a user program can use, or
one that is not the user's. -/
def EntryOk (c : Config) (k : ℕ) : Pte → Prop
  | .zero => True
  | .lazy v => v < MAX_VMR ∧ 4096 * k < c.mmapMax.toNat
  | .leaf ppn type => type &&& PTE_U ≠ 0 →
      ppn = k + c.firstFreePaddr / 4096 ∧ 4096 * k < c.mmapMax.toNat

structure Inv (c : Config) (s : Vm) : Prop where
  counted : Counted s fun _ => 0
  brk_aligned : s.brk.toNat % 4096 = 0
  entries : ∀ k, EntryOk c k (s.pte k)

theorem lazy_lt (h : Inv c s) {k v : ℕ} (hv : s.pte k = .lazy v) :
    k < 2 ^ 19 := by
  have hk := h.entries k
  rw [hv] at hk
  have hmax := mmapMax_le c
  have hlt := hk.2
  omega

theorem Proper.of_fixed (h : Inv c s) {length : Addr} {flags : BitVec 32}
    (hf : flags &&& MAP_FIXED ≠ 0) : Proper c s length flags :=
  ⟨fun hz => absurd hz hf, fun hz => absurd hz hf, h.brk_aligned⟩

theorem entryOk_userPage {prot : BitVec 32} {k : ℕ}
    (h : 4096 * k < c.mmapMax.toNat) : EntryOk c k (userPage c prot k) :=
  fun _ => ⟨rfl, h⟩

theorem entryOk_newPage {prot flags : BitVec 32} {v k : ℕ}
    (hv : v < MAX_VMR) (h : 4096 * k < c.mmapMax.toNat) :
    EntryOk c k (newPage c prot flags v k) := by
  unfold newPage
  split_ifs
  · exact entryOk_userPage h
  · exact ⟨hv, h⟩

/-- The pages of a range of user memory are below `mmap_max`. -/
theorem InUser.page_lt {a length : Addr} (h : InUser c a length) {k : ℕ}
    (hk : k < pageOf a + pageCount length) : 4096 * k < c.mmapMax.toNat := by
  have ha := h.aligned
  have hb := h.below
  unfold pageOf pageCount at hk
  omega

/-! ## The operations -/

/-- A fixed mapping at a page makes a region. -/
theorem fixed_newRegion {io : ℕ → Bool} {addr length : Addr}
    {prot flags : BitVec 32} {file : Option ℕ} {offset r : Addr}
    (h : Inv c s) (hf : flags &&& MAP_FIXED ≠ 0)
    (ha : r.toNat % 4096 = 0)
    (hr : doMmapPages c io addr length prot flags file offset s =
      some (s', r)) :
    ∃ v, place c addr length flags s = some (some r) ∧
      NewRegion c io length prot flags file offset r v s s' := by
  refine (doMmapPages_cases (Proper.of_fixed h hf) h.counted
    hr).resolve_left fun hfail => ?_
  rw [hfail.1] at ha
  exact absurd ha (by decide)

theorem Inv.newRegion {io : ℕ → Bool} {length : Addr}
    {prot flags : BitVec 32} {file : Option ℕ} {offset a : Addr} {v : ℕ}
    (h : Inv c s)
    (hr : NewRegion c io length prot flags file offset a v s s') :
    Inv c s' := by
  have hbrk : s'.brk = s.brk := congrArg Prod.fst hr.breaks
  refine ⟨hr.counted, by rw [hbrk]; exact h.brk_aligned, fun k => ?_⟩
  rw [hr.pte]
  by_cases hk : pageOf a ≤ k ∧ k < pageOf a + pageCount length
  · rw [fillPages_of_mem hk.1 hk.2]
    exact entryOk_newPage hr.free.1 (hr.user.page_lt hk.2)
  · rw [fillPages_of_notMem hk]
    exact h.entries k

theorem Inv.unchanged (h : Inv c s) (hu : Unchanged s s') : Inv c s' := by
  have hbrk : s'.brk = s.brk := congrArg Prod.fst hu.breaks
  refine ⟨fun v => ?_, by rw [hbrk]; exact h.brk_aligned, fun k => ?_⟩
  · have hv := h.counted v
    unfold Vm.refs at hv ⊢
    rw [hu.pte, hu.vmr]
    exact hv
  · rw [hu.pte]
    exact h.entries k

theorem Inv.doMmapPages {io : ℕ → Bool} {addr length : Addr}
    {prot flags : BitVec 32} {file : Option ℕ} {offset r : Addr}
    (h : Inv c s) (hp : Proper c s length flags)
    (hr : doMmapPages c io addr length prot flags file offset s =
      some (s', r)) : Inv c s' := by
  rcases doMmapPages_cases hp h.counted hr with ⟨-, hu⟩ | ⟨v, -, hn⟩
  · exact h.unchanged hu
  · exact h.newRegion hn

theorem Inv.doMunmapPages {a len : Addr} (h : Inv c s)
    (hr : doMunmapPages a len s = some s') : Inv c s' := by
  obtain ⟨hrel, hpte⟩ := doMunmapPages_some hr
  have hbrk : s'.brk = s.brk := congrArg Prod.fst hrel.breaks
  refine ⟨hrel.counted _ h.counted, by rw [hbrk]; exact h.brk_aligned,
    fun k => ?_⟩
  rcases hpte k with hk | hk
  · rw [hk]
    exact h.entries k
  · rw [hk]
    trivial

theorem Inv.lowerMax (h : Inv c s) (r : Addr) : Inv c (lowerMax r s) := by
  unfold Mmap.lowerMax
  split_ifs
  · exact ⟨h.counted, h.brk_aligned, h.entries⟩
  · exact h

theorem Inv.doMmap {io : ℕ → Bool} {addr length : Addr}
    {prot flags : BitVec 32} {file : Option ℕ} {offset r : Addr}
    (h : Inv c s) (hfit : flags &&& MAP_FIXED = 0 → Holdable c length)
    (hr : doMmap c io addr length prot flags file offset s =
      some (s', r)) : Inv c s' := by
  rcases doMmap_cases hr with ⟨-, rfl⟩ | ⟨hacc, t, rfl, ht⟩
  · exact h
  · exact (h.doMmapPages ⟨fun _ => hacc.length_ne, hfit, h.brk_aligned⟩
      ht).lowerMax r

theorem roundup_aligned (a : Addr) : (roundup a).toNat % 4096 = 0 := by
  unfold roundup
  rw [BitVec.toNat_mul, show (4096 : Addr).toNat = 4096 from rfl]
  omega

theorem Inv.setBrk (h : Inv c s) : Inv c s.setBrk := by
  refine ⟨h.counted, ?_, h.entries⟩
  show s.theBrk.toNat % 4096 = 0
  unfold Vm.theBrk
  split_ifs
  · exact roundup_aligned _
  · exact h.brk_aligned

theorem Inv.doBrk {addr r : Addr} (h : Inv c s)
    (hr : doBrk c addr s = some (s', r)) : Inv c s' := by
  obtain ⟨t, rfl, hmoved⟩ := doBrk_cases hr
  have ht : Inv c t := by
    rcases hmoved with ⟨-, ht⟩ | ⟨-, ht⟩ | ⟨-, rfl⟩
    · exact h.setBrk.doMunmapPages ht
    · exact h.setBrk.doMmapPages (Proper.of_fixed h.setBrk (by decide)) ht
    · exact h.setBrk
  exact ⟨ht.counted, roundup_aligned _, ht.entries⟩

theorem Inv.mprotectPage {prot : BitVec 32} {a : Addr} (h : Inv c s)
    (hr : mprotectPage prot s a = .ok s') : Inv c s' := by
  rcases mprotectPage_cases hr with ⟨v, -, -, rfl⟩ |
    ⟨ppn, type, hl, hu, -, -, -, rfl⟩
  · refine ⟨fun u => ?_, h.brk_aligned, h.entries⟩
    have hcount := h.counted u
    show (Function.update s.vmr v _ u).refcnt.toNat = s.refs u + 0
    by_cases huv : u = v
    · subst huv
      rw [Function.update_self]
      exact hcount
    · rw [Function.update_of_ne huv]
      exact hcount
  · have hentry := h.entries (vpn a)
    rw [hl] at hentry
    refine ⟨h.counted.setPte (vpn_lt a) (fun u => by simp [hl])
      fun u => by simp [pteCreate], h.brk_aligned, fun k => ?_⟩
    rw [setPte_pte]
    by_cases hk : k = vpn a
    · subst hk
      rw [Function.update_self]
      exact fun _ => hentry hu
    · rw [Function.update_of_ne hk]
      exact h.entries k

theorem Inv.doMprotect {addr length : Addr} {prot : BitVec 32} {r : Addr}
    (h : Inv c s) (hr : doMprotect addr length prot s = some (s', r)) :
    Inv c s' :=
  doMprotect_invariant (fun _ _ _ hs hp => hs.mprotectPage hp) h hr

theorem Inv.handlePageFault {io : ℕ → Bool} {vaddr : Addr}
    {prot : BitVec 32} {ok : Bool} (h : Inv c s)
    (hr : handlePageFault c io vaddr prot s = some (s', ok)) :
    Inv c s' := by
  rw [handlePageFault_eq] at hr
  split_ifs at hr with hlt
  · split at hr
    · cases hr
      exact h
    · cases hr
      exact h
    · rename_i v hv
      split_ifs at hr
      cases hr
      have hk := lazy_lt h hv
      have hrel := released_populated (c := c) (by omega) hv
      refine ⟨hrel.counted _ h.counted, h.brk_aligned, fun k => ?_⟩
      show EntryOk c k (Function.update s.pte (pageOf vaddr) _ k)
      by_cases hkv : k = pageOf vaddr
      · subst hkv
        rw [Function.update_self]
        exact entryOk_userPage hlt
      · rw [Function.update_of_ne hkv]
        exact h.entries k
  · cases hr
    exact h

/-- The operations whose requests fit into user memory, if they say nothing
about the place. -/
def Sane (c : Config) : Op → Prop
  | .mmap _ _ length _ flags _ _ =>
    flags &&& MAP_FIXED = 0 → Holdable c length
  | _ => True

instance (c : Config) : (op : Op) → Decidable (Sane c op)
  | .mmap _ _ length _ flags _ _ =>
    inferInstanceAs (Decidable (flags &&& MAP_FIXED = 0 → Holdable c length))
  | .munmap _ _ => inferInstanceAs (Decidable True)
  | .brk _ => inferInstanceAs (Decidable True)
  | .mprotect _ _ _ => inferInstanceAs (Decidable True)
  | .fault _ _ _ => inferInstanceAs (Decidable True)

theorem Inv.run {op : Op} (h : Inv c s) (hsane : Sane c op)
    (hr : op.run c s = some s') : Inv c s' := by
  cases op with
  | mmap io addr length prot flags file offset =>
    obtain ⟨r, hm, rfl⟩ := Option.map_eq_some_iff.mp hr
    exact h.doMmap hsane hm
  | munmap addr length =>
    obtain ⟨r, hm, rfl⟩ := Option.map_eq_some_iff.mp hr
    rcases doMunmap_cases hm with heq | ht
    · rw [heq]
      exact h
    · exact h.doMunmapPages ht
  | brk addr =>
    obtain ⟨r, hm, rfl⟩ := Option.map_eq_some_iff.mp hr
    exact h.doBrk hm
  | mprotect addr length prot =>
    obtain ⟨r, hm, rfl⟩ := Option.map_eq_some_iff.mp hr
    exact h.doMprotect hm
  | fault io vaddr prot => exact h.handlePageFault (fault_cases hr)

/-! ## The boot and the loader -/

theorem cold_inv (c : Config) : Inv c (Vm.cold c) where
  counted v := by
    have hrefs : (Vm.cold c).refs v = 0 :=
      RefCount.refs_eq_zero_iff.mpr fun k _ => Pte.noConfusion
    rw [hrefs]
    rfl
  brk_aligned := rfl
  entries k := trivial

/-- Kernel memory is not the user's. -/
theorem Inv.mapKernelPage {i : ℕ} (h : Inv c s) (hi : i < 2 ^ 20)
    (hr : mapKernelPage c i s = some s') : Inv c s' := by
  obtain ⟨q, -, rfl⟩ := Option.map_eq_some_iff.mp hr
  have hlazy : ∀ u, s.pte (2 ^ 19 + i) ≠ .lazy u := by
    intro u hu
    have hlt := lazy_lt h hu
    omega
  refine ⟨Counted.setPte (s := { s with pool := q }) h.counted (by omega)
    hlazy fun u => by simp [pteCreate], h.brk_aligned, fun k => ?_⟩
  rw [setPte_pte]
  by_cases hk : k = 2 ^ 19 + i
  · subst hk
    rw [Function.update_self]
    exact fun hu => absurd hu (by decide)
  · rw [Function.update_of_ne hk]
    exact h.entries k

theorem firstFreePaddr_le (c : Config) : c.firstFreePaddr ≤ 2 ^ 32 := by
  have h := c.fits
  unfold Config.firstFreePaddr
  omega

theorem pkVmInit_inv (h : pkVmInit c = some s) : Inv c s := by
  unfold pkVmInit at h
  obtain ⟨q, -, h⟩ := Option.bind_eq_some_iff.mp h
  obtain ⟨t, ht, h⟩ := Option.bind_eq_some_iff.mp h
  obtain ⟨⟨u, r⟩, hu, h⟩ := Option.bind_eq_some_iff.mp h
  have hff := firstFreePaddr_le c
  have hcold := cold_inv c
  have hkernel : Inv c t :=
    ForLoop.turns_invariant (P := fun _ s => Inv c s)
      (s := { Vm.cold c with pool := q })
      ⟨hcold.counted, hcold.brk_aligned, hcold.entries⟩
      (fun i hi s s' hs hr => hs.mapKernelPage (by omega) hr) ht
  have hstack := hkernel.doMmapPages
    (Proper.of_fixed hkernel (by decide)) hu
  split_ifs at h
  obtain ⟨q', -, rfl⟩ := Option.map_eq_some_iff.mp h
  exact ⟨hstack.counted, hstack.brk_aligned, hstack.entries⟩

theorem Inv.raiseMin (h : Inv c s) (g : Segment) : Inv c (raiseMin g s) := by
  unfold Mmap.raiseMin
  split_ifs
  · exact ⟨h.counted, h.brk_aligned, h.entries⟩
  · exact h

theorem Inv.loadSegment {g : Segment} (h : Inv c s)
    (hr : loadSegment c g s = some s') : Inv c s' := by
  obtain ⟨t, u, ht, hu, hrest⟩ := loadSegment_cases hr
  have hmin := h.raiseMin g
  have hfile := hmin.doMmapPages (Proper.of_fixed hmin (by decide)) ht
  have hprot : Inv c u := by
    rcases hu with ⟨-, rfl⟩ | hu
    · exact hfile
    · exact hfile.doMprotect hu
  rcases hrest with ⟨-, rfl⟩ | ⟨-, hzeros⟩
  · exact hprot
  · exact hprot.doMmapPages (Proper.of_fixed hprot (by decide)) hzeros

theorem start_inv {segs : List Segment} (h : start c segs = some s) :
    Inv c s := by
  obtain ⟨t, ht, h⟩ := Option.bind_eq_some_iff.mp h
  exact loadElf_invariant (fun _ _ _ hs hr => hs.loadSegment hr)
    (pkVmInit_inv ht) h

/-- The invariant through a run. -/
theorem inv_always {segs : List Segment} {ops : List Op}
    (h : Sync.Along (step c) (fun _ op => Sane c op) (start c segs) ops) :
    Sync.Always (step c) (fun o => ∀ s, o = some s → Inv c s)
      (start c segs) ops := by
  refine h.always (fun o op hsane ho s' hs' => ?_) fun s hs => start_inv hs
  obtain ⟨s, rfl, hr⟩ := Option.bind_eq_some_iff.mp hs'
  exact (ho s rfl).run hsane hr

/-! ## The address space -/

/-- The entries of the user: those of pages that are not populated, and
those with `PTE_U`. -/
def Pte.User : Pte → Prop
  | .zero => False
  | .lazy _ => True
  | .leaf _ type => type &&& PTE_U ≠ 0

/-- The frame of a populated user page. -/
def Pte.Frame (ppn : ℕ) : Pte → Prop
  | .leaf p type => type &&& PTE_U ≠ 0 ∧ p = ppn
  | _ => False

/-- Frames belong to their pages and are none of the kernel's, which end at
`first_free_paddr`; entries that are not populated point to descriptors in
use, which count them; and user pages lie below `mmap_max`. -/
structure AddressSpace (c : Config) (s : Vm) : Prop where
  frame : ∀ k ppn, (s.pte k).Frame ppn → ppn = k + c.firstFreePaddr / 4096
  distinct : ∀ j k ppn, (s.pte j).Frame ppn → (s.pte k).Frame ppn → j = k
  not_kernel : ∀ k ppn, (s.pte k).Frame ppn → c.firstFreePaddr ≤ 4096 * ppn
  live : ∀ k v, s.pte k = .lazy v → v < MAX_VMR ∧ (s.vmr v).refcnt ≠ 0
  counts : ∀ v, (s.vmr v).refcnt.toNat = s.refs v
  reuse : ∀ v, (s.vmr v).refcnt = 0 → ∀ k, s.pte k ≠ .lazy v
  below : ∀ k, (s.pte k).User → 4096 * k < c.mmapMax.toNat

theorem refcnt_ne_zero (h : Inv c s) {k v : ℕ} (hv : s.pte k = .lazy v) :
    (s.vmr v).refcnt ≠ 0 := by
  intro hz
  have hk := lazy_lt h hv
  have hcount := h.counted v
  rw [hz] at hcount
  have hpos : 0 < s.refs v := RefCount.refs_pos (by omega) hv
  have hzero : (0 : BitVec 32).toNat = 0 := rfl
  omega

theorem Inv.addressSpace (h : Inv c s) : AddressSpace c s := by
  have hframe : ∀ k ppn, (s.pte k).Frame ppn →
      ppn = k + c.firstFreePaddr / 4096 := by
    intro k ppn hf
    have hk := h.entries k
    cases hp : s.pte k with
    | zero =>
      rw [hp] at hf
      exact hf.elim
    | lazy v =>
      rw [hp] at hf
      exact hf.elim
    | leaf p type =>
      rw [hp] at hf hk
      obtain ⟨hu, rfl⟩ := hf
      exact (hk hu).1
  refine ⟨hframe, fun j k ppn hj hk => ?_, fun k ppn hf => ?_,
    fun k v hv => ?_, fun v => ?_, fun v hz k hv => refcnt_ne_zero h hv hz,
    fun k hu => ?_⟩
  · have hj' := hframe j ppn hj
    have hk' := hframe k ppn hk
    omega
  · have hk' := hframe k ppn hf
    have haligned := c.firstFree_aligned
    unfold Config.firstFreePaddr at hk' ⊢
    omega
  · have hk := h.entries k
    rw [hv] at hk
    exact ⟨hk.1, refcnt_ne_zero h hv⟩
  · have hv := h.counted v
    rwa [Nat.add_zero] at hv
  · have hk := h.entries k
    cases hp : s.pte k with
    | zero =>
      rw [hp] at hu
      exact hu.elim
    | lazy v =>
      rw [hp] at hk
      exact hk.2
    | leaf p type =>
      rw [hp] at hu hk
      exact (hk hu).2

/-- The address space is in order in every state of a run whose requests
without `MAP_FIXED` fit into user memory. -/
theorem addressSpace_always (c : Config) (segs : List Segment)
    (ops : List Op)
    (h : Sync.Along (step c) (fun _ op => Sane c op) (start c segs) ops) :
    Sync.Always (step c) (fun o => ∀ s, o = some s → AddressSpace c s)
      (start c segs) ops :=
  (inv_always h).mono fun _ ho s hs => (ho s hs).addressSpace

/-- A board with 256 KiB of memory: 48 pages for the user. -/
def smallBoard : Config where
  memSize := 0x40000
  firstFreePage := 0x80008000
  demandPaging := true
  firstFree_aligned := by decide
  image_le := by decide
  fits := by decide

/-- A program of two pages. -/
def smallProgram : Segment := ⟨0x1000, 0x1800, 0x2000, 7, by decide⟩

/-- An anonymous mapping. -/
def anonymous (addr length : Addr) (prot flags : BitVec 32) : Op :=
  .mmap (fun _ => true) addr length prot
    (MAP_PRIVATE ||| MAP_ANONYMOUS ||| flags) none 0

/-- The heap grows, a mapping is made, touched and taken away again. -/
theorem addressSpace_smallProgram :
    let ops : List Op := [.brk 0x5000, anonymous 0 0x3000 3 0,
      .fault (fun _ => true) 0x5000 2, .munmap 0x5000 0x3000]
    (Sync.run (step smallBoard) (start smallBoard [smallProgram])
        ops).isSome ∧
      Sync.Always (step smallBoard)
        (fun o => ∀ s, o = some s → AddressSpace smallBoard s)
        (start smallBoard [smallProgram]) ops :=
  ⟨by decide +kernel, addressSpace_always smallBoard [smallProgram] _
    ⟨trivial, by decide +kernel, trivial, trivial, trivial⟩⟩

/-- A request for 49 pages, one more than user memory has, is put at
`mmap_max`. -/
theorem addressSpace_overflows :
    ¬ ∀ (c : Config) (segs : List Segment) (ops : List Op),
      Sync.Always (step c) (fun o => ∀ s, o = some s → AddressSpace c s)
        (start c segs) ops := by
  intro h
  have hall := h smallBoard [smallProgram]
    [.brk 0, anonymous 0 (49 * 4096) 3 0] 2
  have hpte : (Sync.run (step smallBoard) (start smallBoard [smallProgram])
      [.brk 0, anonymous 0 (49 * 4096) 3 0]).map (fun s => s.pte 48) =
      some (.lazy 1) := by decide +kernel
  obtain ⟨s, hs, hpte⟩ := Option.map_eq_some_iff.mp hpte
  have huser : (s.pte 48).User := by
    rw [hpte]
    trivial
  have hbelow := (hall s hs).below 48 huser
  exact absurd hbelow (by decide +kernel)

end ArianeSoc.Pk.Mmap
