import ArianeSoc.Pk.Mmap.AddressSpace
import ArianeSoc.Pk.Mmap.Tables
import Mathlib.Tactic.Common

/-!
# What `mmap` returns

`do_mmap` should either fail and leave every mapping alone, or return the
address of a range of user memory that holds the new region and nothing
else (`MmapLaw`).

It does so if and only if the request can be met where the code puts it
(`Works`).  There are two ways to go wrong.

* A request without `MAP_FIXED` that user memory cannot hold gets a place
  that is not in user memory, since the end of the search wraps.
* The kernel stops at a `kassert`, because there is no page for a table or
  the file of a region that is populated at once cannot be read.
-/

namespace ArianeSoc.Pk.Mmap

variable {c : Config} {s s' : Vm}

/-! ## The law -/

/-- The pages of `[a, a + length)`. -/
def InRange (a length : Addr) (k : ℕ) : Prop :=
  pageOf a ≤ k ∧ k < pageOf a + pageCount length

/-- The region is at `a`, its pages and no others are mapped to it, and
without `MAP_FIXED` they were free. -/
structure Mapping (c : Config) (length : Addr) (prot flags : BitVec 32)
    (file : Option ℕ) (offset a : Addr) (s s' : Vm) : Prop where
  aligned : a.toNat % 4096 = 0
  below : a.toNat + length.toNat ≤ c.mmapMax.toNat
  region : ∃ v, s'.regions v = ⟨a, length, file, offset, 0, prot⟩ ∧
    (∀ k, InRange a length k → s'.pte k = newPage c prot flags v k) ∧
    (∀ k, ¬ InRange a length k → s'.pte k = s.pte k ∧ s.pte k ≠ .lazy v) ∧
    ∀ u, u ≠ v → s'.regions u = s.regions u
  free : flags &&& MAP_FIXED = 0 → ∀ k, InRange a length k →
    s.pte k = .zero

/-- A request returns; it fails and changes no mapping, or it maps the new
region. -/
def MmapLaw (c : Config) (io : ℕ → Bool) (addr length : Addr)
    (prot flags : BitVec 32) (file : Option ℕ) (offset : Addr) (s : Vm) :
    Prop :=
  ∃ s' r, doMmap c io addr length prot flags file offset s = some (s', r) ∧
    (IsError r ∧ s'.pte = s.pte ∧ s'.regions = s.regions ∨
      Mapping c length prot flags (requestFile flags file) offset r s s')

/-! ## When it holds -/

/-- There are pages for the missing tables, and the file can be read where
it has to be. -/
structure Backed (c : Config) (io : ℕ → Bool) (length : Addr)
    (flags : BitVec 32) (file : Option ℕ) (s : Vm) (a : Addr) : Prop where
  tables : Affords c s.pool (rangeTables (pageOf a) (pageCount length))
  readable : Readable c io file flags a length

/-- A search beyond user memory comes to nothing: there is no place, or no
descriptor for it. -/
def GivesUp (c : Config) (length : Addr) (s : Vm) : Prop :=
  vmAlloc c ((length - 1) / 4096 + 1) s = some 0 ∨
    (vmAlloc c ((length - 1) / 4096 + 1) s).isSome ∧ NoDescriptor s

/-- A request that is handed on is backed at its place, if it has one and a
descriptor. -/
def Works (c : Config) (io : ℕ → Bool) (addr length : Addr)
    (flags : BitVec 32) (file : Option ℕ) (offset : Addr) (s : Vm) : Prop :=
  Accepted length flags file offset →
    if flags &&& MAP_FIXED ≠ 0 then
      InUser c addr length → NoDescriptor s ∨
        Backed c io length flags (requestFile flags file) s addr
    else if Holdable c length then
      ∀ a, a ≠ 0 → FirstFit c s length a → NoDescriptor s ∨
        Backed c io length flags (requestFile flags file) s a
    else GivesUp c length s

/-! ## Requests by their place -/

/-- The states of a kernel that has booted. -/
structure Ready (c : Config) (s : Vm) : Prop where
  inv : Inv c s
  up : s.pool.vmrsUp = true
  within : Within c s.pool

section Place

variable {io : ℕ → Bool} {addr length : Addr} {prot flags : BitVec 32}
  {file : Option ℕ} {offset : Addr}

theorem doMmapPages_noPlace
    (h : place c addr length flags s = some none) :
    doMmapPages c io addr length prot flags file offset s =
      some (s, FAILED) := by
  unfold doMmapPages
  rw [h, Option.bind_some]

theorem doMmapPages_noDescriptor (prot : BitVec 32) {a : Addr} (hup : s.pool.vmrsUp = true)
    (h : place c addr length flags s = some (some a))
    (hno : NoDescriptor s) :
    ∃ t, doMmapPages c io addr length prot flags file offset s =
      some (t, FAILED) ∧ Unchanged s t := by
  obtain ⟨t, o, ht, ho⟩ := vmrAlloc_exists (c := c) hup a length file offset
    (((length - 1) / 4096 + 1).setWidth 32) prot
  obtain rfl := ho.mpr hno
  obtain ⟨hpte, hbreaks, -, hnone, -⟩ := vmrAlloc_some ht
  unfold doMmapPages
  rw [h, Option.bind_some]
  dsimp only
  rw [ht]
  exact ⟨t, rfl, hpte, (hnone rfl).1, hbreaks⟩

/-- With a place and a descriptor, the request comes to its end if and only
if it is backed. -/
theorem doMmapPages_isSome_iff (prot : BitVec 32) (offset : Addr)
    {a : Addr} (h : Ready c s)
    (hplace : place c addr length flags s = some (some a))
    (hu : InUser c a length) (hdesc : ¬ NoDescriptor s) :
    (doMmapPages c io addr length prot flags file offset s).isSome ↔
      Backed c io length flags file s a := by
  obtain ⟨t, o, ht, ho⟩ := vmrAlloc_exists (c := c) h.up a length file
    offset (((length - 1) / 4096 + 1).setWidth 32) prot
  obtain ⟨v, rfl⟩ := Option.ne_none_iff_exists'.mp fun hz =>
    hdesc (ho.mp hz)
  obtain ⟨hpte, -, hpool, -, hsome⟩ := vmrAlloc_some ht
  obtain ⟨-, hfree, hvmr⟩ := hsome v rfl
  rw [vmrPage_up h.up] at hpool
  have hpool := Option.some.inj hpool
  have hmax := mmapMax_le c
  have hbelow := hu.below
  have hself : t.vmr v = ⟨a, length, file, offset,
      ((length - 1) / 4096 + 1).setWidth 32, prot⟩ := by
    rw [hvmr, Function.update_self]
  have hcount := counted_vmrAlloc h.inv.counted hfree hpte hvmr
  dsimp only at hcount
  rw [refcnt_toNat (by unfold pageCount; omega)] at hcount
  have hwalk : walkPages c (pageOf a) (pageCount length) t.pool =
      makeTables c (rangeTables (pageOf a) (pageCount length)) s.pool := by
    rw [← hpool]
    exact walkPages_eq h.within _ _
  have heq : doMmapPages c io addr length prot flags file offset s =
      (mapPages c io v a length prot flags t).map fun s => (s, a) := by
    unfold doMmapPages
    rw [hplace, Option.bind_some]
    dsimp only
    rw [ht]
    rfl
  rw [heq, Option.isSome_map, Option.isSome_iff_exists]
  constructor
  · intro hex
    obtain ⟨u, hmap⟩ := hex
    obtain ⟨hq, -, -, -, hread⟩ := mapPages_some hu hcount
      (by rw [hself]) hmap
    rw [hself] at hread
    refine ⟨?_, hread⟩
    rw [hwalk, makeTables] at hq
    split_ifs at hq with hafford
    exact hafford
  · intro hb
    rw [makeTables, if_pos hb.tables] at hwalk
    refine mapPages_exists hu hcount (by rw [hself]) hwalk ?_
    rw [hself]
    exact hb.readable

/-- A new region is a mapping. -/
theorem NewRegion.mapping {a : Addr} {v : ℕ} (h : Inv c s)
    (hr : NewRegion c io length prot flags file offset a v s s')
    (hfree : flags &&& MAP_FIXED = 0 →
      Window s (pageCount length) (pageOf a)) :
    Mapping c length prot flags file offset a s s' where
  aligned := hr.user.aligned
  below := hr.user.below
  region := by
    refine ⟨v, ?_, fun k hk => ?_, fun k hk => ⟨?_, fun hv => ?_⟩,
      fun u hu => ?_⟩
    · rw [hr.regions, Function.update_self]
    · rw [hr.pte, fillPages_of_mem hk.1 hk.2]
    · rw [hr.pte, fillPages_of_notMem hk]
    · exact refcnt_ne_zero h hv hr.free.2
    · rw [hr.regions, Function.update_of_ne hu]
  free hf k hk := by
    have hk' := hfree hf (k - pageOf a) (by
      have hlt := hk.2
      have hle := hk.1
      omega)
    rw [Nat.add_sub_cancel' hk.1] at hk'
    exact hk'

/-- `MmapLaw` of `__do_mmap`, for a file that has been looked up. -/
def PagesLaw (c : Config) (io : ℕ → Bool) (addr length : Addr)
    (prot flags : BitVec 32) (file : Option ℕ) (offset : Addr) (s : Vm) :
    Prop :=
  ∃ t r, doMmapPages c io addr length prot flags file offset s =
      some (t, r) ∧
    (IsError r ∧ t.pte = s.pte ∧ t.regions = s.regions ∨
      Mapping c length prot flags file offset r s t)

theorem pagesLaw_of_failed {t : Vm} (hu : Unchanged s t)
    (h : doMmapPages c io addr length prot flags file offset s =
      some (t, FAILED)) :
    PagesLaw c io addr length prot flags file offset s := by
  refine ⟨t, FAILED, h, .inl ⟨.inr (.inr rfl), hu.pte, ?_⟩⟩
  unfold Vm.regions
  rw [hu.vmr]

/-- With a place, the law holds if and only if there is no descriptor or
the place is backed. -/
theorem pagesLaw_placed_iff {a : Addr} (h : Ready c s)
    (hproper : Proper c s length flags)
    (hplace : place c addr length flags s = some (some a))
    (hfree : flags &&& MAP_FIXED = 0 →
      Window s (pageCount length) (pageOf a)) :
    PagesLaw c io addr length prot flags file offset s ↔
      NoDescriptor s ∨ Backed c io length flags file s a := by
  by_cases hdesc : NoDescriptor s
  · refine iff_of_true ?_ (.inl hdesc)
    obtain ⟨t, ht, hu⟩ := doMmapPages_noDescriptor (c := c) prot h.up
      hplace hdesc
    exact pagesLaw_of_failed hu ht
  · rw [or_iff_right hdesc, ← doMmapPages_isSome_iff prot offset h hplace
      (place_inUser hproper hplace) hdesc]
    constructor
    · intro hlaw
      obtain ⟨t, r, ht, -⟩ := hlaw
      rw [ht]
      rfl
    · intro hsome
      obtain ⟨⟨t, r⟩, ht⟩ := Option.isSome_iff_exists.mp hsome
      rcases doMmapPages_cases hproper h.inv.counted ht with
        ⟨rfl, hu⟩ | ⟨v, hr, hn⟩
      · exact pagesLaw_of_failed hu ht
      · obtain rfl : a = r :=
          Option.some.inj (Option.some.inj (hplace.symm.trans hr))
        exact ⟨t, a, ht, .inr (hn.mapping h.inv hfree)⟩

/-! ## Searches beyond user memory -/

theorem scanDown_aligned (first : Addr) (n : ℕ) {a : Addr}
    (h : a.toNat % 4096 = 0) : (scanDown s first n a).toNat % 4096 = 0 := by
  induction n generalizing a with
  | zero => exact h
  | succ n ih =>
    unfold scanDown
    split_ifs
    · refine ih ?_
      rw [BitVec.toNat_sub, show (4096 : Addr).toNat = 4096 from rfl]
      omega
    · exact h

theorem vmAllocLoop_aligned {npage stop r : Addr} {n : ℕ} {a : Addr}
    (h : a.toNat % 4096 = 0)
    (hr : vmAllocLoop s npage stop n a = some r) : r.toNat % 4096 = 0 := by
  have hnext : ∀ b : Addr, b.toNat % 4096 = 0 →
      (b + 4096).toNat % 4096 = 0 := by
    intro b hb
    rw [BitVec.toNat_add, show (4096 : Addr).toNat = 4096 from rfl]
    omega
  induction n generalizing a with
  | zero => cases hr
  | succ n ih =>
    have hlast : (a + (npage - 1) * 4096).toNat % 4096 = 0 := by
      rw [BitVec.toNat_add, BitVec.toNat_mul,
        show (4096 : Addr).toNat = 4096 from rfl]
      omega
    have hscan := scanDown_aligned (s := s) a
      (((a + (npage - 1) * 4096).toNat - a.toNat) / 4096) hlast
    unfold vmAllocLoop at hr
    dsimp only at hr
    split_ifs at hr
    · exact ih (hnext _ h) hr
    · exact ih (hnext _ hscan) hr
    · cases hr
      exact hscan
    · cases hr
      rfl

/-- Errors are no addresses of pages. -/
theorem IsError.not_aligned {r : Addr} (h : IsError r) :
    r.toNat % 4096 ≠ 0 := by
  rcases h with rfl | rfl | rfl <;> decide

/-- No mapping has the place that such a search may find. -/
theorem holdable_of_mapping {a : Addr} (hz : a ≠ 0)
    (h : Mapping c length prot flags file offset a s s') :
    Holdable c length := by
  have haligned := h.aligned
  have hbelow := h.below
  have hpos : a.toNat ≠ 0 := fun h => hz (BitVec.eq_of_toNat_eq h)
  unfold Holdable pageCount
  omega

theorem place_unfixed (addr length : Addr)
    (hf : flags &&& MAP_FIXED = 0) :
    place c addr length flags s =
      (vmAlloc c ((length - 1) / 4096 + 1) s).map fun a =>
        if a = 0 then none else some a := by
  unfold place
  rw [if_neg (not_not.mpr hf)]

theorem doMmapPages_givesUp (addr : Addr) (h : Ready c s) (hf : flags &&& MAP_FIXED = 0)
    (hg : GivesUp c length s) :
    ∃ t, doMmapPages c io addr length prot flags file offset s =
      some (t, FAILED) ∧ Unchanged s t := by
  have hplace := place_unfixed (c := c) (s := s) addr length hf
  rcases hg with hzero | ⟨hsome, hdesc⟩
  · rw [hzero, Option.map_some, if_pos rfl] at hplace
    exact ⟨s, doMmapPages_noPlace hplace, Unchanged.refl s⟩
  · obtain ⟨a, ha⟩ := Option.isSome_iff_exists.mp hsome
    rw [ha, Option.map_some] at hplace
    split_ifs at hplace
    · exact ⟨s, doMmapPages_noPlace hplace, Unchanged.refl s⟩
    · exact doMmapPages_noDescriptor prot h.up hplace hdesc

/-- The requests that end in user memory, if they end. -/
def Tame (c : Config) (length : Addr) (flags : BitVec 32) (s : Vm) : Prop :=
  NoDescriptor s ∨ flags &&& MAP_FIXED ≠ 0 ∨ Holdable c length ∨
    GivesUp c length s

/-- The place of a request: the one asked for, or the first fit. -/
def Placed (c : Config) (addr length : Addr) (flags : BitVec 32) (s : Vm)
    (a : Addr) : Prop :=
  if flags &&& MAP_FIXED ≠ 0 then a = addr
  else a ≠ 0 ∧ FirstFit c s length a

/-- Such a request changes nothing or makes a region at its place. -/
theorem doMmapPages_tame {r : Addr} (h : Ready c s) (hlen : length ≠ 0)
    (ht : Tame c length flags s)
    (hr : doMmapPages c io addr length prot flags file offset s =
      some (s', r)) :
    r = FAILED ∧ Unchanged s s' ∨
      ¬ NoDescriptor s ∧ Placed c addr length flags s r ∧
        ∃ v, NewRegion c io length prot flags file offset r v s s' := by
  by_cases hproper : flags &&& MAP_FIXED ≠ 0 ∨ Holdable c length
  · have hp : Proper c s length flags :=
      ⟨fun _ => hlen, fun hf => hproper.resolve_left (not_not.mpr hf),
        h.inv.brk_aligned⟩
    refine (doMmapPages_cases hp h.inv.counted hr).imp_right fun hnew => ?_
    obtain ⟨v, hplace, hn⟩ := hnew
    refine ⟨fun hno => hno v hn.free.1 hn.free.2, ?_, v, hn⟩
    unfold Placed
    split_ifs with hf
    · rw [place_fixed hf] at hplace
      have hplace := Option.some.inj hplace
      split_ifs at hplace
      exact (Option.some.inj hplace).symm
    · rw [not_not] at hf
      obtain ⟨o, ho, hall⟩ := place_search hf hlen (hp.holdable hf)
        h.inv.brk_aligned addr
      rw [hplace] at ho
      exact (hall r).mp (Option.some.inj ho).symm
  · rw [not_or, not_not] at hproper
    refine .inl ?_
    rcases ht with hno | hf | hfit | hg
    · cases hplace : place c addr length flags s with
      | none =>
        unfold doMmapPages at hr
        rw [hplace] at hr
        cases hr
      | some o =>
        cases o with
        | none =>
          rw [doMmapPages_noPlace hplace] at hr
          cases hr
          exact ⟨rfl, Unchanged.refl s⟩
        | some a =>
          obtain ⟨t, ht, hu⟩ := doMmapPages_noDescriptor (c := c) prot h.up
            hplace hno
          rw [ht] at hr
          cases hr
          exact ⟨rfl, hu⟩
    · exact absurd hproper.1 hf
    · exact absurd hfit hproper.2
    · obtain ⟨t, ht, hu⟩ := doMmapPages_givesUp addr h hproper.1 hg
      rw [ht] at hr
      cases hr
      exact ⟨rfl, hu⟩

theorem pagesLaw_unholdable_iff (h : Ready c s)
    (hf : flags &&& MAP_FIXED = 0) (hbig : ¬ Holdable c length) :
    PagesLaw c io addr length prot flags file offset s ↔
      GivesUp c length s := by
  constructor
  · intro hlaw
    obtain ⟨t, r, ht, hcases⟩ := hlaw
    have hplace := place_unfixed (c := c) (s := s) addr length hf
    cases ha : vmAlloc c ((length - 1) / 4096 + 1) s with
    | none =>
      rw [ha, Option.map_none] at hplace
      unfold doMmapPages at ht
      rw [hplace] at ht
      cases ht
    | some a =>
      by_cases hz : a = 0
      · exact .inl (by rw [ha, hz])
      by_cases hdesc : NoDescriptor s
      · exact .inr ⟨by rw [ha]; rfl, hdesc⟩
      rw [ha, Option.map_some, if_neg hz] at hplace
      have haligned : a.toNat % 4096 = 0 :=
        vmAllocLoop_aligned h.inv.brk_aligned ha
      obtain ⟨u, o, hu, ho⟩ := vmrAlloc_exists (c := c) h.up a length
        file offset (((length - 1) / 4096 + 1).setWidth 32) prot
      obtain ⟨v, rfl⟩ := Option.ne_none_iff_exists'.mp fun hnone =>
        hdesc (ho.mp hnone)
      unfold doMmapPages at ht
      rw [hplace, Option.bind_some] at ht
      dsimp only at ht
      rw [hu, Option.bind_some] at ht
      obtain ⟨w, -, ht⟩ := Option.map_eq_some_iff.mp ht
      cases ht
      rcases hcases with herr | hmap
      · exact absurd haligned herr.1.not_aligned
      · exact absurd (holdable_of_mapping hz hmap) hbig
  · intro hg
    obtain ⟨t, ht, hu⟩ := doMmapPages_givesUp addr h hf hg
    exact pagesLaw_of_failed hu ht

/-! ## Every request -/

theorem pagesLaw_iff (h : Ready c s) (hlen : length ≠ 0) :
    PagesLaw c io addr length prot flags file offset s ↔
      if flags &&& MAP_FIXED ≠ 0 then
        InUser c addr length → NoDescriptor s ∨
          Backed c io length flags file s addr
      else if Holdable c length then
        ∀ a, a ≠ 0 → FirstFit c s length a → NoDescriptor s ∨
          Backed c io length flags file s a
      else GivesUp c length s := by
  split_ifs with hf hfit
  · have hplace := place_fixed (c := c) hf addr length s
    by_cases hu : InUser c addr length
    · rw [if_pos hu] at hplace
      rw [forall_prop_of_true hu]
      exact pagesLaw_placed_iff h (Proper.of_fixed h.inv hf) hplace
        fun hz => absurd hz hf
    · rw [if_neg hu] at hplace
      refine iff_of_true ?_ fun hu' => absurd hu' hu
      exact pagesLaw_of_failed (Unchanged.refl s)
        (doMmapPages_noPlace hplace)
  · rw [not_not] at hf
    have hproper : Proper c s length flags :=
      ⟨fun _ => hlen, fun _ => hfit, h.inv.brk_aligned⟩
    obtain ⟨o, hplace, ho⟩ := place_search hf hlen hfit h.inv.brk_aligned
      addr
    cases o with
    | none =>
      refine iff_of_true ?_ fun a hz ha => ?_
      · exact pagesLaw_of_failed (Unchanged.refl s)
          (doMmapPages_noPlace hplace)
      · exact absurd ((ho a).mpr ⟨hz, ha⟩) nofun
    | some a =>
      obtain ⟨hz, hfirst⟩ := (ho a).mp rfl
      rw [pagesLaw_placed_iff h hproper hplace fun _ => hfirst.1.free]
      refine ⟨fun hb b hz' hb' => ?_, fun hall => hall a hz hfirst⟩
      obtain rfl : a = b := Option.some.inj ((ho b).mpr ⟨hz', hb'⟩)
      exact hb
  · exact pagesLaw_unholdable_iff h (not_not.mp hf) hfit

theorem mmapLaw_accepted (h : Accepted length flags file offset) :
    MmapLaw c io addr length prot flags file offset s ↔
      PagesLaw c io addr length prot flags (requestFile flags file) offset
        s := by
  have hsame : ∀ t r, (lowerMax r t).pte = t.pte ∧
      (lowerMax r t).regions = t.regions := by
    intro t r
    refine ⟨lowerMax_pte r t, ?_⟩
    unfold Vm.regions
    rw [lowerMax_vmr]
  unfold MmapLaw PagesLaw
  rw [doMmap_accepted h]
  constructor
  · intro hlaw
    obtain ⟨s', r, hs', hlaw⟩ := hlaw
    obtain ⟨⟨t, r'⟩, ht, heq⟩ := Option.map_eq_some_iff.mp hs'
    cases heq
    obtain ⟨hpte, hregions⟩ := hsame t r'
    dsimp only at hlaw
    rw [hpte, hregions] at hlaw
    refine ⟨t, r', ht, hlaw.imp_right fun hmap => ?_⟩
    refine ⟨hmap.aligned, hmap.below, ?_, hmap.free⟩
    rw [← hpte, ← hregions]
    exact hmap.region
  · intro hlaw
    obtain ⟨t, r, ht, hlaw⟩ := hlaw
    obtain ⟨hpte, hregions⟩ := hsame t r
    refine ⟨lowerMax r t, r, by rw [ht]; rfl, ?_⟩
    rw [hpte, hregions]
    refine hlaw.imp_right fun hmap => ?_
    refine ⟨hmap.aligned, hmap.below, ?_, hmap.free⟩
    rw [hpte, hregions]
    exact hmap.region

theorem mmapLaw_iff (h : Ready c s) :
    MmapLaw c io addr length prot flags file offset s ↔
      Works c io addr length flags file offset s := by
  unfold Works
  by_cases hacc : Accepted length flags file offset
  · rw [forall_prop_of_true hacc, mmapLaw_accepted hacc]
    exact pagesLaw_iff h hacc.length_ne
  · refine iff_of_true ?_ fun ha => absurd ha hacc
    obtain ⟨r, hr, heq⟩ := doMmap_rejected (c := c) (s := s) hacc
    exact ⟨s, r, heq, .inl ⟨hr, rfl, rfl⟩⟩

end Place

/-! ## Every run -/

/-- The law for the operation that a state meets. -/
def Lawful (c : Config) (s : Vm) : Op → Prop
  | .mmap io addr length prot flags file offset =>
    MmapLaw c io addr length prot flags file offset s
  | _ => True

/-- The condition for the operation that a state meets. -/
def Met (c : Config) (s : Vm) : Op → Prop
  | .mmap io addr length _ flags file offset =>
    Works c io addr length flags file offset s
  | _ => True

theorem start_ready {segs : List Segment} (h : start c segs = some s) :
    Ready c s :=
  ⟨start_inv h, (start_pool h).1, (start_pool h).2⟩

theorem lawful_iff (h : Ready c s) (op : Op) :
    Lawful c s op ↔ Met c s op := by
  cases op with
  | mmap io addr length prot flags file offset => exact mmapLaw_iff h
  | munmap addr length => exact Iff.rfl
  | brk addr => exact Iff.rfl
  | mprotect addr length prot => exact Iff.rfl
  | fault io vaddr prot => exact Iff.rfl

/-- The operations whose pages end in user memory, if they end. -/
def Op.Tame (c : Config) (s : Vm) : Op → Prop
  | .mmap _ _ length _ flags file offset =>
    Accepted length flags file offset → Mmap.Tame c length flags s
  | _ => True

theorem Ready.run {op : Op} (h : Ready c s) (ht : op.Tame c s)
    (hr : op.run c s = some s') : Ready c s' := by
  have hgrows := run_grows hr
  refine ⟨?_, hgrows.up h.up, hgrows.within h.within⟩
  cases op with
  | mmap io addr length prot flags file offset =>
    obtain ⟨⟨t, r⟩, hm, rfl⟩ := Option.map_eq_some_iff.mp hr
    rcases doMmap_cases hm with ⟨-, rfl⟩ | ⟨hacc, u, rfl, hu⟩
    · exact h.inv
    · rcases doMmapPages_tame h hacc.length_ne (ht hacc) hu with
        ⟨-, hsame⟩ | ⟨-, -, v, hn⟩
      · exact (h.inv.unchanged hsame).lowerMax r
      · exact (h.inv.newRegion hn).lowerMax r
  | munmap addr length => exact h.inv.run (by trivial) hr
  | brk addr => exact h.inv.run (by trivial) hr
  | mprotect addr length prot => exact h.inv.run (by trivial) hr
  | fault io vaddr prot => exact h.inv.run (by trivial) hr

theorem tame_of_met {op : Op} (h : Met c s op) : op.Tame c s := by
  cases op with
  | mmap io addr length prot flags file offset =>
    intro hacc
    have hw := h hacc
    split_ifs at hw with hf hfit
    · exact .inr (.inl hf)
    · exact .inr (.inr (.inl hfit))
    · exact .inr (.inr (.inr hw))
  | munmap addr length => trivial
  | brk addr => trivial
  | mprotect addr length prot => trivial
  | fault io vaddr prot => trivial

/-- In every run, every `mmap` obeys the law if and only if every one meets
its condition. -/
theorem mmap_lawful_iff (c : Config) (segs : List Segment)
    (ops : List Op) :
    Sync.Along (step c) (fun o op => ∀ s, o = some s → Lawful c s op)
        (start c segs) ops ↔
      Sync.Along (step c) (fun o op => ∀ s, o = some s → Met c s op)
        (start c segs) ops := by
  have hstart : ∀ s, start c segs = some s → Ready c s :=
    fun s hs => start_ready hs
  have hkeep : ∀ o op, (∀ s, o = some s → Met c s op) →
      (∀ s, o = some s → Ready c s) →
      ∀ s, step c o op = some s → Ready c s := by
    intro o op hmet ho s' hs'
    obtain ⟨s, rfl, hr⟩ := Option.bind_eq_some_iff.mp hs'
    exact (ho s rfl).run (tame_of_met (hmet s rfl)) hr
  have hiff : ∀ o op, (∀ s, o = some s → Ready c s) →
      ((∀ s, o = some s → Lawful c s op) ↔
        ∀ s, o = some s → Met c s op) := by
    intro o op ho
    refine forall_congr' fun s => ?_
    exact imp_congr_right fun hs => lawful_iff (ho s hs) op
  constructor
  · intro h
    refine (h.along (P := fun o => ∀ s, o = some s → Ready c s)
      (fun o op hlaw ho => ?_) hstart).mono fun o op hboth => ?_
    · exact hkeep o op ((hiff o op ho).mp hlaw) ho
    · exact (hiff o op hboth.2).mp hboth.1
  · intro h
    refine (h.along (P := fun o => ∀ s, o = some s → Ready c s) hkeep
      hstart).mono fun o op hboth => ?_
    exact (hiff o op hboth.2).mpr hboth.1

/-- A request for 49 pages, one more than the board has for the user, is
answered with the address of `mmap_max`. -/
theorem mmap_beyond_mmapMax :
    ¬ ∀ (c : Config) (segs : List Segment) (ops : List Op),
      Sync.Along (step c) (fun o op => ∀ s, o = some s → Lawful c s op)
        (start c segs) ops := by
  intro h
  have hrun : ((start smallBoard [smallProgram]).bind
      ((Op.brk 0).run smallBoard)).bind (fun s =>
        (doMmap smallBoard (fun _ => true) 0 (49 * 4096) 3
          (MAP_PRIVATE ||| MAP_ANONYMOUS ||| 0) none 0 s).map Prod.snd) =
      some 0x30000 := by decide +kernel
  obtain ⟨s, hs, hrun⟩ := Option.bind_eq_some_iff.mp hrun
  obtain ⟨⟨t, r⟩, ht, hr⟩ := Option.map_eq_some_iff.mp hrun
  have hlaw := (h smallBoard [smallProgram]
    [.brk 0, anonymous 0 (49 * 4096) 3 0]).2.1 s hs
  obtain ⟨t', r', ht', hcases⟩ := hlaw
  rw [ht] at ht'
  obtain rfl : r = r' := congrArg Prod.snd (Option.some.inj ht')
  dsimp only at hr
  subst hr
  rcases hcases with herr | hmap
  · exact herr.1.not_aligned (by decide)
  · exact absurd hmap.below (by decide +kernel)

end ArianeSoc.Pk.Mmap
