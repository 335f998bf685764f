import ArianeSoc.Pk.Mmap.Pages
import Mathlib.Tactic.Common

/-!
# Where a mapping goes

The search of `__vm_alloc` for requests that user memory could hold, and
from it what `__do_mmap` does when it succeeds: one range of pages is
filled with entries of a new region, and nothing else changes
(`doMmapPages_cases`).

The end of the search is `mmap_max - npage*RISCV_PGSIZE`, which wraps for a
longer request.
-/

namespace ArianeSoc.Pk.Mmap

variable {c : Config} {s : Vm}

/-! ## The search -/

theorem vaAvail_pageAddr {k : ℕ} (h : k < 2 ^ 27) :
    vaAvail s (pageAddr k) = decide (s.pte k = .zero) := by
  unfold vaAvail
  rw [vpn_pageAddr h]

theorem pageAddr_add (k : ℕ) : pageAddr k + 4096 = pageAddr (k + 1) := by
  unfold pageAddr
  rw [Nat.mul_succ, BitVec.ofNat_add]
  rfl

theorem pageAddr_sub (k : ℕ) : pageAddr (k + 1) - 4096 = pageAddr k := by
  rw [← pageAddr_add, BitVec.add_sub_cancel]

theorem pageAddr_lt {j k : ℕ} (hj : j < 2 ^ 52) (hk : k < 2 ^ 52) :
    pageAddr j < pageAddr k ↔ j < k := by
  rw [BitVec.lt_def, pageAddr_toNat hj, pageAddr_toNat hk]
  omega

/-- The inner loop stops at the last page of the run that is in use, or at
its first page. -/
theorem scanDown_spec {p n : ℕ} (h : p + n < 2 ^ 27) :
    ∃ m, m ≤ n ∧
      scanDown s (pageAddr p) n (pageAddr (p + n)) = pageAddr (p + m) ∧
      (0 < m → s.pte (p + m) ≠ .zero) ∧
      ∀ j, m < j → j ≤ n → s.pte (p + j) = .zero := by
  induction n with
  | zero =>
    exact ⟨0, Nat.le_refl 0, rfl, fun h₁ => by omega,
      fun j h₁ h₂ => by omega⟩
  | succ n ih =>
    unfold scanDown
    split_ifs with hfree
    · rw [vaAvail_pageAddr h, decide_eq_true_eq] at hfree
      obtain ⟨m, hm, hr, hused, hall⟩ := ih (by omega)
      refine ⟨m, by omega, ?_, hused, fun j h₁ h₂ => ?_⟩
      · rw [← Nat.add_assoc, pageAddr_sub]
        exact hr
      · rcases Nat.le_succ_iff.mp h₂ with h₂ | rfl
        · exact hall j h₁ h₂
        · exact hfree.2
    · refine ⟨n + 1, Nat.le_refl _, rfl, fun _ hz => hfree ?_,
        fun j h₁ h₂ => by omega⟩
      rw [vaAvail_pageAddr h, gt_iff_lt, pageAddr_lt (by omega) (by omega)]
      exact ⟨by omega, decide_eq_true hz⟩

/-- `n` free pages from page `q` on. -/
def Window (s : Vm) (n q : ℕ) : Prop := ∀ i < n, s.pte (q + i) = .zero

/-- What a search from page `p` to the address `stop` finds: the first
window, or that there is none. -/
def Found (s : Vm) (p n : ℕ) (stop r : Addr) : Prop :=
  (∃ q, p ≤ q ∧ 4096 * q ≤ stop.toNat ∧ Window s n q ∧ r = pageAddr q ∧
    ∀ q', p ≤ q' → q' < q → ¬ Window s n q') ∨
  r = 0 ∧ ∀ q, p ≤ q → 4096 * q ≤ stop.toNat → ¬ Window s n q

/-- Pages that no window begins at may be left out. -/
theorem Found.skip {p p' n : ℕ} {stop r : Addr} (h : p ≤ p')
    (hno : ∀ q, p ≤ q → q < p' → ¬ Window s n q)
    (hf : Found s p' n stop r) : Found s p n stop r := by
  rcases hf with ⟨q, hq, hstop, hw, hr, hleast⟩ | ⟨hz, hnone⟩
  · refine .inl ⟨q, by omega, hstop, hw, hr, fun q' h₁ h₂ => ?_⟩
    by_cases hlt : q' < p'
    · exact hno q' h₁ hlt
    · exact hleast q' (by omega) h₂
  · refine .inr ⟨hz, fun q h₁ h₂ => ?_⟩
    by_cases hlt : q < p'
    · exact hno q h₁ hlt
    · exact hnone q (by omega) h₂

theorem vmAllocLoop_spec (npage stop : Addr) (hn : 0 < npage.toNat)
    (hfit : stop.toNat + 4096 * npage.toNat ≤ 2 ^ 31) {n p : ℕ}
    (hp : p < 2 ^ 52) (hpos : 0 < n)
    (hfuel : stop.toNat + 8192 ≤ 4096 * (p + n)) :
    ∃ r, vmAllocLoop s npage stop n (pageAddr p) = some r ∧
      Found s p npage.toNat stop r := by
  induction n generalizing p with
  | zero => exact absurd hpos (Nat.lt_irrefl 0)
  | succ n ih =>
    have haddr := pageAddr_toNat hp
    unfold vmAllocLoop
    by_cases hle : pageAddr p ≤ stop
    · rw [if_pos hle]
      rw [BitVec.le_def] at hle
      -- no window reaches over a page that is in use
      have hnext : ∀ q, p ≤ q → q < p + npage.toNat → s.pte q ≠ .zero →
          ∃ r, vmAllocLoop s npage stop n (pageAddr q + 4096) = some r ∧
            Found s p npage.toNat stop r := by
        intro q h₁ h₂ hused
        rw [pageAddr_add]
        obtain ⟨r, hr, hf⟩ := ih (p := q + 1) (by omega) (by omega)
          (by omega)
        refine ⟨r, hr, hf.skip (by omega) fun q' h₃ h₄ hw => ?_⟩
        have hfree := hw (q - q') (by omega)
        rw [show q' + (q - q') = q by omega] at hfree
        exact hused hfree
      rw [vaAvail_pageAddr (by omega)]
      split_ifs with hused
      · exact hnext p (Nat.le_refl p) (by omega)
          (of_decide_eq_false hused)
      · rw [decide_eq_false_iff_not, not_not] at hused
        have hlast : pageAddr p + (npage - 1) * 4096 =
            pageAddr (p + (npage.toNat - 1)) := by
          apply BitVec.eq_of_toNat_eq
          have hsub : (npage - 1).toNat = npage.toNat - 1 := by
            rw [BitVec.toNat_sub, show (1 : Addr).toNat = 1 from rfl]
            omega
          rw [BitVec.toNat_add, BitVec.toNat_mul, hsub,
            pageAddr_toNat hp, pageAddr_toNat (by omega),
            show (4096 : Addr).toNat = 4096 from rfl]
          omega
        have hcount : ((pageAddr (p + (npage.toNat - 1))).toNat -
            (pageAddr p).toNat) / 4096 = npage.toNat - 1 := by
          rw [pageAddr_toNat hp, pageAddr_toNat (by omega)]
          omega
        obtain ⟨m, hm, hr, hlastUsed, hall⟩ := scanDown_spec (s := s)
          (p := p) (n := npage.toNat - 1) (by omega)
        dsimp only
        rw [hlast, hcount, hr]
        split_ifs with hmore
        · rw [gt_iff_lt, pageAddr_lt hp (by omega)] at hmore
          exact hnext (p + m) (by omega) (by omega) (hlastUsed (by omega))
        · rw [gt_iff_lt, pageAddr_lt hp (by omega)] at hmore
          obtain rfl : m = 0 := by omega
          refine ⟨_, rfl, .inl ⟨p, Nat.le_refl p, by omega, ?_, rfl,
            fun q' h₁ h₂ => by omega⟩⟩
          intro i hi
          rcases Nat.eq_zero_or_pos i with rfl | hi'
          · exact hused
          · exact hall i hi' (by omega)
    · rw [if_neg hle]
      rw [BitVec.le_def] at hle
      exact ⟨0, rfl, .inr ⟨rfl, fun q h₁ h₂ => by omega⟩⟩

/-- Requests that user memory could hold. -/
def Holdable (c : Config) (length : Addr) : Prop :=
  4096 * pageCount length ≤ c.mmapMax.toNat

instance (c : Config) (length : Addr) : Decidable (Holdable c length) :=
  inferInstanceAs (Decidable (_ ≤ _))

theorem npage_toNat {length : Addr} (h : length ≠ 0) :
    ((length - 1) / 4096 + 1).toNat = pageCount length := by
  have hpos : length.toNat ≠ 0 := fun hz => h (BitVec.eq_of_toNat_eq hz)
  have hlt := length.isLt
  have hsub : (length - 1).toNat = length.toNat - 1 := by
    rw [BitVec.toNat_sub, show (1 : Addr).toNat = 1 from rfl]
    omega
  unfold pageCount
  rw [BitVec.toNat_add, BitVec.toNat_udiv, hsub,
    show (1 : Addr).toNat = 1 from rfl,
    show (4096 : Addr).toNat = 4096 from rfl]
  omega

theorem vmAlloc_spec {length : Addr} (hlen : length ≠ 0)
    (hfit : Holdable c length) (hbrk : s.brk.toNat % 4096 = 0) :
    ∃ r, vmAlloc c ((length - 1) / 4096 + 1) s = some r ∧
      Found s (pageOf s.brk) (pageCount length)
        (c.mmapMax - ((length - 1) / 4096 + 1) * 4096) r ∧
      (c.mmapMax - ((length - 1) / 4096 + 1) * 4096).toNat =
        c.mmapMax.toNat - 4096 * pageCount length := by
  have hmax := mmapMax_le c
  have hnpage := npage_toNat hlen
  have hpos : length.toNat ≠ 0 := fun hz => hlen (BitVec.eq_of_toNat_eq hz)
  have hbrklt := s.brk.isLt
  have hfuel : forever = 2 ^ 53 := rfl
  unfold Holdable at hfit
  have hone : 0 < pageCount length := by
    unfold pageCount
    omega
  have hstop : (c.mmapMax - ((length - 1) / 4096 + 1) * 4096).toNat =
      c.mmapMax.toNat - 4096 * pageCount length := by
    rw [BitVec.toNat_sub, BitVec.toNat_mul, hnpage,
      show (4096 : Addr).toNat = 4096 from rfl]
    omega
  obtain ⟨r, hr, hf⟩ := vmAllocLoop_spec (s := s)
    ((length - 1) / 4096 + 1)
    (c.mmapMax - ((length - 1) / 4096 + 1) * 4096) (n := forever) (p := pageOf s.brk) (by omega) (by omega)
    (by unfold pageOf; omega) (by omega) (by omega)
  rw [pageAddr_pageOf hbrk] at hr
  rw [hnpage] at hf
  exact ⟨r, hr, hf, hstop⟩

/-! ## The place -/

/-- A range of pages of user memory. -/
structure InUser (c : Config) (a length : Addr) : Prop where
  aligned : a.toNat % 4096 = 0
  below : a.toNat + length.toNat ≤ c.mmapMax.toNat

instance (c : Config) (a length : Addr) : Decidable (InUser c a length) :=
  decidable_of_iff
    (a.toNat % 4096 = 0 ∧ a.toNat + length.toNat ≤ c.mmapMax.toNat)
    ⟨fun h => ⟨h.1, h.2⟩, fun h => ⟨h.1, h.2⟩⟩

theorem place_fixed {flags : BitVec 32} (hf : flags &&& MAP_FIXED ≠ 0)
    (addr length : Addr) (s : Vm) :
    place c addr length flags s =
      some (if InUser c addr length then some addr else none) := by
  have hbad : (addr &&& 4095 ≠ 0 ∨ validUserRange c addr length = false) ↔
      ¬ InUser c addr length := by
    rw [ne_eq, and_4095, ← Bool.not_eq_true, validUserRange_iff,
      ← not_and_or, not_iff_not]
    exact ⟨fun h => ⟨h.1, h.2⟩, fun h => ⟨h.1, h.2⟩⟩
  unfold place
  rw [if_pos hf]
  by_cases h : InUser c addr length
  · rw [if_neg fun hb => hbad.mp hb h, if_pos h]
  · rw [if_pos (hbad.mpr h), if_neg h]

/-- Free pages of user memory, not below the break. -/
structure Fit (c : Config) (s : Vm) (length a : Addr) : Prop where
  aligned : a.toNat % 4096 = 0
  below : a.toNat + 4096 * pageCount length ≤ c.mmapMax.toNat
  brk_le : s.brk ≤ a
  free : Window s (pageCount length) (pageOf a)

theorem Fit.user {length a : Addr} (h : Fit c s length a) :
    InUser c a length := by
  have hb := h.below
  refine ⟨h.aligned, ?_⟩
  unfold pageCount at hb
  omega

/-- The lowest of them. -/
def FirstFit (c : Config) (s : Vm) (length a : Addr) : Prop :=
  Fit c s length a ∧ ∀ b, Fit c s length b → a ≤ b

/-- The search finds the first fit; the address zero stands for having
found nothing. -/
theorem place_search {flags : BitVec 32} (hf : flags &&& MAP_FIXED = 0)
    {length : Addr} (hlen : length ≠ 0) (hfit : Holdable c length)
    (hbrk : s.brk.toNat % 4096 = 0) (addr : Addr) :
    ∃ o, place c addr length flags s = some o ∧
      ∀ a, o = some a ↔ a ≠ 0 ∧ FirstFit c s length a := by
  obtain ⟨r, hr, hfound, hstop⟩ := vmAlloc_spec hlen hfit hbrk
  have hmax := mmapMax_le c
  unfold Holdable at hfit
  have hbrkle : ∀ {a : Addr}, a.toNat % 4096 = 0 →
      (s.brk ≤ a ↔ pageOf s.brk ≤ pageOf a) := by
    intro a ha
    rw [BitVec.le_def]
    unfold pageOf
    omega
  have hbelow : ∀ {b : Addr}, Fit c s length b →
      pageOf s.brk ≤ pageOf b ∧
        4096 * pageOf b ≤ c.mmapMax.toNat - 4096 * pageCount length := by
    intro b hb
    have hb₁ := hb.aligned
    have hb₂ := hb.below
    refine ⟨(hbrkle hb₁).mp hb.brk_le, ?_⟩
    unfold pageOf
    omega
  unfold place
  rw [if_neg (not_not.mpr hf), hr]
  refine ⟨_, rfl, fun a => ?_⟩
  dsimp only
  rw [Found, hstop] at hfound
  rcases hfound with ⟨q, hq, hend, hw, rfl, hleast⟩ | ⟨rfl, hnone⟩
  · have haddr := pageAddr_toNat (k := q) (by omega)
    have hpage : pageOf (pageAddr q) = q := by
      unfold pageOf
      omega
    have hfirst : FirstFit c s length (pageAddr q) := by
      refine ⟨⟨by omega, by omega, (hbrkle (by omega)).mpr (by omega), ?_⟩,
        fun b hb => ?_⟩
      · rw [hpage]
        exact hw
      · have hb₁ := hb.aligned
        have hb₂ := hbelow hb
        rw [BitVec.le_def, haddr]
        have hnot : ¬ pageOf b < q := fun hlt =>
          hleast _ hb₂.1 hlt hb.free
        unfold pageOf at hnot
        omega
    constructor
    · intro ha
      split_ifs at ha with hz
      cases ha
      exact ⟨hz, hfirst⟩
    · intro ha
      have heq : pageAddr q = a :=
        BitVec.le_antisymm (hfirst.2 a ha.2.1) (ha.2.2 _ hfirst.1)
      rw [if_neg (by rw [heq]; exact ha.1), heq]
  · rw [if_pos rfl]
    refine iff_of_false nofun fun ha => ?_
    have hb₂ := hbelow ha.2.1
    exact hnone _ hb₂.1 hb₂.2 ha.2.1.free

/-- A request that can only be put into user memory. -/
structure Proper (c : Config) (s : Vm) (length : Addr) (flags : BitVec 32) :
    Prop where
  length_ne : flags &&& MAP_FIXED = 0 → length ≠ 0
  holdable : flags &&& MAP_FIXED = 0 → Holdable c length
  brk_aligned : s.brk.toNat % 4096 = 0

theorem place_inUser {flags : BitVec 32} {addr length a : Addr}
    (h : Proper c s length flags)
    (hp : place c addr length flags s = some (some a)) :
    InUser c a length := by
  by_cases hf : flags &&& MAP_FIXED = 0
  · obtain ⟨o, ho, hall⟩ := place_search hf (h.length_ne hf) (h.holdable hf)
      h.brk_aligned addr
    have hfit := (hall a).mp (Option.some.inj (ho.symm.trans hp))
    exact hfit.2.1.user
  · rw [place_fixed hf] at hp
    have hp := Option.some.inj hp
    split_ifs at hp with hu
    cases hp
    exact hu

/-! ## Descriptors -/

/-- The new descriptor is one that nothing refers to. -/
theorem vmrAlloc_some {addr length : Addr} {file : Option ℕ}
    {offset : Addr} {refcnt prot : BitVec 32} {t : Vm} {o : Option ℕ}
    (h : vmrAlloc c addr length file offset refcnt prot s = some (t, o)) :
    t.pte = s.pte ∧ t.breaks = s.breaks ∧
      vmrPage c s.pool = some t.pool ∧
      (o = none → t.vmr = s.vmr ∧ ∀ v < MAX_VMR, (s.vmr v).refcnt ≠ 0) ∧
      ∀ v, o = some v → v < MAX_VMR ∧ (s.vmr v).refcnt = 0 ∧
        t.vmr = Function.update s.vmr v
          ⟨addr, length, file, offset, refcnt, prot⟩ := by
  unfold vmrAlloc at h
  obtain ⟨q, hq, h⟩ := Option.map_eq_some_iff.mp h
  dsimp only at h
  split at h
  · rename_i hnone
    cases h
    refine ⟨rfl, rfl, hq, fun _ => ⟨rfl, fun v hv hz => ?_⟩, nofun⟩
    have hfind := List.find?_eq_none.mp hnone v (List.mem_range.mpr hv)
    exact hfind (decide_eq_true hz)
  · rename_i w hsome
    cases h
    refine ⟨rfl, rfl, hq, nofun, fun v hv => ?_⟩
    cases hv
    have hmem := List.mem_of_find?_eq_some hsome
    have hzero := List.find?_some hsome
    exact ⟨List.mem_range.mp hmem, of_decide_eq_true hzero, rfl⟩

/-- All descriptors are in use. -/
def NoDescriptor (s : Vm) : Prop := ∀ v < MAX_VMR, (s.vmr v).refcnt ≠ 0

instance (s : Vm) : Decidable (NoDescriptor s) :=
  inferInstanceAs (Decidable (∀ v < MAX_VMR, _))

theorem vmrPage_up {q : Pool} (h : q.vmrsUp = true) :
    vmrPage c q = some q :=
  if_pos h

/-- A descriptor is found if and only if one is free. -/
theorem vmrAlloc_exists (hup : s.pool.vmrsUp = true) (addr length : Addr)
    (file : Option ℕ) (offset : Addr) (refcnt prot : BitVec 32) :
    ∃ t o, vmrAlloc c addr length file offset refcnt prot s =
      some (t, o) ∧ (o = none ↔ NoDescriptor s) := by
  obtain ⟨⟨t, o⟩, ht⟩ : ∃ r,
      vmrAlloc c addr length file offset refcnt prot s = some r := by
    unfold vmrAlloc
    rw [vmrPage_up hup]
    exact ⟨_, rfl⟩
  obtain ⟨-, -, -, hnone, hsome⟩ := vmrAlloc_some ht
  refine ⟨t, o, ht, fun ho => (hnone ho).2, fun hall => ?_⟩
  cases o with
  | none => rfl
  | some v =>
    obtain ⟨hv, hz, -⟩ := hsome v rfl
    exact absurd hz (hall v hv)

theorem refcnt_toNat {length : Addr} (h : pageCount length < 2 ^ 32) :
    (((length - 1) / 4096 + 1).setWidth 32).toNat = pageCount length := by
  by_cases hz : length = 0
  · subst hz
    rfl
  · rw [BitVec.toNat_setWidth, npage_toNat hz]
    omega

/-- A descriptor that is handed out owes its pages. -/
theorem counted_vmrAlloc {t : Vm} {v : ℕ} {d : Vmr}
    (hs : Counted s fun _ => 0) (hfree : (s.vmr v).refcnt = 0)
    (hpte : t.pte = s.pte) (hvmr : t.vmr = Function.update s.vmr v d) :
    Counted t (owed v d.refcnt.toNat) := by
  intro u
  have hu := hs u
  have hrefs : t.refs u = s.refs u := by
    unfold Vm.refs
    rw [hpte]
  rw [hvmr, hrefs]
  unfold owed
  by_cases huv : u = v
  · subst huv
    rw [hfree] at hu
    rw [Function.update_self, if_pos rfl]
    have hzero : (0 : BitVec 32).toNat = 0 := rfl
    omega
  · rw [Function.update_of_ne huv, if_neg huv]
    exact hu

/-! ## A new region -/

/-- The pages are populated at once. -/
def Populates (c : Config) (flags : BitVec 32) : Prop :=
  c.demandPaging = false ∨ flags &&& MAP_POPULATE ≠ 0

instance (c : Config) (flags : BitVec 32) : Decidable (Populates c flags) :=
  inferInstanceAs (Decidable (_ ∨ _))

/-- The entries of a new region. -/
def newPage (c : Config) (prot flags : BitVec 32) (v : ℕ) : ℕ → Pte :=
  if Populates c flags then userPage c prot else fun _ => .lazy v

/-- The file of a region can be read where it has to be. -/
def Readable (c : Config) (io : ℕ → Bool) (file : Option ℕ)
    (flags : BitVec 32) (a length : Addr) : Prop :=
  Populates c flags → file.isSome → ∀ i < pageCount length,
    io (pageOf a + i) = true

theorem mapPages_some {io : ℕ → Bool} {v : ℕ} {a length : Addr}
    {prot flags : BitVec 32} {s' : Vm} (hu : InUser c a length)
    (hs : Counted s (owed v (pageCount length)))
    (hprot : (s.vmr v).prot = prot)
    (h : mapPages c io v a length prot flags s = some s') :
    walkPages c (pageOf a) (pageCount length) s.pool = some s'.pool ∧
      Mapped s s' ∧
      s'.pte = fillPages s.pte (pageOf a) (pageCount length)
        (newPage c prot flags v) ∧
      (Counted s' fun _ => 0) ∧
      Readable c io (s.vmr v).file flags a length := by
  have hmax := mmapMax_le c
  have hbelow := hu.below
  obtain ⟨t, ht, h⟩ := Option.bind_eq_some_iff.mp h
  obtain ⟨hwalk, hmap, hpte, hcount⟩ := mapLoop_range hu.aligned (by omega)
    hs ht
  unfold newPage Readable
  split_ifs at h with hpop
  · obtain ⟨hrel, hfill, hread⟩ := populateLoop_some hu.aligned hu.below
      ((prot_of_regions hmap.regions v).trans hprot) (fun i hi => by
        rw [hpte, fillPages_of_mem (by omega) (by omega)]) h
    rw [file_of_regions hmap.regions v] at hread
    refine ⟨?_, hmap.trans ⟨hrel.regions, hrel.breaks⟩, ?_,
      hrel.counted _ hcount, fun _ => hread⟩
    · rw [hwalk, hrel.pool]
    · rw [hfill, hpte, fillPages_fillPages]
      exact congrArg _ (if_pos hpop).symm
  · cases h
    refine ⟨hwalk, hmap, ?_, hcount, fun hp => absurd hp hpop⟩
    rw [hpte]
    exact congrArg _ (if_neg hpop).symm

theorem mapPages_exists {io : ℕ → Bool} {v : ℕ} {a length : Addr}
    {prot flags : BitVec 32} {q : Pool} (hu : InUser c a length)
    (hs : Counted s (owed v (pageCount length)))
    (hprot : (s.vmr v).prot = prot)
    (hwalk : walkPages c (pageOf a) (pageCount length) s.pool = some q)
    (hread : Readable c io (s.vmr v).file flags a length) :
    ∃ s', mapPages c io v a length prot flags s = some s' := by
  have hmax := mmapMax_le c
  have hbelow := hu.below
  obtain ⟨t, ht⟩ := mapLoop_exists (v := v) hu.aligned (by omega) hwalk
  obtain ⟨-, hmap, hpte, -⟩ := mapLoop_range hu.aligned (by omega) hs ht
  unfold mapPages
  rw [ht, Option.bind_some]
  split_ifs with hpop
  · refine populateLoop_exists hu.aligned hu.below
      ((prot_of_regions hmap.regions v).trans hprot) (fun i hi => ?_) ?_
    · rw [hpte, fillPages_of_mem (by omega) (by omega)]
    · rw [file_of_regions hmap.regions v]
      exact hread hpop
  · exact ⟨t, rfl⟩

/-- What a successful `__do_mmap` does: descriptor `v` gets the region, and
the pages from `a` on get its entries. -/
structure NewRegion (c : Config) (io : ℕ → Bool) (length : Addr)
    (prot flags : BitVec 32) (file : Option ℕ) (offset a : Addr) (v : ℕ)
    (s s' : Vm) : Prop where
  user : InUser c a length
  free : v < MAX_VMR ∧ (s.vmr v).refcnt = 0
  pte : s'.pte = fillPages s.pte (pageOf a) (pageCount length)
    (newPage c prot flags v)
  regions : s'.regions =
    Function.update s.regions v ⟨a, length, file, offset, 0, prot⟩
  breaks : s'.breaks = s.breaks
  counted : Counted s' fun _ => 0
  walk : ∃ q, vmrPage c s.pool = some q ∧
    walkPages c (pageOf a) (pageCount length) q = some s'.pool
  readable : Readable c io file flags a length

/-- What a failing one leaves. -/
structure Unchanged (s s' : Vm) : Prop where
  pte : s'.pte = s.pte
  vmr : s'.vmr = s.vmr
  breaks : s'.breaks = s.breaks

theorem Unchanged.refl (s : Vm) : Unchanged s s := ⟨rfl, rfl, rfl⟩

theorem regions_update {t : Vm} {v : ℕ} {d : Vmr}
    (h : t.vmr = Function.update s.vmr v d) :
    t.regions = Function.update s.regions v d.region := by
  funext u
  show (t.vmr u).region = _
  rw [h]
  by_cases huv : u = v
  · subst huv
    rw [Function.update_self, Function.update_self]
  · rw [Function.update_of_ne huv, Function.update_of_ne huv]
    rfl

/-- `__do_mmap` fails and changes no mapping, or makes a new region at the
place of the request. -/
theorem doMmapPages_cases {io : ℕ → Bool} {addr length : Addr}
    {prot flags : BitVec 32} {file : Option ℕ} {offset : Addr} {s' : Vm}
    {r : Addr} (hproper : Proper c s length flags)
    (hs : Counted s fun _ => 0)
    (h : doMmapPages c io addr length prot flags file offset s =
      some (s', r)) :
    (r = FAILED ∧ Unchanged s s') ∨
      ∃ v, place c addr length flags s = some (some r) ∧
        NewRegion c io length prot flags file offset r v s s' := by
  obtain ⟨p, hp, h⟩ := Option.bind_eq_some_iff.mp h
  cases p with
  | none =>
    cases h
    exact .inl ⟨rfl, Unchanged.refl s⟩
  | some a =>
    obtain ⟨⟨t, o⟩, ht, h⟩ := Option.bind_eq_some_iff.mp h
    obtain ⟨hpte, hbreaks, hpool, hnone, hsome⟩ := vmrAlloc_some ht
    cases o with
    | none =>
      cases h
      exact .inl ⟨rfl, hpte, (hnone rfl).1, hbreaks⟩
    | some v =>
      obtain ⟨u, hmap, h⟩ := Option.map_eq_some_iff.mp h
      cases h
      obtain ⟨hv, hfree, hvmr⟩ := hsome v rfl
      have hu := place_inUser hproper hp
      have hbelow := hu.below
      have hmax := mmapMax_le c
      have hself : t.vmr v = ⟨r, length, file, offset,
          ((length - 1) / 4096 + 1).setWidth 32, prot⟩ := by
        rw [hvmr, Function.update_self]
      have hcount := counted_vmrAlloc hs hfree hpte hvmr
      dsimp only at hcount
      rw [refcnt_toNat (by unfold pageCount; omega)] at hcount
      obtain ⟨hwalk, hm, hfill, hc, hread⟩ := mapPages_some hu hcount
        (by rw [hself]) hmap
      rw [hself] at hread
      refine .inr ⟨v, hp, hu, ⟨hv, hfree⟩, ?_, ?_, hm.breaks.trans hbreaks,
        hc, ⟨_, hpool, hwalk⟩, hread⟩
      · rw [hfill, hpte]
      · rw [hm.regions, regions_update hvmr]
        rfl

end ArianeSoc.Pk.Mmap
