import ArianeSoc.Pk.Mmap.State
import ArianeSoc.RefCount
import Mathlib.Tactic.Common

/-!
# Loops over pages

What the loops of `mmap.c` do to a range of pages: unmapping, mapping and
populating it.  A range is given by its first page and its number of pages,
and a loop over it fills the table with the same kind of entry
(`fillPages`).

`Counted s extra` is the invariant of the reference counts: a descriptor
counts the entries that point to it, and `extra` more for the pages of a
region that is still being mapped.

* Pages and addresses: `forPages_eq` turns a loop into its turns.
* One page at a time: `munmapPage`, `mapPage` and `populatePage`.
* The loops: `doMunmapPages_range`, `mapLoop_range` and
  `populateLoop_range`.
-/

namespace ArianeSoc.Pk.Mmap

/-! ## Views of the state -/

/-- A descriptor without its reference count. -/
def Vmr.region (d : Vmr) : Vmr := { d with refcnt := 0 }

/-- The regions that the descriptors describe. -/
def Vm.regions (s : Vm) (v : ℕ) : Vmr := (s.vmr v).region

/-- The three values of the break. -/
def Vm.breaks (s : Vm) : Addr × Addr × Addr := (s.brk, s.brkMin, s.brkMax)

@[simp] theorem setPte_pte (s : Vm) (k : ℕ) (p : Pte) :
    (s.setPte k p).pte = Function.update s.pte k p := rfl

@[simp] theorem setPte_vmr (s : Vm) (k : ℕ) (p : Pte) :
    (s.setPte k p).vmr = s.vmr := rfl

@[simp] theorem setPte_regions (s : Vm) (k : ℕ) (p : Pte) :
    (s.setPte k p).regions = s.regions := rfl

@[simp] theorem setPte_breaks (s : Vm) (k : ℕ) (p : Pte) :
    (s.setPte k p).breaks = s.breaks := rfl

@[simp] theorem setPte_pool (s : Vm) (k : ℕ) (p : Pte) :
    (s.setPte k p).pool = s.pool := rfl

@[simp] theorem vmrDecref_pte (v : ℕ) (s : Vm) :
    (vmrDecref v s).pte = s.pte := rfl

@[simp] theorem vmrDecref_breaks (v : ℕ) (s : Vm) :
    (vmrDecref v s).breaks = s.breaks := rfl

@[simp] theorem vmrDecref_pool (v : ℕ) (s : Vm) :
    (vmrDecref v s).pool = s.pool := rfl

theorem vmrDecref_vmr (v : ℕ) (s : Vm) :
    (vmrDecref v s).vmr = Function.update s.vmr v
      { s.vmr v with refcnt := (s.vmr v).refcnt - 1 } := rfl

@[simp] theorem vmrDecref_regions (v : ℕ) (s : Vm) :
    (vmrDecref v s).regions = s.regions := by
  funext u
  show ((vmrDecref v s).vmr u).region = (s.vmr u).region
  rw [vmrDecref_vmr]
  by_cases h : u = v
  · subst h
    rw [Function.update_self]
    rfl
  · rw [Function.update_of_ne h]

theorem prot_of_regions {s t : Vm} (h : t.regions = s.regions) (v : ℕ) :
    (t.vmr v).prot = (s.vmr v).prot := by
  have hv := congrArg Vmr.prot (congrFun h v)
  exact hv

theorem file_of_regions {s t : Vm} (h : t.regions = s.regions) (v : ℕ) :
    (t.vmr v).file = (s.vmr v).file := by
  have hv := congrArg Vmr.file (congrFun h v)
  exact hv

theorem vmrDecref_prot (v u : ℕ) (s : Vm) :
    ((vmrDecref v s).vmr u).prot = (s.vmr u).prot :=
  prot_of_regions (vmrDecref_regions v s) u

/-! ## Reference counts -/

/-- The entries that point to descriptor `v`. -/
def Vm.refs (s : Vm) (v : ℕ) : ℕ := RefCount.refs (2 ^ 27) s.pte (.lazy v)

/-- Every descriptor counts its entries and `extra`. -/
def Counted (s : Vm) (extra : ℕ → ℕ) : Prop :=
  ∀ v, (s.vmr v).refcnt.toNat = s.refs v + extra v

/-- `m` pages of the region of `v` are not mapped yet. -/
def owed (v m : ℕ) : ℕ → ℕ := fun u => if u = v then m else 0

theorem owed_zero (v : ℕ) : owed v 0 = fun _ => 0 := by
  funext u
  exact ite_self 0

theorem vpn_lt (a : Addr) : vpn a < 2 ^ 27 := Nat.mod_lt _ (by omega)

theorem refs_setPte (s : Vm) {k : ℕ} (hk : k < 2 ^ 27) (p : Pte) (v : ℕ) :
    (s.setPte k p).refs v + (if s.pte k = .lazy v then 1 else 0) =
      s.refs v + if p = .lazy v then 1 else 0 :=
  RefCount.refs_update hk

theorem vmrDecref_refcnt (v u : ℕ) (s : Vm) :
    ((vmrDecref v s).vmr u).refcnt =
      if u = v then (s.vmr u).refcnt - 1 else (s.vmr u).refcnt := by
  rw [vmrDecref_vmr]
  by_cases h : u = v
  · subst h
    rw [Function.update_self, if_pos rfl]
  · rw [Function.update_of_ne h, if_neg h]

/-- An entry that points to a descriptor gives way to one that does not. -/
theorem Counted.release {s : Vm} {extra : ℕ → ℕ} {k v : ℕ} {p : Pte}
    (h : Counted s extra) (hk : k < 2 ^ 27) (hv : s.pte k = .lazy v)
    (hp : ∀ u, p ≠ .lazy u) :
    Counted ((vmrDecref v s).setPte k p) extra := by
  intro u
  have hu := h u
  have hrefs := refs_setPte (vmrDecref v s) hk p u
  have hpos : 0 < s.refs v := RefCount.refs_pos hk hv
  rw [if_neg (hp u), vmrDecref_pte, hv] at hrefs
  rw [setPte_vmr, vmrDecref_refcnt]
  have hsame : (vmrDecref v s).refs u = s.refs u := rfl
  rw [hsame] at hrefs
  by_cases huv : u = v
  · subst huv
    rw [if_pos rfl] at hrefs ⊢
    have hlt := (s.vmr u).refcnt.isLt
    rw [BitVec.toNat_sub]
    show (2 ^ 32 - 1 + (s.vmr u).refcnt.toNat) % 2 ^ 32 = _
    omega
  · rw [if_neg huv]
    rw [if_neg fun he => huv (Pte.lazy.inj he).symm] at hrefs
    omega

/-- An entry that does not point to a descriptor gives way to another
one. -/
theorem Counted.setPte {s : Vm} {extra : ℕ → ℕ} {k : ℕ} {p : Pte}
    (h : Counted s extra) (hk : k < 2 ^ 27) (hv : ∀ u, s.pte k ≠ .lazy u)
    (hp : ∀ u, p ≠ .lazy u) : Counted (s.setPte k p) extra := by
  intro u
  have hrefs := refs_setPte s hk p u
  rw [if_neg (hp u), if_neg (hv u)] at hrefs
  rw [setPte_vmr, h u]
  omega

/-- A page of the region being mapped. -/
theorem Counted.point {s : Vm} {k v m : ℕ} (h : Counted s (owed v (m + 1)))
    (hk : k < 2 ^ 27) (hv : ∀ u, s.pte k ≠ .lazy u) :
    Counted (s.setPte k (.lazy v)) (owed v m) := by
  intro u
  have hu := h u
  have hrefs := refs_setPte s hk (.lazy v) u
  rw [if_neg (hv u)] at hrefs
  rw [setPte_vmr]
  unfold owed at hu ⊢
  by_cases huv : u = v
  · subst huv
    rw [if_pos rfl] at hrefs hu ⊢
    omega
  · rw [if_neg fun he => huv (Pte.lazy.inj he).symm] at hrefs
    rw [if_neg huv] at hu ⊢
    omega

/-! ## Ranges of pages -/

/-- The address of page `k`. -/
def pageAddr (k : ℕ) : Addr := BitVec.ofNat 64 (4096 * k)

/-- The number of pages of `len` bytes. -/
def pageCount (len : Addr) : ℕ := (len.toNat + 4095) / 4096

/-- The page of an address. -/
def pageOf (a : Addr) : ℕ := a.toNat / 4096

theorem vpn_pageAddr {k : ℕ} (h : k < 2 ^ 27) : vpn (pageAddr k) = k := by
  unfold vpn pageAddr
  rw [BitVec.toNat_ofNat]
  omega

theorem pageAddr_toNat {k : ℕ} (h : k < 2 ^ 52) :
    (pageAddr k).toNat = 4096 * k := by
  unfold pageAddr
  rw [BitVec.toNat_ofNat]
  omega

theorem pageAddr_pageOf {a : Addr} (h : a.toNat % 4096 = 0) :
    pageAddr (pageOf a) = a := by
  apply BitVec.eq_of_toNat_eq
  have ha := a.isLt
  unfold pageOf
  rw [pageAddr_toNat (by omega)]
  omega

/-- Aligned addresses, as the source tests for them. -/
theorem and_4095 (a : Addr) : a &&& 4095 = 0 ↔ a.toNat % 4096 = 0 := by
  have h : (a &&& 4095).toNat = a.toNat % 2 ^ 12 := by
    rw [BitVec.toNat_and]
    exact Nat.and_two_pow_sub_one_eq_mod a.toNat 12
  constructor
  · intro ha
    rw [ha] at h
    exact h.symm
  · intro ha
    apply BitVec.eq_of_toNat_eq
    rw [h]
    exact ha

/-- A range of pages that does not wrap is gone through page by page. -/
theorem forPages_eq {body : Vm → Addr → Option Vm} {a len : Addr}
    (ha : a.toNat % 4096 = 0) (hle : a.toNat + len.toNat ≤ 2 ^ 39) (s : Vm) :
    forPages body a (a + len) s =
      ForLoop.turns (fun i s => body s (pageAddr (pageOf a + i)))
        (pageCount len) s := by
  have hcounter : ∀ i ≤ pageCount len,
      ForLoop.counter a 4096 i = pageAddr (pageOf a + i) := by
    intro i hi
    unfold pageCount at hi
    apply BitVec.eq_of_toNat_eq
    have hmul : (BitVec.ofNat 64 i * 4096).toNat = 4096 * i := by
      rw [BitVec.toNat_mul, BitVec.toNat_ofNat,
        show (4096 : Addr).toNat = 4096 from rfl]
      omega
    unfold ForLoop.counter pageOf
    rw [BitVec.toNat_add, hmul, pageAddr_toNat (by omega)]
    omega
  have hstop : (a + len).toNat = a.toNat + len.toNat := by
    rw [BitVec.toNat_add]
    omega
  unfold forPages
  rw [ForLoop.upto_eq_turns (m := pageCount len)]
  · refine ForLoop.turns_congr fun i hi s => ?_
    rw [hcounter i (by omega)]
  · intro i hi
    rw [hcounter i (by omega), BitVec.lt_def, hstop]
    unfold pageCount at hi
    unfold pageOf
    rw [pageAddr_toNat (by omega)]
    omega
  · rw [hcounter _ (Nat.le_refl _), BitVec.lt_def, hstop]
    unfold pageOf pageCount
    rw [pageAddr_toNat (by omega)]
    omega
  · have hfuel : forever = 2 ^ 53 := rfl
    unfold pageCount
    omega

/-- The table with the pages `p` to `p + n - 1` filled in. -/
def fillPages (f : ℕ → Pte) (p n : ℕ) (x : ℕ → Pte) : ℕ → Pte := fun k =>
  if p ≤ k ∧ k < p + n then x k else f k

theorem fillPages_of_mem {f x : ℕ → Pte} {p n k : ℕ} (h₁ : p ≤ k)
    (h₂ : k < p + n) : fillPages f p n x k = x k :=
  if_pos ⟨h₁, h₂⟩

theorem fillPages_of_notMem {f x : ℕ → Pte} {p n k : ℕ}
    (h : ¬ (p ≤ k ∧ k < p + n)) : fillPages f p n x k = f k :=
  if_neg h

theorem fillPages_zero (f : ℕ → Pte) (p : ℕ) (x : ℕ → Pte) :
    fillPages f p 0 x = f := by
  funext k
  exact fillPages_of_notMem (by omega)

theorem fillPages_succ (f : ℕ → Pte) (p n : ℕ) (x : ℕ → Pte) :
    Function.update (fillPages f p n x) (p + n) (x (p + n)) =
      fillPages f p (n + 1) x := by
  funext k
  by_cases hk : k = p + n
  · subst hk
    rw [Function.update_self, fillPages_of_mem (by omega) (by omega)]
  · rw [Function.update_of_ne hk]
    unfold fillPages
    refine if_congr ?_ rfl rfl
    omega

/-- A range filled twice. -/
theorem fillPages_fillPages (f : ℕ → Pte) (p n : ℕ) (x y : ℕ → Pte) :
    fillPages (fillPages f p n x) p n y = fillPages f p n y := by
  funext k
  by_cases hk : p ≤ k ∧ k < p + n
  · rw [fillPages_of_mem hk.1 hk.2, fillPages_of_mem hk.1 hk.2]
  · rw [fillPages_of_notMem hk, fillPages_of_notMem hk,
      fillPages_of_notMem hk]

/-! ## Unmapping -/

theorem munmapPage_pte (s : Vm) (a : Addr) :
    (munmapPage s a).pte = Function.update s.pte (vpn a) .zero := by
  unfold munmapPage
  split
  · rename_i h
    rw [← h, Function.update_eq_self]
  · rfl
  · rfl

@[simp] theorem munmapPage_regions (s : Vm) (a : Addr) :
    (munmapPage s a).regions = s.regions := by
  unfold munmapPage
  split
  · rfl
  · exact vmrDecref_regions _ s
  · rfl

@[simp] theorem munmapPage_breaks (s : Vm) (a : Addr) :
    (munmapPage s a).breaks = s.breaks := by
  unfold munmapPage
  split <;> rfl

@[simp] theorem munmapPage_pool (s : Vm) (a : Addr) :
    (munmapPage s a).pool = s.pool := by
  unfold munmapPage
  split <;> rfl

theorem Counted.munmapPage {s : Vm} {extra : ℕ → ℕ} (h : Counted s extra)
    (a : Addr) : Counted (munmapPage s a) extra := by
  unfold Mmap.munmapPage
  split
  · exact h
  · rename_i v hv
    exact h.release (vpn_lt a) hv fun u => by simp
  · rename_i ppn type hl
    exact h.setPte (vpn_lt a) (fun u => by simp [hl]) fun u => by simp

/-- What giving up references to descriptors leaves alone. -/
structure Released (s s' : Vm) : Prop where
  regions : s'.regions = s.regions
  breaks : s'.breaks = s.breaks
  pool : s'.pool = s.pool
  counted : ∀ extra, Counted s extra → Counted s' extra

theorem Released.refl (s : Vm) : Released s s :=
  ⟨rfl, rfl, rfl, fun _ h => h⟩

theorem Released.trans {s t u : Vm} (h : Released s t)
    (k : Released t u) : Released s u :=
  ⟨k.regions.trans h.regions, k.breaks.trans h.breaks, k.pool.trans h.pool,
    fun extra hs => k.counted extra (h.counted extra hs)⟩

theorem released_munmapPage (s : Vm) (a : Addr) :
    Released s (munmapPage s a) :=
  ⟨munmapPage_regions s a, munmapPage_breaks s a, munmapPage_pool s a,
    fun _ h => h.munmapPage a⟩

/-- Unmapping empties entries; this needs nothing about the range. -/
theorem doMunmapPages_some {a len : Addr}
    (h : doMunmapPages a len s = some s') :
    Released s s' ∧ ∀ k, s'.pte k = s.pte k ∨ s'.pte k = .zero := by
  refine ForLoop.upto_invariant (P := fun t => Released s t ∧
    ∀ k, t.pte k = s.pte k ∨ t.pte k = .zero) ?_
    ⟨Released.refl s, fun k => .inl rfl⟩ h
  intro t a t' ht hbody
  cases hbody
  refine ⟨ht.1.trans (released_munmapPage t a), fun k => ?_⟩
  rw [munmapPage_pte]
  by_cases hk : k = vpn a
  · subst hk
    exact .inr (Function.update_self _ _ _)
  · rw [Function.update_of_ne hk]
    exact ht.2 k

/-- Unmapping a range that does not wrap. -/
theorem doMunmapPages_range (s : Vm) {a len : Addr}
    (ha : a.toNat % 4096 = 0) (hle : a.toNat + len.toNat ≤ 2 ^ 39) :
    ∃ s', doMunmapPages a len s = some s' ∧ Released s s' ∧
      s'.pte = fillPages s.pte (pageOf a) (pageCount len) fun _ => .zero := by
  unfold doMunmapPages
  rw [forPages_eq ha hle]
  refine ForLoop.turns_exists (P := fun i t => Released s t ∧
    t.pte = fillPages s.pte (pageOf a) i fun _ => .zero) ?_ ?_
  · exact ⟨Released.refl s, (fillPages_zero _ _ _).symm⟩
  · intro i hi t ht
    have hk : pageOf a + i < 2 ^ 27 := by
      unfold pageCount at hi
      unfold pageOf
      omega
    refine ⟨_, rfl, ht.1.trans (released_munmapPage t _), ?_⟩
    rw [munmapPage_pte, vpn_pageAddr hk, ht.2]
    exact fillPages_succ _ _ _ _

/-! ## Mapping -/

/-- What mapping pages for descriptor `v` leaves alone. -/
structure Mapped (s s' : Vm) : Prop where
  regions : s'.regions = s.regions
  breaks : s'.breaks = s.breaks

theorem Mapped.trans {s t u : Vm} (h : Mapped s t) (k : Mapped t u) :
    Mapped s u :=
  ⟨k.regions.trans h.regions, k.breaks.trans h.breaks⟩

/-- What was mapped at the page is unmapped first. -/
theorem clearPage_exists (s : Vm) {k : ℕ} (hk : k < 2 ^ 27) :
    ∃ u, (if s.pte (vpn (pageAddr k)) ≠ .zero then
        doMunmapPages (pageAddr k) 4096 s else some s) = some u ∧
      Released s u ∧ u.pte = Function.update s.pte k .zero := by
  have haddr := pageAddr_toNat (k := k) (by omega)
  have hlen : (4096 : Addr).toNat = 4096 := rfl
  obtain ⟨u, hu, hun, hpte⟩ := @doMunmapPages_range s (pageAddr k)
    4096 (by omega) (by omega)
  have hone : pageCount 4096 = 1 := rfl
  have hpage : pageOf (pageAddr k) = k := by
    unfold pageOf
    omega
  rw [hone, hpage] at hpte
  rw [vpn_pageAddr hk]
  split_ifs with hz
  · refine ⟨u, hu, hun, ?_⟩
    have hfill := fillPages_succ s.pte k 0 fun _ => .zero
    rw [fillPages_zero, Nat.add_zero] at hfill
    rw [hpte, hfill]
  · rw [not_not] at hz
    exact ⟨s, rfl, Released.refl s, by rw [← hz, Function.update_eq_self]⟩

/-- One turn of the mapping loop. -/
theorem mapPage_some {c : Config} {v k : ℕ} {s s' : Vm} (hk : k < 2 ^ 27)
    (h : mapPage c v s (pageAddr k) = some s') :
    walkCreate c k s.pool = some s'.pool ∧ Mapped s s' ∧
      s'.pte = Function.update s.pte k (.lazy v) ∧
      ∀ m, Counted s (owed v (m + 1)) → Counted s' (owed v m) := by
  unfold mapPage at h
  obtain ⟨q, hq, h⟩ := Option.bind_eq_some_iff.mp h
  obtain ⟨u, hu, hun, hpte⟩ := clearPage_exists { s with pool := q } hk
  dsimp only at h
  rw [hu] at h
  cases h
  rw [vpn_pageAddr hk] at hq ⊢
  refine ⟨?_, ⟨hun.regions, hun.breaks⟩, ?_, fun m hm => ?_⟩
  · rw [setPte_pool, hun.pool]
    exact hq
  · rw [setPte_pte, hpte, Function.update_idem]
  · refine (hun.counted _ hm).point hk fun w => ?_
    rw [hpte, Function.update_self]
    simp

/-- The mapping loop stops only where a table cannot be made. -/
theorem mapPage_exists {c : Config} {v k : ℕ} {s : Vm} {q : Pool}
    (hk : k < 2 ^ 27) (h : walkCreate c k s.pool = some q) :
    ∃ s', mapPage c v s (pageAddr k) = some s' := by
  obtain ⟨u, hu, -⟩ := clearPage_exists { s with pool := q } hk
  unfold mapPage
  rw [vpn_pageAddr hk] at hu ⊢
  rw [h, Option.bind_some]
  dsimp only at hu ⊢
  rw [hu]
  exact ⟨_, rfl⟩

/-- The walks for the pages `p` to `p + n - 1`. -/
def walkPages (c : Config) (p n : ℕ) (q : Pool) : Option Pool :=
  ForLoop.turns (fun i => walkCreate c (p + i)) n q

/-- The mapping loop over a range that does not wrap. -/
theorem mapLoop_range {c : Config} {v : ℕ} {s s' : Vm} {a len : Addr}
    (ha : a.toNat % 4096 = 0) (hle : a.toNat + len.toNat ≤ 2 ^ 39)
    (hs : Counted s (owed v (pageCount len)))
    (h : forPages (mapPage c v) a (a + len) s = some s') :
    walkPages c (pageOf a) (pageCount len) s.pool = some s'.pool ∧
      Mapped s s' ∧
      s'.pte = fillPages s.pte (pageOf a) (pageCount len)
        (fun _ => .lazy v) ∧
      Counted s' fun _ => 0 := by
  rw [forPages_eq ha hle] at h
  have hinv := ForLoop.turns_invariant (P := fun i t =>
      walkPages c (pageOf a) i s.pool = some t.pool ∧ Mapped s t ∧
        t.pte = fillPages s.pte (pageOf a) i (fun _ => .lazy v) ∧
        Counted t (owed v (pageCount len - i))) ?_ ?_ h
  · rw [Nat.sub_self, owed_zero] at hinv
    exact hinv
  · exact ⟨rfl, ⟨rfl, rfl⟩, (fillPages_zero _ _ _).symm, hs⟩
  · intro i hi t t' ht hturn
    obtain ⟨hwalk, hmap, hpte, hcount⟩ := ht
    have hk : pageOf a + i < 2 ^ 27 := by
      unfold pageCount at hi
      unfold pageOf
      omega
    obtain ⟨hq, hm, hp, hc⟩ := mapPage_some hk hturn
    refine ⟨?_, hmap.trans hm, ?_, ?_⟩
    · show (walkPages c (pageOf a) i s.pool).bind _ = _
      rw [hwalk, Option.bind_some]
      exact hq
    · rw [hp, hpte]
      exact fillPages_succ _ _ _ _
    · refine hc _ ?_
      rwa [show pageCount len - (i + 1) + 1 = pageCount len - i by omega]

/-- The mapping loop comes to its end if the walks do. -/
theorem mapLoop_exists {c : Config} {v : ℕ} {s : Vm} {a len : Addr}
    {q : Pool} (ha : a.toNat % 4096 = 0)
    (hle : a.toNat + len.toNat ≤ 2 ^ 39)
    (h : walkPages c (pageOf a) (pageCount len) s.pool = some q) :
    ∃ s', forPages (mapPage c v) a (a + len) s = some s' := by
  rw [forPages_eq ha hle]
  have hex : ∀ n, n ≤ pageCount len → ∀ q,
      walkPages c (pageOf a) n s.pool = some q →
      ∃ s', ForLoop.turns (fun i s =>
        mapPage c v s (pageAddr (pageOf a + i))) n s = some s' ∧
        s'.pool = q := by
    intro n
    induction n with
    | zero =>
      intro _ q hq
      cases hq
      exact ⟨s, rfl, rfl⟩
    | succ n ih =>
      intro hn q hq
      obtain ⟨r, hr, hq⟩ := Option.bind_eq_some_iff.mp hq
      obtain ⟨t, ht, rfl⟩ := ih (by omega) r hr
      have hk : pageOf a + n < 2 ^ 27 := by
        unfold pageCount at hn
        unfold pageOf
        omega
      obtain ⟨s', hs'⟩ := mapPage_exists (v := v) hk hq
      refine ⟨s', ?_, ?_⟩
      · unfold ForLoop.turns
        rw [ht, Option.bind_some, hs']
      · have hpool := (mapPage_some hk hs').1
        exact Option.some.inj (hpool.symm.trans hq)
  obtain ⟨s', hs', -⟩ := hex _ (Nat.le_refl _) q h
  exact ⟨s', hs'⟩

/-! ## Populating -/

theorem mmapMax_le (c : Config) : c.mmapMax.toNat ≤ 2 ^ 31 := by
  unfold Config.mmapMax
  rw [BitVec.toNat_ofNat]
  omega

theorem validUserRange_iff {c : Config} {a len : Addr} :
    validUserRange c a len = true ↔
      a.toNat + len.toNat ≤ c.mmapMax.toNat := by
  have ha := a.isLt
  have hl := len.isLt
  have hmax := mmapMax_le c
  unfold validUserRange
  simp only [BitVec.lt_def, BitVec.le_def, BitVec.toNat_add]
  split_ifs with h
  · refine iff_of_false id ?_
    omega
  · rw [decide_eq_true_eq]
    omega

/-- The entry of a populated page. -/
def userPage (c : Config) (prot : BitVec 32) (k : ℕ) : Pte :=
  pteCreate (k + c.firstFreePaddr / 4096) (protToType prot true)

/-- The state after a lazy page has been populated. -/
def populated (c : Config) (v k : ℕ) (s : Vm) : Vm :=
  (vmrDecref v s).setPte k (userPage c (s.vmr v).prot k)

theorem page_toNat (vaddr : Addr) :
    (vaddr >>> 12 <<< 12 : Addr).toNat = 4096 * pageOf vaddr := by
  have hv := vaddr.isLt
  unfold pageOf
  rw [BitVec.toNat_shiftLeft, BitVec.toNat_ushiftRight,
    Nat.shiftRight_eq_div_pow, Nat.shiftLeft_eq]
  omega

/-- A fault by the entry of its page. -/
theorem handlePageFault_eq (c : Config) (io : ℕ → Bool) (vaddr : Addr)
    (prot : BitVec 32) (s : Vm) :
    handlePageFault c io vaddr prot s =
      if 4096 * pageOf vaddr < c.mmapMax.toNat then
        match s.pte (pageOf vaddr) with
        | .zero => some (s, false)
        | .leaf _ type => some (s, allows type prot)
        | .lazy v =>
          if (s.vmr v).file.isSome ∧ io (pageOf vaddr) = false then none
          else some (populated c v (pageOf vaddr) s,
            allows (PTE_V ||| protToType (s.vmr v).prot true) prot)
      else some (s, false) := by
  have hpage := page_toNat vaddr
  have hmax := mmapMax_le c
  have hone : (1 : Addr).toNat = 1 := rfl
  unfold handlePageFault
  dsimp only
  by_cases h : 4096 * pageOf vaddr < c.mmapMax.toNat
  · have hvalid : validUserRange c (vaddr >>> 12 <<< 12) 1 = true := by
      rw [validUserRange_iff]
      omega
    have hvpn : vpn (vaddr >>> 12 <<< 12) = pageOf vaddr := by
      unfold vpn
      omega
    have hframe : (vaddr >>> 12).toNat = pageOf vaddr := by
      rw [BitVec.toNat_ushiftRight, Nat.shiftRight_eq_div_pow]
      rfl
    rw [if_pos h, if_neg (by rw [hvalid]; simp), hvpn, hframe]
    cases s.pte (pageOf vaddr) with
    | zero => rfl
    | leaf ppn type => rfl
    | lazy v =>
      simp only [vmrDecref_prot]
      rfl
  · have hvalid : validUserRange c (vaddr >>> 12 <<< 12) 1 = false := by
      rw [← Bool.not_eq_true, validUserRange_iff]
      omega
    rw [if_neg h, if_pos hvalid]

theorem allows_self (prot : BitVec 32) :
    allows (PTE_V ||| protToType prot true) prot = true := by
  unfold allows
  rw [BitVec.and_self, decide_eq_true rfl]

theorem released_populated {c : Config} {v k : ℕ} {s : Vm} (hk : k < 2 ^ 27)
    (hv : s.pte k = .lazy v) : Released s (populated c v k s) where
  regions := vmrDecref_regions v s
  breaks := rfl
  pool := rfl
  counted extra h := h.release hk hv fun u => by simp [userPage, pteCreate]

theorem populatePage_eq {c : Config} {io : ℕ → Bool} {prot : BitVec 32}
    {s : Vm} {k v : ℕ} (hk : 4096 * k < c.mmapMax.toNat)
    (hv : s.pte k = .lazy v) (hprot : (s.vmr v).prot = prot) :
    populatePage c io prot s (pageAddr k) =
      if (s.vmr v).file.isSome ∧ io k = false then none
      else some (populated c v k s) := by
  have hmax := mmapMax_le c
  have hpage : pageOf (pageAddr k) = k := by
    unfold pageOf
    rw [pageAddr_toNat (by omega)]
    omega
  unfold populatePage
  rw [handlePageFault_eq, hpage, if_pos hk, hv]
  dsimp only
  rw [hprot, allows_self]
  split_ifs <;> rfl

/-- One turn of the populating loop over the pages of a region. -/
theorem populateTurn {c : Config} (io : ℕ → Bool) {prot : BitVec 32}
    {s t : Vm} {v p i : ℕ} (hk : 4096 * (p + i) < c.mmapMax.toNat)
    (hprot : (s.vmr v).prot = prot) (hv : s.pte (p + i) = .lazy v)
    (ht : Released s t)
    (hpte : t.pte = fillPages s.pte p i (userPage c prot)) :
    populatePage c io prot t (pageAddr (p + i)) =
        (if (s.vmr v).file.isSome ∧ io (p + i) = false then none
          else some (populated c v (p + i) t)) ∧
      Released s (populated c v (p + i) t) ∧
      (populated c v (p + i) t).pte =
        fillPages s.pte p (i + 1) (userPage c prot) := by
  have hmax := mmapMax_le c
  have hentry : t.pte (p + i) = .lazy v := by
    rw [hpte, fillPages_of_notMem (by omega)]
    exact hv
  have hp := prot_of_regions ht.regions v
  have hf := file_of_regions ht.regions v
  refine ⟨?_, ht.trans (released_populated (by omega) hentry), ?_⟩
  · rw [populatePage_eq hk hentry (hp.trans hprot), hf]
  · unfold populated
    rw [setPte_pte, vmrDecref_pte, hp, hprot, hpte]
    exact fillPages_succ _ _ _ _

/-- The populating loop over pages of one region: where its file can be
read, it comes to its end with all of them populated. -/
theorem populateLoop_some {c : Config} {io : ℕ → Bool} {prot : BitVec 32}
    {s s' : Vm} {v : ℕ} {a len : Addr} (ha : a.toNat % 4096 = 0)
    (hle : a.toNat + len.toNat ≤ c.mmapMax.toNat)
    (hprot : (s.vmr v).prot = prot)
    (hv : ∀ i < pageCount len, s.pte (pageOf a + i) = .lazy v)
    (h : forPages (populatePage c io prot) a (a + len) s = some s') :
    Released s s' ∧
      s'.pte = fillPages s.pte (pageOf a) (pageCount len)
        (userPage c prot) ∧
      ((s.vmr v).file.isSome →
        ∀ i < pageCount len, io (pageOf a + i) = true) := by
  have hmax := mmapMax_le c
  rw [forPages_eq ha (by omega)] at h
  refine ForLoop.turns_invariant (P := fun n t => Released s t ∧
    t.pte = fillPages s.pte (pageOf a) n (userPage c prot) ∧
    ((s.vmr v).file.isSome → ∀ i < n, io (pageOf a + i) = true)) ?_ ?_ h
  · refine ⟨Released.refl s, (fillPages_zero _ _ _).symm, fun _ i hi => ?_⟩
    exact absurd hi (Nat.not_lt_zero i)
  · intro i hi t t' ht hturn
    have hk : 4096 * (pageOf a + i) < c.mmapMax.toNat := by
      unfold pageCount at hi
      unfold pageOf
      omega
    obtain ⟨heq, hrel, hfill⟩ := populateTurn io hk hprot (hv i hi)
      ht.1 ht.2.1
    rw [heq] at hturn
    split_ifs at hturn with hio
    cases hturn
    refine ⟨hrel, hfill, fun hf j hj => ?_⟩
    rcases Nat.lt_succ_iff_lt_or_eq.mp hj with hj | rfl
    · exact ht.2.2 hf j hj
    · exact (Bool.not_eq_false _).mp fun hno => hio ⟨hf, hno⟩

theorem populateLoop_exists {c : Config} {io : ℕ → Bool}
    {prot : BitVec 32} {s : Vm} {v : ℕ} {a len : Addr}
    (ha : a.toNat % 4096 = 0)
    (hle : a.toNat + len.toNat ≤ c.mmapMax.toNat)
    (hprot : (s.vmr v).prot = prot)
    (hv : ∀ i < pageCount len, s.pte (pageOf a + i) = .lazy v)
    (hio : (s.vmr v).file.isSome →
      ∀ i < pageCount len, io (pageOf a + i) = true) :
    ∃ s', forPages (populatePage c io prot) a (a + len) s = some s' := by
  have hmax := mmapMax_le c
  rw [forPages_eq ha (by omega)]
  have hex := ForLoop.turns_exists (m := pageCount len)
    (f := fun i s => populatePage c io prot s (pageAddr (pageOf a + i)))
    (P := fun n t => Released s t ∧
      t.pte = fillPages s.pte (pageOf a) n (userPage c prot))
    ⟨Released.refl s, (fillPages_zero _ _ _).symm⟩ ?_
  · obtain ⟨s', hs', -⟩ := hex
    exact ⟨s', hs'⟩
  · intro i hi t ht
    have hk : 4096 * (pageOf a + i) < c.mmapMax.toNat := by
      unfold pageCount at hi
      unfold pageOf
      omega
    obtain ⟨heq, hrel, hfill⟩ := populateTurn io hk hprot (hv i hi)
      ht.1 ht.2
    refine ⟨_, ?_, hrel, hfill⟩
    rw [heq, if_neg]
    intro hno
    rw [hio hno.1 i hi] at hno
    exact Bool.false_ne_true hno.2.symm

end ArianeSoc.Pk.Mmap
