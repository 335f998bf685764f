import ArianeSoc.Pk.Mmap.Cases
import ArianeSoc.Pk.Mmap.Place
import Mathlib.Data.Finset.Card
import Mathlib.Tactic.Common

/-!
# The pages for page tables

`__page_alloc` takes the tables and the page of the descriptors from
`free_pages` pages, and stops the kernel when there are none left.

* `walkPages_eq`: the walks for a range of pages succeed if and only if
  there is a page for every table that the range needs and that is not
  there yet.
* `Grows`: every operation keeps the number of pages taken within
  `free_pages` and the page of the descriptors where it is.
-/

namespace ArianeSoc.Pk.Mmap

variable {c : Config}

/-! ## Making tables -/

/-- The pages taken are some of the free ones. -/
def Within (c : Config) (q : Pool) : Prop :=
  q.nextFreePage ≤ freePages c.memSize

/-- There are pages for those of the tables `ts` that are not there. -/
def Affords (c : Config) (q : Pool) (ts : Finset (ℕ × ℕ)) : Prop :=
  q.nextFreePage + (ts \ q.tables).card ≤ freePages c.memSize

instance (c : Config) (q : Pool) (ts : Finset (ℕ × ℕ)) :
    Decidable (Affords c q ts) :=
  inferInstanceAs (Decidable (_ ≤ _))

/-- The tables `ts` are there, too. -/
def Pool.make (q : Pool) (ts : Finset (ℕ × ℕ)) : Pool where
  tables := q.tables ∪ ts
  nextFreePage := q.nextFreePage + (ts \ q.tables).card
  vmrsUp := q.vmrsUp

/-- What a walk that needs the tables `ts` does. -/
def makeTables (c : Config) (ts : Finset (ℕ × ℕ)) (q : Pool) :
    Option Pool :=
  if Affords c q ts then some (q.make ts) else none

theorem make_empty (q : Pool) : q.make ∅ = q := by
  unfold Pool.make
  rw [Finset.union_empty, Finset.empty_sdiff, Finset.card_empty,
    Nat.add_zero]

theorem card_union_sdiff (ts us xs : Finset (ℕ × ℕ)) :
    ((ts ∪ us) \ xs).card = (ts \ xs).card + (us \ (xs ∪ ts)).card := by
  rw [← Finset.card_union_of_disjoint]
  · congr 1
    ext t
    simp only [Finset.mem_union, Finset.mem_sdiff]
    tauto
  · refine Finset.disjoint_left.mpr fun t h₁ h₂ => ?_
    simp only [Finset.mem_sdiff, Finset.mem_union, not_or] at h₁ h₂
    exact h₂.2.2 h₁.1

theorem make_make (q : Pool) (ts us : Finset (ℕ × ℕ)) :
    (q.make ts).make us = q.make (ts ∪ us) := by
  unfold Pool.make
  dsimp only
  rw [Finset.union_assoc, card_union_sdiff, Nat.add_assoc]

/-- Two walks are one that needs the tables of both. -/
theorem makeTables_bind (ts us : Finset (ℕ × ℕ)) (q : Pool) :
    (makeTables c ts q).bind (makeTables c us) =
      makeTables c (ts ∪ us) q := by
  have hiff : Affords c q (ts ∪ us) ↔
      Affords c q ts ∧ Affords c (q.make ts) us := by
    unfold Affords Pool.make
    dsimp only
    rw [card_union_sdiff]
    omega
  unfold makeTables
  by_cases h₁ : Affords c q ts
  · rw [if_pos h₁, Option.bind_some, make_make]
    exact if_congr (by rw [hiff, and_iff_right h₁]) rfl rfl
  · rw [if_neg h₁, if_neg fun h => h₁ (hiff.mp h).1, Option.bind_none]

theorem within_makeTables {ts : Finset (ℕ × ℕ)} {q q' : Pool}
    (h : makeTables c ts q = some q') : Within c q' := by
  unfold makeTables at h
  split_ifs at h with ha
  cases h
  exact ha

/-- A table that is not there takes one page. -/
theorem walkLevel_eq {q : Pool} (hq : Within c q) (t : ℕ × ℕ) :
    walkLevel c t q = makeTables c {t} q := by
  unfold Within at hq
  unfold walkLevel makeTables
  by_cases ht : t ∈ q.tables
  · have hsub : {t} ⊆ q.tables := Finset.singleton_subset_iff.mpr ht
    have hnone : {t} \ q.tables = ∅ := Finset.sdiff_eq_empty_iff_subset.mpr hsub
    have hafford : Affords c q {t} := by
      unfold Affords
      rw [hnone]
      exact hq
    have hmake : q.make {t} = q := by
      unfold Pool.make
      rw [Finset.union_eq_left.mpr hsub, hnone, Finset.card_empty,
        Nat.add_zero]
    rw [if_pos ht, if_pos hafford, hmake]
  · have hone : {t} \ q.tables = {t} :=
      Finset.sdiff_eq_self_of_disjoint
        (Finset.disjoint_singleton_left.mpr ht)
    have hafford : Affords c q {t} ↔
        ¬ q.nextFreePage = freePages c.memSize := by
      unfold Affords
      rw [hone, Finset.card_singleton]
      omega
    rw [if_neg ht]
    unfold pageAlloc
    by_cases hfull : q.nextFreePage = freePages c.memSize
    · rw [if_pos hfull, if_neg fun h => hafford.mp h hfull]
      rfl
    · rw [if_neg hfull, if_pos (hafford.mpr hfull)]
      unfold Pool.make
      rw [hone, Finset.card_singleton, Finset.union_comm]
      rfl

/-- The tables for page `k`. -/
def pageTables (k : ℕ) : Finset (ℕ × ℕ) :=
  {(2, k / 2 ^ 18)} ∪ {(1, k / 2 ^ 9)}

theorem walkCreate_eq {q : Pool} (hq : Within c q) (k : ℕ) :
    walkCreate c k q = makeTables c (pageTables k) q := by
  unfold walkCreate
  rw [walkLevel_eq hq, pageTables, ← makeTables_bind]
  refine Option.bind_congr fun r hr => ?_
  exact walkLevel_eq (within_makeTables hr) _

/-- The tables for the pages `p` to `p + n - 1`. -/
def rangeTables (p : ℕ) : ℕ → Finset (ℕ × ℕ)
  | 0 => ∅
  | n + 1 => rangeTables p n ∪ pageTables (p + n)

theorem walkPages_eq {q : Pool} (hq : Within c q) (p n : ℕ) :
    walkPages c p n q = makeTables c (rangeTables p n) q := by
  induction n with
  | zero =>
    show some q = if Affords c q ∅ then some (q.make ∅) else none
    have hnone : Affords c q ∅ := by
      unfold Affords
      rw [Finset.empty_sdiff, Finset.card_empty]
      exact hq
    rw [if_pos hnone, make_empty]
  | succ n ih =>
    show (walkPages c p n q).bind _ = _
    rw [ih, rangeTables, ← makeTables_bind]
    refine Option.bind_congr fun r hr => ?_
    exact walkCreate_eq (within_makeTables hr) _

/-! ## Every operation -/

/-- What an operation keeps of the pool. -/
structure Grows (c : Config) (q q' : Pool) : Prop where
  up : q.vmrsUp = true → q'.vmrsUp = true
  within : Within c q → Within c q'

theorem Grows.of_eq {q q' : Pool} (h : q' = q) : Grows c q q' := by
  subst h
  exact ⟨id, id⟩

theorem Grows.trans {p q r : Pool} (h : Grows c p q) (k : Grows c q r) :
    Grows c p r :=
  ⟨k.up ∘ h.up, k.within ∘ h.within⟩

theorem pageAlloc_grows {q q' : Pool} (h : pageAlloc c q = some q') :
    Grows c q q' := by
  unfold pageAlloc at h
  split_ifs at h with hfull
  cases h
  refine ⟨id, fun hq => ?_⟩
  unfold Within at hq ⊢
  dsimp only
  omega

theorem walkLevel_grows {t : ℕ × ℕ} {q q' : Pool}
    (h : walkLevel c t q = some q') : Grows c q q' := by
  unfold walkLevel at h
  split_ifs at h
  · exact .of_eq (Option.some.inj h).symm
  · obtain ⟨r, hr, rfl⟩ := Option.map_eq_some_iff.mp h
    have hgrows := pageAlloc_grows hr
    exact ⟨hgrows.up, hgrows.within⟩

theorem walkCreate_grows {k : ℕ} {q q' : Pool}
    (h : walkCreate c k q = some q') : Grows c q q' := by
  obtain ⟨r, hr, h⟩ := Option.bind_eq_some_iff.mp h
  exact (walkLevel_grows hr).trans (walkLevel_grows h)

/-- The page of the descriptors is there afterwards. -/
theorem vmrPage_grows {q q' : Pool} (h : vmrPage c q = some q') :
    Grows c q q' ∧ q'.vmrsUp = true := by
  unfold vmrPage at h
  split_ifs at h with hup
  · cases h
    exact ⟨.of_eq rfl, hup⟩
  · obtain ⟨r, hr, rfl⟩ := Option.map_eq_some_iff.mp h
    have hgrows := pageAlloc_grows hr
    exact ⟨⟨fun _ => rfl, hgrows.within⟩, rfl⟩

variable {s s' : Vm}

theorem mapPage_grows {v : ℕ} {a : Addr} (h : mapPage c v s a = some s') :
    Grows c s.pool s'.pool := by
  obtain ⟨q, hq, h⟩ := Option.bind_eq_some_iff.mp h
  obtain ⟨t, ht, rfl⟩ := Option.map_eq_some_iff.mp h
  refine (walkCreate_grows hq).trans (.of_eq ?_)
  rw [setPte_pool]
  split_ifs at ht
  · exact (doMunmapPages_some ht).1.pool
  · cases ht
    rfl

theorem handlePageFault_pool {io : ℕ → Bool} {vaddr : Addr}
    {prot : BitVec 32} {ok : Bool}
    (h : handlePageFault c io vaddr prot s = some (s', ok)) :
    s'.pool = s.pool := by
  rw [handlePageFault_eq] at h
  split_ifs at h
  · split at h
    · cases h
      rfl
    · cases h
      rfl
    · split_ifs at h
      cases h
      rfl
  · cases h
    rfl

theorem mapPages_grows {io : ℕ → Bool} {v : ℕ} {a length : Addr}
    {prot flags : BitVec 32}
    (h : mapPages c io v a length prot flags s = some s') :
    Grows c s.pool s'.pool := by
  obtain ⟨t, ht, h⟩ := Option.bind_eq_some_iff.mp h
  have hmap : Grows c s.pool t.pool :=
    ForLoop.upto_invariant (P := fun t => Grows c s.pool t.pool)
      (fun u a u' hu hbody => hu.trans (mapPage_grows hbody))
      (.of_eq rfl) ht
  split_ifs at h
  · refine ForLoop.upto_invariant (P := fun t => Grows c s.pool t.pool)
      (fun u a u' hu hbody => ?_) hmap h
    obtain ⟨⟨w, ok⟩, hw, hbody⟩ := Option.bind_eq_some_iff.mp hbody
    split_ifs at hbody
    cases hbody
    exact hu.trans (.of_eq (handlePageFault_pool hw))
  · cases h
    exact hmap

theorem doMmapPages_grows {io : ℕ → Bool} {addr length : Addr}
    {prot flags : BitVec 32} {file : Option ℕ} {offset r : Addr}
    (h : doMmapPages c io addr length prot flags file offset s =
      some (s', r)) :
    Grows c s.pool s'.pool ∧ (r ≠ FAILED → s'.pool.vmrsUp = true) := by
  obtain ⟨p, -, h⟩ := Option.bind_eq_some_iff.mp h
  cases p with
  | none =>
    cases h
    exact ⟨.of_eq rfl, fun hr => absurd rfl hr⟩
  | some a =>
    obtain ⟨⟨t, o⟩, ht, h⟩ := Option.bind_eq_some_iff.mp h
    obtain ⟨hgrows, hup⟩ := vmrPage_grows (vmrAlloc_some ht).2.2.1
    cases o with
    | none =>
      cases h
      exact ⟨hgrows, fun _ => hup⟩
    | some v =>
      obtain ⟨u, hu, h⟩ := Option.map_eq_some_iff.mp h
      cases h
      have hmap := mapPages_grows hu
      exact ⟨hgrows.trans hmap, fun _ => hmap.up hup⟩

theorem doBrk_grows {addr r : Addr} (h : doBrk c addr s = some (s', r)) :
    Grows c s.pool s'.pool := by
  obtain ⟨t, rfl, ⟨-, ht⟩ | ⟨-, ht⟩ | ⟨-, rfl⟩⟩ := doBrk_cases h
  · exact .of_eq (doMunmapPages_some ht).1.pool
  · exact (doMmapPages_grows ht).1
  · exact .of_eq rfl

theorem mprotectPage_pool {prot : BitVec 32} {a : Addr}
    (h : mprotectPage prot s a = .ok s') : s'.pool = s.pool := by
  rcases mprotectPage_cases h with ⟨v, -, -, rfl⟩ |
    ⟨ppn, type, -, -, -, -, -, rfl⟩
  · rfl
  · rfl

theorem doMprotect_pool {addr length : Addr} {prot : BitVec 32} {r : Addr}
    (h : doMprotect addr length prot s = some (s', r)) :
    s'.pool = s.pool :=
  doMprotect_invariant (P := fun t => t.pool = s.pool)
    (fun _ _ _ hs hp => (mprotectPage_pool hp).trans hs) rfl h

theorem run_grows {op : Op} (h : op.run c s = some s') :
    Grows c s.pool s'.pool := by
  cases op with
  | mmap io addr length prot flags file offset =>
    obtain ⟨r, hm, rfl⟩ := Option.map_eq_some_iff.mp h
    rcases doMmap_cases hm with ⟨-, heq⟩ | ⟨-, t, heq, ht⟩
    · rw [heq]
      exact .of_eq rfl
    · rw [heq, lowerMax_pool]
      exact (doMmapPages_grows ht).1
  | munmap addr length =>
    obtain ⟨r, hm, rfl⟩ := Option.map_eq_some_iff.mp h
    rcases doMunmap_cases hm with heq | ht
    · exact .of_eq (congrArg Vm.pool heq)
    · exact .of_eq (doMunmapPages_some ht).1.pool
  | brk addr =>
    obtain ⟨r, hm, rfl⟩ := Option.map_eq_some_iff.mp h
    exact doBrk_grows hm
  | mprotect addr length prot =>
    obtain ⟨r, hm, rfl⟩ := Option.map_eq_some_iff.mp h
    exact .of_eq (doMprotect_pool hm)
  | fault io vaddr prot =>
    exact .of_eq (handlePageFault_pool (fault_cases h))

/-! ## The boot and the loader -/

theorem raiseMin_pool (g : Segment) (s : Vm) :
    (raiseMin g s).pool = s.pool := by
  unfold raiseMin
  split_ifs <;> rfl

theorem loadSegment_grows {g : Segment} (h : loadSegment c g s = some s') :
    Grows c s.pool s'.pool := by
  obtain ⟨t, u, ht, hu, hrest⟩ := loadSegment_cases h
  have hfile := (doMmapPages_grows ht).1
  rw [raiseMin_pool] at hfile
  have hprot : u.pool = t.pool := by
    rcases hu with ⟨-, rfl⟩ | hu
    · rfl
    · exact doMprotect_pool hu
  have hloaded := hfile.trans (.of_eq hprot)
  rcases hrest with ⟨-, rfl⟩ | ⟨-, hzeros⟩
  · exact hloaded
  · exact hloaded.trans (doMmapPages_grows hzeros).1

/-- After the boot, the page of the descriptors is there: the stack has
one. -/
theorem pkVmInit_pool (h : pkVmInit c = some s) :
    s.pool.vmrsUp = true ∧ Within c s.pool := by
  obtain ⟨q, hq, h⟩ := Option.bind_eq_some_iff.mp h
  obtain ⟨t, ht, h⟩ := Option.bind_eq_some_iff.mp h
  have hroot := pageAlloc_grows hq
  have hkernel : Grows c q t.pool := by
    refine ForLoop.turns_invariant (P := fun _ t => Grows c q t.pool)
      (.of_eq rfl) (fun i _ u u' hu hturn => ?_) ht
    obtain ⟨r, hr, rfl⟩ := Option.map_eq_some_iff.mp hturn
    exact hu.trans (walkCreate_grows hr)
  obtain ⟨⟨u, r⟩, hu, h⟩ := Option.bind_eq_some_iff.mp h
  obtain ⟨hstack, hup⟩ := doMmapPages_grows hu
  split_ifs at h with hr
  obtain ⟨q', hq', rfl⟩ := Option.map_eq_some_iff.mp h
  have hlast := pageAlloc_grows hq'
  have hcold : Within c (Vm.cold c).pool := Nat.zero_le _
  exact ⟨hlast.up (hup hr),
    ((hroot.trans hkernel).trans (hstack.trans hlast)).within hcold⟩

theorem loadElf_grows {segs : List Segment}
    (h : loadElf c segs s = some s') : Grows c s.pool s'.pool :=
  loadElf_invariant (P := fun t => Grows c s.pool t.pool)
    (fun _ _ _ ht hload => ht.trans (loadSegment_grows hload))
    (.of_eq rfl) h

theorem start_pool {segs : List Segment} (h : start c segs = some s) :
    s.pool.vmrsUp = true ∧ Within c s.pool := by
  obtain ⟨t, ht, hload⟩ := Option.bind_eq_some_iff.mp h
  obtain ⟨hup, hwithin⟩ := pkVmInit_pool ht
  have hgrows := loadElf_grows hload
  exact ⟨hgrows.up hup, hgrows.within hwithin⟩

end ArianeSoc.Pk.Mmap
