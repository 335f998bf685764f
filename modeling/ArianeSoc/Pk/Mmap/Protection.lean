import ArianeSoc.Pk.Mmap.Access
import ArianeSoc.Pk.Mmap.Brk
import ArianeSoc.Pk.Mmap.Mprotect
import Mathlib.Tactic.Common

/-!
# Page protections

A user access should be allowed if and only if the protection that was last
asked for its page includes it, by the `mmap` that made the page or by the
last `mprotect` over it that succeeded.  The track of a run says what was
asked for, from the boot on.

The code gets there for protections that it can encode and for an
`mprotect` that is of one mind about its pages (`MprotectMet`).

* A page that is not populated has its protection in the descriptor of its
  region, so that an `mprotect` of a part changes the rest.
* An `mprotect` that fails at a page has changed the pages before it.
* The loop of `do_mprotect` sees no page of a range that wraps, and other
  pages for a range beyond the address space.
-/

namespace ArianeSoc.Pk.Mmap

variable {c : Config} {s s' : Vm}

/-! ## What was asked for -/

/-- The protection that was last asked for a page. -/
abbrev Asked := ℕ → Option (BitVec 32)

/-- A protection is asked for the pages of a range. -/
def Asked.put (asked : Asked) (a length : Addr) (prot : BitVec 32) : Asked :=
  fun k => if InRange a length k then some prot else asked k

theorem put_of_mem {asked : Asked} {a length : Addr} {prot : BitVec 32}
    {k : ℕ} (h : InRange a length k) :
    asked.put a length prot k = some prot :=
  if_pos h

theorem put_of_notMem {asked : Asked} {a length : Addr} {prot : BitVec 32}
    {k : ℕ} (h : ¬ InRange a length k) :
    asked.put a length prot k = asked k :=
  if_neg h

/-- Every page of the user has the protection that was asked for. -/
def Shown (s : Vm) (asked : Asked) : Prop :=
  ∀ k, (s.pte k).User → ∃ prot, asked k = some prot ∧
    HasProt s prot (s.pte k)

/-- What accesses to a page go by. -/
def Vm.protection (s : Vm) (k : ℕ) : Option (BitVec 8) :=
  match s.pte k with
  | .zero => none
  | .lazy v => some (PTE_V ||| protToType (s.vmr v).prot true)
  | .leaf _ type => some type

theorem hasProt_congr {e : Pte} {prot : BitVec 32}
    (h : ∀ v, e = .lazy v → (s'.vmr v).prot = (s.vmr v).prot)
    (hp : HasProt s prot e) : HasProt s' prot e := by
  cases e with
  | zero => exact hp
  | lazy v => exact (h v rfl).trans hp
  | leaf ppn type => exact hp

theorem protection_congr {k : ℕ} (hpte : s'.pte k = s.pte k)
    (h : ∀ v, s.pte k = .lazy v → (s'.vmr v).prot = (s.vmr v).prot) :
    s'.protection k = s.protection k := by
  unfold Vm.protection
  rw [hpte]
  cases hk : s.pte k with
  | zero => rfl
  | lazy v =>
    dsimp only
    rw [h v hk]
  | leaf ppn type => rfl

/-- Steps that map no page and leave the descriptors alone. -/
theorem Shown.of_sub {asked : Asked} (h : Shown s asked)
    (hpte : ∀ k, s'.pte k = s.pte k ∨ s'.pte k = .zero)
    (hprot : ∀ v, (s'.vmr v).prot = (s.vmr v).prot) : Shown s' asked := by
  intro k hu
  rcases hpte k with hk | hk
  · rw [hk] at hu ⊢
    obtain ⟨prot, hasked, hp⟩ := h k hu
    exact ⟨prot, hasked, hasProt_congr (fun v _ => hprot v) hp⟩
  · rw [hk] at hu
    exact hu.elim

theorem hasProt_newPage {prot flags : BitVec 32} {v k : ℕ}
    (hv : (s.vmr v).prot = prot) :
    HasProt s prot (newPage c prot flags v k) := by
  unfold newPage
  split_ifs
  · rfl
  · exact hv

/-- A new region has the protection that it was asked for. -/
theorem Shown.newRegion {asked : Asked} {io : ℕ → Bool} {length : Addr}
    {prot flags : BitVec 32} {file : Option ℕ} {offset a : Addr} {v : ℕ}
    (h : Shown s asked) (hi : Inv c s)
    (hn : NewRegion c io length prot flags file offset a v s s') :
    Shown s' (asked.put a length prot) := by
  have hprot : ∀ u, (s'.vmr u).prot =
      if u = v then prot else (s.vmr u).prot := by
    intro u
    have hu := congrArg Vmr.prot (congrFun hn.regions u)
    by_cases huv : u = v
    · subst huv
      rw [Function.update_self] at hu
      rw [if_pos rfl]
      exact hu
    · rw [Function.update_of_ne huv] at hu
      rw [if_neg huv]
      exact hu
  intro k hu
  by_cases hk : InRange a length k
  · rw [hn.pte, fillPages_of_mem hk.1 hk.2, put_of_mem hk]
    exact ⟨prot, rfl, hasProt_newPage (by rw [hprot, if_pos rfl])⟩
  · rw [hn.pte, fillPages_of_notMem hk] at hu ⊢
    rw [put_of_notMem hk]
    obtain ⟨p, hasked, hp⟩ := h k hu
    refine ⟨p, hasked, hasProt_congr (fun u hv => ?_) hp⟩
    have huv : u ≠ v := by
      intro huv
      subst huv
      exact refcnt_ne_zero hi hv hn.free.2
    rw [hprot, if_neg huv]

/-! ## `mprotect` -/

theorem hasProt_reprotect {prot : BitVec 32} {e : Pte} (hu : e.User)
    (hv : ∀ v, e = .lazy v → (s.vmr v).prot = prot) :
    HasProt s prot (reprotect prot e) := by
  cases e with
  | zero => exact hu
  | lazy v => exact hv v rfl
  | leaf ppn type => rfl

theorem user_of_accepts {prot : BitVec 32} {e : Pte}
    (hacc : Accepts prot s e) : e.User := by
  cases e with
  | zero => exact hacc
  | lazy v => trivial
  | leaf ppn type => exact hacc.1

/-- Every descriptor of the range has the protection already, or all pages
that point to it are in the range. -/
def Closed (prot : BitVec 32) (a length : Addr) (s : Vm) : Prop :=
  ∀ v, Shares s (pageOf a) (pageCount length) v → (s.vmr v).prot = prot ∨
    ∀ k, s.pte k = .lazy v → InRange a length k

/-- All pages of the range have taken the protection. -/
abbrev Taken (prot : BitVec 32) (a length : Addr) (s s' : Vm) : Prop :=
  Processed prot (pageOf a) (pageCount length) s s'

theorem Taken.prot_outside {prot : BitVec 32} {a length : Addr}
    (hp : Taken prot a length s s') (hc : Closed prot a length s) {k : ℕ}
    (hk : ¬ InRange a length k) {v : ℕ} (hv : s.pte k = .lazy v) :
    (s'.vmr v).prot = (s.vmr v).prot := by
  by_cases hshare : Shares s (pageOf a) (pageCount length) v
  · rcases hc v hshare with hsame | hall
    · rw [hp.shared v hshare, hsame]
    · exact absurd (hall k hv) hk
  · exact hp.others v hshare

/-- A range that is closed gets what is asked for. -/
theorem Shown.taken {prot : BitVec 32} {a length : Addr} {asked : Asked}
    (h : Shown s asked) (hp : Taken prot a length s s')
    (hc : Closed prot a length s) :
    Shown s' (asked.put a length prot) := by
  intro k hu
  by_cases hk : InRange a length k
  · obtain ⟨i, rfl⟩ := Nat.exists_eq_add_of_le hk.1
    have hi : i < pageCount length := by
      have hlt := hk.2
      omega
    rw [put_of_mem hk, hp.inside i hi]
    refine ⟨prot, rfl, hasProt_reprotect
      (user_of_accepts (hp.accepts i hi)) fun v hv => ?_⟩
    exact hp.shared v ⟨i, hi, hv⟩
  · rw [hp.outside k hk] at hu ⊢
    rw [put_of_notMem hk]
    obtain ⟨q, hasked, hq⟩ := h k hu
    exact ⟨q, hasked, hasProt_congr
      (fun v hv => Taken.prot_outside hp hc hk hv) hq⟩

/-- The pages allow what they allowed. -/
structure SameProt (s s' : Vm) : Prop where
  pte : s'.pte = s.pte
  prot : ∀ v, (s'.vmr v).prot = (s.vmr v).prot

theorem SameProt.hasProt (h : SameProt s s') {prot : BitVec 32} {k : ℕ}
    (hp : HasProt s prot (s.pte k)) : HasProt s' prot (s'.pte k) := by
  rw [h.pte]
  exact hasProt_congr (fun v _ => h.prot v) hp

theorem SameProt.accepts_iff (h : SameProt s s') {prot : BitVec 32}
    {k : ℕ} :
    Accepts prot s' (s'.pte k) ↔ Accepts prot s (s.pte k) := by
  rw [h.pte]
  cases s.pte k with
  | zero => exact Iff.rfl
  | lazy v => simp only [Accepts, h.prot v]
  | leaf ppn type => exact Iff.rfl

/-- A page that has the protection already stays as it is. -/
theorem mprotectPage_settled {prot : BitVec 32} {a : Addr}
    (hp : HasProt s prot (s.pte (vpn a)))
    (h : mprotectPage prot s a = .ok s') : SameProt s s' := by
  rcases mprotectPage_cases h with ⟨v, hv, -, rfl⟩ |
    ⟨ppn, type, hl, -, -, -, -, rfl⟩
  · rw [hv] at hp
    refine ⟨rfl, fun w => ?_⟩
    show (Function.update s.vmr v _ w).prot = _
    by_cases hw : w = v
    · subst hw
      rw [Function.update_self]
      exact hp.symm
    · rw [Function.update_of_ne hw]
  · rw [hl] at hp
    refine ⟨?_, fun w => rfl⟩
    rw [setPte_pte, pteCreate, ← show type = _ from hp, ← hl,
      Function.update_eq_self]

/-- The pages of the loop before one that refuses have the protection. -/
structure Settled (prot : BitVec 32) (a stop : Addr) (j : ℕ) (s : Vm) :
    Prop where
  more : ∀ i ≤ j, ForLoop.counter a 4096 i < stop
  settled : ∀ i < j, HasProt s prot (s.pte (vpn (ForLoop.counter a 4096 i)))
  refuses : ¬ Accepts prot s (s.pte (vpn (ForLoop.counter a 4096 j)))

theorem Settled.next {prot : BitVec 32} {a stop : Addr} {j : ℕ}
    (h : Settled prot a stop (j + 1) s) (hsame : SameProt s s') :
    Settled prot (a + 4096) stop j s' := by
  have hcounter : ∀ i, ForLoop.counter (a + 4096 : Addr) 4096 i =
      ForLoop.counter a 4096 (i + 1) :=
    fun i => ForLoop.counter_succ a 4096 i
  refine ⟨fun i hi => ?_, fun i hi => ?_, ?_⟩
  · rw [hcounter]
    exact h.more (i + 1) (by omega)
  · rw [hcounter]
    exact hsame.hasProt (h.settled (i + 1) (by omega))
  · rw [hcounter, hsame.accepts_iff]
    exact h.refuses

/-- The loop fails then, and nothing has changed. -/
theorem mprotectLoop_settled {prot : BitVec 32} {a stop r : Addr}
    {n j : ℕ} (hs : Settled prot a stop j s)
    (h : mprotectLoop prot stop n a s = some (s', r)) :
    r ≠ 0 ∧ SameProt s s' := by
  induction j generalizing n a s with
  | zero =>
    cases n with
    | zero => cases h
    | succ n =>
      have hmore := hs.more 0 (Nat.le_refl 0)
      have hbad := hs.refuses
      rw [ForLoop.counter_zero] at hmore hbad
      unfold mprotectLoop at h
      rw [if_pos hmore] at h
      cases hp : mprotectPage prot s a with
      | error e =>
        rw [hp] at h
        cases h
        exact ⟨(mprotectPage_error hp).1, rfl, fun _ => rfl⟩
      | ok t => exact absurd (mprotectPage_accepts hp) hbad
  | succ j ih =>
    cases n with
    | zero => cases h
    | succ n =>
      have hmore := hs.more 0 (Nat.zero_le _)
      have hset := hs.settled 0 (Nat.succ_pos j)
      rw [ForLoop.counter_zero] at hmore hset
      unfold mprotectLoop at h
      rw [if_pos hmore] at h
      cases hp : mprotectPage prot s a with
      | error e =>
        rw [hp] at h
        cases h
        exact ⟨(mprotectPage_error hp).1, rfl, fun _ => rfl⟩
      | ok t =>
        rw [hp] at h
        have hsame := mprotectPage_settled hset hp
        obtain ⟨hr, hrest⟩ := ih (hs.next hsame) h
        refine ⟨hr, hrest.pte.trans hsame.pte, fun v => ?_⟩
        rw [hrest.prot v, hsame.prot v]

/-- When an `mprotect` keeps to its law: it is refused at once; or the pages
before the one that refuses have the protection already; or all its pages
accept the protection, and none shares its descriptor with a page outside
that has another one. -/
def MprotectMet (addr length : Addr) (prot : BitVec 32) (s : Vm) : Prop :=
  addr &&& 4095 ≠ 0 ∨
    (∃ j, Settled prot addr (addr + length) j s) ∨
    length = 0 ∨
    addr.toNat + length.toNat ≤ 2 ^ 39 ∧
      (∀ i < pageCount length, Accepts prot s (s.pte (pageOf addr + i))) ∧
        Closed prot addr length s

/-- What it does then: it changes no protection and fails, or it gives the
protection to the pages of its range and no others. -/
theorem doMprotect_met {addr length r : Addr} {prot : BitVec 32}
    (h : MprotectMet addr length prot s)
    (hr : doMprotect addr length prot s = some (s', r)) :
    (r ≠ 0 ∧ SameProt s s') ∨
      r = 0 ∧ Taken prot addr length s s' ∧ Closed prot addr length s := by
  by_cases ha : addr &&& 4095 ≠ 0
  · unfold doMprotect at hr
    rw [if_pos ha] at hr
    cases hr
    exact .inl ⟨by decide, rfl, fun _ => rfl⟩
  rcases h.resolve_left ha with ⟨j, hs⟩ | rfl | ⟨hle, hacc, hclosed⟩
  · unfold doMprotect at hr
    rw [if_neg ha] at hr
    exact .inl (mprotectLoop_settled hs hr)
  · unfold doMprotect at hr
    rw [if_neg ha, show addr + 0 = addr from BitVec.add_zero addr,
      show forever = (2 ^ 53 - 1) + 1 from rfl] at hr
    unfold mprotectLoop at hr
    rw [if_neg (BitVec.lt_irrefl addr)] at hr
    cases hr
    refine .inr ⟨rfl, Processed.zero prot _ s, fun v hv => ?_⟩
    obtain ⟨i, hi, -⟩ := hv
    exact absurd hi (Nat.not_lt_zero i)
  · rw [not_not, and_4095] at ha
    obtain ⟨j, hend⟩ := doMprotect_range ha hle hr
    have hz : r = 0 := by
      by_contra hz
      obtain ⟨hj, hbad⟩ := hend.refused hz
      exact hbad (hacc j hj)
    obtain rfl := hend.done hz
    exact .inr ⟨hz, hend.processed, hclosed⟩

/-! ## The other operations -/

theorem Shown.fault {asked : Asked} {io : ℕ → Bool} {vaddr : Addr}
    {prot : BitVec 32} {ok : Bool} (h : Shown s asked)
    (hr : handlePageFault c io vaddr prot s = some (s', ok)) :
    Shown s' asked := by
  rw [handlePageFault_eq] at hr
  split_ifs at hr
  · split at hr
    · cases hr
      exact h
    · cases hr
      exact h
    · rename_i v hv
      split_ifs at hr
      cases hr
      intro k hu
      by_cases hk : k = pageOf vaddr
      · subst hk
        obtain ⟨q, hasked, hq⟩ := h _ (by rw [hv]; trivial)
        rw [hv] at hq
        refine ⟨q, hasked, ?_⟩
        show HasProt _ q (Function.update s.pte (pageOf vaddr) _ _)
        rw [Function.update_self, show q = (s.vmr v).prot from hq.symm]
        rfl
      · have hsame : (populated c v (pageOf vaddr) s).pte k = s.pte k :=
          Function.update_of_ne hk _ _
        rw [hsame] at hu ⊢
        obtain ⟨q, hasked, hq⟩ := h k hu
        exact ⟨q, hasked, hasProt_congr
          (fun u _ => vmrDecref_prot v u s) hq⟩
  · cases hr
    exact h

theorem Shown.munmap {asked : Asked} {a len : Addr} (h : Shown s asked)
    (hr : doMunmapPages a len s = some s') : Shown s' asked := by
  obtain ⟨hrel, hpte⟩ := doMunmapPages_some hr
  exact h.of_sub hpte (prot_of_regions hrel.regions)

/-- What is asked for with an operation from `s` to `s'`. -/
def Op.ask (c : Config) (s s' : Vm) (asked : Asked) : Op → Asked
  | .mmap io addr length prot flags file offset =>
    match doMmap c io addr length prot flags file offset s with
    | none => asked
    | some (_, r) =>
      if IsError r then asked else asked.put r length prot
  | .brk _ =>
    if s.theBrk < s'.brk then
      asked.put s.theBrk (s'.brk - s.theBrk) (-1)
    else asked
  | .mprotect addr length prot =>
    match doMprotect addr length prot s with
    | none => asked
    | some (_, r) => if r = 0 then asked.put addr length prot else asked
  | _ => asked

theorem Shown.mmap {asked : Asked} {io : ℕ → Bool} {addr length : Addr}
    {prot flags : BitVec 32} {file : Option ℕ} {offset : Addr}
    (h : Shown s asked) (hready : Ready c s)
    (htame : Accepted length flags file offset → Tame c length flags s)
    (hr : (Op.mmap io addr length prot flags file offset).run c s =
      some s') :
    Shown s' ((Op.mmap io addr length prot flags file offset).ask c s s'
      asked) := by
  obtain ⟨⟨u, r⟩, hu, rfl⟩ := Option.map_eq_some_iff.mp hr
  simp only [Op.ask, hu]
  rcases doMmap_cases hu with ⟨herr, rfl⟩ | ⟨hacc, t, rfl, ht⟩
  · rw [if_pos herr]
    exact h
  · have hlower : ∀ {asked : Asked}, Shown t asked →
        Shown (lowerMax r t) asked := by
      intro asked hshown
      refine hshown.of_sub (fun k => .inl ?_) fun v => ?_
      · rw [lowerMax_pte]
      · rw [lowerMax_vmr]
    rcases doMmapPages_tame hready hacc.length_ne (htame hacc) ht with
      ⟨rfl, hsame⟩ | ⟨-, -, v, hn⟩
    · rw [if_pos (.inr (.inr rfl))]
      refine hlower (h.of_sub (fun k => .inl ?_) fun v => ?_)
      · rw [hsame.pte]
      · rw [hsame.vmr]
    · rw [if_neg fun herr => herr.not_aligned hn.user.aligned]
      exact hlower (h.newRegion hready.inv hn)

theorem Shown.brk {asked : Asked} {addr : Addr} (h : Shown s asked)
    (hi : Inv c s) (hr : (Op.brk addr).run c s = some s') :
    Shown s' ((Op.brk addr).ask c s s' asked) := by
  obtain ⟨⟨u, r⟩, hu, rfl⟩ := Option.map_eq_some_iff.mp hr
  have hset : Shown s.setBrk asked := h
  have haligned := theBrk_aligned hi.brk_aligned
  unfold Op.ask
  obtain ⟨t, rfl, ⟨hlt, ht⟩ | ⟨hlt, ht⟩ | ⟨heq, rfl⟩⟩ := doBrk_cases hu
  · rw [if_neg (BitVec.not_lt.mpr (BitVec.le_of_lt hlt))]
    have hshown := hset.munmap ht
    exact hshown
  · rw [if_pos hlt]
    obtain ⟨v, -, hn⟩ := fixed_newRegion hi.setBrk (by decide) haligned ht
    have hshown := hset.newRegion hi.setBrk hn
    exact hshown
  · rw [if_neg (by rw [← heq]; exact BitVec.lt_irrefl _)]
    exact h

theorem Shown.mprotect {asked : Asked} {addr length : Addr}
    {prot : BitVec 32} (h : Shown s asked)
    (hmet : MprotectMet addr length prot s)
    (hr : (Op.mprotect addr length prot).run c s = some s') :
    Shown s' ((Op.mprotect addr length prot).ask c s s' asked) := by
  obtain ⟨⟨u, r⟩, hu, rfl⟩ := Option.map_eq_some_iff.mp hr
  simp only [Op.ask, hu]
  rcases doMprotect_met hmet hu with ⟨hz, hsame⟩ | ⟨hz, htaken, hc⟩
  · rw [if_neg hz]
    exact h.of_sub (fun k => .inl (congrFun hsame.pte k)) hsame.prot
  · rw [if_pos hz]
    exact h.taken htaken hc

/-! ## The boot and the loader -/

/-- The stack may be used in every way. -/
def stackAsked (c : Config) : Asked :=
  Asked.put (fun _ => none)
    (c.mmapMax - BitVec.ofNat 64 (stackPages c * 4096))
    (BitVec.ofNat 64 (stackPages c * 4096)) 7

/-- A segment gets its protection, in its pages from the file and in its
pages of zeros. -/
def Segment.ask (g : Segment) (asked : Asked) : Asked :=
  let asked := asked.put g.start g.fileLen g.prot
  if g.mapped < g.memsz then
    asked.put (g.vaddr + g.mapped) (g.memsz - g.mapped) g.prot
  else asked

def startAsked (c : Config) (segs : List Segment) : Asked :=
  segs.foldl (fun asked g => g.ask asked) (stackAsked c)

theorem pkVmInit_shown (h : pkVmInit c = some s) :
    Shown s (stackAsked c) := by
  obtain ⟨q, -, h⟩ := Option.bind_eq_some_iff.mp h
  obtain ⟨t, ht, h⟩ := Option.bind_eq_some_iff.mp h
  obtain ⟨⟨u, r⟩, hu, h⟩ := Option.bind_eq_some_iff.mp h
  have hff := firstFreePaddr_le c
  have hcold := cold_inv c
  have hkernel : Inv c t ∧ Shown t fun _ => none := by
    refine ForLoop.turns_invariant
      (P := fun _ s => Inv c s ∧ Shown s fun _ => none)
      (s := { Vm.cold c with pool := q })
      ⟨⟨hcold.counted, hcold.brk_aligned, hcold.entries⟩,
        fun k hu => hu.elim⟩
      (fun i hi s s' hs hr => ⟨hs.1.mapKernelPage (by omega) hr, ?_⟩) ht
    obtain ⟨q', -, rfl⟩ := Option.map_eq_some_iff.mp hr
    intro k hu
    by_cases hk : k = 2 ^ 19 + i
    · subst hk
      rw [setPte_pte, Function.update_self] at hu
      have hbit : (PTE_V ||| protToType 7 false) &&& PTE_U ≠ 0 := hu
      exact absurd hbit (by decide)
    · rw [setPte_pte, Function.update_of_ne hk] at hu ⊢
      exact hs.2 k hu
  split_ifs at h with hr
  obtain ⟨q', -, rfl⟩ := Option.map_eq_some_iff.mp h
  have hstack : Shown u (stackAsked c) := by
    obtain ⟨v, hplace, hn⟩ := (doMmapPages_cases
      (Proper.of_fixed hkernel.1 (by decide)) hkernel.1.counted
      hu).resolve_left fun hfail => hr hfail.1
    rw [place_fixed (by decide)] at hplace
    have hplace := Option.some.inj hplace
    split_ifs at hplace
    have hshown := hkernel.2.newRegion hkernel.1 hn
    rw [← Option.some.inj hplace] at hshown
    exact hshown
  exact hstack

theorem or_write {prot : BitVec 32} (h : prot &&& PROT_WRITE ≠ 0) :
    prot ||| PROT_WRITE = prot := by
  rw [show PROT_WRITE = BitVec.twoPow 32 1 from rfl, BitVec.and_twoPow] at h
  split_ifs at h with hbit
  · refine BitVec.eq_of_getLsbD_eq fun i _ => ?_
    rw [show PROT_WRITE = BitVec.twoPow 32 1 from rfl, BitVec.getLsbD_or,
      BitVec.getLsbD_twoPow]
    by_cases hi : 1 = i
    · subst hi
      rw [hbit, Bool.true_or]
    · rw [decide_eq_false hi, Bool.and_false, Bool.or_false]
  · exact absurd rfl h

theorem Shown.loadSegment {asked : Asked} {g : Segment} (h : Shown s asked)
    (hi : Inv c s) (hr : loadSegment c g s = some s') :
    Shown s' (g.ask asked) := by
  obtain ⟨t, u, ht, hu, hrest⟩ := loadSegment_cases hr
  have hstart : g.start.toNat % 4096 = 0 := by
    have hs := g.start_toNat
    omega
  have hmin := hi.raiseMin g
  have hraise : Shown (raiseMin g s) asked := by
    unfold raiseMin
    split_ifs
    · exact h
    · exact h
  obtain ⟨v, -, hn⟩ := fixed_newRegion hmin (by decide) hstart ht
  have hfile := hraise.newRegion hmin hn
  have hit := hmin.newRegion hn
  have hmax := mmapMax_le c
  have hbelow := hn.user.below
  have hloaded : Inv c u ∧ Shown u (asked.put g.start g.fileLen g.prot) := by
    rcases hu with ⟨hwrite, rfl⟩ | hu
    · rw [or_write hwrite] at hfile
      exact ⟨hit, hfile⟩
    · refine ⟨hit.doMprotect hu, ?_⟩
      obtain ⟨j, hend⟩ := doMprotect_range hstart (by omega) hu
      obtain rfl := hend.done rfl
      have hclosed : Closed g.prot g.start g.fileLen t := by
        intro w hw
        obtain ⟨i, hilt, hwi⟩ := hw
        rw [hn.pte, fillPages_of_mem (by omega) (by omega)] at hwi
        unfold newPage at hwi
        rw [if_pos (.inr (by decide))] at hwi
        cases hwi
      have htaken := hfile.taken hend.processed hclosed
      intro k huser
      obtain ⟨p, hp, hprot⟩ := htaken k huser
      refine ⟨p, ?_, hprot⟩
      rw [← hp]
      unfold Asked.put
      split_ifs <;> rfl
  unfold Segment.ask
  dsimp only
  rcases hrest with ⟨hle, rfl⟩ | ⟨hlt, hzeros⟩
  · rw [if_neg (BitVec.not_lt.mpr hle)]
    exact hloaded.2
  · rw [if_pos hlt]
    obtain ⟨w, -, hw⟩ := fixed_newRegion hloaded.1 (by decide)
      (g.zeros_aligned (by omega)) hzeros
    exact hloaded.2.newRegion hloaded.1 hw

theorem loadElf_shown {asked : Asked} {segs : List Segment} (hi : Inv c s)
    (h : Shown s asked) (hr : loadElf c segs s = some s') :
    Shown s' (segs.foldl (fun asked g => g.ask asked) asked) := by
  unfold loadElf at hr
  induction segs generalizing s asked with
  | nil =>
    cases hr
    exact h
  | cons g segs ih =>
    rw [List.foldlM_cons] at hr
    obtain ⟨t, ht, hr⟩ := Option.bind_eq_some_iff.mp hr
    exact ih (hi.loadSegment ht) (h.loadSegment hi ht) hr

theorem start_shown {segs : List Segment} (h : start c segs = some s) :
    Shown s (startAsked c segs) := by
  obtain ⟨t, ht, hload⟩ := Option.bind_eq_some_iff.mp h
  exact loadElf_shown (pkVmInit_inv ht) (pkVmInit_shown ht) hload

/-! ## Every run -/

/-- A call of the program, or one of its accesses. -/
inductive Event where
  | call (op : Op)
  | access (io : ℕ → Bool) (a : Sv39.Access) (vaddr : Addr)

/-- An event that the program survives. -/
def Event.run (c : Config) (s : Vm) : Event → Option Vm
  | .call op => op.run c s
  | .access io a vaddr =>
    (Mmap.access c io a vaddr s).bind fun r =>
      if r.2 then some r.1 else none

/-- The kernel, and what was asked for. -/
structure Plea where
  vm : Vm
  asked : Asked

def Plea.next (c : Config) (t : Plea) (e : Event) (s' : Vm) : Plea where
  vm := s'
  asked :=
    match e with
    | .call op => op.ask c t.vm s' t.asked
    | .access _ _ _ => t.asked

def Plea.step (c : Config) (o : Option Plea) (e : Event) : Option Plea :=
  o.bind fun t => (e.run c t.vm).map (t.next c e)

def Plea.start (c : Config) (segs : List Segment) : Option Plea :=
  (Mmap.start c segs).map fun s => ⟨s, startAsked c segs⟩

/-- An access to a page of the user is allowed if and only if what was
asked for includes it; an `mprotect` changes no page outside its range, and
none at all if it fails. -/
def ProtLaw (c : Config) (t : Plea) : Event → Prop
  | .access io a vaddr => (t.vm.pte (pageOf vaddr)).User →
      ∃ prot, t.asked (pageOf vaddr) = some prot ∧
        (permitted c io a vaddr t.vm = true ↔ includes prot a = true)
  | .call (.mprotect addr length prot) => ∀ s' r,
      doMprotect addr length prot t.vm = some (s', r) →
        (∀ k, ¬ InRange addr length k →
          s'.protection k = t.vm.protection k) ∧
        (r ≠ 0 → ∀ k, s'.protection k = t.vm.protection k)
  | _ => True

/-- The condition: a protection that has to allow an access can be encoded
and the file can be read, an `mprotect` is of one mind about its pages, and
an `mmap` ends in user memory. -/
def ProtMet (c : Config) (t : Plea) : Event → Prop
  | .access io a vaddr => ∀ prot, t.asked (pageOf vaddr) = some prot →
      includes prot a = true →
        Encodable prot ∧ Fetchable io t.vm (pageOf vaddr)
  | .call (.mprotect addr length prot) => MprotectMet addr length prot t.vm
  | .call op => op.Tame c t.vm

structure PleaInv (c : Config) (t : Plea) : Prop where
  ready : Ready c t.vm
  shown : Shown t.vm t.asked

variable {t : Plea}

theorem PleaInv.law {e : Event} (h : PleaInv c t) (hmet : ProtMet c t e) :
    ProtLaw c t e := by
  cases e with
  | access io a vaddr =>
    intro hu
    obtain ⟨prot, hasked, hp⟩ := h.shown (pageOf vaddr) hu
    refine ⟨prot, hasked, ?_⟩
    rw [permitted_iff h.ready.inv hu hp]
    exact and_iff_left_of_imp (hmet prot hasked)
  | call op =>
    cases op with
    | mprotect addr length prot =>
      intro s' r hr
      rcases doMprotect_met hmet hr with ⟨-, hsame⟩ | ⟨hz, htaken, hc⟩
      · have hall : ∀ k, s'.protection k = t.vm.protection k := fun k =>
          protection_congr (congrFun hsame.pte k) fun v _ => hsame.prot v
        exact ⟨fun k _ => hall k, fun _ => hall⟩
      · refine ⟨fun k hk => ?_, fun hr' => absurd hz hr'⟩
        exact protection_congr (htaken.outside k hk)
          fun v hv => htaken.prot_outside hc hk hv
    | mmap io addr length prot flags file offset => trivial
    | munmap addr length => trivial
    | brk addr => trivial
    | fault io vaddr prot => trivial

theorem access_fault {io : ℕ → Bool} {a : Sv39.Access} {vaddr : Addr}
    (hr : (Event.access io a vaddr).run c s = some s') :
    s' = s ∨ ∃ ok, handlePageFault c io vaddr (faultProt a) s =
      some (s', ok) := by
  obtain ⟨⟨u, ok⟩, hu, hr⟩ := Option.bind_eq_some_iff.mp hr
  dsimp only at hr
  split_ifs at hr
  cases hr
  unfold access at hu
  split_ifs at hu
  · cases hu
    exact .inl rfl
  · obtain ⟨⟨w, ok'⟩, hw, heq⟩ := Option.map_eq_some_iff.mp hu
    cases heq
    exact .inr ⟨ok', hw⟩

theorem PleaInv.next {e : Event} (h : PleaInv c t) (hmet : ProtMet c t e)
    (hr : e.run c t.vm = some s') : PleaInv c (t.next c e s') := by
  have hi := h.ready.inv
  cases e with
  | access io a vaddr =>
    rcases access_fault hr with rfl | ⟨ok, hfault⟩
    · exact h
    · have hpool := handlePageFault_pool hfault
      refine ⟨⟨hi.handlePageFault hfault, ?_, ?_⟩, h.shown.fault hfault⟩
      · exact (congrArg Pool.vmrsUp hpool).trans h.ready.up
      · exact (Grows.of_eq hpool).within h.ready.within
  | call op =>
    change op.run c t.vm = some s' at hr
    cases op with
    | mmap io addr length prot flags file offset =>
      have htame : (Op.mmap io addr length prot flags file offset).Tame c
        t.vm := hmet
      exact ⟨h.ready.run htame hr, h.shown.mmap h.ready htame hr⟩
    | munmap addr length =>
      refine ⟨h.ready.run (by trivial) hr, ?_⟩
      obtain ⟨r, hm, rfl⟩ := Option.map_eq_some_iff.mp hr
      rcases doMunmap_cases hm with heq | hm
      · show Shown r.1 t.asked
        rw [heq]
        exact h.shown
      · exact h.shown.munmap hm
    | brk addr =>
      exact ⟨h.ready.run (by trivial) hr, h.shown.brk hi hr⟩
    | mprotect addr length prot =>
      exact ⟨h.ready.run (by trivial) hr, h.shown.mprotect hmet hr⟩
    | fault io vaddr prot =>
      exact ⟨h.ready.run (by trivial) hr, h.shown.fault (fault_cases hr)⟩

/-- In a run whose events meet their conditions, every event obeys the
law. -/
theorem page_protection (c : Config) (segs : List Segment)
    (events : List Event)
    (h : Sync.Along (Plea.step c)
      (fun o e => ∀ t, o = some t → ProtMet c t e)
      (Plea.start c segs) events) :
    Sync.Along (Plea.step c) (fun o e => ∀ t, o = some t → ProtLaw c t e)
      (Plea.start c segs) events := by
  refine (h.along (P := fun o => ∀ t, o = some t → PleaInv c t)
    (fun o e hmet ho t' ht' => ?_) fun t ht => ?_).mono
      fun o e hboth t ht => ?_
  · obtain ⟨t, rfl, ht'⟩ := Option.bind_eq_some_iff.mp ht'
    obtain ⟨s', hs', rfl⟩ := Option.map_eq_some_iff.mp ht'
    exact (ho t rfl).next (hmet t rfl) hs'
  · obtain ⟨s, hs, rfl⟩ := Option.map_eq_some_iff.mp ht
    exact ⟨start_ready hs, start_shown hs⟩
  · exact (hboth.2 t ht).law (hboth.1 t ht)

/-- Two populated pages, of which the first becomes read-only: it can be
read, and the second can still be written. -/
theorem page_protection_smallProgram :
    let events : List Event := [.call (.brk 0x5000),
      .call (anonymous 0 0x2000 3 MAP_POPULATE),
      .call (.mprotect 0x5000 0x1000 1),
      .access (fun _ => true) .load 0x5000,
      .access (fun _ => true) .store 0x6000]
    (Sync.run (Plea.step smallBoard)
        (Plea.start smallBoard [smallProgram]) events).isSome ∧
      Sync.Along (Plea.step smallBoard)
        (fun o e => ∀ t, o = some t → ProtLaw smallBoard t e)
        (Plea.start smallBoard [smallProgram]) events := by
  refine ⟨by decide +kernel, page_protection smallBoard [smallProgram] _
    ⟨fun _ _ => trivial, fun _ _ => ?_, ?_, ?_, ?_, trivial⟩⟩
  · intro _
    exact .inr (.inr (.inl (by decide +kernel)))
  · have hfirst : ((Sync.run (Plea.step smallBoard)
        (Plea.start smallBoard [smallProgram]) [.call (.brk 0x5000),
          .call (anonymous 0 0x2000 3 MAP_POPULATE)]).all fun t =>
        decide (t.vm.pte 5 = userPage smallBoard 3 5)) = true := by
      decide +kernel
    intro t ht
    change Sync.run (Plea.step smallBoard)
      (Plea.start smallBoard [smallProgram]) [.call (.brk 0x5000),
        .call (anonymous 0 0x2000 3 MAP_POPULATE)] = some t at ht
    rw [ht, Option.all_some, decide_eq_true_eq] at hfirst
    have hone : pageCount 0x1000 = 1 := rfl
    have hpage : pageOf 0x5000 = 5 := rfl
    refine .inr (.inr (.inr ⟨by decide, fun i hi => ?_, ?_⟩))
    · rw [hone] at hi
      obtain rfl : i = 0 := by omega
      rw [hpage, Nat.add_zero, hfirst]
      exact ⟨by decide, by decide, by decide, by decide⟩
    · intro v hv
      obtain ⟨i, hi, hv⟩ := hv
      rw [hone] at hi
      obtain rfl : i = 0 := by omega
      rw [hpage, Nat.add_zero, hfirst] at hv
      cases hv
  · have hpages : ((Sync.run (Plea.step smallBoard)
        (Plea.start smallBoard [smallProgram]) [.call (.brk 0x5000),
          .call (anonymous 0 0x2000 3 MAP_POPULATE),
          .call (.mprotect 0x5000 0x1000 1)]).all fun t =>
        decide (t.asked 5 = some 1 ∧
          t.vm.pte 5 = userPage smallBoard 1 5)) = true := by
      decide +kernel
    intro t ht prot hprot _
    change Sync.run (Plea.step smallBoard)
      (Plea.start smallBoard [smallProgram]) [.call (.brk 0x5000),
        .call (anonymous 0 0x2000 3 MAP_POPULATE),
        .call (.mprotect 0x5000 0x1000 1)] = some t at ht
    rw [ht, Option.all_some, decide_eq_true_eq] at hpages
    change t.asked 5 = some prot at hprot
    obtain rfl : 1 = prot := Option.some.inj (hpages.1.symm.trans hprot)
    refine ⟨by decide, fun v hv => ?_⟩
    change t.vm.pte 5 = .lazy v at hv
    rw [hpages.2] at hv
    cases hv
  · have hpages : ((Sync.run (Plea.step smallBoard)
        (Plea.start smallBoard [smallProgram]) [.call (.brk 0x5000),
          .call (anonymous 0 0x2000 3 MAP_POPULATE),
          .call (.mprotect 0x5000 0x1000 1),
          .access (fun _ => true) .load 0x5000]).all fun t =>
        decide (t.asked 6 = some 3 ∧
          t.vm.pte 6 = userPage smallBoard 3 6)) = true := by
      decide +kernel
    intro t ht prot hprot _
    change Sync.run (Plea.step smallBoard)
      (Plea.start smallBoard [smallProgram]) [.call (.brk 0x5000),
        .call (anonymous 0 0x2000 3 MAP_POPULATE),
        .call (.mprotect 0x5000 0x1000 1),
        .access (fun _ => true) .load 0x5000] = some t at ht
    rw [ht, Option.all_some, decide_eq_true_eq] at hpages
    change t.asked 6 = some prot at hprot
    obtain rfl : 3 = prot := Option.some.inj (hpages.1.symm.trans hprot)
    refine ⟨by decide, fun v hv => ?_⟩
    change t.vm.pte 6 = .lazy v at hv
    rw [hpages.2] at hv
    cases hv

/-- Of two pages that are not populated, the first is made read-only, and
the second becomes it, too. -/
theorem page_protection_shared :
    ¬ ∀ (c : Config) (segs : List Segment) (events : List Event),
      Sync.Along (Plea.step c)
        (fun o e => ∀ t, o = some t → ProtLaw c t e)
        (Plea.start c segs) events := by
  intro h
  have hrun : (Sync.run (Plea.step smallBoard)
      (Plea.start smallBoard [smallProgram]) [.call (.brk 0x5000),
        .call (anonymous 0 0x2000 3 0)]).bind (fun t =>
          (doMprotect 0x5000 0x1000 1 t.vm).map fun r =>
            (t.vm.protection 6, r.1.protection 6)) =
      some (some 0xD7, some 0x53) := by decide +kernel
  obtain ⟨t, ht, hrun⟩ := Option.bind_eq_some_iff.mp hrun
  obtain ⟨⟨s', r⟩, hs', hrun⟩ := Option.map_eq_some_iff.mp hrun
  have hlaw := (h smallBoard [smallProgram] [.call (.brk 0x5000),
    .call (anonymous 0 0x2000 3 0),
    .call (.mprotect 0x5000 0x1000 1)]).2.2.1 t ht
  have hsame := (hlaw s' r hs').1 6 (by decide)
  have hbefore : t.vm.protection 6 = some 0xD7 := congrArg Prod.fst hrun
  have hafter : s'.protection 6 = some 0x53 := congrArg Prod.snd hrun
  rw [hbefore, hafter] at hsame
  exact absurd hsame (by decide)

end ArianeSoc.Pk.Mmap
