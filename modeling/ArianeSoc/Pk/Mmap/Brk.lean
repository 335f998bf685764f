import ArianeSoc.Pk.Mmap.Result
import Mathlib.Tactic.Common

/-!
# The heap break

The break should stay between `brk_min` and `brk_max`, and `brk` should
touch the pages of the heap and no others.  The track of a run says which
pages `brk` has mapped: the others belong to the program, to its stack or
to an `mmap`.

Two steps break this (`Calm`).

* `mmap` moves `brk_max` down to the address it returns, which may be below
  the break: with `MAP_FIXED`, or before the break has been set.
* `brk` grows up to `brk_max`, which is `mmap_max` at first, and the stack
  lies right below that.
-/

namespace ArianeSoc.Pk.Mmap

variable {c : Config} {s s' : Vm}

/-! ## Rounding -/

theorem roundup_toNat {a : Addr} (h : a.toNat ≤ 2 ^ 63) :
    (roundup a).toNat = 4096 * ((a.toNat + 4095) / 4096) := by
  unfold roundup
  rw [BitVec.toNat_mul, BitVec.toNat_add, BitVec.toNat_udiv,
    BitVec.toNat_sub, show (1 : Addr).toNat = 1 from rfl,
    show (4096 : Addr).toNat = 4096 from rfl]
  omega

/-- Where the break may be, up to whole pages. -/
structure Bounds (s : Vm) : Prop where
  min_le : (roundup s.brkMin).toNat ≤ s.theBrk.toNat
  le_max : s.theBrk.toNat ≤ (roundup s.brkMax).toNat

/-- The ends of the heap are addresses of user memory, more or less. -/
structure Small (s : Vm) : Prop where
  min_le : s.brkMin.toNat ≤ 2 ^ 32
  max_le : s.brkMax.toNat ≤ 2 ^ 31

theorem Small.theBrk_le (h : Small s) (hb : Bounds s) :
    s.theBrk.toNat ≤ 2 ^ 31 := by
  have hmax := h.max_le
  have hle := hb.le_max
  rw [roundup_toNat (by omega)] at hle
  omega

theorem theBrk_aligned (h : s.brk.toNat % 4096 = 0) :
    s.theBrk.toNat % 4096 = 0 := by
  unfold Vm.theBrk
  split_ifs
  · exact roundup_aligned _
  · exact h

/-- The new break is within the bounds, whatever is asked for. -/
theorem clampBrk_bounds (h : Small s) (hb : Bounds s) (addr : Addr) :
    (roundup s.brkMin).toNat ≤ (roundup (clampBrk addr s)).toNat ∧
      (roundup (clampBrk addr s)).toNat ≤ (roundup s.brkMax).toNat := by
  have hmin := h.min_le
  have hmax := h.max_le
  have h₁ := hb.min_le
  have h₂ := hb.le_max
  unfold clampBrk
  split_ifs with hlow hhigh
  · omega
  · omega
  · rw [BitVec.lt_def] at hlow
    rw [gt_iff_lt, BitVec.lt_def] at hhigh
    rw [roundup_toNat (by omega), roundup_toNat (by omega),
      roundup_toNat (by omega)]
    omega

/-! ## Mappings -/

/-- What a page is mapped to: its entry, and for one that is not populated
its region. -/
def Vm.mapping (s : Vm) (k : ℕ) : Pte × Option Vmr :=
  (s.pte k, match s.pte k with
    | .lazy v => some (s.regions v)
    | _ => none)

theorem mapping_congr {k : ℕ} (hpte : s'.pte k = s.pte k)
    (hregion : ∀ v, s.pte k = .lazy v → s'.regions v = s.regions v) :
    s'.mapping k = s.mapping k := by
  unfold Vm.mapping
  rw [hpte]
  cases hv : s.pte k with
  | zero => rfl
  | lazy v =>
    dsimp only
    rw [hregion v hv]
  | leaf ppn type => rfl

theorem NewRegion.mapping_eq {io : ℕ → Bool} {length : Addr}
    {prot flags : BitVec 32} {file : Option ℕ} {offset a : Addr} {v : ℕ}
    (h : Inv c s)
    (hn : NewRegion c io length prot flags file offset a v s s') {k : ℕ}
    (hk : ¬ (pageOf a ≤ k ∧ k < pageOf a + pageCount length)) :
    s'.mapping k = s.mapping k := by
  refine mapping_congr ?_ fun u hu => ?_
  · rw [hn.pte, fillPages_of_notMem hk]
  · have huv : u ≠ v := by
      intro huv
      subst huv
      exact refcnt_ne_zero h hu hn.free.2
    rw [hn.regions, Function.update_of_ne huv]

/-! ## What `brk` does -/

/-- The pages between two breaks. -/
def Between (a b : Addr) (k : ℕ) : Prop := pageOf a ≤ k ∧ k < pageOf b

instance (a b : Addr) (k : ℕ) : Decidable (Between a b k) :=
  inferInstanceAs (Decidable (_ ∧ _))

/-- `brk` moves the break to the page of the address that it clamps the
request to, and changes nothing but the pages between the two breaks. -/
theorem doBrk_spec {addr r : Addr} (h : Inv c s) (hsmall : Small s)
    (hb : Bounds s) (hr : doBrk c addr s = some (s', r)) :
    s'.brk = roundup (clampBrk addr s) ∧ s'.brkMin = s.brkMin ∧
      s'.brkMax = s.brkMax ∧
      (∀ k, ¬ Between s.theBrk s'.brk k → ¬ Between s'.brk s.theBrk k →
        s'.mapping k = s.mapping k) ∧
      ∀ k, s'.pte k ≠ .zero → ¬ Between s.theBrk s'.brk k →
        s.pte k ≠ .zero ∧ ¬ Between s'.brk s.theBrk k := by
  have hbrk := hsmall.theBrk_le hb
  have haligned := theBrk_aligned h.brk_aligned
  have hnew := clampBrk_bounds hsmall hb addr
  have hnewAligned := roundup_aligned (clampBrk addr s)
  have hmax := hsmall.max_le
  rw [roundup_toNat (a := s.brkMax) (by omega)] at hnew
  have hset := h.setBrk
  obtain ⟨t, rfl, hcases⟩ := doBrk_cases hr
  generalize roundup (clampBrk addr s) = new at *
  have hcount : ∀ {a b : Addr}, a.toNat % 4096 = 0 → b.toNat % 4096 = 0 →
      a < b → pageOf a + pageCount (b - a) = pageOf b := by
    intro a b ha hb' hlt
    have hsub := BitVec.toNat_sub_of_le (BitVec.le_of_lt hlt)
    rw [BitVec.lt_def] at hlt
    unfold pageOf pageCount
    omega
  rcases hcases with ⟨hlt, ht⟩ | ⟨hlt, ht⟩ | ⟨heq, rfl⟩
  · have hsub := BitVec.toNat_sub_of_le (BitVec.le_of_lt hlt)
    have hlt' := BitVec.lt_def.mp hlt
    obtain ⟨t', ht', hrel, hpte⟩ := @doMunmapPages_range s.setBrk new
      (s.theBrk - new) hnewAligned (by omega)
    rw [ht] at ht'
    cases ht'
    have hend := hcount hnewAligned haligned hlt
    refine ⟨rfl, congrArg (fun b => b.2.1) hrel.breaks,
      congrArg (fun b => b.2.2) hrel.breaks, fun k _ hk => ?_,
      fun k hk _ => ?_⟩
    · refine mapping_congr ?_ fun v _ => congrFun hrel.regions v
      show t.pte k = s.pte k
      rw [hpte, fillPages_of_notMem (by rw [hend]; exact hk)]
      rfl
    · change t.pte k ≠ .zero at hk
      rw [hpte] at hk
      by_cases hin : Between new s.theBrk k
      · rw [fillPages_of_mem hin.1 (by rw [hend]; exact hin.2)] at hk
        exact absurd rfl hk
      · rw [fillPages_of_notMem (by rw [hend]; exact hin)] at hk
        exact ⟨hk, hin⟩
  · obtain ⟨v, -, hn⟩ := fixed_newRegion hset (by decide) haligned ht
    have hend := hcount haligned hnewAligned hlt
    refine ⟨rfl, congrArg (fun b => b.2.1) hn.breaks,
      congrArg (fun b => b.2.2) hn.breaks, fun k hk _ => ?_,
      fun k hk hout => ⟨?_, fun hin => ?_⟩⟩
    · exact hn.mapping_eq hset (by rw [hend]; exact hk)
    · change t.pte k ≠ .zero at hk
      rw [hn.pte, fillPages_of_notMem (by rw [hend]; exact hout)] at hk
      exact hk
    · have h₁ : pageOf new ≤ k := hin.1
      have h₂ : k < pageOf s.theBrk := hin.2
      rw [BitVec.lt_def] at hlt
      unfold pageOf at h₁ h₂
      omega
  · refine ⟨rfl, rfl, rfl, fun k _ _ => rfl, fun k hk _ => ⟨hk, ?_⟩⟩
    intro hin
    have h₁ := hin.1
    have h₂ := hin.2
    rw [heq] at h₂
    exact absurd h₂ (Nat.not_lt.mpr h₁)

/-! ## The track of a run -/

instance (a length : Addr) (k : ℕ) : Decidable (InRange a length k) :=
  inferInstanceAs (Decidable (_ ∧ _))

/-- The kernel, and the pages that `brk` was the last to map. -/
structure Track where
  vm : Vm
  heap : ℕ → Bool

/-- The pages that an `mmap` maps. -/
def mmapMaps (c : Config) (s : Vm) (k : ℕ) : Op → Bool
  | .mmap io addr length prot flags file offset =>
    match doMmap c io addr length prot flags file offset s with
    | none => false
    | some (_, r) => decide (¬ IsError r ∧ InRange r length k)
  | _ => false

/-- The pages that a `brk` from `s` to `s'` maps. -/
def brkMaps (s s' : Vm) (k : ℕ) : Op → Bool
  | .brk _ => decide (Between s.theBrk s'.brk k)
  | _ => false

def Track.next (c : Config) (t : Track) (op : Op) (s' : Vm) : Track where
  vm := s'
  heap k := brkMaps t.vm s' k op || t.heap k && !mmapMaps c t.vm k op

def Track.step (c : Config) (o : Option Track) (op : Op) : Option Track :=
  o.bind fun t => (op.run c t.vm).map (t.next c op)

/-- The program starts without a heap. -/
def Track.start (c : Config) (segs : List Segment) : Option Track :=
  (Mmap.start c segs).map fun s => ⟨s, fun _ => false⟩

/-- A `brk` changes pages between the two breaks and between `brk_min` and
`brk_max` only, and among them none of the program, the stack or an
`mmap`. -/
structure BrkLaw (t : Track) (s' : Vm) : Prop where
  between : ∀ k, s'.mapping k ≠ t.vm.mapping k →
    Between t.vm.theBrk s'.brk k ∨ Between s'.brk t.vm.theBrk k
  within : ∀ k, s'.mapping k ≠ t.vm.mapping k →
    Between (roundup t.vm.brkMin) (roundup t.vm.brkMax) k
  others : ∀ k, t.vm.pte k ≠ .zero → t.heap k = false →
    s'.mapping k = t.vm.mapping k

/-- The law for the operation that a track meets. -/
def HeapLaw (c : Config) (t : Track) : Op → Prop
  | .brk addr => ∀ s', (Op.brk addr).run c t.vm = some s' → BrkLaw t s'
  | _ => True

/-- The condition: an `mmap` that succeeds is not put below the break, and
`brk` finds the pages that it wants free. -/
def Calm (c : Config) (s : Vm) : Op → Prop
  | .mmap _ addr length _ flags file offset =>
    Accepted length flags file offset → NoDescriptor s ∨
      if flags &&& MAP_FIXED ≠ 0 then
        InUser c addr length → s.theBrk ≤ addr
      else if Holdable c length then
        ∀ a, a ≠ 0 → FirstFit c s length a → s.theBrk ≤ a
      else GivesUp c length s
  | .brk addr => ∀ k, Between s.theBrk (roundup (clampBrk addr s)) k →
      s.pte k = .zero
  | _ => True

/-! ## The invariant -/

/-- Mapped pages between `brk_min` and the break are the heap's. -/
structure HeapInv (c : Config) (t : Track) : Prop where
  ready : Ready c t.vm
  small : Small t.vm
  bounds : Bounds t.vm
  own : ∀ k, t.vm.pte k ≠ .zero →
    Between (roundup t.vm.brkMin) t.vm.theBrk k → t.heap k = true

variable {t : Track}

/-- Steps that keep the break, put `brk_max` not below it and map no page
below it keep the invariant. -/
theorem HeapInv.of_kept {heap : ℕ → Bool} (h : HeapInv c t)
    (hready : Ready c s') (hbrk : s'.brk = t.vm.brk)
    (hmin : s'.brkMin = t.vm.brkMin) (hmax : s'.brkMax.toNat ≤ 2 ^ 31)
    (hle : t.vm.theBrk.toNat ≤ (roundup s'.brkMax).toNat)
    (hown : ∀ k, k < pageOf t.vm.theBrk → s'.pte k ≠ .zero →
      t.vm.pte k ≠ .zero ∧ (t.heap k = true → heap k = true)) :
    HeapInv c ⟨s', heap⟩ := by
  have hthe : s'.theBrk = t.vm.theBrk := by
    unfold Vm.theBrk
    rw [hbrk, hmin]
  refine ⟨hready, ⟨?_, hmax⟩, ⟨?_, ?_⟩, fun k hk hin => ?_⟩
  · exact hmin ▸ h.small.min_le
  · show (roundup s'.brkMin).toNat ≤ s'.theBrk.toNat
    rw [hthe, hmin]
    exact h.bounds.min_le
  · show s'.theBrk.toNat ≤ (roundup s'.brkMax).toNat
    rw [hthe]
    exact hle
  · change Between (roundup s'.brkMin) s'.theBrk k at hin
    rw [hthe, hmin] at hin
    obtain ⟨hk', hheap⟩ := hown k hin.2 hk
    exact hheap (h.own k hk' hin)

/-- Steps that also map no page. -/
theorem HeapInv.of_same {heap : ℕ → Bool} (h : HeapInv c t)
    (hready : Ready c s') (hbreaks : s'.breaks = t.vm.breaks)
    (hpte : ∀ k, s'.pte k ≠ .zero → t.vm.pte k ≠ .zero)
    (hheap : ∀ k, t.heap k = true → heap k = true) :
    HeapInv c ⟨s', heap⟩ := by
  have hbrk : s'.brk = t.vm.brk := congrArg (fun b => b.1) hbreaks
  have hmin : s'.brkMin = t.vm.brkMin := congrArg (fun b => b.2.1) hbreaks
  have hmax : s'.brkMax = t.vm.brkMax := congrArg (fun b => b.2.2) hbreaks
  exact h.of_kept hready hbrk hmin (hmax ▸ h.small.max_le)
    (hmax ▸ h.bounds.le_max) fun k _ hk => ⟨hpte k hk, hheap k⟩

/-- `brk` obeys its law and keeps the invariant. -/
theorem HeapInv.brk {addr : Addr} (h : HeapInv c t)
    (hcalm : Calm c t.vm (.brk addr))
    (hr : (Op.brk addr).run c t.vm = some s') :
    BrkLaw t s' ∧ (Ready c s' → HeapInv c (t.next c (.brk addr) s')) := by
  obtain ⟨⟨u, r⟩, hu, rfl⟩ := Option.map_eq_some_iff.mp hr
  obtain ⟨hbrk, hmin, hmax, hsame, hpte⟩ := doBrk_spec h.ready.inv h.small
    h.bounds hu
  have hnew := clampBrk_bounds h.small h.bounds addr
  have hb₁ := h.bounds.min_le
  have hb₂ := h.bounds.le_max
  have hin : ∀ k, u.mapping k ≠ t.vm.mapping k →
      Between t.vm.theBrk u.brk k ∨ Between u.brk t.vm.theBrk k := by
    intro k hk
    by_contra hno
    rw [not_or] at hno
    exact hk (hsame k hno.1 hno.2)
  rw [← hbrk] at hnew
  refine ⟨⟨hin, fun k hk => ?_, fun k hk hheap => ?_⟩, fun hready => ?_⟩
  · unfold Between pageOf
    rcases hin k hk with hk | hk
    · unfold Between pageOf at hk
      omega
    · unfold Between pageOf at hk
      omega
  · by_contra hno
    rcases hin k hno with hbetween | hbetween
    · exact hk (hcalm k (hbrk ▸ hbetween))
    · have hown := h.own k hk (by
        unfold Between pageOf at hbetween ⊢
        omega)
      rw [hheap] at hown
      exact Bool.false_ne_true hown
  · have hthe : u.theBrk = u.brk := by
      unfold Vm.theBrk
      split_ifs with hz
      · rw [hmin]
        rw [hz] at hnew ⊢
        exact BitVec.eq_of_toNat_eq (Nat.le_zero.mp hnew.1)
      · rfl
    refine ⟨hready, ⟨?_, ?_⟩, ⟨?_, ?_⟩, fun k hk hin => ?_⟩
    · exact hmin ▸ h.small.min_le
    · exact hmax ▸ h.small.max_le
    · show (roundup u.brkMin).toNat ≤ u.theBrk.toNat
      rw [hthe, hmin]
      exact hnew.1
    · show u.theBrk.toNat ≤ (roundup u.brkMax).toNat
      rw [hthe, hmax]
      exact hnew.2
    · change Between (roundup u.brkMin) u.theBrk k at hin
      rw [hthe, hmin] at hin
      by_cases hgrown : Between t.vm.theBrk u.brk k
      · show (decide (Between t.vm.theBrk u.brk k) || _) = true
        rw [decide_eq_true hgrown, Bool.true_or]
      · obtain ⟨hk', -⟩ := hpte k hk hgrown
        have hown := h.own k hk' (by
          unfold Between at hin hgrown ⊢
          omega)
        show (_ || t.heap k && !false) = true
        rw [hown]
        exact Bool.or_true _

theorem tame_of_calm {op : Op} (h : Calm c s op) : op.Tame c s := by
  cases op with
  | mmap io addr length prot flags file offset =>
    intro hacc
    rcases h hacc with hno | h
    · exact .inl hno
    · split_ifs at h with hf hfit
      · exact .inr (.inl hf)
      · exact .inr (.inr (.inl hfit))
      · exact .inr (.inr (.inr h))
  | munmap addr length => trivial
  | brk addr => trivial
  | mprotect addr length prot => trivial
  | fault io vaddr prot => trivial

section Mmap

variable {io : ℕ → Bool} {addr length : Addr} {prot flags : BitVec 32}
  {file : Option ℕ} {offset : Addr}

/-- The place of a request that is met is not below the break. -/
theorem theBrk_le_place {r : Addr}
    (h : Calm c s (.mmap io addr length prot flags file offset))
    (hacc : Accepted length flags file offset) (hno : ¬ NoDescriptor s)
    (hplace : Placed c addr length flags s r) (hu : InUser c r length) :
    s.theBrk ≤ r := by
  have h := (h hacc).resolve_left hno
  unfold Placed at hplace
  split_ifs at h hplace with hf hfit
  · subst hplace
    exact h hu
  · exact h r hplace.1 hplace.2
  · have hbelow := hplace.2.1.below
    refine absurd ?_ hfit
    unfold Holdable
    omega

/-- Once the break is set, requests without `MAP_FIXED` that user memory
could hold are calm. -/
theorem calm_of_brk_set (hset : s.brk ≠ 0) (hf : flags &&& MAP_FIXED = 0)
    (hfit : Holdable c length) :
    Calm c s (.mmap io addr length prot flags file offset) := by
  intro _
  rw [if_neg (not_not.mpr hf), if_pos hfit]
  refine .inr fun a _ ha => ?_
  rw [Vm.theBrk, if_neg hset]
  exact ha.1.brk_le

theorem HeapInv.mmap (h : HeapInv c t)
    (hcalm : Calm c t.vm (.mmap io addr length prot flags file offset))
    (hready : Ready c s')
    (hr : (Op.mmap io addr length prot flags file offset).run c t.vm =
      some s') :
    HeapInv c
      (t.next c (.mmap io addr length prot flags file offset) s') := by
  obtain ⟨⟨u, r⟩, hu, rfl⟩ := Option.map_eq_some_iff.mp hr
  have hmaps : ∀ k, mmapMaps c t.vm k
      (.mmap io addr length prot flags file offset) =
        decide (¬ IsError r ∧ InRange r length k) := by
    intro k
    simp only [mmapMaps, hu]
  have hheap : ∀ k, ¬ (¬ IsError r ∧ InRange r length k) →
      t.heap k = true → (t.next c
        (.mmap io addr length prot flags file offset) u).heap k = true := by
    intro k hk ht
    show (false || t.heap k && !mmapMaps c t.vm k _) = true
    rw [hmaps, decide_eq_false hk, ht]
    rfl
  rcases doMmap_cases hu with ⟨herr, rfl⟩ | ⟨hacc, w, rfl, hw⟩
  · exact h.of_same hready rfl (fun k hk => hk) fun k =>
      hheap k fun hk => hk.1 herr
  · have hmax := h.small.max_le
    rcases doMmapPages_tame h.ready hacc.length_ne
      (tame_of_calm hcalm hacc) hw with ⟨rfl, hsame⟩ | ⟨hno, hplace, v, hn⟩
    · have hlower : lowerMax FAILED w = w := by
        have hwmax : w.brkMax = t.vm.brkMax :=
          congrArg (fun b => b.2.2) hsame.breaks
        unfold lowerMax
        rw [if_neg]
        rw [BitVec.lt_def, hwmax, show FAILED.toNat = 2 ^ 64 - 1 from rfl]
        omega
      rw [hlower] at hready hheap ⊢
      refine h.of_same hready hsame.breaks (fun k hk => ?_) fun k =>
        hheap k fun hk => hk.1 (.inr (.inr rfl))
      rw [hsame.pte] at hk
      exact hk
    · have hle := theBrk_le_place hcalm hacc hno hplace hn.user
      have hbrk : w.brk = t.vm.brk := congrArg (fun b => b.1) hn.breaks
      have hmin : w.brkMin = t.vm.brkMin :=
        congrArg (fun b => b.2.1) hn.breaks
      have hwmax : w.brkMax = t.vm.brkMax :=
        congrArg (fun b => b.2.2) hn.breaks
      have hbelow := hn.user.below
      have haligned := hn.user.aligned
      have hmmap := mmapMax_le c
      rw [BitVec.le_def] at hle
      have hrange : ∀ k, k < pageOf t.vm.theBrk →
          ¬ (pageOf r ≤ k ∧ k < pageOf r + pageCount length) := by
        intro k hk
        unfold pageOf at hk ⊢
        omega
      have hb := h.bounds.le_max
      refine h.of_kept hready ((lowerMax_brk r w).1.trans hbrk)
        ((lowerMax_brk r w).2.trans hmin) ?_ ?_ fun k hk hmapped =>
          ⟨?_, hheap k fun hin => hrange k hk hin.2⟩
      · unfold lowerMax
        split_ifs
        · dsimp only
          omega
        · rw [hwmax]
          exact hmax
      · unfold lowerMax
        split_ifs
        · dsimp only
          rw [roundup_toNat (by omega)]
          omega
        · rw [hwmax]
          exact hb
      · rw [lowerMax_pte, hn.pte, fillPages_of_notMem (hrange k hk)]
          at hmapped
        exact hmapped

end Mmap

/-! ## The other operations -/

theorem doMprotect_same {addr length r : Addr} {prot : BitVec 32}
    (h : doMprotect addr length prot s = some (s', r)) :
    s'.breaks = s.breaks ∧ ∀ k, s'.pte k ≠ .zero → s.pte k ≠ .zero := by
  refine doMprotect_invariant (P := fun t => t.breaks = s.breaks ∧
    ∀ k, t.pte k ≠ .zero → s.pte k ≠ .zero) (fun t a u ht hp => ?_)
    ⟨rfl, fun _ hk => hk⟩ h
  rcases mprotectPage_cases hp with ⟨v, -, -, rfl⟩ |
    ⟨ppn, type, hl, -, -, -, -, rfl⟩
  · exact ht
  · refine ⟨ht.1, fun k hk => ht.2 k ?_⟩
    by_cases hka : k = vpn a
    · subst hka
      rw [hl]
      exact Pte.noConfusion
    · rw [setPte_pte, Function.update_of_ne hka] at hk
      exact hk

theorem handlePageFault_same {io : ℕ → Bool} {vaddr : Addr}
    {prot : BitVec 32} {ok : Bool}
    (h : handlePageFault c io vaddr prot s = some (s', ok)) :
    s'.breaks = s.breaks ∧ ∀ k, s'.pte k ≠ .zero → s.pte k ≠ .zero := by
  rw [handlePageFault_eq] at h
  split_ifs at h
  · split at h
    · cases h
      exact ⟨rfl, fun _ hk => hk⟩
    · cases h
      exact ⟨rfl, fun _ hk => hk⟩
    · rename_i v hv
      split_ifs at h
      cases h
      refine ⟨rfl, fun k hk => ?_⟩
      by_cases hkv : k = pageOf vaddr
      · subst hkv
        rw [hv]
        exact Pte.noConfusion
      · change Function.update s.pte (pageOf vaddr) _ k ≠ .zero at hk
        rw [Function.update_of_ne hkv] at hk
        exact hk
  · cases h
    exact ⟨rfl, fun _ hk => hk⟩

theorem doMunmap_same {addr length r : Addr}
    (h : doMunmap c addr length s = some (s', r)) :
    s'.breaks = s.breaks ∧ ∀ k, s'.pte k ≠ .zero → s.pte k ≠ .zero := by
  rcases doMunmap_cases h with rfl | ht
  · exact ⟨rfl, fun _ hk => hk⟩
  · obtain ⟨hrel, hpte⟩ := doMunmapPages_some ht
    refine ⟨hrel.breaks, fun k hk => ?_⟩
    rcases hpte k with hk' | hk'
    · rw [← hk']
      exact hk
    · exact absurd hk' hk

theorem HeapInv.next {op : Op} (h : HeapInv c t) (hcalm : Calm c t.vm op)
    (hr : op.run c t.vm = some s') : HeapInv c (t.next c op s') := by
  have hready := h.ready.run (tame_of_calm hcalm) hr
  have hheap : ∀ k, t.heap k = true →
      (false || t.heap k && !false) = true := by
    intro k hk
    rw [hk]
    rfl
  cases op with
  | mmap io addr length prot flags file offset =>
    exact h.mmap hcalm hready hr
  | brk addr => exact (h.brk hcalm hr).2 hready
  | munmap addr length =>
    obtain ⟨r, hm, rfl⟩ := Option.map_eq_some_iff.mp hr
    obtain ⟨hbreaks, hpte⟩ := doMunmap_same hm
    exact h.of_same hready hbreaks hpte hheap
  | mprotect addr length prot =>
    obtain ⟨r, hm, rfl⟩ := Option.map_eq_some_iff.mp hr
    obtain ⟨hbreaks, hpte⟩ := doMprotect_same hm
    exact h.of_same hready hbreaks hpte hheap
  | fault io vaddr prot =>
    obtain ⟨hbreaks, hpte⟩ := handlePageFault_same (fault_cases hr)
    exact h.of_same hready hbreaks hpte hheap

theorem HeapInv.law {op : Op} (h : HeapInv c t) (hcalm : Calm c t.vm op) :
    HeapLaw c t op := by
  cases op with
  | brk addr => exact fun s' hr => (h.brk hcalm hr).1
  | mmap io addr length prot flags file offset => trivial
  | munmap addr length => trivial
  | mprotect addr length prot => trivial
  | fault io vaddr prot => trivial

/-! ## The boot and the loader -/

/-- The break is not set, and `brk_min` is within user memory up to a
page. -/
structure Loading (c : Config) (s : Vm) : Prop where
  inv : Inv c s
  brk : s.brk = 0
  brkMax : s.brkMax = c.mmapMax
  brkMin : s.brkMin.toNat ≤ 4096 * ((c.mmapMax.toNat + 4095) / 4096)

theorem Loading.of_breaks (h : Loading c s) (hi : Inv c s')
    (hb : s'.breaks = s.breaks) : Loading c s' := by
  have hbrk : s'.brk = s.brk := congrArg (fun b => b.1) hb
  have hmin : s'.brkMin = s.brkMin := congrArg (fun b => b.2.1) hb
  have hmax : s'.brkMax = s.brkMax := congrArg (fun b => b.2.2) hb
  exact ⟨hi, hbrk.trans h.brk, hmax.trans h.brkMax, hmin ▸ h.brkMin⟩

theorem pkVmInit_loading (h : pkVmInit c = some s) : Loading c s := by
  have hi := pkVmInit_inv h
  obtain ⟨q, -, h⟩ := Option.bind_eq_some_iff.mp h
  obtain ⟨t, ht, h⟩ := Option.bind_eq_some_iff.mp h
  obtain ⟨⟨u, r⟩, hu, h⟩ := Option.bind_eq_some_iff.mp h
  have hff := firstFreePaddr_le c
  have hcold := cold_inv c
  have hkernel : Inv c t ∧ t.breaks = (Vm.cold c).breaks := by
    refine ForLoop.turns_invariant
      (P := fun _ s => Inv c s ∧ s.breaks = (Vm.cold c).breaks)
      (s := { Vm.cold c with pool := q })
      ⟨⟨hcold.counted, hcold.brk_aligned, hcold.entries⟩, rfl⟩
      (fun i hi s s' hs hr => ⟨hs.1.mapKernelPage (by omega) hr, ?_⟩) ht
    obtain ⟨q', -, rfl⟩ := Option.map_eq_some_iff.mp hr
    exact hs.2
  have hstack : u.breaks = t.breaks := by
    rcases doMmapPages_cases (Proper.of_fixed hkernel.1 (by decide))
      hkernel.1.counted hu with ⟨-, hsame⟩ | ⟨v, -, hn⟩
    · exact hsame.breaks
    · exact hn.breaks
  split_ifs at h
  obtain ⟨q', -, rfl⟩ := Option.map_eq_some_iff.mp h
  have hbreaks := hstack.trans hkernel.2
  have hbrk : u.brk = 0 := congrArg (fun b => b.1) hbreaks
  have hmin : u.brkMin = 0 := congrArg (fun b => b.2.1) hbreaks
  have hmax : u.brkMax = c.mmapMax := congrArg (fun b => b.2.2) hbreaks
  exact ⟨hi, hbrk, hmax, hmin ▸ Nat.zero_le _⟩

/-! ### The end of a segment -/

theorem and_4095_toNat (a : Addr) : (a &&& 4095).toNat = a.toNat % 4096 := by
  rw [BitVec.toNat_and]
  exact Nat.and_two_pow_sub_one_eq_mod a.toNat 12

theorem Segment.start_toNat (g : Segment) :
    g.start.toNat = g.vaddr.toNat - g.vaddr.toNat % 4096 := by
  have hv := g.vaddr.isLt
  unfold Segment.start
  rw [BitVec.toNat_sub, and_4095_toNat]
  omega

theorem Segment.mapped_toNat (g : Segment)
    (h : g.fileLen.toNat ≤ 2 ^ 31) :
    g.mapped.toNat = (2 ^ 64 - g.vaddr.toNat % 4096 +
      4096 * ((g.fileLen.toNat + 4095) / 4096)) % 2 ^ 64 := by
  unfold Segment.mapped
  rw [BitVec.toNat_sub, and_4095_toNat, roundup_toNat (by omega)]

theorem Segment.fileLen_toNat (g : Segment) :
    g.fileLen.toNat = (g.filesz.toNat + g.vaddr.toNat % 4096) % 2 ^ 64 := by
  unfold Segment.fileLen
  rw [BitVec.toNat_add, and_4095_toNat]

/-- The pages behind those of the file begin at a page. -/
theorem Segment.zeros_aligned (g : Segment)
    (h : g.fileLen.toNat ≤ 2 ^ 31) :
    (g.vaddr + g.mapped).toNat % 4096 = 0 := by
  rw [BitVec.toNat_add, g.mapped_toNat h]
  omega

/-- The end of a segment whose pages are all in user memory. -/
theorem Segment.end_le (g : Segment)
    (hfile : InUser c g.start g.fileLen)
    (hzeros : g.mapped < g.memsz →
      InUser c (g.vaddr + g.mapped) (g.memsz - g.mapped)) :
    (g.vaddr + g.memsz).toNat ≤
      4096 * ((c.mmapMax.toNat + 4095) / 4096) := by
  have hbelow := hfile.below
  have hmax := mmapMax_le c
  have hstart := g.start_toNat
  have hlen := g.fileLen_toNat
  have hmapped := g.mapped_toNat (by omega)
  have hle := g.filesz_le
  have hv := g.vaddr.isLt
  have hf := g.filesz.isLt
  have hm := g.memsz.isLt
  rw [BitVec.le_def] at hle
  rw [BitVec.toNat_add]
  by_cases hmore : g.mapped < g.memsz
  · have hb := (hzeros hmore).below
    have hsub := BitVec.toNat_sub_of_le (BitVec.le_of_lt hmore)
    rw [BitVec.lt_def] at hmore
    rw [BitVec.toNat_add] at hb
    omega
  · rw [BitVec.lt_def] at hmore
    omega

theorem Loading.loadSegment {g : Segment} (h : Loading c s)
    (hr : loadSegment c g s = some s') : Loading c s' := by
  have hi := h.inv.loadSegment hr
  obtain ⟨t, u, ht, hu, hrest⟩ := loadSegment_cases hr
  have hmin := h.inv.raiseMin g
  have hstart : g.start.toNat % 4096 = 0 := by
    have hs := g.start_toNat
    omega
  obtain ⟨v, -, hn⟩ := fixed_newRegion hmin (by decide) hstart ht
  have hbelow := hn.user.below
  have hmax := mmapMax_le c
  have hit := hmin.newRegion hn
  have hiu : Inv c u ∧ u.breaks = t.breaks := by
    rcases hu with ⟨-, rfl⟩ | hu
    · exact ⟨hit, rfl⟩
    · exact ⟨hit.doMprotect hu, (doMprotect_same hu).1⟩
  have hend : s'.breaks = u.breaks ∧ (g.mapped < g.memsz →
      InUser c (g.vaddr + g.mapped) (g.memsz - g.mapped)) := by
    rcases hrest with ⟨hle, rfl⟩ | ⟨hlt, hzeros⟩
    · exact ⟨rfl, fun hlt => absurd hle (BitVec.not_le.mpr hlt)⟩
    · obtain ⟨w, -, hw⟩ := fixed_newRegion hiu.1 (by decide)
        (g.zeros_aligned (by omega)) hzeros
      exact ⟨hw.breaks, fun _ => hw.user⟩
  have hraise : Loading c (raiseMin g s) := by
    unfold raiseMin at hmin ⊢
    split_ifs at hmin ⊢
    · exact ⟨hmin, h.brk, h.brkMax, g.end_le hn.user hend.2⟩
    · exact h
  exact hraise.of_breaks hi (hend.1.trans (hiu.2.trans hn.breaks))

theorem start_heapInv {segs : List Segment}
    (h : Mmap.start c segs = some s) :
    HeapInv c ⟨s, fun _ => false⟩ := by
  have hready := start_ready h
  obtain ⟨t, ht, hload⟩ := Option.bind_eq_some_iff.mp h
  have hs : Loading c s := loadElf_invariant
    (fun _ _ _ hs hr => hs.loadSegment hr) (pkVmInit_loading ht) hload
  have hthe : s.theBrk = roundup s.brkMin := if_pos hs.brk
  have hmax := mmapMax_le c
  have hmin := hs.brkMin
  refine ⟨hready, ⟨?_, ?_⟩, ⟨?_, ?_⟩, fun k _ hin => ?_⟩
  · dsimp only
    omega
  · rw [hs.brkMax]
    exact hmax
  · exact (congrArg BitVec.toNat hthe).ge
  · show s.theBrk.toNat ≤ (roundup s.brkMax).toNat
    rw [hthe, hs.brkMax, roundup_toNat (by omega), roundup_toNat (by omega)]
    omega
  · have h₁ : pageOf (roundup s.brkMin) ≤ k := hin.1
    have h₂ : k < pageOf s.theBrk := hin.2
    rw [hthe] at h₂
    exact absurd h₂ (Nat.not_lt.mpr h₁)

/-! ## Every run -/

/-- In a run whose steps are calm, the break is within its bounds in every
state and every `brk` obeys its law. -/
theorem heap_break_safe (c : Config) (segs : List Segment) (ops : List Op)
    (h : Sync.Along (Track.step c)
      (fun o op => ∀ t, o = some t → Calm c t.vm op)
      (Track.start c segs) ops) :
    Sync.Always (Track.step c) (fun o => ∀ t, o = some t → Bounds t.vm)
        (Track.start c segs) ops ∧
      Sync.Along (Track.step c) (fun o op => ∀ t, o = some t →
        HeapLaw c t op) (Track.start c segs) ops := by
  have hstart : ∀ t, Track.start c segs = some t → HeapInv c t := by
    intro t ht
    obtain ⟨s, hs, rfl⟩ := Option.map_eq_some_iff.mp ht
    exact start_heapInv hs
  have hstep : ∀ o op, (∀ t, o = some t → Calm c t.vm op) →
      (∀ t, o = some t → HeapInv c t) →
      ∀ t, Track.step c o op = some t → HeapInv c t := by
    intro o op hcalm ho t' ht'
    obtain ⟨t, rfl, ht'⟩ := Option.bind_eq_some_iff.mp ht'
    obtain ⟨s', hs', rfl⟩ := Option.map_eq_some_iff.mp ht'
    exact (ho t rfl).next (hcalm t rfl) hs'
  constructor
  · refine (h.always (P := fun o => ∀ t, o = some t → HeapInv c t) hstep
      hstart).mono fun o ho t ht => (ho t ht).bounds
  · refine (h.along (P := fun o => ∀ t, o = some t → HeapInv c t) hstep
      hstart).mono fun o op hboth t ht => ?_
    exact (hboth.2 t ht).law (hboth.1 t ht)

/-- The heap grows, a mapping is made above it, and the heap shrinks. -/
theorem heap_break_safe_smallProgram :
    let ops : List Op := [.brk 0x5000, anonymous 0 0x3000 3 0, .brk 0x4000]
    (Sync.run (Track.step smallBoard)
        (Track.start smallBoard [smallProgram]) ops).isSome ∧
      Sync.Always (Track.step smallBoard)
        (fun o => ∀ t, o = some t → Bounds t.vm)
        (Track.start smallBoard [smallProgram]) ops ∧
      Sync.Along (Track.step smallBoard)
        (fun o op => ∀ t, o = some t → HeapLaw smallBoard t op)
        (Track.start smallBoard [smallProgram]) ops := by
  refine ⟨by decide +kernel, heap_break_safe smallBoard [smallProgram] _
    ⟨?_, ?_, ?_, trivial⟩⟩
  · have hfree : ((Track.start smallBoard [smallProgram]).all fun t =>
        decide (pageOf t.vm.theBrk = 3 ∧
          pageOf (roundup (clampBrk 0x5000 t.vm)) = 5 ∧
          t.vm.pte 3 = .zero ∧ t.vm.pte 4 = .zero)) = true := by
      decide +kernel
    intro t ht k hk
    rw [ht, Option.all_some, decide_eq_true_eq] at hfree
    obtain ⟨h₁, h₂, h₃, h₄⟩ := hfree
    unfold Between at hk
    rw [h₁, h₂] at hk
    obtain rfl | rfl : k = 3 ∨ k = 4 := by omega
    · exact h₃
    · exact h₄
  · have hset : ((Track.step smallBoard
        (Track.start smallBoard [smallProgram]) (.brk 0x5000)).all fun t =>
        decide (t.vm.brk ≠ 0)) = true := by
      decide +kernel
    intro t ht
    rw [ht, Option.all_some, decide_eq_true_eq] at hset
    exact calm_of_brk_set hset (by decide) (by decide +kernel)
  · have hdown : ((Track.step smallBoard (Track.step smallBoard
        (Track.start smallBoard [smallProgram]) (.brk 0x5000))
        (anonymous 0 0x3000 3 0)).all fun t =>
        decide (pageOf (roundup (clampBrk 0x4000 t.vm)) ≤
          pageOf t.vm.theBrk)) = true := by
      decide +kernel
    intro t ht k hk
    rw [ht, Option.all_some, decide_eq_true_eq] at hdown
    have h₁ := hk.1
    have h₂ := hk.2
    omega

/-- A mapping that is put into the heap takes `brk_max` below the break;
and a `brk` to `mmap_max` takes the pages of the stack. -/
theorem heap_break_unsafe :
    (¬ ∀ (c : Config) (segs : List Segment) (ops : List Op),
      Sync.Always (Track.step c) (fun o => ∀ t, o = some t → Bounds t.vm)
        (Track.start c segs) ops) ∧
    ¬ ∀ (c : Config) (segs : List Segment) (ops : List Op),
      Sync.Along (Track.step c) (fun o op => ∀ t, o = some t →
        HeapLaw c t op) (Track.start c segs) ops := by
  constructor
  · intro h
    have hall := h smallBoard [smallProgram]
      [.brk 0x10000, anonymous 0x8000 0x1000 3 MAP_FIXED] 2
    have hrun : (Sync.run (Track.step smallBoard)
        (Track.start smallBoard [smallProgram])
        [.brk 0x10000, anonymous 0x8000 0x1000 3 MAP_FIXED]).map
          (fun t => (t.vm.theBrk, roundup t.vm.brkMax)) =
        some (0x10000, 0x8000) := by decide +kernel
    obtain ⟨t, ht, hrun⟩ := Option.map_eq_some_iff.mp hrun
    have hthe : t.vm.theBrk = 0x10000 := congrArg Prod.fst hrun
    have hmax : roundup t.vm.brkMax = 0x8000 := congrArg Prod.snd hrun
    have hle := (hall t ht).le_max
    rw [hthe, hmax] at hle
    exact absurd hle (by decide)
  · intro h
    have hrun : (Track.start smallBoard [smallProgram]).bind (fun t =>
        ((Op.brk 0x30000).run smallBoard t.vm).map fun s' =>
          (t.vm.pte 47, t.heap 47, s'.pte 47)) =
        some (.lazy 0, false, .lazy 1) := by decide +kernel
    obtain ⟨t, ht, hrun⟩ := Option.bind_eq_some_iff.mp hrun
    obtain ⟨s', hs', hrun⟩ := Option.map_eq_some_iff.mp hrun
    have hpte : t.vm.pte 47 = .lazy 0 := congrArg (fun x => x.1) hrun
    have hheap : t.heap 47 = false := congrArg (fun x => x.2.1) hrun
    have hpte' : s'.pte 47 = .lazy 1 := congrArg (fun x => x.2.2) hrun
    have hlaw := (h smallBoard [smallProgram] [.brk 0x30000]).1 t ht s' hs'
    have hsame := congrArg Prod.fst (hlaw.others 47
      (by rw [hpte]; exact Pte.noConfusion) hheap)
    change s'.pte 47 = t.vm.pte 47 at hsame
    rw [hpte, hpte'] at hsame
    cases hsame

end ArianeSoc.Pk.Mmap
