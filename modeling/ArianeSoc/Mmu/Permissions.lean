import ArianeSoc.Mmu.Transparency

/-!
# The permissions of an access that hits

An entry stays in a TLB while `mxr`, `sum` and the privilege change.  The
walker looks at the permissions when it fills a TLB, with the `mxr` of that
time, and the MMU looks at some of them with every access:

* a fetch at the U flag; that the page is executable is known from the fill;
* a store at `w`, at `d` and at the U flag;
* a load at the U flag only.

So a load reads a page that is executable but not readable, if `mxr` was set
when the entry was filled and is clear now (`StaleMxr`).

* `Filled`: what every fill has checked.
* `current_iff`: an access that is granted is allowed now, unless it is such
  a load.
* `permissions_current_iff`: the same for every cycle of a run.
* `not_staleMxr_of_kept`: there is no such load while `mxr` does not fall.
-/

namespace ArianeSoc.Tlb

variable {n w : Nat} {q : State n w} {i : In w} {ok : Pte → Prop}

/-- The contents of all entries satisfy `ok`. -/
def Holds (ok : Pte → Prop) (q : State n w) : Prop :=
  ∀ k, (q.tags k).valid = true → ok (q.content k)

theorem holds_reset (n w : Nat) : Holds ok (reset n w) :=
  fun _ hv => absurd hv Bool.false_ne_true

theorem holds_step (h : Holds ok q)
    (hu : i.update.valid = true → ok i.update.content) :
    Holds ok (step q i) := by
  intro k hv
  rcases step_cases q i k with hdrop | ⟨ht, -, hc⟩ | ⟨-, -, htag, hc⟩
  · exact absurd (hdrop.symm.trans hv) Bool.false_ne_true
  · rw [hc]
    exact hu (takes_iff.mp ht).2.1
  · rw [hc]
    exact h k (htag ▸ hv)

theorem Holds.lookup {asid : BitVec w} {vaddr : BitVec 64} (h : Holds ok q)
    (hit : (lookup q asid vaddr).hit = true) :
    ok (lookup q asid vaddr).content := by
  obtain ⟨k, hk, hc⟩ := exists_of_lookup_content hit
  rw [hc]
  exact h k ((hits_iff 0#64).mp hk).1

end ArianeSoc.Tlb

namespace ArianeSoc.Mmu

open Sync Tlb

variable {ni nd w : Nat} {cfg : ArianeCfg} {q : State ni nd w} {i : In w}
  {is : List (In w)}

/-! ## What is allowed -/

/-- A user page is for U-mode, and for S-mode with `sum`; any other page is
not for U-mode. -/
structure UserRule (lvl : PrivLvl) (sum : Bool) (p : Pte) : Prop where
  supervisor : lvl = PRIV_LVL_S → p.u = true → sum = true
  user : lvl = PRIV_LVL_U → p.u = true

structure LoadAllowed (i : In w) (p : Pte) : Prop where
  readable : p.r = true ∨ p.x = true ∧ i.mxr = true
  user : UserRule i.ldStPrivLvl i.sum p

structure StoreAllowed (i : In w) (p : Pte) : Prop where
  writeable : p.w = true
  dirty : p.d = true
  user : UserRule i.ldStPrivLvl i.sum p

/-- A fetch from a user page is for U-mode only, whatever `sum`. -/
structure FetchAllowed (i : In w) (p : Pte) : Prop where
  executable : p.x = true
  user : UserRule i.privLvl false p

/-! ## What is granted -/

/-- The registered data access has hit the data TLB and is answered without
an exception. -/
structure DataGranted (q : State ni nd w) (i : In w) : Prop where
  translates : translates q i = true
  hit : dataHit q = true
  noException : (lsuExceptionO q i).valid = false

/-- The fetch hits the instruction TLB and is answered without an
exception. -/
structure FetchGranted (cfg : ArianeCfg) (q : State ni nd w) (i : In w) :
    Prop where
  translates : i.enableTranslation = true
  req : i.fetchReq = true
  hit : (itlbLookup q i).hit = true
  noException : (fetchExceptionO cfg q i).valid = false

/-- Every access that is granted in this cycle is allowed in this cycle. -/
structure Current (cfg : ArianeCfg) (q : State ni nd w) (i : In w) :
    Prop where
  load : DataGranted q i → q.lsuIsStore = false → LoadAllowed i q.dtlbPte
  store : DataGranted q i → q.lsuIsStore = true → StoreAllowed i q.dtlbPte
  fetch : FetchGranted cfg q i → FetchAllowed i (itlbLookup q i).content

/-- A load has hit a page that is not readable, while `mxr` is clear, and is
denied neither for its alignment nor for the U flag. -/
structure StaleMxr (q : State ni nd w) (i : In w) : Prop where
  translates : translates q i = true
  hit : dataHit q = true
  load : q.lsuIsStore = false
  user : UserRule i.ldStPrivLvl i.sum q.dtlbPte
  notReadable : q.dtlbPte.r = false
  mxr : i.mxr = false

/-! ## What every fill has checked -/

structure Filled (q : State ni nd w) : Prop where
  itlb : Holds (fun p => p.x = true) q.itlb
  dtlb : Holds (fun p => p.r = true ∨ p.x = true) q.dtlb
  pte : q.dtlbHit = true → q.dtlbPte.r = true ∨ q.dtlbPte.x = true

theorem filled_reset (ni nd w : Nat) : Filled (reset ni nd w) where
  itlb := holds_reset ni w
  dtlb := holds_reset nd w
  pte := fun h => absurd h Bool.false_ne_true

@[simp] theorem r_withGlobal {p : Pte} {g : Bool} :
    (withGlobal p g).r = p.r :=
  getLsbD_withGlobal (by omega)

@[simp] theorem x_withGlobal {p : Pte} {g : Bool} :
    (withGlobal p g).x = p.x :=
  getLsbD_withGlobal (by omega)

/-- The instruction TLB is filled with executable pages. -/
theorem x_of_itlbUpdate
    (h : (Ptw.itlbUpdateO q.ptw (ptwIn q i)).valid = true) :
    (Ptw.itlbUpdateO q.ptw (ptwIn q i)).content.x = true := by
  obtain ⟨hf, hi⟩ : Ptw.fills q.ptw (ptwIn q i) = true ∧
      q.ptw.isInstrPtw = true := Bool.and_eq_true_iff.mp h
  have hok := fillOk_fetch (walking_of_fills hf).2 hi
  exact x_withGlobal.trans (Bool.and_eq_true_iff.mp hok).1

/-- The data TLB is filled with pages that are readable with the `mxr` of
this cycle. -/
theorem readable_of_dtlbUpdate
    (h : (Ptw.dtlbUpdateO q.ptw (ptwIn q i)).valid = true) :
    let p := (Ptw.dtlbUpdateO q.ptw (ptwIn q i)).content
    p.r = true ∨ p.x = true ∧ i.mxr = true := by
  obtain ⟨hf, hi⟩ : Ptw.fills q.ptw (ptwIn q i) = true ∧
      (!q.ptw.isInstrPtw) = true := Bool.and_eq_true_iff.mp h
  rw [Bool.not_eq_true'] at hi
  have hok := fillOk_data (walking_of_fills hf).2 hi
  intro p
  have hr : p.r = (Ptw.pte q.ptw).r := r_withGlobal
  have hx : p.x = (Ptw.pte q.ptw).x := x_withGlobal
  have hm : (ptwIn q i).mxr = i.mxr := rfl
  rw [hr, hx, ← hm]
  simpa [dataOk] using (Bool.and_eq_true_iff.mp hok).2

theorem filled_step (h : Filled q) : Filled (step q i) where
  itlb := holds_step h.itlb x_of_itlbUpdate
  dtlb := holds_step h.dtlb fun hu =>
    (readable_of_dtlbUpdate hu).imp_right And.left
  pte := fun hit => h.dtlb.lookup hit

/-! ## One access -/

theorem daccessErr_eq_false_iff :
    daccessErr q i = false ↔ UserRule i.ldStPrivLvl i.sum q.dtlbPte := by
  constructor
  · intro h
    simp only [daccessErr, Bool.or_eq_false_iff, Bool.and_eq_false_iff,
      decide_eq_false_iff_not, Bool.not_eq_false'] at h
    refine ⟨fun hs hu => ?_, fun hu => ?_⟩
    · rcases h.1 with (hno | hsum) | hno
      · exact absurd hs hno
      · exact hsum
      · exact absurd (hu.symm.trans hno) (by decide)
    · rcases h.2 with hno | hyes
      · exact absurd hu hno
      · exact hyes
  · intro h
    have hs := h.supervisor
    have hu := h.user
    simp only [daccessErr, Bool.or_eq_false_iff, Bool.and_eq_false_iff,
      decide_eq_false_iff_not, Bool.not_eq_false']
    constructor
    · by_cases hlvl : i.ldStPrivLvl = PRIV_LVL_S
      · cases hp : q.dtlbPte.u with
        | true => exact Or.inl (Or.inr (hs hlvl hp))
        | false => exact Or.inr rfl
      · exact Or.inl (Or.inl hlvl)
    · by_cases hlvl : i.ldStPrivLvl = PRIV_LVL_U
      · exact Or.inr (hu hlvl)
      · exact Or.inl hlvl

/-- A hit is granted if and only if it is not denied. -/
theorem dataGranted_iff :
    DataGranted q i ↔
      translates q i = true ∧ dataHit q = true ∧ denied q i = false := by
  have hex : translates q i = true → dataHit q = true →
      (lsuExceptionO q i).valid = denied q i := by
    intro ht hh
    have haligned : q.misalignedEx.valid = false := by
      simp only [translates, Bool.and_eq_true, Bool.not_eq_true'] at ht
      exact ht.2
    rw [lsuExceptionO, if_pos ht, if_pos hh]
    cases denied q i
    · exact haligned
    · rfl
  constructor
  · rintro ⟨ht, hh, hno⟩
    exact ⟨ht, hh, (hex ht hh).symm.trans hno⟩
  · rintro ⟨ht, hh, hno⟩
    exact ⟨ht, hh, (hex ht hh).trans hno⟩

theorem storeAllowed_of_granted (h : DataGranted q i)
    (hs : q.lsuIsStore = true) : StoreAllowed i q.dtlbPte := by
  obtain ⟨-, -, hno⟩ := dataGranted_iff.mp h
  rw [denied, if_pos hs] at hno
  simp only [Bool.or_eq_false_iff, Bool.not_eq_false'] at hno
  exact ⟨hno.1.1, hno.2, daccessErr_eq_false_iff.mp hno.1.2⟩

theorem fetchAllowed_of_granted (hf : Filled q) (h : FetchGranted cfg q i) :
    FetchAllowed i (itlbLookup q i).content := by
  have herr : iaccessErr q i = false := by
    have hno := h.noException
    rw [fetchExceptionO, fetchTranslationEx, if_pos h.translates,
      if_pos h.hit] at hno
    refine Bool.eq_false_iff.mpr fun herr => ?_
    rw [if_pos herr] at hno
    split_ifs at hno
  simp only [iaccessErr, h.req, Bool.true_and, Bool.or_eq_false_iff,
    Bool.and_eq_false_iff, decide_eq_false_iff_not, Bool.not_eq_false']
    at herr
  refine ⟨hf.itlb.lookup h.hit, fun hs hu => ?_, fun hu => ?_⟩
  · rcases herr.2 with hno | hno
    · exact absurd hs hno
    · exact absurd (hu.symm.trans hno) (by decide)
  · exact herr.1.resolve_left fun hno => hno hu

/-- An access that is granted is allowed now, unless it is a load that needs
the `mxr` of the time of the fill. -/
theorem current_iff (h : Filled q) :
    Current cfg q i ↔ ¬ StaleMxr q i := by
  have hload : q.lsuIsStore = false →
      (denied q i = false ↔ UserRule i.ldStPrivLvl i.sum q.dtlbPte) := by
    intro hl
    rw [denied, hl, if_neg Bool.false_ne_true, daccessErr_eq_false_iff]
  constructor
  · intro hc hs
    have hgrant : DataGranted q i := dataGranted_iff.mpr
      ⟨hs.translates, hs.hit, (hload hs.load).mpr hs.user⟩
    rcases (hc.load hgrant hs.load).readable with hr | ⟨-, hm⟩
    · exact absurd (hr.symm.trans hs.notReadable) (by decide)
    · exact absurd (hm.symm.trans hs.mxr) (by decide)
  · intro hs
    refine ⟨fun hgrant hl => ?_, storeAllowed_of_granted,
      fetchAllowed_of_granted h⟩
    obtain ⟨ht, hh, hno⟩ := dataGranted_iff.mp hgrant
    have huser := (hload hl).mp hno
    refine ⟨?_, huser⟩
    have hfill := h.pte (Bool.and_eq_true_iff.mp hh).1
    cases hr : q.dtlbPte.r with
    | true => exact Or.inl rfl
    | false =>
      refine Or.inr ⟨hfill.resolve_left ?_, ?_⟩
      · rw [hr]
        exact Bool.false_ne_true
      · refine Bool.not_eq_false _ ▸ fun hm => hs ?_
        exact ⟨ht, hh, hl, huser, hr, hm⟩

/-! ## Every run -/

/-- In every run, all accesses that hit are granted by the permissions of
their own cycle if and only if no load hits a page that is not readable
while `mxr` is clear. -/
theorem permissions_current_iff (cfg : ArianeCfg) (ni nd w : Nat)
    (is : List (In w)) :
    Along step (Current cfg) (reset ni nd w) is ↔
      Along step (fun q i => ¬ StaleMxr q i) (reset ni nd w) is :=
  Along.congr_of (fun _ _ h => current_iff h)
    (along_of_invariant (fun _ _ => filled_step) (filled_reset ni nd w) is)

/-- A page that is executable and nothing else. -/
def executeOnly : Pte := 0x10000049#64

/-- The walk for a load from the page is made with `mxr` set, and the load
that hits comes with `mxr` clear. -/
def mxrRun : List (In 1) :=
  [{ (Cycle.load 0x40201000#64).mmu with mxr := true },
    { Cycle.grant.mmu with mxr := true },
    { (Cycle.answer executeOnly).mmu with mxr := true },
    { In.quiet with mxr := true }, (Cycle.load 0x40201000#64).mmu,
    In.quiet]

/-- The load is answered without an exception. -/
theorem not_current_executeOnly :
    ¬ Along step (Current ⟨[], [], []⟩) (reset 2 2 1) mxrRun := by
  intro h
  have hlast : Current ⟨[], [], []⟩
      (run step (reset 2 2 1) (mxrRun.take 5)) In.quiet := h.2.2.2.2.2.1
  have hgrant : DataGranted (run step (reset 2 2 1) (mxrRun.take 5))
      In.quiet := ⟨by decide +kernel, by decide +kernel, by decide +kernel⟩
  have hallowed := (hlast.load hgrant (by decide +kernel)).readable
  exact absurd hallowed (by decide +kernel)

/-! ## While `mxr` does not fall -/

/-- Every entry of the data TLB is readable without `mxr`. -/
structure Readable (q : State ni nd w) : Prop where
  dtlb : Holds (fun p => p.r = true) q.dtlb
  pte : q.dtlbHit = true → q.dtlbPte.r = true

theorem readable_reset (ni nd w : Nat) : Readable (reset ni nd w) where
  dtlb := holds_reset nd w
  pte := fun h => absurd h Bool.false_ne_true

theorem readable_step (h : Readable q) (hm : i.mxr = false) :
    Readable (step q i) where
  dtlb := holds_step h.dtlb fun hu =>
    (readable_of_dtlbUpdate hu).resolve_right fun hx =>
      absurd (hx.2.symm.trans hm) (by decide)
  pte := fun hit => h.dtlb.lookup hit

/-- Once set, `mxr` is still set in every later cycle. -/
def MxrKept (is : List (In w)) : Prop :=
  is.Pairwise fun i j => i.mxr = true → j.mxr = true

theorem not_staleMxr_of_kept (h : MxrKept is) (hq : Readable q) :
    Along step (fun q i => ¬ StaleMxr q i) q is := by
  induction is generalizing q with
  | nil => trivial
  | cons i is ih =>
    obtain ⟨hi, hrest⟩ := List.pairwise_cons.mp h
    refine ⟨fun hs => ?_, ?_⟩
    · have hr := hq.pte (Bool.and_eq_true_iff.mp hs.hit).1
      exact absurd (hr.symm.trans hs.notReadable) (by decide)
    · cases hm : i.mxr with
      | true =>
        refine (along_of_forall_mem fun j hj => hi j hj hm).mono ?_
        intro t j hj hs
        exact absurd (hj.symm.trans hs.mxr) (by decide)
      | false => exact ih hrest (readable_step hq hm)

/-- In a run that does not lower `mxr`, all accesses that hit are granted by
the permissions of their own cycle. -/
theorem current_of_mxrKept (cfg : ArianeCfg) (ni nd : Nat)
    (h : MxrKept is) : Along step (Current cfg) (reset ni nd w) is :=
  (Along.congr_of (fun _ _ hf => current_iff hf)
    (along_of_invariant (fun _ _ => filled_step)
      (filled_reset ni nd w) is)).mpr
    (not_staleMxr_of_kept h (readable_reset ni nd w))

end ArianeSoc.Mmu
