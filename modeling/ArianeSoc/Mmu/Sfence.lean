import ArianeSoc.CommitStage
import ArianeSoc.Controller
import ArianeSoc.Issue.Scoreboard
import ArianeSoc.Mmu.Mmu
import ArianeSoc.Mmu.Response
import ArianeSoc.Mmu.TlbSound
import ArianeSoc.Mmu.Transparency
import ArianeSoc.Mmu.Walk

/-!
# What SFENCE.VMA leaves in the TLBs

The commit stage asks the controller for the flush, and the controller
flushes the walker and both TLBs in the same cycle.  A TLB that is flushed
takes no update, and a walker that is flushed starts from `IDLE` or from the
wait for a response that it drops, so that what is written later comes from
a later walk.

The TLBs take the ASID of `satp` as the operand of the flush: if it is zero
they drop everything, and else the entries of this ASID.

* `luHit_flush`: what still hits after a flush.
* `arises_walking`: where the walk of an update has started.
* `sfence_vma_flushes`: what hits after SFENCE.VMA has been refilled since
  or belongs to another ASID.
-/

namespace ArianeSoc.Tlb

variable {n w : Nat} {q : State n w} {i : In w} {asid : BitVec w}
  {vaddr : BitVec 64}

/-- An entry that hits after a flush is one that has hit before for an ASID
that is not flushed. -/
theorem luHit_flush (hf : i.flush = true) (k : Fin n) :
    luHit (step q i) asid vaddr k = true ↔
      luHit q asid vaddr k = true ∧ i.luAsid ≠ 0#w ∧ asid ≠ i.luAsid := by
  have htakes : takes q i k = false := by simp [takes, hf]
  cases hfl : flushes i (q.tags k) with
  | true =>
    have hdrop : luHit (step q i) asid vaddr k = false := by
      simp [luHit, Tag.hits, step, hfl, Tag.drop]
    rw [hdrop]
    refine iff_of_false Bool.false_ne_true ?_
    rintro ⟨hit, hne, ha⟩
    obtain ⟨-, htag, -⟩ := (hits_iff 0#64).mp hit
    simp only [flushes, hf, Bool.true_and, Bool.or_eq_true,
      decide_eq_true_eq] at hfl
    rcases hfl with hzero | hsame
    · exact hne hzero
    · exact ha (htag.trans hsame.symm)
  | false =>
    have hstay : luHit (step q i) asid vaddr k = luHit q asid vaddr k := by
      simp [luHit, step, hfl, htakes]
    rw [hstay]
    refine ⟨fun hit => ⟨hit, ?_⟩, And.left⟩
    obtain ⟨-, htag, -⟩ := (hits_iff 0#64).mp hit
    simp only [flushes, hf, Bool.true_and, Bool.or_eq_false_iff,
      decide_eq_false_iff_not] at hfl
    exact ⟨hfl.1, fun ha => hfl.2 (ha.symm.trans htag)⟩

end ArianeSoc.Tlb

namespace ArianeSoc.Mmu

open Sync Tlb

variable {ni nd w : Nat}

/-! ## Refills -/

/-- In some cycle of the run the entry `k` of the TLB takes the update of a
walk that has started in the run and gone on since. -/
def Refilled {n : Nat} (tlb : State ni nd w → Tlb.State n w)
    (tlbIn : State ni nd w → In w → Tlb.In w) (k : Fin n)
    (q : State ni nd w) (is : List (In w)) : Prop :=
  ∃ pre i post, is = pre ++ i :: post ∧
    takes (tlb (run step q pre)) (tlbIn (run step q pre) i) k = true ∧
    ∃ pre' i' post', pre = pre' ++ i' :: post' ∧
      Ptw.Port.starts (run step q pre').ptw (ptwIn (run step q pre') i') =
        true ∧
      Always step (fun q => Ptw.Walking q.ptw) (step (run step q pre') i')
        post'

variable {q : State ni nd w} {is : List (In w)}

/-- A walk that goes on has started. -/
theorem starts_of_walking {i : In w} (hq : ¬ Ptw.Walking q.ptw)
    (h : Ptw.Walking (step q i).ptw) :
    Ptw.Port.starts q.ptw (ptwIn q i) = true := by
  have hw : Ptw.Walking (Ptw.step q.ptw (ptwIn q i)) := h
  have hidle : q.ptw.state = .IDLE := by
    rcases Ptw.walking_cases hw with ⟨hi, -⟩ | ⟨hi, -⟩ | ⟨hw', -⟩ | ⟨hw', -⟩
    · exact hi
    · exact hi
    · exact absurd hw' hq
    · exact absurd hw' hq
  have hnext : Ptw.stateNext q.ptw (ptwIn q i) = .WAIT_GRANT := by
    rcases Ptw.stateNext_idle (i := ptwIn q i) hidle with hst | hst
    · have hst' : (Ptw.step q.ptw (ptwIn q i)).state = .IDLE := hst
      rcases hw with hw | hw <;> exact absurd (hw.symm.trans hst') (by decide)
    · exact hst
  exact decide_eq_true ⟨hidle, hnext⟩

/-- An entry that hits at the end of a run has hit all along or has been
refilled, if the TLB takes the updates of the walker only and no walk is
under way at the start. -/
theorem luHit_or_refilled {n : Nat} {tlb : State ni nd w → Tlb.State n w}
    {tlbIn : State ni nd w → In w → Tlb.In w} {asid : BitVec w}
    {vaddr : BitVec 64} {k : Fin n}
    (hstep : ∀ q i, tlb (step q i) = Tlb.step (tlb q) (tlbIn q i))
    (hupdate : ∀ q i, (tlbIn q i).update.valid = true →
      Ptw.lookingUp q.ptw = true)
    (hq : ¬ Ptw.Walking q.ptw)
    (hit : luHit (tlb (run step q is)) asid vaddr k = true) :
    luHit (tlb q) asid vaddr k = true ∨ Refilled tlb tlbIn k q is := by
  rcases always_or_arises (P := fun q => luHit (tlb q) asid vaddr k = true)
    hit with hall | ⟨pre, i, post, rfl, hmiss, hafter⟩
  · exact Or.inl hall.first
  have hfirst := hafter.first
  rw [hstep] at hfirst
  have htakes : takes (tlb (run step q pre)) (tlbIn (run step q pre) i) k =
      true := by
    rcases luHit_step hfirst with ⟨ht, -⟩ | hold
    · exact ht
    · exact absurd hold hmiss
  have hwalk : Ptw.Walking (run step q pre).ptw :=
    Ptw.walking_of_lookingUp (hupdate _ _ (takes_iff.mp htakes).2.1)
  rcases always_or_arises (P := fun q : State ni nd w => Ptw.Walking q.ptw)
    hwalk with hall | ⟨pre', i', post', rfl, hno, hgo⟩
  · exact absurd hall.first hq
  · exact Or.inr ⟨_, i, post, rfl, htakes, pre', i', post', rfl,
      starts_of_walking hno hgo.first, hgo⟩

/-! ## SFENCE.VMA -/

/-- The cycle with the flushes of the controller, which has the request of
the commit stage among its inputs. -/
def In.flushedBy (wtDcache : Bool) (c : CommitStage.In) (r : Controller.In)
    (i : In w) : In w :=
  let o := Controller.flushCtrl wtDcache
    { r with sfenceVma := CommitStage.sfenceVmaO c }
  { i with flush := o.flushEx, flushTlb := o.flushTlb }

/-- What a TLB holds after a cycle with a flush and a run: at once an entry
only if its ASID is not the one in `satp` and this one is not zero, and
later such an entry or a refilled one. -/
def Fresh {n : Nat} (tlb : State ni nd w → Tlb.State n w)
    (tlbIn : State ni nd w → In w → Tlb.In w) (q : State ni nd w)
    (i : In w) (is : List (In w)) : Prop :=
  ∀ (k : Fin n) (asid : BitVec w) (vaddr : BitVec 64),
    (luHit (tlb (step q i)) asid vaddr k = true ↔
      luHit (tlb q) asid vaddr k = true ∧ i.asid ≠ 0#w ∧ asid ≠ i.asid) ∧
    (luHit (tlb (run step (step q i) is)) asid vaddr k = true →
      Refilled tlb tlbIn k (step q i) is ∨
        luHit (tlb (step q i)) asid vaddr k = true)

theorem fresh_of_flush {n : Nat} {tlb : State ni nd w → Tlb.State n w}
    {tlbIn : State ni nd w → In w → Tlb.In w} {i : In w}
    (hstep : ∀ q i, tlb (step q i) = Tlb.step (tlb q) (tlbIn q i))
    (hupdate : ∀ q i, (tlbIn q i).update.valid = true →
      Ptw.lookingUp q.ptw = true)
    (hasid : (tlbIn q i).luAsid = i.asid) (htlb : (tlbIn q i).flush = true)
    (hptw : i.flush = true) : Fresh tlb tlbIn q i is := by
  have hidle : ¬ Ptw.Walking (step q i).ptw := by
    intro hw
    have hno : i.flush = false :=
      Ptw.flush_of_walking (q := q.ptw) (i := ptwIn q i) hw
    exact absurd (hptw.symm.trans hno) (by decide)
  intro k asid vaddr
  constructor
  · rw [hstep, luHit_flush htlb, hasid]
  · intro hit
    exact (luHit_or_refilled hstep hupdate hidle hit).symm

theorem lookingUp_of_update {i : Ptw.In w} {p : Ptw.State w} {b : Bool}
    (h : (Ptw.fills p i && b) = true) : Ptw.lookingUp p = true := by
  simp only [Ptw.fills, Bool.and_eq_true] at h
  exact h.1.1.1.1.1

/-- After SFENCE.VMA, an entry that hits has been refilled by a walk that
has started after the flush, or it has hit before and is for an ASID other
than the one in `satp`, which is not zero. -/
theorem sfence_vma_flushes (wtDcache : Bool) (c : CommitStage.In)
    (r : Controller.In) (q : State ni nd w) (i : In w) (is : List (In w))
    (hs : CommitStage.sfenceVmaO c = true) :
    Fresh State.itlb itlbIn q (i.flushedBy wtDcache c r) is ∧
      Fresh State.dtlb dtlbIn q (i.flushedBy wtDcache c r) is := by
  have htlb : (i.flushedBy wtDcache c r).flushTlb = true :=
    Controller.flushTlb_eq.trans hs
  have hptw : (i.flushedBy wtDcache c r).flush = true :=
    Controller.flushEx_iff.mpr (Or.inr (Or.inr (Or.inl hs)))
  exact ⟨fresh_of_flush (fun _ _ => rfl) (fun _ _ => lookingUp_of_update)
      rfl htlb hptw,
    fresh_of_flush (fun _ _ => rfl) (fun _ _ => lookingUp_of_update)
      rfl htlb hptw⟩

/-- SFENCE.VMA at port 0, without a store that is pending. -/
def fenceAll : CommitStage.In where
  halt := false
  flushDcache := false
  singleStep := false
  commitInstr0 :=
    { Scoreboard.zeroEntry with fu := .CSR, op := .SFENCE_VMA, valid := true }
  commitInstr1 := Scoreboard.zeroEntry
  amoRespAck := false
  csrException := ExceptionT.none
  commitLsuReady := false
  noStPending := true

/-- A load at `0x40201000` with the ASID 0 fills the data TLB. -/
def filledRun : List (In 1) :=
  [(Cycle.load 0x40201000#64).mmu, Cycle.grant.mmu,
    (Cycle.answer 0x100000CF#64).mmu, In.quiet]

/-- The inputs of the controller without a cause of a flush. -/
def calm : Controller.In :=
  ⟨false, false, false, false, false, false, false, false, false, false,
    false⟩

theorem sfence_vma_flushes_filled :
    let q := run step (reset 2 2 1) filledRun
    let i := In.quiet.flushedBy false fenceAll calm
    Fresh State.itlb itlbIn q i filledRun ∧
      Fresh State.dtlb dtlbIn q i filledRun :=
  sfence_vma_flushes false fenceAll calm (run step (reset 2 2 1) filledRun)
    In.quiet filledRun (by decide)

/-- With the ASID 1 in `satp`, SFENCE.VMA leaves the entry of the ASID 0,
which then hits without a refill. -/
theorem sfence_vma_leaves_asid :
    let q := run step (reset 2 2 1) filledRun
    let i := { In.quiet with asid := 1#1 }.flushedBy false fenceAll calm
    CommitStage.sfenceVmaO fenceAll = true ∧
      (∃ k, luHit q.dtlb 0#1 0x40201000#64 k = true ∧
        luHit (step q i).dtlb 0#1 0x40201000#64 k = true ∧
        ¬ Refilled State.dtlb dtlbIn k (step q i) []) ∧
      (dtlbLookup (step q i)
        { In.quiet with lsuVaddr := 0x40201000#64 }).hit = true := by
  intro q i
  refine ⟨by decide, ⟨0, by decide +kernel, by decide +kernel, ?_⟩,
    by decide +kernel⟩
  rintro ⟨pre, j, post, hnil, -⟩
  exact absurd hnil (by simp)

end ArianeSoc.Mmu
